import UtxoMonitor.Pools.Convergence

/-! Newton's iteration for the reserve that a swap of a stable pool leaves, in whole numbers. -/
namespace UtxoMonitor.Pools

open Lib LiquidityBook

/-- The left side of the equation of the reserve, up to its constant term. -/
def reserveTerm (offset : Int) (y : Nat) : Int := y * y + offset * y

/-- The denominator of the step. -/
def reserveSlope (offset : Int) (y : Nat) : Int := 2 * y + offset

def nextReserve (offset : Int) (c y : Nat) : Nat := (y * y + c) / (reserveSlope offset y).toNat

/-- The greatest reserve that does not exceed the equation. -/
structure ReserveRoot (offset : Int) (c root : Nat) : Prop where
  within : reserveTerm offset root ≤ c
  exceeded : (c : Int) < reserveTerm offset (root + 1)

section

variable {offset : Int} {c y n root : Nat}

theorem le_nextReserve_iff (hslope : 0 < reserveSlope offset y) :
    n ≤ nextReserve offset c y ↔ (n : Int) * reserveSlope offset y ≤ y * y + c := by
  obtain ⟨slope, hnat⟩ := Int.eq_ofNat_of_zero_le hslope.le
  rw [nextReserve, hnat, Int.toNat_natCast, Nat.le_div_iff_mul_le (by omega), ← Int.ofNat_le]
  push_cast
  rfl

theorem exists_reserveRoot (offset : Int) (c : Nat) : ∃ root, ReserveRoot offset c root := by
  have hex : ∃ y : Nat, (c : Int) < reserveTerm offset (y + 1) := by
    obtain ⟨bound, hbound⟩ : ∃ bound : Nat, -(bound : Int) ≤ offset := ⟨offset.natAbs, by omega⟩
    refine ⟨c + bound, ?_⟩
    have hfactor : ((c : Int) + bound + 1) * (c + 1) ≤
        (c + bound + 1) * (c + bound + 1 + offset) :=
      mul_le_mul_of_nonneg_left (by omega) (by omega)
    have hprod : (0 : Int) ≤ bound * (c + 1) := by positivity
    unfold reserveTerm
    push_cast
    nlinarith
  refine ⟨Nat.find hex, ?_, Nat.find_spec hex⟩
  rcases Nat.eq_zero_or_pos (Nat.find hex) with hzero | hpos
  · rw [hzero]
    simp [reserveTerm]
  · have hmin := Nat.find_min hex (Nat.sub_lt hpos Nat.one_pos)
    rw [Nat.sub_add_cancel hpos] at hmin
    exact not_lt.mp hmin

theorem ReserveRoot.unique {root' : Nat} (h : ReserveRoot offset c root)
    (h' : ReserveRoot offset c root') : root = root' := by
  have hbelow {a b : Nat} (ha : ReserveRoot offset c a) (hb : ReserveRoot offset c b) : b ≤ a := by
    have hexceeded := ha.exceeded
    have hwithin := hb.within
    by_contra hlt
    obtain ⟨k, rfl⟩ := Nat.exists_eq_add_of_lt (not_le.mp hlt)
    unfold reserveTerm at *
    push_cast at *
    have hpos : 0 < (a : Int) + 1 + offset := by
      by_contra hneg
      have hfactor : ((a : Int) + 1) * (a + 1 + offset) ≤ 0 :=
        mul_nonpos_of_nonneg_of_nonpos (by omega) (by omega)
      nlinarith
    nlinarith
  exact le_antisymm (hbelow h' h) (hbelow h h')

/-- The iteration divides by something from the root on, unless there is nothing to find. -/
theorem ReserveRoot.slope_pos (h : ReserveRoot offset c root) (hne : ¬ (offset = 0 ∧ c = 0)) :
    0 < reserveSlope offset root := by
  have hexceeded := h.exceeded
  unfold reserveTerm at hexceeded
  unfold reserveSlope
  push_cast at hexceeded
  rcases lt_trichotomy offset 0 with hneg | hzero | hpos
  · have hle : -offset ≤ root := by
      by_contra hlt
      have hfactor : ((root : Int) + 1) * (root + 1 + offset) ≤ 0 :=
        mul_nonpos_of_nonneg_of_nonpos (by omega) (by omega)
      nlinarith [Int.natCast_nonneg c]
    omega
  · have hc : c ≠ 0 := fun hc => hne ⟨hzero, hc⟩
    have hroot : root ≠ 0 := by
      rintro rfl
      rw [hzero] at hexceeded
      simp at hexceeded
      omega
    omega
  · omega

/-- Every step lands at the root or above. -/
theorem ReserveRoot.le_next (h : ReserveRoot offset c root) (hslope : 0 < reserveSlope offset y) :
    root ≤ nextReserve offset c y := by
  have hwithin := h.within
  rw [le_nextReserve_iff hslope]
  unfold reserveTerm at hwithin
  unfold reserveSlope
  nlinarith [sq_nonneg ((y : Int) - root)]

/-- Above the root the step descends. -/
theorem ReserveRoot.next_lt (h : ReserveRoot offset c root) (hroot : 0 < reserveSlope offset root)
    (hlt : root < y) : nextReserve offset c y < y := by
  have hexceeded := h.exceeded
  have hslope : 0 < reserveSlope offset y := by
    unfold reserveSlope at *
    omega
  rw [← not_le, le_nextReserve_iff hslope, not_le]
  unfold reserveTerm at hexceeded
  unfold reserveSlope at *
  push_cast at hexceeded
  have hgrows : 0 ≤ ((y : Int) - (root + 1)) * (y + root + 1 + offset) :=
    mul_nonneg (by omega) (by omega)
  nlinarith

/-- From the root the step stays, unless the next reserve misses the equation by one. -/
theorem ReserveRoot.next_eq (h : ReserveRoot offset c root) (hroot : 0 < reserveSlope offset root) :
    nextReserve offset c root =
      if (c : Int) + 1 = reserveTerm offset (root + 1) then root + 1 else root := by
  have hexceeded := h.exceeded
  have hlow := h.le_next hroot
  have hstep := le_nextReserve_iff (c := c) (n := root + 1) hroot
  have hjump := le_nextReserve_iff (c := c) (n := root + 2) hroot
  unfold reserveTerm at *
  unfold reserveSlope at *
  push_cast at *
  split
  · rename_i hmisses
    have hup : root + 1 ≤ nextReserve offset c root := hstep.mpr (by nlinarith)
    have hnot : ¬ root + 2 ≤ nextReserve offset c root := fun hle => by
      have hmul := hjump.mp hle
      nlinarith
    omega
  · rename_i hkeeps
    have hnot : ¬ root + 1 ≤ nextReserve offset c root := fun hle => by
      have hmul := hstep.mp hle
      apply hkeeps
      nlinarith
    omega

/-- The iteration ends, at the root, exactly if the next reserve does not miss the equation by
one. -/
theorem ReserveRoot.reachesFixed_iff (h : ReserveRoot offset c root)
    (hroot : 0 < reserveSlope offset root) (hslope : 0 < reserveSlope offset y) :
    ReachesFixed (nextReserve offset c) y ↔ (c : Int) + 1 ≠ reserveTerm offset (root + 1) := by
  have habove : ∀ z, root ≤ z → 0 < reserveSlope offset z := by
    intro z hz
    unfold reserveSlope at *
    omega
  constructor
  · intro hends hmisses
    refine not_reachesFixed (S := fun z => 0 < reserveSlope offset z) hslope ?_ ?_ hends
    · intro z hz
      exact habove _ (h.le_next hz)
    · intro z hz
      have hlow := h.le_next hz
      rcases lt_trichotomy z root with hlt | rfl | hgt
      · omega
      · rw [h.next_eq hroot, if_pos hmisses]
        omega
      · exact (h.next_lt hroot hgt).ne
  · intro hkeeps
    apply ReachesFixed.of_next
    refine reachesFixed_of_descends root root (nextReserve offset c y)
      ?_ ?_ ?_ (h.le_next hslope) le_rfl
    · intro z hz _
      exact h.next_lt hroot hz
    · intro z hz _
      exact h.le_next (habove z hz.le)
    · intro z hlow hhigh
      have hz : z = root := le_antisymm hhigh hlow
      refine .of_fixed ?_
      rw [hz, h.next_eq hroot, if_neg hkeeps]

/-- A reserve that the step does not change is the root. -/
theorem reserveRoot_of_fixed (hslope : 0 < reserveSlope offset y)
    (hfixed : nextReserve offset c y = y) :
    ReserveRoot offset c y ∧ (c : Int) + 1 ≠ reserveTerm offset (y + 1) := by
  have hlow := (le_nextReserve_iff (c := c) hslope).mp hfixed.ge
  have hhigh : ¬ ((y + 1 : Nat) : Int) * reserveSlope offset y ≤ y * y + c := fun hle => by
    have hmul := (le_nextReserve_iff hslope).mpr hle
    omega
  unfold reserveSlope at *
  push_cast at hhigh
  refine ⟨⟨?_, ?_⟩, ?_⟩
  · unfold reserveTerm
    nlinarith
  · unfold reserveTerm
    push_cast
    nlinarith
  · unfold reserveTerm
    push_cast
    intro heq
    nlinarith

end

end UtxoMonitor.Pools
