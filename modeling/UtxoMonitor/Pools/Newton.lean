import Mathlib.Tactic.Linarith
import Mathlib.Tactic.Positivity
import Mathlib.Tactic.Ring
import Mathlib.Tactic.IntervalCases
import UtxoMonitor.Lib.FixedPoint
import UtxoMonitor.Pools.Stable

/-! Newton's iteration for the invariant of a stable pool, in whole numbers. -/
namespace UtxoMonitor.Pools

open Lib LiquidityBook

/-- What the cube of an invariant adds to the right side of its equation. -/
def cubeShare (p d : Nat) : Nat := d ^ 3 / 4 / p

/-- What the right side of the equation lacks of its left side. -/
def shortfall (ann s p d : Nat) : Int :=
  ((ann * s + d : Nat) : Int) - ((d * ann + cubeShare p d : Nat) : Int)

/-- The denominator of Newton's step. -/
def slope (ann p d : Nat) : Nat := (ann - 1) * d + 3 * cubeShare p d

def newton (ann s p d : Nat) : Nat := (ann * s + 2 * cubeShare p d) * d / slope ann p d

section

variable {ann s p d e n : Nat}

theorem le_cubeShare_iff (hp : 0 < p) : n ≤ cubeShare p d ↔ 4 * p * n ≤ d ^ 3 := by
  rw [cubeShare, Nat.div_div_eq_div_mul, Nat.le_div_iff_mul_le (by omega), Nat.mul_comm n]

theorem cubeShare_le (hp : 0 < p) : 4 * p * cubeShare p d ≤ d ^ 3 :=
  (le_cubeShare_iff hp).mp le_rfl

theorem lt_cubeShare (hp : 0 < p) : d ^ 3 < 4 * p * (cubeShare p d + 1) := by
  by_contra hle
  have hsucc := (le_cubeShare_iff hp).mpr (not_lt.mp hle)
  omega

theorem cubeShare_mono (h : d ≤ e) : cubeShare p d ≤ cubeShare p e :=
  Nat.div_le_div_right (Nat.div_le_div_right (Nat.pow_le_pow_left h 3))

/-- The numerator of Newton's step: what it would be to stay, and the shortfall. -/
theorem numerator_eq (hann : 0 < ann) : (((ann * s + 2 * cubeShare p d) * d : Nat) : Int) =
    d * slope ann p d + shortfall ann s p d * d := by
  obtain ⟨ann, rfl⟩ := Nat.exists_eq_add_of_lt hann
  simp only [slope, shortfall, Nat.zero_add, Nat.add_sub_cancel]
  push_cast
  ring

theorem le_newton_iff (hann : 0 < ann) (hslope : 0 < slope ann p d) :
    n ≤ newton ann s p d ↔ ((n : Int) - d) * slope ann p d ≤ shortfall ann s p d * d := by
  have hnum := numerator_eq (s := s) (p := p) (d := d) hann
  rw [newton, Nat.le_div_iff_mul_le hslope, ← Int.ofNat_le, hnum]
  push_cast
  constructor
  · intro hle
    linarith
  · intro hle
    linarith

theorem newton_eq_self_iff (hann : 0 < ann) (hslope : 0 < slope ann p d) :
    newton ann s p d = d ↔
      0 ≤ shortfall ann s p d * d ∧ shortfall ann s p d * d < slope ann p d := by
  have hle := le_newton_iff (s := s) (n := d) hann hslope
  have hlt := le_newton_iff (s := s) (n := d + 1) hann hslope
  push_cast at hlt
  rw [sub_self, zero_mul] at hle
  rw [add_sub_cancel_left, one_mul] at hlt
  rw [← hle, ← not_le, ← hlt]
  omega

/-- Above the boundary the step descends. -/
theorem newton_lt (hann : 0 < ann) (hslope : 0 < slope ann p d) (hd : 0 < d)
    (h : shortfall ann s p d < 0) : newton ann s p d < d := by
  rw [← not_le, le_newton_iff hann hslope, sub_self, zero_mul, not_le]
  exact mul_neg_of_neg_of_pos h (Int.natCast_pos.mpr hd)

/-- The tangents of the cube are below it. -/
theorem cube_tangent {n d : Int} (hn : 0 ≤ n) (hd : 0 ≤ d) :
    d ^ 3 * (3 * n - 2 * d) ≤ n ^ 3 * d := by
  have hsq : 0 ≤ d * ((n - d) ^ 2 * (n + 2 * d)) :=
    mul_nonneg hd (mul_nonneg (sq_nonneg _) (by linarith))
  have hring : n ^ 3 * d - d ^ 3 * (3 * n - 2 * d) = d * ((n - d) ^ 2 * (n + 2 * d)) := by ring
  linarith

/-- Every step lands above the values that are short, since the equation is convex. -/
theorem le_newton (hann : 0 < ann) (hp : 0 < p) (hslope : 0 < slope ann p d)
    (h : 0 < shortfall ann s p n) : n ≤ newton ann s p d := by
  have hbelow : ((n : Int)) ^ 3 < 4 * p * (cubeShare p n + 1) := by
    exact_mod_cast lt_cubeShare (d := n) hp
  have habove : 4 * (p : Int) * cubeShare p d ≤ (d : Int) ^ 3 := by
    exact_mod_cast cubeShare_le (d := d) hp
  have hpos : (0 : Int) < 4 * p := by omega
  rw [le_newton_iff hann hslope]
  obtain ⟨a, rfl⟩ := Nat.exists_eq_add_of_lt hann
  simp only [slope, shortfall, Nat.zero_add, Nat.add_sub_cancel] at h ⊢
  push_cast at h ⊢
  -- The left side at `n`, and what is to be shown of it.
  obtain ⟨left, hleft⟩ : ∃ left : Int, left = ((a : Int) + 1) * s - a * n := ⟨_, rfl⟩
  suffices hmain : (cubeShare p d : Int) * (3 * n - 2 * d) ≤ left * d by
    rw [hleft] at hmain
    linarith
  have hlow : (n : Int) ^ 3 ≤ 4 * p * left := by
    have hle : (cubeShare p n : Int) + 1 ≤ left := by linarith
    exact hbelow.le.trans (mul_le_mul_of_nonneg_left hle hpos.le)
  have hleftPos : 0 ≤ left := by
    have hcube : (0 : Int) ≤ (n : Int) ^ 3 := by positivity
    nlinarith
  rcases le_or_gt (3 * (n : Int)) (2 * d) with hfar | hnear
  · have hneg : (cubeShare p d : Int) * (3 * n - 2 * d) ≤ 0 :=
      mul_nonpos_of_nonneg_of_nonpos (Int.natCast_nonneg _) (by linarith)
    have hright : 0 ≤ left * d := mul_nonneg hleftPos (Int.natCast_nonneg _)
    linarith
  · have hfactor : (0 : Int) ≤ 3 * n - 2 * d := by linarith
    apply le_of_mul_le_mul_left _ hpos
    calc 4 * (p : Int) * (cubeShare p d * (3 * n - 2 * d))
        = 4 * p * cubeShare p d * (3 * n - 2 * d) := by ring
      _ ≤ d ^ 3 * (3 * n - 2 * d) := mul_le_mul_of_nonneg_right habove hfactor
      _ ≤ n ^ 3 * d := cube_tangent (Int.natCast_nonneg _) (Int.natCast_nonneg _)
      _ ≤ 4 * p * left * d := mul_le_mul_of_nonneg_right hlow (Int.natCast_nonneg _)
      _ = 4 * p * (left * d) := by ring

end

/-! ### The boundary -/

/-- The least value that is not short. -/
structure Boundary (ann s p d : Nat) : Prop where
  reached : shortfall ann s p d ≤ 0
  before : 0 < shortfall ann s p (d - 1)

section

variable {ann s p d e n : Nat}

theorem shortfall_anti (hann : 0 < ann) (h : d ≤ e) :
    shortfall ann s p e ≤ shortfall ann s p d := by
  obtain ⟨a, rfl⟩ := Nat.exists_eq_add_of_lt hann
  have hshare := cubeShare_mono (p := p) h
  have hmul := Nat.mul_le_mul_left a h
  unfold shortfall
  push_cast
  have hmul' : (a : Int) * d ≤ a * e := by exact_mod_cast hmul
  have hshare' : (cubeShare p d : Int) ≤ cubeShare p e := by exact_mod_cast hshare
  linarith

/-- The sum of the reserves is not short: it is the invariant of reserves that are alike. -/
theorem shortfall_sum (hp : 0 < p) (hs : 4 * p ≤ s ^ 2) : shortfall ann s p s ≤ 0 := by
  have hshare : s ≤ cubeShare p s := by
    rw [le_cubeShare_iff hp]
    calc 4 * p * s ≤ s ^ 2 * s := Nat.mul_le_mul_right _ hs
      _ = s ^ 3 := by ring
  unfold shortfall
  push_cast
  have hshare' : (s : Int) ≤ cubeShare p s := by exact_mod_cast hshare
  linarith

theorem cubeShare_zero : cubeShare p 0 = 0 := by simp [cubeShare]

theorem shortfall_zero : shortfall ann s p 0 = ann * s := by simp [shortfall, cubeShare_zero]

theorem exists_boundary (hann : 0 < ann) (hp : 0 < p) (hs : 4 * p ≤ s ^ 2) :
    ∃ d, Boundary ann s p d := by
  have hpos : 0 < s := Nat.pos_of_ne_zero fun hzero => by subst hzero; omega
  have hex : ∃ d, shortfall ann s p d ≤ 0 := ⟨s, shortfall_sum hp hs⟩
  refine ⟨Nat.find hex, Nat.find_spec hex, not_le.mp (Nat.find_min hex ?_)⟩
  apply Nat.sub_lt _ Nat.one_pos
  apply Nat.pos_of_ne_zero
  intro hzero
  have hfound := Nat.find_spec hex
  rw [hzero, shortfall_zero] at hfound
  have hmul : 0 < ann * s := Nat.mul_pos hann hpos
  have hmul' : (0 : Int) < ann * s := by exact_mod_cast hmul
  linarith

theorem Boundary.pos (h : Boundary ann s p d) : 0 < d := by
  apply Nat.pos_of_ne_zero
  rintro rfl
  exact absurd h.before (not_lt.mpr h.reached)

theorem Boundary.le_of_reached (hann : 0 < ann) (h : Boundary ann s p d)
    (hreached : shortfall ann s p e ≤ 0) : d ≤ e := by
  by_contra hlt
  have hanti := shortfall_anti (s := s) (p := p) hann (show e ≤ d - 1 by omega)
  exact absurd (h.before.trans_le hanti) (not_lt.mpr hreached)

theorem Boundary.unique (hann : 0 < ann) (h : Boundary ann s p d) (h' : Boundary ann s p e) :
    d = e :=
  le_antisymm (h.le_of_reached hann h'.reached) (h'.le_of_reached hann h.reached)

theorem Boundary.le_sum (hann : 0 < ann) (hp : 0 < p) (hs : 4 * p ≤ s ^ 2)
    (h : Boundary ann s p d) : d ≤ s := h.le_of_reached hann (shortfall_sum hp hs)

/-- The cube adds what the boundary is short of the sum, times the amplification. -/
theorem Boundary.le_share (hann : 0 < ann) (hp : 0 < p) (hs : 4 * p ≤ s ^ 2)
    (h : Boundary ann s p d) : d + ann * (s - d) ≤ cubeShare p d := by
  have hreached := h.reached
  obtain ⟨rest, rfl⟩ := Nat.exists_eq_add_of_le (h.le_sum hann hp hs)
  rw [Nat.add_sub_cancel_left]
  unfold shortfall at hreached
  zify
  push_cast at hreached
  linarith

theorem Boundary.product_le (hann : 0 < ann) (hp : 0 < p) (hs : 4 * p ≤ s ^ 2)
    (h : Boundary ann s p d) : 4 * p ≤ d ^ 2 := by
  have hshare := (le_cubeShare_iff hp).mp
    ((Nat.le_add_right _ _).trans (h.le_share hann hp hs))
  rw [pow_succ] at hshare
  exact Nat.le_of_mul_le_mul_right hshare h.pos

/-- From the boundary on, each unit makes up for some of the shortfall. -/
theorem shortfall_succ_lt (hann : 0 < ann) (hp : 0 < p) (h : 4 * p ≤ d ^ 2) :
    shortfall ann s p (d + 1) < shortfall ann s p d := by
  have hshare : cubeShare p d + 1 ≤ cubeShare p (d + 1) := by
    rw [le_cubeShare_iff hp]
    calc 4 * p * (cubeShare p d + 1) = 4 * p * cubeShare p d + 4 * p := by ring
      _ ≤ d ^ 3 + d ^ 2 := Nat.add_le_add (cubeShare_le hp) h
      _ ≤ (d + 1) ^ 3 := by nlinarith
  obtain ⟨a, rfl⟩ := Nat.exists_eq_add_of_lt hann
  have hshare' : (cubeShare p d : Int) + 1 ≤ cubeShare p (d + 1) := by exact_mod_cast hshare
  unfold shortfall
  push_cast
  linarith

theorem Boundary.above (hann : 0 < ann) (hp : 0 < p) (hs : 4 * p ≤ s ^ 2)
    (h : Boundary ann s p d) (hlt : d < e) : shortfall ann s p e < 0 :=
  ((shortfall_anti hann hlt).trans_lt
    (shortfall_succ_lt hann hp (h.product_le hann hp hs))).trans_le h.reached

/-- Reserves of more than a unit each have a boundary of at least three. -/
theorem Boundary.three_le (hann : 0 < ann) (hp : 0 < p) (hs : 4 * p ≤ s ^ 2) (hthree : 3 ≤ s)
    (h : Boundary ann s p d) : 3 ≤ d := by
  have hproduct := h.product_le hann hp hs
  have hshare := h.le_share hann hp hs
  by_contra hlt
  have hd : d = 2 := by
    rcases Nat.lt_or_ge d 2 with hless | hge
    · have hone : d ^ 2 ≤ 1 ^ 2 := Nat.pow_le_pow_left (by omega) 2
      omega
    · omega
  subst hd
  have hone : p = 1 := by omega
  subst hone
  have hmul : 1 * 1 ≤ ann * (s - 2) := Nat.mul_le_mul hann (by omega)
  have htwo : cubeShare 1 2 = 2 := rfl
  omega

/-- Below the boundary by one unit, the cube still adds something. -/
theorem Boundary.share_pos (hann : 0 < ann) (hp : 0 < p) (hs : 4 * p ≤ s ^ 2) (hthree : 3 ≤ s)
    (h : Boundary ann s p d) (hle : d - 1 ≤ e) : 0 < cubeShare p e := by
  have hproduct := h.product_le hann hp hs
  have hd := h.three_le hann hp hs hthree
  refine lt_of_lt_of_le ?_ (cubeShare_mono hle)
  obtain ⟨k, rfl⟩ := Nat.exists_eq_add_of_le hd
  rw [Nat.lt_iff_add_one_le, le_cubeShare_iff hp]
  rcases Nat.eq_zero_or_pos k with rfl | hk
  · omega
  · have heq : 3 + k - 1 = k + 2 := by omega
    rw [heq]
    nlinarith [Nat.zero_le (k ^ 3)]

theorem Boundary.slope_pos (hann : 0 < ann) (hp : 0 < p) (hs : 4 * p ≤ s ^ 2) (hthree : 3 ≤ s)
    (h : Boundary ann s p d) (hle : d - 1 ≤ e) : 0 < slope ann p e := by
  have hshare := h.share_pos hann hp hs hthree hle
  unfold slope
  omega

/-- A step from a boundary that is exceeded leads one unit down. -/
theorem Boundary.newton_eq (hann : 0 < ann) (hp : 0 < p) (hs : 4 * p ≤ s ^ 2) (hthree : 3 ≤ s)
    (h : Boundary ann s p d) (hexceeded : shortfall ann s p d < 0) :
    newton ann s p d = d - 1 := by
  have hslope := h.slope_pos hann hp hs hthree (Nat.sub_le _ _)
  have hlt := newton_lt hann hslope h.pos hexceeded
  have hle := le_newton hann hp hslope h.before
  omega

/-- The cube does not grow by more than a few parts of it. -/
theorem share_succ_lt (hp : 0 < p) (h : 4 * p * (d + 2) ≤ (d + 1) ^ 3) :
    d * cubeShare p (d + 1) < (d + 6) * cubeShare p d := by
  rcases Nat.lt_or_ge d 6 with hsmall | hlarge
  · have hle : p ≤ 7 := by
      by_contra hlt
      have hmul := Nat.mul_le_mul_right (d + 2) (show 32 ≤ 4 * p by omega)
      have hcube : (d + 1) ^ 3 < 32 * (d + 2) := by interval_cases d <;> decide
      omega
    interval_cases d <;> interval_cases p <;> revert h <;> decide
  · have hbelow := lt_cubeShare (d := d) hp
    have habove := cubeShare_le (d := d + 1) hp
    have hpoly : (d + 6) * (d + 1) ^ 3 + d * (d + 1) ^ 3 * (d + 2) <
        (d + 6) * (d ^ 3 + 1) * (d + 2) := by
      obtain ⟨k, rfl⟩ := Nat.exists_eq_add_of_le hlarge
      nlinarith [Nat.zero_le (k ^ 4), Nat.zero_le (k ^ 3), Nat.zero_le (k ^ 2)]
    have hupper : d * (4 * p * cubeShare p (d + 1)) * (d + 2) ≤ d * (d + 1) ^ 3 * (d + 2) :=
      Nat.mul_le_mul_right _ (Nat.mul_le_mul_left _ habove)
    have hlower : (d + 6) * (d ^ 3 + 1) * (d + 2) ≤
        (d + 6) * (4 * p * cubeShare p d) * (d + 2) + (d + 6) * (d + 1) ^ 3 := by
      calc (d + 6) * (d ^ 3 + 1) * (d + 2)
          ≤ (d + 6) * (4 * p * (cubeShare p d + 1)) * (d + 2) :=
            Nat.mul_le_mul_right _ (Nat.mul_le_mul_left _ hbelow)
        _ = (d + 6) * (4 * p * cubeShare p d) * (d + 2) + (d + 6) * (4 * p * (d + 2)) := by ring
        _ ≤ (d + 6) * (4 * p * cubeShare p d) * (d + 2) + (d + 6) * (d + 1) ^ 3 :=
            Nat.add_le_add_left (Nat.mul_le_mul_left _ h) _
    refine Nat.lt_of_mul_lt_mul_left (a := 4 * p * (d + 2)) ?_
    calc 4 * p * (d + 2) * (d * cubeShare p (d + 1))
        = d * (4 * p * cubeShare p (d + 1)) * (d + 2) := by ring
      _ < (d + 6) * (4 * p * cubeShare p d) * (d + 2) := by omega
      _ = 4 * p * (d + 2) * ((d + 6) * cubeShare p d) := by ring

/-- Below a boundary that is met, a step leads one unit up at most. -/
theorem Boundary.newton_le (hann : 0 < ann) (hp : 0 < p) (hs : 4 * p ≤ s ^ 2) (hthree : 3 ≤ s)
    (h : Boundary ann s p d) (hmet : shortfall ann s p d = 0) (hlt : d < s) :
    newton ann s p (d - 1) ≤ d := by
  have hslope := h.slope_pos hann hp hs hthree (le_refl (d - 1))
  have hshare := h.le_share hann hp hs
  have hpos := h.pos
  obtain ⟨e, rfl⟩ := Nat.exists_eq_add_of_lt hpos
  simp only [Nat.zero_add, Nat.add_sub_cancel] at *
  have hgrows : 4 * p * (e + 2) ≤ (e + 1) ^ 3 := by
    rw [← le_cubeShare_iff hp]
    have hmul : 1 * 1 ≤ ann * (s - (e + 1)) := Nat.mul_le_mul hann (by omega)
    omega
  have hgrowth := share_succ_lt hp hgrows
  by_contra hle
  have habove := (le_newton_iff (s := s) (n := e + 2) hann hslope).mp (by omega)
  obtain ⟨a, rfl⟩ := Nat.exists_eq_add_of_lt hann
  simp only [slope, shortfall, Nat.zero_add, Nat.add_sub_cancel] at habove hmet
  push_cast at habove hmet
  have hgrowth' : (e : Int) * cubeShare p (e + 1) < (e + 6) * cubeShare p e := by
    exact_mod_cast hgrowth
  have hleft : ((a : Int) + 1) * s = a * (e + 1) + cubeShare p (e + 1) := by linarith
  have hae : (0 : Int) ≤ a * e := by positivity
  rw [hleft] at habove
  nlinarith

end

/-! ### Where the iteration ends -/

/-- No step leads up from a value whose successor exceeds the invariant. -/
def Crosses (ann s p : Nat) : Prop :=
  ∀ d, (slope ann p d : Int) ≤ shortfall ann s p d * d → 0 ≤ shortfall ann s p (d + 1)

/-- The values of the iteration: from the boundary to the sum, and one unit below the boundary if
the step from there does not lead above the sum. -/
def OnPath (ann s p boundary d : Nat) : Prop :=
  d ≤ s ∧ (boundary ≤ d ∨ d + 1 = boundary ∧ newton ann s p d ≤ s)

section

variable {ann s p d e : Nat}

theorem newton_of_met (hann : 0 < ann) (hslope : 0 < slope ann p d)
    (hmet : shortfall ann s p d = 0) : newton ann s p d = d := by
  rw [newton_eq_self_iff hann hslope, hmet, zero_mul]
  exact ⟨le_rfl, Int.natCast_pos.mpr hslope⟩

/-- A step does not lead up from a value that is not short. -/
theorem newton_le_self (hann : 0 < ann) (hslope : 0 < slope ann p d)
    (h : shortfall ann s p d ≤ 0) : newton ann s p d ≤ d := by
  rcases lt_or_eq_of_le h with hless | hmet
  · rcases Nat.eq_zero_or_pos d with rfl | hd
    · simp [newton]
    · exact (newton_lt hann hslope hd hless).le
  · exact (newton_of_met hann hslope hmet).le

/-- Below the boundary the iteration stays, or goes up to a boundary that is met. -/
theorem Boundary.newton_before (hann : 0 < ann) (hp : 0 < p) (hs : 4 * p ≤ s ^ 2) (hthree : 3 ≤ s)
    (h : Boundary ann s p d) (hcross : Crosses ann s p) :
    newton ann s p (d - 1) = d - 1 ∨ shortfall ann s p d = 0 ∧ d ≤ newton ann s p (d - 1) := by
  have hslope := h.slope_pos hann hp hs hthree (le_refl (d - 1))
  have hbefore := h.before
  have hreached := h.reached
  obtain ⟨e, rfl⟩ := Nat.exists_eq_add_of_lt h.pos
  simp only [Nat.zero_add, Nat.add_sub_cancel] at *
  rcases lt_or_ge (shortfall ann s p e * e) (slope ann p e) with hlt | hge
  · left
    rw [newton_eq_self_iff hann hslope]
    exact ⟨mul_nonneg hbefore.le (Int.natCast_nonneg _), hlt⟩
  · right
    refine ⟨le_antisymm hreached (hcross e hge), ?_⟩
    rw [le_newton_iff hann hslope]
    push_cast
    rwa [add_sub_cancel_left, one_mul]

theorem OnPath.sum (hann : 0 < ann) (hp : 0 < p) (hs : 4 * p ≤ s ^ 2) (h : Boundary ann s p d) :
    OnPath ann s p d s := ⟨le_rfl, .inl (h.le_sum hann hp hs)⟩

/-- The iteration keeps to its values. -/
theorem OnPath.next (hann : 0 < ann) (hp : 0 < p) (hs : 4 * p ≤ s ^ 2) (hthree : 3 ≤ s)
    (h : Boundary ann s p d) (hcross : Crosses ann s p) (hpath : OnPath ann s p d e) :
    OnPath ann s p d (newton ann s p e) := by
  obtain ⟨hle, hfrom | ⟨hsucc, hstays⟩⟩ := hpath
  · have hslope := h.slope_pos hann hp hs hthree ((Nat.sub_le _ _).trans hfrom)
    have hlow := le_newton hann hp hslope h.before
    have hdown := newton_le_self hann hslope ((shortfall_anti hann hfrom).trans h.reached)
    refine ⟨hdown.trans hle, ?_⟩
    rcases Nat.lt_or_ge (newton ann s p e) d with hbelow | habove
    · right
      have hnext : newton ann s p e = d - 1 := by omega
      refine ⟨by omega, ?_⟩
      rw [hnext]
      obtain hfixed | ⟨hmet, -⟩ := h.newton_before hann hp hs hthree hcross
      · rw [hfixed]
        exact (Nat.sub_le _ _).trans (h.le_sum hann hp hs)
      · have hne : d ≠ e := by
          rintro rfl
          have hfixed := newton_of_met hann hslope hmet
          omega
        exact (h.newton_le hann hp hs hthree hmet (by omega)).trans (h.le_sum hann hp hs)
    · exact .inl habove
  · refine ⟨hstays, ?_⟩
    have hbefore : e = d - 1 := by omega
    obtain hfixed | ⟨-, hup⟩ := h.newton_before hann hp hs hthree hcross
    · rw [← hbefore] at hfixed
      rw [hfixed]
      exact .inr ⟨hsucc, hstays⟩
    · rw [← hbefore] at hup
      exact .inl hup

/-- Two neighbours that lead to each other keep the iteration from ending. -/
theorem Crosses.of_reachesFixed (hann : 0 < ann) (hp : 0 < p) (hs : 4 * p ≤ s ^ 2) (hthree : 3 ≤ s)
    (hends : ReachesFixed (newton ann s p) s) : Crosses ann s p := by
  intro e hup
  by_contra hover
  have hover : shortfall ann s p (e + 1) < 0 := not_le.mp hover
  have hshort : 0 < shortfall ann s p e := by
    by_contra hle
    have hmul := mul_nonpos_of_nonpos_of_nonneg (not_lt.mp hle) (Int.natCast_nonneg e)
    have hflat : slope ann p e = 0 := by omega
    have hshare : cubeShare p e = 0 := by
      unfold slope at hflat
      omega
    have hline : (ann - 1) * e = 0 := by
      unfold slope at hflat
      omega
    have hpos : 0 < ann * s := Nat.mul_pos hann (by omega)
    have hsplit : e * ann = (ann - 1) * e + e := by
      rw [Nat.mul_comm, Nat.sub_mul, Nat.one_mul, Nat.sub_add_cancel (Nat.le_mul_of_pos_left _ hann)]
    simp only [shortfall, hshare] at hle
    omega
  have h : Boundary ann s p (e + 1) := ⟨hover.le, hshort⟩
  refine not_reachesFixed (S := (e ≤ ·)) ?_ ?_ ?_ hends
  · exact (Nat.le_succ e).trans (h.le_sum hann hp hs)
  · intro b hb
    exact le_newton hann hp (h.slope_pos hann hp hs hthree hb) hshort
  · intro b hb
    have hslope := h.slope_pos hann hp hs hthree hb
    rcases Nat.eq_or_lt_of_le hb with rfl | hlt
    · have hnext := (le_newton_iff (n := e + 1) hann hslope).mpr
        (by push_cast; rwa [add_sub_cancel_left, one_mul])
      omega
    · have hanti := shortfall_anti (s := s) (p := p) hann (Nat.succ_le_of_lt hlt)
      exact (newton_lt hann hslope (by omega) (hanti.trans_lt hover)).ne

/-- Without such neighbours it ends. -/
theorem Crosses.reachesFixed (hann : 0 < ann) (hp : 0 < p) (hs : 4 * p ≤ s ^ 2) (hthree : 3 ≤ s)
    (hcross : Crosses ann s p) : ReachesFixed (newton ann s p) s := by
  obtain ⟨d, h⟩ := exists_boundary hann hp hs
  have hslope := h.slope_pos hann hp hs hthree (Nat.sub_le _ _)
  have hbefore := h.newton_before hann hp hs hthree hcross
  have hboundary : ReachesFixed (newton ann s p) d := by
    rcases lt_or_eq_of_le h.reached with hless | hmet
    · apply ReachesFixed.of_next
      rw [h.newton_eq hann hp hs hthree hless]
      obtain hfixed | ⟨hmet, -⟩ := hbefore
      · exact .of_fixed hfixed
      · omega
    · exact .of_fixed (newton_of_met hann hslope hmet)
  rcases Nat.eq_or_lt_of_le (h.le_sum hann hp hs) with rfl | hlt
  · exact hboundary
  · have hstart : d - 1 ≤ s := (Nat.sub_le _ _).trans hlt.le
    refine reachesFixed_of_descends (d - 1) d s ?_ ?_ ?_ hstart le_rfl
    · intro e hde _
      exact newton_lt hann (h.slope_pos hann hp hs hthree (by omega)) (by omega)
        (h.above hann hp hs hde)
    · intro e hde _
      exact le_newton hann hp (h.slope_pos hann hp hs hthree (by omega)) h.before
    · intro e hlow hhigh
      rcases Nat.eq_or_lt_of_le hhigh with rfl | hless
      · exact hboundary
      · have heq : e = d - 1 := by omega
        subst heq
        obtain hfixed | ⟨hmet, hup⟩ := hbefore
        · exact .of_fixed hfixed
        · have hnext := le_antisymm (h.newton_le hann hp hs hthree hmet hlt) hup
          apply ReachesFixed.of_next
          rw [hnext]
          exact hboundary

/-! Reserves of one unit each. -/

theorem shortfall_two : shortfall ann 2 1 2 = 0 := by
  unfold shortfall cubeShare
  omega

theorem slope_two (h : 2 ≤ d) : 0 < slope ann 1 d := by
  have hshare : cubeShare 1 2 ≤ cubeShare 1 d := cubeShare_mono h
  have htwo : cubeShare 1 2 = 2 := rfl
  unfold slope
  omega

theorem crosses_two (hann : 0 < ann) : Crosses ann 2 1 := by
  intro d hup
  rcases Nat.lt_or_ge d 2 with hlt | hge
  · have hanti := shortfall_anti (s := 2) (p := 1) hann (Nat.succ_le_of_lt hlt)
    rwa [shortfall_two] at hanti
  · have hanti := shortfall_anti (s := 2) (p := 1) hann hge
    rw [shortfall_two] at hanti
    have hmul := mul_nonpos_of_nonpos_of_nonneg hanti (Int.natCast_nonneg d)
    have hslope : 0 < slope ann 1 d := slope_two hge
    omega

theorem sum_cases (hp : 0 < p) (hs : 4 * p ≤ s ^ 2) : s = 2 ∧ p = 1 ∨ 3 ≤ s := by
  rcases Nat.lt_or_ge s 3 with hlt | hge
  · left
    have hle : s ≤ 2 := by omega
    interval_cases s <;> omega
  · exact .inr hge

/-- The iteration from the sum of the reserves ends exactly if no two neighbours lead to each
other. -/
theorem reachesFixed_newton_iff (hann : 0 < ann) (hp : 0 < p) (hs : 4 * p ≤ s ^ 2) :
    ReachesFixed (newton ann s p) s ↔ Crosses ann s p := by
  obtain ⟨rfl, rfl⟩ | hthree := sum_cases hp hs
  · refine iff_of_true (.of_fixed ?_) (crosses_two hann)
    exact newton_of_met hann (slope_two le_rfl) shortfall_two
  · exact ⟨.of_reachesFixed hann hp hs hthree, fun hcross => hcross.reachesFixed hann hp hs hthree⟩

/-- Whether or not the iteration ends, its steps divide by something. -/
theorem exists_slope_path (hann : 0 < ann) (hp : 0 < p) (hs : 4 * p ≤ s ^ 2) :
    ∃ S : Nat → Prop, S s ∧ ∀ d, S d → 0 < slope ann p d ∧ S (newton ann s p d) := by
  obtain ⟨rfl, rfl⟩ | hthree := sum_cases hp hs
  · refine ⟨(· = 2), rfl, ?_⟩
    rintro d rfl
    exact ⟨slope_two le_rfl, newton_of_met hann (slope_two le_rfl) shortfall_two⟩
  · obtain ⟨boundary, h⟩ := exists_boundary hann hp hs
    refine ⟨(boundary - 1 ≤ ·), (Nat.sub_le _ _).trans (h.le_sum hann hp hs), fun d hd => ?_⟩
    have hslope := h.slope_pos hann hp hs hthree hd
    exact ⟨hslope, le_newton hann hp hslope h.before⟩

/-- The iteration stays within the sum, where its steps divide by something. -/
theorem Crosses.exists_path (hann : 0 < ann) (hp : 0 < p) (hs : 4 * p ≤ s ^ 2)
    (hcross : Crosses ann s p) : ∃ S : Nat → Prop, S s ∧
      ∀ d, S d → d ≤ s ∧ 0 < slope ann p d ∧ S (newton ann s p d) := by
  obtain ⟨rfl, rfl⟩ | hthree := sum_cases hp hs
  · refine ⟨(· = 2), rfl, ?_⟩
    rintro d rfl
    exact ⟨le_rfl, slope_two le_rfl, newton_of_met hann (slope_two le_rfl) shortfall_two⟩
  · obtain ⟨boundary, h⟩ := exists_boundary hann hp hs
    refine ⟨OnPath ann s p boundary, .sum hann hp hs h, fun d hd => ⟨hd.1, ?_, ?_⟩⟩
    · obtain ⟨-, hfrom | ⟨hsucc, -⟩⟩ := hd
      · exact h.slope_pos hann hp hs hthree (by omega)
      · exact h.slope_pos hann hp hs hthree (by omega)
    · exact hd.next hann hp hs hthree h hcross

end

end UtxoMonitor.Pools
