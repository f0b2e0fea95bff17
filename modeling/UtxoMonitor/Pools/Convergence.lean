import UtxoMonitor.Pools.Newton

/-! When the invariant of a stable pool is found. -/
namespace UtxoMonitor.Pools

open Lib LiquidityBook

/-! ### Loops -/

section

variable {next : Nat → Checked Nat} {f : Nat → Nat} {a b r fuel : Nat}

theorem distance_eq_zero : distance b a = 0 ↔ b = a := by
  unfold distance
  split <;> omega

theorem iterateU512_succ : iterateU512 next (fuel + 1) a = .ok r ↔
    ∃ b, next a = .ok b ∧ if b = a then b = r else iterateU512 next fuel b = .ok r := by
  simp only [iterateU512, Checked.bind_eq_ok, distance_eq_zero]
  constructor
  · rintro ⟨b, hb, h⟩
    refine ⟨b, hb, ?_⟩
    split at h
    · rename_i heq
      rw [if_pos heq]
      exact Checked.pure_eq_ok.mp h
    · rename_i hne
      rwa [if_neg hne]
  · rintro ⟨b, hb, h⟩
    refine ⟨b, hb, ?_⟩
    split at h
    · rename_i heq
      rw [if_pos heq]
      exact Checked.pure_eq_ok.mpr h
    · rename_i hne
      rwa [if_neg hne]

theorem iterateU512_step (hnext : next a = .ok b) (hne : b ≠ a) :
    iterateU512 next (fuel + 1) a = iterateU512 next fuel b := by
  simp only [iterateU512, hnext, Checked.ok_bind, distance_eq_zero, if_neg hne]

/-- A run that ends has come to a value that a step does not change. -/
theorem reachesFixed_of_iterateU512 (hnext : ∀ a b, next a = .ok b → f a = b)
    (h : iterateU512 next fuel a = .ok r) : ReachesFixed f a ∧ next r = .ok r := by
  induction fuel generalizing a with
  | zero => cases h
  | succ fuel ih =>
    obtain ⟨b, hb, hrun⟩ := iterateU512_succ.mp h
    split at hrun
    · rename_i heq
      subst heq hrun
      exact ⟨.of_fixed (hnext _ _ hb), hb⟩
    · obtain ⟨hends, hfixed⟩ := ih hrun
      refine ⟨.of_next ?_, hfixed⟩
      rwa [hnext a b hb]

/-- Steps that return on a path that leads to a fixed value make a run that ends, with any fuel from
some on. -/
theorem iterateU512_of_reachesFixed {S : Nat → Prop} (hnext : ∀ b, S b → next b = .ok (f b))
    (hstep : ∀ b, S b → S (f b)) (hends : ReachesFixed f a) (ha : S a) :
    ∃ turns r, S r ∧ f r = r ∧ ∀ fuel, turns ≤ fuel → iterateU512 next fuel a = .ok r := by
  refine ReachesFixed.induct (P := fun a => S a → ∃ turns r, S r ∧ f r = r ∧
    ∀ fuel, turns ≤ fuel → iterateU512 next fuel a = .ok r) hends ?_ ?_ ha
  · intro a hfixed ha
    refine ⟨1, a, ha, hfixed, fun fuel hfuel => ?_⟩
    obtain ⟨rest, rfl⟩ := Nat.exists_eq_add_of_le hfuel
    rw [Nat.add_comm, iterateU512_succ]
    refine ⟨f a, hnext a ha, ?_⟩
    rw [if_pos hfixed, hfixed]
  · intro a hmoves ih ha
    obtain ⟨turns, r, hr, hfixed, hrun⟩ := ih (hstep a ha)
    refine ⟨turns + 1, r, hr, hfixed, fun fuel hfuel => ?_⟩
    obtain ⟨rest, rfl⟩ := Nat.exists_eq_add_of_le hfuel
    rw [show turns + 1 + rest = turns + rest + 1 by omega, iterateU512_succ]
    refine ⟨f a, hnext a ha, ?_⟩
    rw [if_neg hmoves]
    exact hrun _ (Nat.le_add_right _ _)

/-- A run on a path of regular steps. -/
theorem iterateU512_regular {S : Nat → Prop}
    (hnext : ∀ b, S b → Checked.Regular (next b) ∧ ∀ b', next b = .ok b' → S b') (ha : S a) :
    Checked.Regular (iterateU512 next fuel a) := by
  induction fuel generalizing a with
  | zero => exact fun e he h => he (Except.error.inj h).symm
  | succ fuel ih =>
    refine Checked.regular_bind (hnext a ha).1 fun b hb => ?_
    split
    · exact Checked.regular_pure
    · exact ih ((hnext a ha).2 b hb)

end

section

variable {test : Nat → Checked Bool} {d r fuel : Nat}

theorem searchUp_regular (h : ∀ d, Checked.Regular (test d)) :
    Checked.Regular (searchUp test fuel d) := by
  induction fuel generalizing d with
  | zero => exact fun e he h => he (Except.error.inj h).symm
  | succ fuel ih =>
    refine Checked.regular_bind (h d) fun passes _ => ?_
    split
    · exact Checked.regular_pure
    · exact Checked.regular_bind Checked.regular_add fun _ _ => ih

/-- The search ends at the first value that passes. -/
theorem searchUp_spec (h : searchUp test fuel d = .ok r) :
    d ≤ r ∧ test r = .ok true ∧ ∀ e, d ≤ e → e < r → test e = .ok false := by
  induction fuel generalizing d with
  | zero => cases h
  | succ fuel ih =>
    obtain ⟨passes, htest, h⟩ := Checked.bind_eq_ok.mp h
    cases passes with
    | true =>
      cases Checked.pure_eq_ok.mp h
      refine ⟨le_rfl, htest, fun e hle hlt => ?_⟩
      omega
    | false =>
      obtain ⟨_, hadd, h⟩ := Checked.bind_eq_ok.mp h
      obtain ⟨-, rfl⟩ := Checked.add_eq_ok.mp hadd
      obtain ⟨hle, hpasses, hbefore⟩ := ih h
      refine ⟨by omega, hpasses, fun e hde hlt => ?_⟩
      rcases Nat.eq_or_lt_of_le hde with rfl | hlt'
      · exact htest
      · exact hbefore e hlt' hlt

theorem searchUp_of_passes (h : test d = .ok true) : searchUp test (fuel + 1) d = .ok d :=
  Checked.bind_eq_ok.mpr ⟨true, h, rfl⟩

theorem searchUp_succ (h : test d = .ok false) (hfits : d + 1 < 2 ^ 512) :
    searchUp test (fuel + 1) d = searchUp test fuel (d + 1) := by
  have hadd : addU512 d 1 = .ok (d + 1) := Checked.add_eq_ok.mpr ⟨hfits, rfl⟩
  simp only [searchUp, h, hadd]
  rfl

end

/-! ### Steps -/

section

variable {ann s p d b x y an2n : Nat}

theorem cubeU512_eq_ok : cubeU512 d = .ok b ↔ d ^ 3 < 2 ^ 512 ∧ d ^ 3 = b := by
  simp only [cubeU512, mulU512, Checked.bind_eq_ok, Checked.mul_eq_ok]
  have hcube : d * d * d = d ^ 3 := by ring
  constructor
  · rintro ⟨_, ⟨-, rfl⟩, hfits, rfl⟩
    rw [hcube] at hfits ⊢
    exact ⟨hfits, rfl⟩
  · rintro ⟨hfits, rfl⟩
    have hsquare : d * d ≤ d ^ 3 := by
      rw [← hcube]
      rcases Nat.eq_zero_or_pos d with rfl | hd
      · exact Nat.zero_le _
      · exact Nat.le_mul_of_pos_right _ hd
    exact ⟨_, ⟨hsquare.trans_lt hfits, rfl⟩, by rwa [hcube], hcube⟩

/-- The words that Newton's step computes with. -/
structure StepFits (ann s p d : Nat) : Prop where
  cube : d ^ 3 < 2 ^ 512
  num : (ann * s + 2 * cubeShare p d) * d < 2 ^ 512
  sum : ann * s + 2 * cubeShare p d < 2 ^ 512
  den : slope ann p d < 2 ^ 512

theorem invariantStep_eq_ok : invariantStep ann s p d = .ok b ↔
    (StepFits ann s p d ∧ 0 < ann ∧ p ≠ 0 ∧ slope ann p d ≠ 0) ∧ newton ann s p d = b := by
  simp only [invariantStep, mulU512, addU512, Checked.bind_eq_ok, cubeU512_eq_ok,
    Checked.mul_eq_ok, Checked.add_eq_ok, Checked.sub_eq_ok, Checked.div_eq_ok]
  constructor
  · rintro ⟨_, ⟨hcube, rfl⟩, _, ⟨-, rfl⟩, _, ⟨hp, rfl⟩, _, ⟨-, rfl⟩, _, ⟨-, rfl⟩, _, ⟨hsum, rfl⟩,
      _, ⟨hnum, rfl⟩, _, ⟨hann, rfl⟩, _, ⟨-, rfl⟩, _, ⟨-, rfl⟩, _, ⟨hden, rfl⟩, hslope, rfl⟩
    exact ⟨⟨⟨hcube, hnum, hsum, hden⟩, hann, hp, hslope⟩, rfl⟩
  · rintro ⟨⟨⟨hcube, hnum, hsum, hden⟩, hann, hp, hslope⟩, rfl⟩
    refine ⟨_, ⟨hcube, rfl⟩, _, ⟨by decide, rfl⟩, _, ⟨hp, rfl⟩, _, ⟨?_, rfl⟩, _, ⟨?_, rfl⟩, _,
      ⟨hsum, rfl⟩, _, ⟨hnum, rfl⟩, _, ⟨hann, rfl⟩, _, ⟨?_, rfl⟩, _, ⟨?_, rfl⟩, _, ⟨hden, rfl⟩,
      hslope, rfl⟩
    · exact (Nat.le_add_right _ _).trans_lt hsum
    · exact (Nat.le_add_left _ _).trans_lt hsum
    · exact (Nat.le_add_right _ _).trans_lt hden
    · exact (Nat.le_add_left _ _).trans_lt hden

theorem cubeU512_regular : Checked.Regular (cubeU512 d) :=
  Checked.regular_bind Checked.regular_mul fun _ _ => Checked.regular_mul

theorem invariantStep_regular (hann : 0 < ann) (hp : p ≠ 0) (hslope : 0 < slope ann p d) :
    Checked.Regular (invariantStep ann s p d) := by
  refine Checked.regular_bind cubeU512_regular fun cube hcube => ?_
  refine Checked.regular_bind (Checked.regular_div (by decide)) fun quarter hquarter => ?_
  refine Checked.regular_bind (Checked.regular_div hp) fun dP hdP => ?_
  refine Checked.regular_bind Checked.regular_mul fun _ _ => ?_
  refine Checked.regular_bind Checked.regular_mul fun _ _ => ?_
  refine Checked.regular_bind Checked.regular_add fun _ _ => ?_
  refine Checked.regular_bind Checked.regular_mul fun _ _ => ?_
  refine Checked.regular_bind (Checked.regular_sub hann) fun less hless => ?_
  refine Checked.regular_bind Checked.regular_mul fun line hline => ?_
  refine Checked.regular_bind Checked.regular_mul fun share hshare => ?_
  refine Checked.regular_bind Checked.regular_add fun den hden => ?_
  obtain ⟨-, rfl⟩ := cubeU512_eq_ok.mp hcube
  obtain ⟨-, rfl⟩ := Checked.div_eq_ok.mp hquarter
  obtain ⟨-, rfl⟩ := Checked.div_eq_ok.mp hdP
  obtain ⟨-, rfl⟩ := Checked.sub_eq_ok.mp hless
  obtain ⟨-, rfl⟩ := Checked.mul_eq_ok.mp hline
  obtain ⟨-, rfl⟩ := Checked.mul_eq_ok.mp hshare
  obtain ⟨-, rfl⟩ := Checked.add_eq_ok.mp hden
  exact Checked.regular_div hslope.ne'

/-- The words that the sign of the error is computed with. -/
structure SignFits (ann s p d : Nat) : Prop where
  cube : d ^ 3 < 2 ^ 512
  product : 4 * p < 2 ^ 512
  right : d * ann + cubeShare p d < 2 ^ 512
  left : ann * s + d < 2 ^ 512

theorem calculateInvariantErrorSgn_eq_ok {passes : Bool} :
    calculateInvariantErrorSgn x y d 4 ann = .ok passes ↔
      (SignFits ann (x + y) (x * y) d ∧ 4 * x < 2 ^ 512 ∧ x + y < 2 ^ 512 ∧ x * y ≠ 0) ∧
        decide (shortfall ann (x + y) (x * y) d ≤ 0) = passes := by
  have hshare : d ^ 3 / (4 * x * y) = cubeShare (x * y) d := by
    rw [cubeShare, Nat.div_div_eq_div_mul, Nat.mul_assoc]
  have hshort : decide (ann * (x + y) + d ≤ d * ann + cubeShare (x * y) d) =
      decide (shortfall ann (x + y) (x * y) d ≤ 0) := by
    rw [decide_eq_decide, shortfall, sub_nonpos]
    exact Int.ofNat_le.symm
  simp only [calculateInvariantErrorSgn, calculateInvariantErrorSgnFromTotals, mulU512, addU512,
    Checked.bind_eq_ok, cubeU512_eq_ok, Checked.mul_eq_ok, Checked.add_eq_ok, Checked.div_eq_ok,
    Checked.pure_eq_ok]
  constructor
  · rintro ⟨_, ⟨hx, rfl⟩, _, ⟨hproduct, rfl⟩, _, ⟨hsum, rfl⟩, _, ⟨-, rfl⟩, _, ⟨-, rfl⟩, _,
      ⟨hcube, rfl⟩, _, ⟨hne, rfl⟩, _, ⟨hright, rfl⟩, _, ⟨hleft, rfl⟩, rfl⟩
    rw [hshare] at hright ⊢
    rw [Nat.mul_assoc] at hproduct hne
    refine ⟨⟨⟨hcube, hproduct, hright, hleft⟩, hx, hsum, ?_⟩, hshort.symm⟩
    intro hzero
    rw [hzero] at hne
    exact hne rfl
  · rintro ⟨⟨⟨hcube, hproduct, hright, hleft⟩, hx, hsum, hne⟩, rfl⟩
    refine ⟨_, ⟨hx, rfl⟩, _, ⟨by rwa [Nat.mul_assoc], rfl⟩, _, ⟨hsum, rfl⟩, _, ⟨?_, rfl⟩, _,
      ⟨?_, rfl⟩, _, ⟨hcube, rfl⟩, _, ⟨?_, rfl⟩, _, ⟨by rwa [hshare], rfl⟩, _, ⟨hleft, rfl⟩, ?_⟩
    · exact (Nat.le_add_right _ _).trans_lt hleft
    · exact (Nat.le_add_right _ _).trans_lt hright
    · rw [Nat.mul_assoc]
      exact Nat.mul_ne_zero (by decide) hne
    · rw [hshare, hshort]

theorem calculateInvariantErrorSgn_regular (hne : x * y ≠ 0) :
    Checked.Regular (calculateInvariantErrorSgn x y d 4 ann) := by
  refine Checked.regular_bind Checked.regular_mul fun part hpart => ?_
  refine Checked.regular_bind Checked.regular_mul fun total htotal => ?_
  obtain ⟨-, rfl⟩ := Checked.mul_eq_ok.mp hpart
  obtain ⟨-, rfl⟩ := Checked.mul_eq_ok.mp htotal
  refine Checked.regular_bind Checked.regular_add fun _ _ => ?_
  refine Checked.regular_bind Checked.regular_mul fun _ _ => ?_
  refine Checked.regular_bind Checked.regular_mul fun _ _ => ?_
  refine Checked.regular_bind cubeU512_regular fun _ _ => ?_
  refine Checked.regular_bind (Checked.regular_div ?_) fun _ _ => ?_
  · rw [Nat.mul_assoc]
    exact Nat.mul_ne_zero (by decide) hne
  · exact Checked.regular_bind Checked.regular_add fun _ _ =>
      Checked.regular_bind Checked.regular_add fun _ _ => Checked.regular_pure

/-! ### The invariant -/

theorem four_mul_product_le (x y : Nat) : 4 * (x * y) ≤ (x + y) ^ 2 := by
  rw [← Nat.mul_assoc]
  exact four_mul_le_sq_add x y

/-- The invariant that is calculated is the boundary, and Newton's iteration has ended. -/
theorem calculateInvariant_spec {fuel : Nat} (hx : 0 < x) (hy : 0 < y) (hamp : 4 ≤ an2n)
    (h : calculateInvariant fuel x y an2n = .ok (some d)) :
    Boundary (an2n / 4) (x + y) (x * y) d ∧
      ReachesFixed (newton (an2n / 4) (x + y) (x * y)) (x + y) ∧
      ∃ b, invariantStep (an2n / 4) (x + y) (x * y) (x + y) = .ok b := by
  have hann : 0 < an2n / 4 := by omega
  have hp : 0 < x * y := Nat.mul_pos hx hy
  have hs := four_mul_product_le x y
  have hnone : ¬ (x = 0 ∨ y = 0 ∨ an2n = 0) := by omega
  simp only [calculateInvariant, if_neg hnone, addU512, mulU512, Checked.bind_eq_ok,
    Checked.add_eq_ok, Checked.mul_eq_ok] at h
  obtain ⟨_, ⟨-, rfl⟩, _, ⟨-, rfl⟩, r, hrun, passes, hpasses, _, -, upper, -, h⟩ := h
  obtain ⟨hends, hfixed⟩ := reachesFixed_of_iterateU512
    (fun a b hb => (invariantStep_eq_ok.mp hb).2) hrun
  have hfirst : ∃ b, invariantStep (an2n / 4) (x + y) (x * y) (x + y) = .ok b := by
    cases fuel with
    | zero => cases hrun
    | succ fuel =>
      obtain ⟨b, hb, -⟩ := iterateU512_succ.mp hrun
      exact ⟨b, hb⟩
  obtain ⟨boundary, hboundary⟩ := exists_boundary hann hp hs
  have hle : r ≤ boundary := by
    by_contra hlt
    obtain ⟨⟨-, -, -, hslope⟩, hstays⟩ := invariantStep_eq_ok.mp hfixed
    have habove := hboundary.above hann hp hs (not_le.mp hlt)
    exact (newton_lt hann (Nat.pos_of_ne_zero hslope) (by omega) habove).ne hstays
  refine ⟨?_, hends, hfirst⟩
  split at h
  · rename_i hexact
    cases Checked.pure_eq_ok.mp h
    have hreached : shortfall (an2n / 4) (x + y) (x * y) d ≤ 0 := by
      rw [calculateInvariantErrorSgn_eq_ok] at hpasses
      rw [Bool.and_eq_true, ← hpasses.2, decide_eq_true_eq] at hexact
      exact hexact.1
    rwa [le_antisymm hle (hboundary.le_of_reached hann hreached)]
  · obtain ⟨found, hsearch, h⟩ := Checked.bind_eq_ok.mp h
    cases Checked.pure_eq_ok.mp h
    obtain ⟨hfrom, hfound, hbefore⟩ := searchUp_spec hsearch
    rw [calculateInvariantErrorSgn_eq_ok, decide_eq_true_eq] at hfound
    have hreach := hboundary.le_of_reached hann hfound.2
    rcases Nat.eq_or_lt_of_le hreach with rfl | hlt
    · exact hboundary
    · have hfails := hbefore boundary hle hlt
      rw [calculateInvariantErrorSgn_eq_ok, decide_eq_false_iff_not] at hfails
      exact absurd hboundary.reached hfails.2

/-- The calculation stops before its end only where something does not fit its words. -/
theorem calculateInvariant_regular (hamp : 4 ≤ an2n) (fuel : Nat) :
    Checked.Regular (calculateInvariant fuel x y an2n) := by
  unfold calculateInvariant
  split
  · exact Checked.regular_pure
  · rename_i hnone
    have hann : 0 < an2n / 4 := by omega
    have hp : 0 < x * y := Nat.mul_pos (by omega) (by omega)
    obtain ⟨S, hstart, hpath⟩ := exists_slope_path hann hp (four_mul_product_le x y)
    refine Checked.regular_bind Checked.regular_add fun s hsum => ?_
    obtain ⟨-, rfl⟩ := Checked.add_eq_ok.mp hsum
    refine Checked.regular_bind Checked.regular_mul fun p hproduct => ?_
    obtain ⟨-, rfl⟩ := Checked.mul_eq_ok.mp hproduct
    have hsign (d : Nat) : Checked.Regular (calculateInvariantErrorSgn x y d 4 (an2n / 4)) :=
      calculateInvariantErrorSgn_regular hp.ne'
    refine Checked.regular_bind (iterateU512_regular (S := S) (fun d hd => ?_) hstart) fun d _ =>
      Checked.regular_bind (hsign d) fun _ _ => Checked.regular_bind Checked.regular_add
      fun _ _ => Checked.regular_bind (hsign _) fun _ _ => ?_
    · obtain ⟨hslope, hnext⟩ := hpath d hd
      refine ⟨invariantStep_regular hann hp.ne' hslope, fun b hb => ?_⟩
      rwa [← (invariantStep_eq_ok.mp hb).2]
    · split
      · exact Checked.regular_pure
      · exact Checked.regular_bind (searchUp_regular hsign) fun _ _ => Checked.regular_pure

/-- The numerator of the first step fits. -/
def InvariantFits (ann s p : Nat) : Prop := (ann * s + 2 * cubeShare p s) * s < 2 ^ 512

theorem InvariantFits.step (hfits : InvariantFits ann s p) (htwo : 2 ≤ s) (hcube : s ^ 3 < 2 ^ 512)
    (hle : d ≤ s) : StepFits ann s p d where
  cube := (Nat.pow_le_pow_left hle 3).trans_lt hcube
  num := by
    refine lt_of_le_of_lt (Nat.mul_le_mul ?_ hle) hfits
    exact Nat.add_le_add_left (Nat.mul_le_mul_left _ (cubeShare_mono hle)) _
  sum := by
    refine lt_of_le_of_lt ?_ hfits
    have hshare := cubeShare_mono (p := p) hle
    exact (Nat.add_le_add_left (Nat.mul_le_mul_left _ hshare) _).trans
      (Nat.le_mul_of_pos_right _ (by omega))
  den := by
    refine lt_of_le_of_lt ?_ hfits
    have hshare := cubeShare_mono (p := p) hle
    have hline : (ann - 1) * d ≤ ann * s := Nat.mul_le_mul (Nat.sub_le _ _) hle
    have hdouble := Nat.mul_le_mul_left (ann * s + 2 * cubeShare p s) htwo
    unfold slope
    omega

theorem InvariantFits.sign (hfits : InvariantFits ann s p) (htwo : 2 ≤ s) (hsum : s < 2 ^ 72)
    (hproduct : p < 2 ^ 144) (hle : d ≤ s + 1) : SignFits ann s p d := by
  have hcube : d ^ 3 ≤ 2 ^ 216 := by
    calc d ^ 3 ≤ (2 ^ 72) ^ 3 := Nat.pow_le_pow_left (by omega) 3
      _ = 2 ^ 216 := by rw [← Nat.pow_mul]
  have hshare : cubeShare p d ≤ d ^ 3 := (Nat.div_le_self _ _).trans (Nat.div_le_self _ _)
  have hmul : ann * s * 2 ≤ (ann * s + 2 * cubeShare p s) * s :=
    Nat.mul_le_mul (Nat.le_add_right _ _) htwo
  have hann : ann * 2 ≤ ann * s := Nat.mul_le_mul_left _ htwo
  have hright : d * ann ≤ ann * s + ann := by
    calc d * ann ≤ (s + 1) * ann := Nat.mul_le_mul_right _ hle
      _ = ann * s + ann := by ring
  unfold InvariantFits at hfits
  refine ⟨?_, ?_, ?_, ?_⟩ <;> omega

/-- The invariant is found, and it is the least value at which the sign is true. -/
def FindsBoundary (x y an2n : Nat) : Prop :=
  ∃ fuel d, calculateInvariant fuel x y an2n = .ok (some d) ∧
    calculateInvariantErrorSgn x y d 4 (an2n / 4) = .ok true ∧
    calculateInvariantErrorSgn x y (d - 1) 4 (an2n / 4) = .ok false

/-- Reserves of some more than 64 bits, of which the calculation fits its words. -/
structure Computes (x y an2n : Nat) : Prop where
  pos : 0 < x ∧ 0 < y
  words : x < 2 ^ 71 ∧ y < 2 ^ 71
  amplified : 4 ≤ an2n
  fits : InvariantFits (an2n / 4) (x + y) (x * y)

theorem Computes.product_lt (h : Computes x y an2n) : x * y < 2 ^ 144 := by
  calc x * y < 2 ^ 71 * 2 ^ 71 := Nat.mul_lt_mul'' h.words.1 h.words.2
    _ < 2 ^ 144 := by decide

theorem Computes.sign (h : Computes x y an2n) (hle : d ≤ x + y + 1) :
    calculateInvariantErrorSgn x y d 4 (an2n / 4) =
      .ok (decide (shortfall (an2n / 4) (x + y) (x * y) d ≤ 0)) := by
  have hproduct := h.product_lt
  obtain ⟨⟨hx, hy⟩, ⟨hxlt, hylt⟩, hamp, hfits⟩ := h
  refine calculateInvariantErrorSgn_eq_ok.mpr
    ⟨⟨hfits.sign (by omega) (by omega) hproduct hle, by omega, by omega, ?_⟩, rfl⟩
  exact (Nat.mul_pos hx hy).ne'

theorem Computes.step (h : Computes x y an2n) (hle : d ≤ x + y)
    (hslope : 0 < slope (an2n / 4) (x * y) d) :
    invariantStep (an2n / 4) (x + y) (x * y) d =
      .ok (newton (an2n / 4) (x + y) (x * y) d) := by
  obtain ⟨⟨hx, hy⟩, ⟨hxlt, hylt⟩, hamp, hfits⟩ := h
  have hcube : (x + y) ^ 3 < 2 ^ 512 :=
    (Nat.pow_le_pow_left (show x + y ≤ 2 ^ 72 by omega) 3).trans_lt (by omega)
  exact invariantStep_eq_ok.mpr ⟨⟨hfits.step (by omega) hcube hle, by omega,
    (Nat.mul_pos hx hy).ne', hslope.ne'⟩, rfl⟩

theorem Computes.hann (h : Computes x y an2n) : 0 < an2n / 4 :=
  Nat.div_pos h.amplified (by decide)

theorem Computes.product_pos (h : Computes x y an2n) : 0 < x * y := Nat.mul_pos h.pos.1 h.pos.2

theorem Computes.comm (h : Computes x y an2n) : Computes y x an2n where
  pos := h.pos.symm
  words := h.words.symm
  amplified := h.amplified
  fits := by
    have hfits := h.fits
    rwa [Nat.add_comm, Nat.mul_comm] at hfits

theorem Crosses.comm {ann : Nat} (h : Crosses ann (x + y) (x * y)) :
    Crosses ann (y + x) (y * x) := by rwa [Nat.add_comm y, Nat.mul_comm y]

theorem Computes.boundary_le (h : Computes x y an2n)
    (hd : Boundary (an2n / 4) (x + y) (x * y) d) : d ≤ x + y :=
  hd.le_sum h.hann h.product_pos (four_mul_product_le x y)

/-- The sign is true from the boundary on. -/
theorem Computes.sign_boundary (h : Computes x y an2n)
    (hd : Boundary (an2n / 4) (x + y) (x * y) d) :
    calculateInvariantErrorSgn x y d 4 (an2n / 4) = .ok true ∧
      calculateInvariantErrorSgn x y (d - 1) 4 (an2n / 4) = .ok false := by
  have hsum := h.boundary_le hd
  constructor
  · rw [h.sign (hsum.trans (Nat.le_succ _)), decide_eq_true hd.reached]
  · rw [h.sign (by omega), decide_eq_false (not_le.mpr hd.before)]

/-- With the iteration at an end, one more unit at most is to be found. -/
theorem Computes.calculates (h : Computes x y an2n)
    (hcross : Crosses (an2n / 4) (x + y) (x * y)) {boundary : Nat}
    (hboundary : Boundary (an2n / 4) (x + y) (x * y) boundary) :
    ∃ turns, ∀ fuel, turns ≤ fuel → calculateInvariant fuel x y an2n = .ok (some boundary) := by
  have hproduct : x * y < 2 ^ 512 := h.product_lt.trans (by omega)
  obtain ⟨⟨hx, hy⟩, ⟨hxlt, hylt⟩, hamp, hfits⟩ := id h
  have hann := h.hann
  have hp := h.product_pos
  have hs := four_mul_product_le x y
  obtain ⟨S, hstart, hpath⟩ := hcross.exists_path hann hp hs
  obtain ⟨turns, r, hr, hfixed, hrun⟩ := iterateU512_of_reachesFixed
    (fun b hb => h.step (hpath b hb).1 (hpath b hb).2.1) (fun b hb => (hpath b hb).2.2)
    ((reachesFixed_newton_iff hann hp hs).mpr hcross) hstart
  obtain ⟨hle, hslope, -⟩ := hpath r hr
  have hsum := h.boundary_le hboundary
  have hlow : boundary - 1 ≤ r := by
    rw [← hfixed]
    exact le_newton hann hp hslope hboundary.before
  have hhigh : r ≤ boundary := by
    by_contra hlt
    have habove := hboundary.above hann hp hs (not_le.mp hlt)
    exact (newton_lt hann hslope (by omega) habove).ne hfixed
  obtain ⟨hpasses, hfails⟩ := h.sign_boundary hboundary
  have hsearch (fuel : Nat) : searchUp
      (fun d => calculateInvariantErrorSgn x y d 4 (an2n / 4)) (fuel + 2) r = .ok boundary := by
    have hpos := hboundary.pos
    rcases Nat.eq_or_lt_of_le hhigh with rfl | hlt
    · exact searchUp_of_passes hpasses
    · have hbefore : r = boundary - 1 := by omega
      have hsucc : r + 1 = boundary := by omega
      rw [searchUp_succ (hbefore ▸ hfails) (by omega), hsucc]
      exact searchUp_of_passes hpasses
  have hupper := h.sign (show r + 1 ≤ x + y + 1 by omega)
  have hover : shortfall (an2n / 4) (x + y) (x * y) (r + 1) ≤ 0 :=
    (shortfall_anti hann (by omega)).trans hboundary.reached
  rw [decide_eq_true hover] at hupper
  have hnone : ¬ (x = 0 ∨ y = 0 ∨ an2n = 0) := by omega
  refine ⟨turns + 2, fun fuel hfuel => ?_⟩
  obtain ⟨rest, rfl⟩ := Nat.exists_eq_add_of_le hfuel
  simp only [calculateInvariant, if_neg hnone, addU512, mulU512, Checked.bind_eq_ok,
    Checked.add_eq_ok, Checked.mul_eq_ok]
  refine ⟨_, ⟨by omega, rfl⟩, _, ⟨hproduct, rfl⟩, r, hrun _ (by omega), _,
    h.sign (hle.trans (Nat.le_succ _)), _, ⟨by omega, rfl⟩, true, hupper, ?_⟩
  rw [if_neg (by simp)]
  rw [show turns + 2 + rest = turns + rest + 2 by omega]
  exact Checked.bind_eq_ok.mpr ⟨boundary, hsearch _, rfl⟩

/-- The calculation ends at the boundary exactly if its first step fits, and no two neighbours lead
Newton's iteration to each other. -/
theorem findsBoundary_iff (hx : 0 < x) (hxlt : x < 2 ^ 64) (hy : 0 < y) (hylt : y < 2 ^ 64)
    (hamp : 4 ≤ an2n) : FindsBoundary x y an2n ↔
      InvariantFits (an2n / 4) (x + y) (x * y) ∧ Crosses (an2n / 4) (x + y) (x * y) := by
  constructor
  · rintro ⟨fuel, d, hok, -, -⟩
    obtain ⟨-, hends, b, hfirst⟩ := calculateInvariant_spec hx hy hamp hok
    exact ⟨(invariantStep_eq_ok.mp hfirst).1.1.num, (reachesFixed_newton_iff (by omega)
      (Nat.mul_pos hx hy) (four_mul_product_le x y)).mp hends⟩
  · rintro ⟨hfits, hcross⟩
    have h : Computes x y an2n := ⟨⟨hx, hy⟩, ⟨by omega, by omega⟩, hamp, hfits⟩
    obtain ⟨d, hd⟩ := exists_boundary h.hann h.product_pos (four_mul_product_le x y)
    obtain ⟨turns, hrun⟩ := h.calculates hcross hd
    exact ⟨turns, d, hrun turns le_rfl, h.sign_boundary hd⟩

end

/-- An amplification of 64 bits always fits. -/
theorem invariantFits_of_word {x y an2n : Nat} (hxlt : x < 2 ^ 71) (hylt : y < 2 ^ 71)
    (hamp : an2n < 2 ^ 64) : InvariantFits (an2n / 4) (x + y) (x * y) := by
  have hshare : cubeShare (x * y) (x + y) ≤ (2 ^ 72) ^ 3 :=
    ((Nat.div_le_self _ _).trans (Nat.div_le_self _ _)).trans (Nat.pow_le_pow_left (by omega) 3)
  have hmul : an2n / 4 * (x + y) ≤ 2 ^ 64 * 2 ^ 72 := Nat.mul_le_mul (by omega) (by omega)
  have hnum : (an2n / 4 * (x + y) + 2 * cubeShare (x * y) (x + y)) * (x + y) ≤
      (2 ^ 64 * 2 ^ 72 + 2 * (2 ^ 72) ^ 3) * 2 ^ 72 := Nat.mul_le_mul (by omega) (by omega)
  unfold InvariantFits
  omega

theorem findsBoundary_sample : FindsBoundary 1000000 3000000 400 := by
  refine (findsBoundary_iff (by decide) (by decide) (by decide) (by decide) (by decide)).mpr
    ⟨invariantFits_of_word (by decide) (by decide) (by decide), ?_⟩
  exact (reachesFixed_newton_iff (by decide) (by decide) (by decide)).mp
    ⟨3, (by decide +kernel : newton 100 4000000 3000000000000 _ = _)⟩

/-- Reserves of one and three units turn Newton's iteration about for ever. -/
theorem three_and_four_turn : ¬ ∀ x y an2n : Nat, 0 < x → x < 2 ^ 64 → 0 < y → y < 2 ^ 64 →
    4 ≤ an2n → FindsBoundary x y an2n := by
  intro h
  obtain ⟨fuel, d, hok, -, -⟩ := h 1 3 4 (by decide) (by decide) (by decide) (by decide) (by decide)
  obtain ⟨-, hends, -⟩ := calculateInvariant_spec (by decide) (by decide) (by decide) hok
  refine not_reachesFixed (S := fun d => d = 3 ∨ d = 4) (.inr rfl) ?_ ?_ hends
  · rintro d (rfl | rfl)
    · exact .inr (by decide)
    · exact .inl (by decide)
  · rintro d (rfl | rfl) <;> decide

end UtxoMonitor.Pools
