import UtxoMonitor.Pools.SwapRoot

/-! When the output of a swap of a stable pool passes the test of the pool's contract. -/
namespace UtxoMonitor.Pools

open Lib LiquidityBook

/-! ### Steps and tests -/

section

variable {b c d y r an2n base quote : Nat}

theorem swapStep_eq_ok : swapStep b c d y = .ok r ↔
    (y * y + c < 2 ^ 512 ∧ 2 * y + b < 2 ^ 512 ∧ 0 < reserveSlope ((b : Int) - d) y) ∧
      nextReserve ((b : Int) - d) c y = r := by
  simp only [swapStep, addU512, mulU512, Checked.bind_eq_ok, Checked.add_eq_ok, Checked.mul_eq_ok,
    Checked.sub_eq_ok, Checked.div_eq_ok]
  have hslope : (reserveSlope ((b : Int) - d) y).toNat = 2 * y + b - d := by
    unfold reserveSlope
    omega
  constructor
  · rintro ⟨_, ⟨-, rfl⟩, _, ⟨hnum, rfl⟩, _, ⟨-, rfl⟩, _, ⟨hsum, rfl⟩, _, ⟨hle, rfl⟩, hne, rfl⟩
    refine ⟨⟨hnum, hsum, ?_⟩, ?_⟩
    · unfold reserveSlope
      omega
    · rw [nextReserve, hslope]
  · rintro ⟨⟨hnum, hsum, hpos⟩, rfl⟩
    unfold reserveSlope at hpos
    refine ⟨_, ⟨(Nat.le_add_right _ _).trans_lt hnum, rfl⟩, _, ⟨hnum, rfl⟩, _,
      ⟨(Nat.le_add_right _ _).trans_lt hsum, rfl⟩, _, ⟨hsum, rfl⟩, _, ⟨by omega, rfl⟩, by omega, ?_⟩
    rw [nextReserve, hslope]

theorem swapStep_regular (hpos : 0 < reserveSlope ((b : Int) - d) y) :
    Checked.Regular (swapStep b c d y) := by
  unfold reserveSlope at hpos
  refine Checked.regular_bind Checked.regular_mul fun _ _ =>
    Checked.regular_bind Checked.regular_add fun _ _ =>
    Checked.regular_bind Checked.regular_mul fun double hdouble =>
    Checked.regular_bind Checked.regular_add fun sum hsum => ?_
  obtain ⟨-, rfl⟩ := Checked.mul_eq_ok.mp hdouble
  obtain ⟨-, rfl⟩ := Checked.add_eq_ok.mp hsum
  refine Checked.regular_bind (Checked.regular_sub (by omega)) fun den hden => ?_
  obtain ⟨-, rfl⟩ := Checked.sub_eq_ok.mp hden
  exact Checked.regular_div (by omega)

theorem exactTerms_regular (hamp : 4 ≤ an2n) : Checked.Regular (exactTerms an2n base quote) :=
  Checked.regular_bind Checked.regular_mul fun _ _ =>
    Checked.regular_bind (Checked.regular_sub hamp) fun _ _ =>
    Checked.regular_bind Checked.regular_mul fun _ _ =>
    Checked.regular_bind Checked.regular_mul fun _ _ =>
    Checked.regular_bind Checked.regular_add fun _ _ =>
    Checked.regular_bind Checked.regular_mul fun _ _ => Checked.regular_pure

variable {quoteMult baseBefore quoteBefore baseAfter quoteAfter : Nat}

theorem checkExactInvariant_regular (hamp : 4 ≤ an2n) : Checked.Regular
    (checkExactInvariant quoteMult baseBefore quoteBefore baseAfter quoteAfter d an2n) := by
  refine Checked.regular_bind cubeU512_regular fun _ _ =>
    Checked.regular_bind (exactTerms_regular hamp) fun _ _ =>
    Checked.regular_bind (exactTerms_regular hamp) fun _ _ =>
    Checked.regular_bind Checked.regular_mul fun _ _ => ?_
  split
  · refine Checked.regular_bind (exactTerms_regular hamp) fun _ _ =>
      Checked.regular_bind Checked.regular_mul fun _ _ =>
      Checked.regular_bind Checked.regular_add fun _ _ => ?_
    split
    · exact Checked.regular_pure
    · refine Checked.regular_bind Checked.regular_mul fun _ _ =>
        Checked.regular_bind Checked.regular_add fun _ _ => ?_
      split
      · exact Checked.regular_pure
      · exact Checked.regular_bind Checked.regular_mul fun _ _ =>
          Checked.regular_bind Checked.regular_add fun _ _ => Checked.regular_pure
  · exact Checked.regular_pure

/-- The sides of the exact invariant at a pair of reserves. -/
def exactLeft (an2n base quote d : Nat) : Nat := d ^ 3 + (an2n - 4) * (base * quote) * d

def exactRight (an2n base quote : Nat) : Nat := an2n * (base * quote) * (base + quote)

theorem exactTerms_spec {alpha beta : Nat} (h : exactTerms an2n base quote = .ok (alpha, beta)) :
    alpha = (an2n - 4) * (base * quote) ∧ beta = exactRight an2n base quote := by
  simp only [exactTerms, mulU512, addU512, Checked.bind_eq_ok, Checked.mul_eq_ok,
    Checked.add_eq_ok, Checked.sub_eq_ok, Checked.pure_eq_ok] at h
  obtain ⟨_, ⟨-, rfl⟩, _, ⟨-, rfl⟩, _, ⟨-, rfl⟩, _, ⟨-, rfl⟩, _, ⟨-, rfl⟩, _, ⟨-, rfl⟩, h⟩ := h
  cases h
  exact ⟨rfl, rfl⟩

/-- Reserves of two words fit the words of the terms. -/
theorem exactTerms_ok (hamp : 4 ≤ an2n) (hlt : an2n < 2 ^ 64) (hbase : base < 2 ^ 128)
    (hquote : quote < 2 ^ 128) :
    exactTerms an2n base quote = .ok ((an2n - 4) * (base * quote), exactRight an2n base quote) ∧
      (an2n - 4) * (base * quote) < 2 ^ 64 * 2 ^ 256 := by
  have hproduct : base * quote < 2 ^ 256 := by
    calc base * quote < 2 ^ 128 * 2 ^ 128 := Nat.mul_lt_mul'' hbase hquote
      _ = 2 ^ 256 := by rw [← Nat.pow_add]
  have halpha : (an2n - 4) * (base * quote) < 2 ^ 64 * 2 ^ 256 :=
    Nat.mul_lt_mul'' (by omega) hproduct
  have hscaled : an2n * (base * quote) < 2 ^ 64 * 2 ^ 256 := Nat.mul_lt_mul'' hlt hproduct
  have hsum : base + quote < 2 ^ 129 := by omega
  have hbeta : an2n * (base * quote) * (base + quote) < 2 ^ 64 * 2 ^ 256 * 2 ^ 129 :=
    Nat.mul_lt_mul'' hscaled hsum
  refine ⟨?_, halpha⟩
  simp only [exactTerms, mulU512, addU512, Checked.bind_eq_ok, Checked.mul_eq_ok,
    Checked.add_eq_ok, Checked.sub_eq_ok, Checked.pure_eq_ok]
  exact ⟨_, ⟨by omega, rfl⟩, _, ⟨hamp, rfl⟩, _, ⟨by omega, rfl⟩, _, ⟨by omega, rfl⟩, _,
    ⟨by omega, rfl⟩, _, ⟨by omega, rfl⟩, rfl⟩

/-- The left side of one of the inequalities of the test. -/
theorem left_ok {cube alpha : Nat} (hcube : cube < (2 ^ 130) ^ 3) (halpha : alpha < 2 ^ 64 * 2 ^ 256)
    (hd : d < 2 ^ 130) :
    mulU512 alpha d = .ok (alpha * d) ∧ addU512 cube (alpha * d) = .ok (cube + alpha * d) := by
  have hmul : alpha * d < 2 ^ 64 * 2 ^ 256 * 2 ^ 130 := Nat.mul_lt_mul'' halpha hd
  exact ⟨Checked.mul_eq_ok.mpr ⟨by omega, rfl⟩, Checked.add_eq_ok.mpr ⟨by omega, rfl⟩⟩

/-- The test comes to a verdict where the reserve is more than the error it allows for: neither the
invariant before nor that of the reserve less the error exceeds the value, nor it that after. -/
theorem checkExactInvariant_eq (hamp : 4 ≤ an2n) (hlt : an2n < 2 ^ 64)
    (hmult : quoteMult < 2 ^ 64) (hbefore : baseBefore < 2 ^ 128 ∧ quoteBefore < 2 ^ 128)
    (hafter : baseAfter < 2 ^ 128 ∧ quoteAfter < 2 ^ 128) (hd : d < 2 ^ 130) :
    checkExactInvariant quoteMult baseBefore quoteBefore baseAfter quoteAfter d an2n =
      .ok (if 2 * quoteMult ≤ quoteAfter then
        some (decide (exactRight an2n baseBefore quoteBefore ≤
            exactLeft an2n baseBefore quoteBefore d ∧
          exactLeft an2n baseAfter quoteAfter d ≤ exactRight an2n baseAfter quoteAfter ∧
          exactRight an2n baseAfter (quoteAfter - 2 * quoteMult) ≤
            exactLeft an2n baseAfter (quoteAfter - 2 * quoteMult) d))
      else none) := by
  have hcube : d ^ 3 < (2 ^ 130) ^ 3 := Nat.pow_lt_pow_left hd (by decide)
  have hdn1 : cubeU512 d = .ok (d ^ 3) := cubeU512_eq_ok.mpr ⟨by omega, rfl⟩
  have herror : mulU512 maxSwapError quoteMult = .ok (2 * quoteMult) :=
    Checked.mul_eq_ok.mpr ⟨by unfold maxSwapError; omega, rfl⟩
  obtain ⟨hterms, halpha⟩ := exactTerms_ok hamp hlt hbefore.1 hbefore.2
  obtain ⟨hterms', halpha'⟩ := exactTerms_ok hamp hlt hafter.1 hafter.2
  obtain ⟨hterms'', halpha''⟩ := exactTerms_ok hamp hlt hafter.1
    (show quoteAfter - 2 * quoteMult < 2 ^ 128 by omega)
  obtain ⟨hmul, hadd⟩ := left_ok hcube halpha hd
  obtain ⟨hmul', hadd'⟩ := left_ok hcube halpha' hd
  obtain ⟨hmul'', hadd''⟩ := left_ok hcube halpha'' hd
  simp only [checkExactInvariant, hdn1, hterms, hterms', herror, Checked.bind_eq_ok,
    Except.ok.injEq, exists_eq_left']
  by_cases hle : 2 * quoteMult ≤ quoteAfter
  · simp only [if_pos hle, hterms'', hmul, hadd, Checked.bind_eq_ok, Except.ok.injEq,
      exists_eq_left']
    split
    · rename_i hshort
      rw [decide_eq_false fun h => absurd h.1 (not_le.mpr hshort)]
      rfl
    · simp only [hmul', hadd', Checked.bind_eq_ok, Except.ok.injEq, exists_eq_left']
      split
      · rename_i hover
        rw [decide_eq_false fun h => absurd h.2.1 (not_le.mpr hover)]
        rfl
      · rename_i hreaches hkeeps
        simp only [hmul'', hadd'', Checked.bind_eq_ok, Except.ok.injEq, exists_eq_left']
        refine congrArg (fun passes => Except.ok (some passes)) (decide_eq_decide.mpr ?_)
        exact ⟨fun h => ⟨not_lt.mp hreaches, not_lt.mp hkeeps, h⟩, fun h => h.2.2⟩
  · simp only [if_neg hle]
    rfl

/-- What a value that passes the test satisfies. -/
theorem checkExactInvariant_passes
    (h : checkExactInvariant quoteMult baseBefore quoteBefore baseAfter quoteAfter d an2n =
      .ok (some true)) :
    exactRight an2n baseBefore quoteBefore ≤ exactLeft an2n baseBefore quoteBefore d ∧
      exactLeft an2n baseAfter quoteAfter d ≤ exactRight an2n baseAfter quoteAfter ∧
      exactRight an2n baseAfter (quoteAfter - 2 * quoteMult) ≤
        exactLeft an2n baseAfter (quoteAfter - 2 * quoteMult) d := by
  simp only [checkExactInvariant, mulU512, addU512, Checked.bind_eq_ok, Checked.mul_eq_ok,
    cubeU512_eq_ok] at h
  obtain ⟨_, ⟨-, rfl⟩, ⟨_, _⟩, hterms, ⟨_, _⟩, hterms', _, ⟨-, rfl⟩, h⟩ := h
  obtain ⟨rfl, rfl⟩ := exactTerms_spec hterms
  obtain ⟨rfl, rfl⟩ := exactTerms_spec hterms'
  split at h
  · simp only [Checked.bind_eq_ok, Checked.mul_eq_ok, Checked.add_eq_ok] at h
    obtain ⟨⟨_, _⟩, hterms'', _, ⟨-, rfl⟩, _, ⟨-, rfl⟩, h⟩ := h
    obtain ⟨rfl, rfl⟩ := exactTerms_spec hterms''
    split at h
    · cases Checked.pure_eq_ok.mp h
    · rename_i hreaches
      simp only [Checked.bind_eq_ok, Checked.mul_eq_ok, Checked.add_eq_ok] at h
      obtain ⟨_, ⟨-, rfl⟩, _, ⟨-, rfl⟩, h⟩ := h
      split at h
      · cases Checked.pure_eq_ok.mp h
      · rename_i hkeeps
        simp only [Checked.bind_eq_ok, Checked.mul_eq_ok, Checked.add_eq_ok] at h
        obtain ⟨_, ⟨-, rfl⟩, _, ⟨-, rfl⟩, h⟩ := h
        have hverdict := Option.some.inj (Checked.pure_eq_ok.mp h)
        exact ⟨not_lt.mp hreaches, not_lt.mp hkeeps, of_decide_eq_true hverdict⟩
  · cases Checked.pure_eq_ok.mp h

theorem checkExactInvariant_le {passes : Bool}
    (h : checkExactInvariant quoteMult baseBefore quoteBefore baseAfter quoteAfter d an2n =
      .ok (some passes)) : 2 * quoteMult ≤ quoteAfter := by
  simp only [checkExactInvariant, mulU512, Checked.bind_eq_ok, Checked.mul_eq_ok] at h
  obtain ⟨_, -, _, -, _, -, _, ⟨-, rfl⟩, h⟩ := h
  split at h
  · rename_i hle
    exact hle
  · cases Checked.pure_eq_ok.mp h

end

/-! ### Repairs -/

/-- The reserve that a trade settles at: the one found if it passes, else the first of the next 255
that does, else the last of these. -/
def repair (test : Nat → Checked (Option Bool)) (assetTo : Nat) : Checked (Option Nat) := do
  match ← test assetTo with
  | none => return none
  | some true => return some assetTo
  | some false => settleReserve test 255 assetTo

section

variable {test : Nat → Checked (Option Bool)} {counter assetTo settled : Nat}

theorem settleReserve_regular (h : ∀ y, Checked.Regular (test y)) :
    Checked.Regular (settleReserve test counter assetTo) := by
  induction counter generalizing assetTo with
  | zero => exact Checked.regular_pure
  | succ counter ih =>
    refine Checked.regular_bind Checked.regular_add fun next _ =>
      Checked.regular_bind (h next) fun verdict _ => ?_
    split
    · exact Checked.regular_pure
    · exact Checked.regular_pure
    · exact ih

theorem repair_regular (h : ∀ y, Checked.Regular (test y)) :
    Checked.Regular (repair test assetTo) := by
  refine Checked.regular_bind (h assetTo) fun verdict _ => ?_
  split
  · exact Checked.regular_pure
  · exact Checked.regular_pure
  · exact settleReserve_regular h

/-- What a search from a reserve that fails ends at: all before fail too, and it passes or is the
last. -/
theorem settleReserve_spec (hfails : test assetTo = .ok (some false))
    (h : settleReserve test counter assetTo = .ok (some settled)) : ∃ k ≤ counter,
      settled = assetTo + k ∧ (∀ j < k, test (assetTo + j) = .ok (some false)) ∧
      (test settled = .ok (some true) ∨ k = counter ∧ test settled = .ok (some false)) := by
  induction counter generalizing assetTo with
  | zero =>
    cases Checked.pure_eq_ok.mp h
    exact ⟨0, le_rfl, rfl, fun j hj => absurd hj (Nat.not_lt_zero j), .inr ⟨rfl, hfails⟩⟩
  | succ counter ih =>
    obtain ⟨_, hadd, h⟩ := Checked.bind_eq_ok.mp h
    obtain ⟨-, rfl⟩ := Checked.add_eq_ok.mp hadd
    obtain ⟨verdict, hverdict, h⟩ := Checked.bind_eq_ok.mp h
    obtain _ | _ | _ := verdict
    · cases Checked.pure_eq_ok.mp h
    · obtain ⟨k, hk, rfl, hbefore, hend⟩ := ih hverdict h
      refine ⟨k + 1, by omega, by omega, fun j hj => ?_, ?_⟩
      · cases j with
        | zero => exact hfails
        | succ j =>
          rw [show assetTo + (j + 1) = assetTo + 1 + j by omega]
          exact hbefore j (by omega)
      · exact hend.imp_right fun hlast => ⟨by omega, hlast.2⟩
    · cases Checked.pure_eq_ok.mp h
      refine ⟨1, by omega, rfl, fun j hj => ?_, .inl hverdict⟩
      rw [Nat.lt_one_iff.mp hj]
      exact hfails

theorem repair_spec (h : repair test assetTo = .ok (some settled)) : ∃ k ≤ 255,
    settled = assetTo + k ∧ (∀ j < k, test (assetTo + j) = .ok (some false)) ∧
    (test settled = .ok (some true) ∨ k = 255 ∧ test settled = .ok (some false)) := by
  obtain ⟨verdict, hverdict, h⟩ := Checked.bind_eq_ok.mp h
  obtain _ | _ | _ := verdict
  · cases Checked.pure_eq_ok.mp h
  · exact settleReserve_spec hverdict h
  · cases Checked.pure_eq_ok.mp h
    exact ⟨0, Nat.zero_le _, rfl, fun j hj => absurd hj (Nat.not_lt_zero j), .inl hverdict⟩

/-- A search that every test comes to a verdict in ends. -/
theorem settleReserve_ok (h : ∀ k, k ≤ counter → ∃ passes, test (assetTo + k) = .ok (some passes))
    (hfits : assetTo + counter < 2 ^ 512) :
    ∃ settled, settleReserve test counter assetTo = .ok (some settled) := by
  induction counter generalizing assetTo with
  | zero => exact ⟨assetTo, rfl⟩
  | succ counter ih =>
    have hadd : addU512 assetTo 1 = .ok (assetTo + 1) := Checked.add_eq_ok.mpr ⟨by omega, rfl⟩
    obtain ⟨passes, hpasses⟩ := h 1 (by omega)
    simp only [settleReserve, hadd, Checked.bind_eq_ok, Except.ok.injEq, exists_eq_left', hpasses]
    cases passes with
    | true => exact ⟨_, rfl⟩
    | false =>
      refine ih (fun k hk => ?_) (by omega)
      rw [show assetTo + 1 + k = assetTo + (k + 1) by omega]
      exact h (k + 1) (by omega)

theorem repair_ok (h : ∀ k, k ≤ 255 → ∃ passes, test (assetTo + k) = .ok (some passes))
    (hfits : assetTo + 255 < 2 ^ 512) : ∃ settled, repair test assetTo = .ok (some settled) := by
  obtain ⟨passes, hpasses⟩ := h 0 (Nat.zero_le _)
  simp only [Nat.add_zero] at hpasses
  simp only [repair, hpasses, Checked.bind_eq_ok, Except.ok.injEq, exists_eq_left']
  cases passes with
  | true => exact ⟨_, rfl⟩
  | false => exact settleReserve_ok h hfits

/-- A search that passes some reserve ends at one that passes, no further. -/
theorem repair_passes (h : repair test assetTo = .ok (some settled)) {k : Nat} (hk : k ≤ 255)
    (hpasses : test (assetTo + k) = .ok (some true)) :
    test settled = .ok (some true) ∧ settled ≤ assetTo + k := by
  obtain ⟨k', hk', rfl, hbefore, hend⟩ := repair_spec h
  have hle : k' ≤ k := by
    by_contra hlt
    cases (hbefore k (not_le.mp hlt)).symm.trans hpasses
  obtain hpass | ⟨hlast, hfails⟩ := hend
  · exact ⟨hpass, by omega⟩
  · have heq : k = k' := by omega
    subst heq
    cases hfails.symm.trans hpasses

end

/-! ### Trades -/

/-- A trade between two reserves of a stable pool. -/
structure StableTrade where
  baseReserves : Nat
  baseMult : Nat
  quoteReserves : Nat
  quoteMult : Nat
  baseAmount : Nat
  an2n : Nat

/-- The trade that an amount of an asset makes. -/
def StableTrade.of (pair : Pair) (reservesX xMult reservesY yMult : Nat) (baseAsset : AssetClass)
    (baseAmount an2n : Nat) : StableTrade :=
  if pair.x = baseAsset then ⟨reservesX, xMult, reservesY, yMult, baseAmount, an2n⟩
  else ⟨reservesY, yMult, reservesX, xMult, baseAmount, an2n⟩

namespace StableTrade

def ann (t : StableTrade) : Nat := t.an2n / 4

def baseInitial (t : StableTrade) : Nat := t.baseReserves * t.baseMult

def quoteCalc (t : StableTrade) : Nat := t.quoteReserves * t.quoteMult

def baseCalc (t : StableTrade) : Nat := t.baseInitial + t.baseAmount * t.baseMult

/-- The coefficients of the equation of the reserve, at an invariant. -/
def b (t : StableTrade) (d : Nat) : Nat := t.baseCalc + d / t.ann

def c (t : StableTrade) (d : Nat) : Nat := d ^ 3 / 4 / t.baseCalc / t.ann

def offset (t : StableTrade) (d : Nat) : Int := (t.b d : Int) - d

/-- The test of a reserve at an invariant. -/
def test (t : StableTrade) (d assetTo : Nat) : Checked (Option Bool) :=
  checkExactInvariant t.quoteMult t.baseInitial t.quoteCalc t.baseCalc assetTo d t.an2n

/-- The reserve that the trade settles at, and the invariant that it is tested with. -/
def settle (fuel : Nat) (t : StableTrade) : Checked (Option (Nat × Nat)) := do
  match ← calculateInvariant fuel t.baseInitial t.quoteCalc t.an2n with
  | none => return none
  | some d =>
    let assetTo ← iterateU512 (swapStep (t.b d) (t.c d) d) fuel t.quoteCalc
    match ← calculateInvariant fuel t.baseCalc assetTo t.an2n with
    | none => return none
    | some dNew => return (← repair (t.test (max dNew d)) assetTo).map fun y => (y, max dNew d)

/-- What is paid once the trade is settled. -/
def pay (t : StableTrade) : Option (Nat × Nat) → Checked (Option Nat)
  | none => return none
  | some (assetTo, _) => do
    let output ← Checked.div (← Checked.sub t.quoteCalc assetTo) t.quoteMult
    if output < 2 ^ 64 then return some output else .error .overflow

/-- Reserves, multipliers and an input that are not none, whose products fit 64 bits. -/
structure Words (t : StableTrade) : Prop where
  base : 0 < t.baseReserves ∧ 0 < t.baseMult ∧ t.baseInitial < 2 ^ 64
  quote : 0 < t.quoteReserves ∧ 0 < t.quoteMult ∧ t.quoteCalc < 2 ^ 64
  amount : 0 < t.baseAmount ∧ t.baseAmount * t.baseMult < 2 ^ 64
  amplified : 16 ≤ t.an2n ∧ t.an2n < 2 ^ 64

variable {t : StableTrade} {d root fuel : Nat}

theorem Words.baseInitial_pos (h : t.Words) : 0 < t.baseInitial :=
  Nat.mul_pos h.base.1 h.base.2.1

theorem Words.quoteCalc_pos (h : t.Words) : 0 < t.quoteCalc :=
  Nat.mul_pos h.quote.1 h.quote.2.1

theorem Words.lt_baseCalc (h : t.Words) : t.baseInitial < t.baseCalc :=
  Nat.lt_add_of_pos_right (Nat.mul_pos h.amount.1 h.base.2.1)

theorem Words.baseCalc_lt (h : t.Words) : t.baseCalc < 2 ^ 65 := by
  have hbase := h.base.2.2
  have hamount := h.amount.2
  unfold baseCalc
  omega

theorem Words.computes (h : t.Words) : Computes t.baseInitial t.quoteCalc t.an2n where
  pos := ⟨h.baseInitial_pos, h.quoteCalc_pos⟩
  words := by
    have hbase := h.base.2.2
    have hquote := h.quote.2.2
    omega
  amplified := (by decide : 4 ≤ 16).trans h.amplified.1
  fits := invariantFits_of_word (h.base.2.2.trans (by decide)) (h.quote.2.2.trans (by decide))
    h.amplified.2

theorem Words.b_lt (h : t.Words) (hd : d ≤ t.baseInitial + t.quoteCalc) : t.b d < 2 ^ 67 := by
  have hbase := h.base.2.2
  have hquote := h.quote.2.2
  have hcalc := h.baseCalc_lt
  have hdiv : d / t.ann ≤ d := Nat.div_le_self _ _
  unfold b
  omega

/-- The coefficients fit their words. -/
theorem Words.coefficients (h : t.Words) (hd : d ≤ t.baseInitial + t.quoteCalc) :
    Checked.div d (t.an2n / 4) = .ok (d / t.ann) ∧
    addU512 t.baseCalc (d / t.ann) = .ok (t.b d) ∧ cubeU512 d = .ok (d ^ 3) ∧
    Checked.div (d ^ 3) 4 = .ok (d ^ 3 / 4) ∧
    Checked.div (d ^ 3 / 4) t.baseCalc = .ok (d ^ 3 / 4 / t.baseCalc) ∧
    Checked.div (d ^ 3 / 4 / t.baseCalc) (t.an2n / 4) = .ok (t.c d) := by
  have hbase := h.base.2.2
  have hquote := h.quote.2.2
  have hann : t.an2n / 4 ≠ 0 := h.computes.hann.ne'
  have hcube : d ^ 3 ≤ (2 ^ 65) ^ 3 := Nat.pow_le_pow_left (by omega) 3
  have hcalc := h.lt_baseCalc
  refine ⟨Checked.div_eq_ok.mpr ⟨hann, rfl⟩, Checked.add_eq_ok.mpr ⟨?_, rfl⟩,
    cubeU512_eq_ok.mpr ⟨by omega, rfl⟩, Checked.div_eq_ok.mpr ⟨by decide, rfl⟩,
    Checked.div_eq_ok.mpr ⟨by omega, rfl⟩, Checked.div_eq_ok.mpr ⟨hann, rfl⟩⟩
  exact (h.b_lt hd).trans (by omega)

/-- The function, up to the words of its products. -/
theorem Words.stableQuoteAmount_eq (h : t.Words) (fuel : Nat) :
    stableQuoteAmount fuel t.baseReserves t.baseMult t.quoteReserves t.quoteMult t.baseAmount
      t.an2n = t.settle fuel >>= t.pay := by
  have hquote : Checked.mul 64 t.quoteReserves t.quoteMult = .ok t.quoteCalc :=
    Checked.mul_eq_ok.mpr ⟨h.quote.2.2, rfl⟩
  have hbase : Checked.mul 64 t.baseReserves t.baseMult = .ok t.baseInitial :=
    Checked.mul_eq_ok.mpr ⟨h.base.2.2, rfl⟩
  have hamount : Checked.mul 64 t.baseAmount t.baseMult = .ok (t.baseAmount * t.baseMult) :=
    Checked.mul_eq_ok.mpr ⟨h.amount.2, rfl⟩
  have hcalc : addU512 t.baseInitial (t.baseAmount * t.baseMult) = .ok t.baseCalc :=
    Checked.add_eq_ok.mpr ⟨h.baseCalc_lt.trans (by omega), rfl⟩
  unfold stableQuoteAmount settle
  simp only [hquote, hbase, hamount, hcalc, Checked.ok_bind]
  cases hfound : calculateInvariant fuel t.baseInitial t.quoteCalc t.an2n with
  | error e => rfl
  | ok found =>
    cases found with
    | none => rfl
    | some d =>
      have hle : d ≤ t.baseInitial + t.quoteCalc :=
        h.computes.boundary_le (calculateInvariant_spec h.baseInitial_pos h.quoteCalc_pos
          h.computes.amplified hfound).1
      obtain ⟨hdiv, hb, hcube, hquarter, hshare, hc⟩ := h.coefficients hle
      simp only [Checked.ok_bind, hdiv, hb, hcube, hquarter, hshare, hc]
      cases iterateU512 (swapStep (t.b d) (t.c d) d) fuel t.quoteCalc with
      | error e => rfl
      | ok assetTo =>
        simp only [Checked.ok_bind]
        cases calculateInvariant fuel t.baseCalc assetTo t.an2n with
        | error e => rfl
        | ok found =>
          cases found with
          | none => rfl
          | some dNew =>
            have htest : t.test (max dNew d) = fun assetTo => checkExactInvariant t.quoteMult
                t.baseInitial t.quoteCalc t.baseCalc assetTo (max dNew d) t.an2n := rfl
            simp only [Checked.ok_bind, repair, htest]
            cases checkExactInvariant t.quoteMult t.baseInitial t.quoteCalc t.baseCalc assetTo
                (max dNew d) t.an2n with
            | error e => rfl
            | ok verdict =>
              obtain _ | _ | _ := verdict
              · rfl
              · simp only [Checked.ok_bind]
                generalize settleReserve _ 255 assetTo = settled
                obtain _ | _ | _ := settled <;> rfl
              · rfl

/-! ### The reserve -/

/-- The boundary, as an invariant of the reserves before the trade. -/
def Found (t : StableTrade) (d : Nat) : Prop :=
  Boundary t.ann (t.baseInitial + t.quoteCalc) (t.baseInitial * t.quoteCalc) d

theorem Words.found_le (h : t.Words) (hd : t.Found d) : d ≤ t.baseInitial + t.quoteCalc :=
  h.computes.boundary_le hd

/-- The constant of the equation is about the square of the reserves. -/
theorem Words.c_lt (h : t.Words) (hd : t.Found d) : t.c d < 2 ^ 132 := by
  have hann : 0 < t.ann := h.computes.hann
  have hp := h.computes.product_pos
  have hs := four_mul_product_le t.baseInitial t.quoteCalc
  have hbase := h.base.2.2
  have hquote := h.quote.2.2
  have hcalc := h.lt_baseCalc
  have htwo : 2 ≤ d := by
    have hproduct := hd.product_le hann hp hs
    by_contra hlt
    have hone : d ^ 2 ≤ 1 ^ 2 := Nat.pow_le_pow_left (by omega) 2
    omega
  have hbefore := hd.before
  have hshare : cubeShare (t.baseInitial * t.quoteCalc) (d - 1) + 1 ≤
      t.ann * (t.baseInitial + t.quoteCalc) := by
    have hline : d - 1 ≤ (d - 1) * t.ann := Nat.le_mul_of_pos_right _ hann
    unfold shortfall at hbefore
    omega
  have hcube : d ^ 3 ≤ 4 * t.baseCalc * t.ann * (2 ^ 68 * t.quoteCalc) := by
    calc d ^ 3 ≤ (2 * (d - 1)) ^ 3 := Nat.pow_le_pow_left (by omega) 3
      _ = 8 * (d - 1) ^ 3 := by ring
      _ ≤ 8 * (4 * (t.baseInitial * t.quoteCalc) *
            (t.ann * (t.baseInitial + t.quoteCalc))) :=
          Nat.mul_le_mul_left _ ((lt_cubeShare hp).le.trans (Nat.mul_le_mul_left _ hshare))
      _ = 4 * t.baseInitial * t.ann * (8 * (t.baseInitial + t.quoteCalc) * t.quoteCalc) := by
          ring
      _ ≤ 4 * t.baseCalc * t.ann * (2 ^ 68 * t.quoteCalc) :=
          Nat.mul_le_mul (Nat.mul_le_mul_right _ (Nat.mul_le_mul_left _ hcalc.le))
            (Nat.mul_le_mul_right _ (by omega))
  have hle : t.c d ≤ 2 ^ 68 * t.quoteCalc := by
    rw [c, Nat.div_div_eq_div_mul, Nat.div_div_eq_div_mul, ← Nat.mul_assoc]
    exact Nat.div_le_of_le_mul hcube
  omega

theorem Words.neg_lt_offset (h : t.Words) (hd : t.Found d) : -(2 ^ 65 : Int) < t.offset d := by
  have hbase := h.base.2.2
  have hquote := h.quote.2.2
  have hle := h.found_le hd
  unfold offset
  omega

theorem Words.root_lt (h : t.Words) (hd : t.Found d)
    (hroot : ReserveRoot (t.offset d) (t.c d) root) : root < 2 ^ 67 := by
  have hoffset := h.neg_lt_offset hd
  have hc := h.c_lt hd
  have hwithin := hroot.within
  by_contra hge
  have hfactor : (2 ^ 67 : Int) * (2 ^ 67 - 2 ^ 65) ≤ root * (root + t.offset d) :=
    mul_le_mul (by omega) (by omega) (by norm_num) (by omega)
  have hterm : reserveTerm (t.offset d) root = root * (root + t.offset d) := by
    unfold reserveTerm
    ring
  rw [hterm] at hwithin
  omega

/-- The first step from the reserves before the trade divides by something. -/
theorem Words.slope_quote (h : t.Words) (hd : t.Found d) :
    0 < reserveSlope (t.offset d) t.quoteCalc := by
  have hle := h.found_le hd
  have hcalc := h.lt_baseCalc
  have hquote := h.quoteCalc_pos
  have hb : t.baseCalc ≤ t.b d := Nat.le_add_right _ _
  unfold reserveSlope offset
  omega

/-- With something to find, the steps from the reserves on are regular. -/
theorem Words.reserve_regular (h : t.Words) (hd : t.Found d)
    (hne : ¬ (t.offset d = 0 ∧ t.c d = 0)) (fuel : Nat) :
    Checked.Regular (iterateU512 (swapStep (t.b d) (t.c d) d) fuel t.quoteCalc) := by
  obtain ⟨root, hroot⟩ := exists_reserveRoot (t.offset d) (t.c d)
  have hslope := hroot.slope_pos hne
  refine iterateU512_regular (S := fun y => 0 < reserveSlope (t.offset d) y) (fun y hy => ?_)
    (h.slope_quote hd)
  refine ⟨swapStep_regular hy, fun next hnext => ?_⟩
  obtain ⟨-, rfl⟩ := swapStep_eq_ok.mp hnext
  have hlow := hroot.le_next hy
  unfold reserveSlope offset at *
  omega

/-- With nothing to find, the reserve is halved until none is left to divide by. -/
theorem halves_to_zero {y : Nat} (hd : d < 2 ^ 66) (hy : y < 2 ^ 64) : ∃ turns, ∀ fuel,
    turns ≤ fuel → iterateU512 (swapStep d 0 d) fuel y = .error .divisionByZero := by
  induction y using Nat.strong_induction_on with
  | _ y ih =>
    rcases Nat.eq_zero_or_pos y with rfl | hpos
    · refine ⟨1, fun fuel hfuel => ?_⟩
      obtain ⟨rest, rfl⟩ := Nat.exists_eq_add_of_le hfuel
      have hsum : addU512 0 d = .ok d := Checked.add_eq_ok.mpr ⟨by omega, Nat.zero_add d⟩
      have hsub : Checked.sub d d = .ok 0 := Checked.sub_eq_ok.mpr ⟨le_rfl, Nat.sub_self d⟩
      have hsquare : mulU512 0 0 = .ok 0 := Checked.mul_eq_ok.mpr ⟨by omega, rfl⟩
      have hnum : addU512 0 0 = .ok 0 := Checked.add_eq_ok.mpr ⟨by omega, rfl⟩
      have hdouble : mulU512 2 0 = .ok 0 := Checked.mul_eq_ok.mpr ⟨by omega, rfl⟩
      have hstep : swapStep d 0 d 0 = .error .divisionByZero := by
        simp only [swapStep, hsquare, hnum, hdouble, hsum, hsub, Checked.ok_bind]
        rfl
      rw [Nat.add_comm, iterateU512, hstep]
      rfl
    · have hless : y / 2 < y := Nat.div_lt_self hpos (by decide)
      obtain ⟨turns, hrun⟩ := ih (y / 2) hless (hless.trans hy)
      refine ⟨turns + 1, fun fuel hfuel => ?_⟩
      obtain ⟨rest, rfl⟩ := Nat.exists_eq_add_of_le hfuel
      have hsquare : y * y < 2 ^ 64 * 2 ^ 64 := Nat.mul_lt_mul'' hy hy
      have hslope : reserveSlope ((d : Int) - d) y = (2 * y : Nat) := by
        unfold reserveSlope
        omega
      have hhalf : nextReserve ((d : Int) - d) 0 y = y / 2 := by
        rw [nextReserve, hslope, Int.toNat_natCast, Nat.add_zero]
        exact Nat.mul_div_mul_right _ _ hpos
      have hstep : swapStep d 0 d y = .ok (y / 2) :=
        swapStep_eq_ok.mpr ⟨⟨by omega, by omega, by rw [hslope]; omega⟩, hhalf⟩
      rw [show turns + 1 + rest = turns + rest + 1 by omega,
        iterateU512_step hstep hless.ne]
      exact hrun _ (Nat.le_add_right _ _)

/-- The reserve that the iteration ends at is the root. -/
theorem root_of_run
    (hrun : iterateU512 (swapStep (t.b d) (t.c d) d) fuel t.quoteCalc = .ok root) :
    ReserveRoot (t.offset d) (t.c d) root ∧
      (t.c d : Int) + 1 ≠ reserveTerm (t.offset d) (root + 1) := by
  obtain ⟨-, hfixed⟩ := reachesFixed_of_iterateU512
    (fun a b hb => (swapStep_eq_ok.mp hb).2) hrun
  obtain ⟨⟨-, -, hslope⟩, hstays⟩ := swapStep_eq_ok.mp hfixed
  exact reserveRoot_of_fixed hslope hstays

/-- With something to find that is not missed by one, the iteration ends at the root. -/
theorem Words.run_of_root (h : t.Words) (hd : t.Found d)
    (hne : ¬ (t.offset d = 0 ∧ t.c d = 0)) (hroot : ReserveRoot (t.offset d) (t.c d) root)
    (hkeeps : (t.c d : Int) + 1 ≠ reserveTerm (t.offset d) (root + 1)) :
    ∃ turns, ∀ fuel, turns ≤ fuel →
      iterateU512 (swapStep (t.b d) (t.c d) d) fuel t.quoteCalc = .ok root := by
  have hslope := hroot.slope_pos hne
  have hc := h.c_lt hd
  have hb := h.b_lt (h.found_le hd)
  have hlt := h.root_lt hd hroot
  have hquote := h.quote.2.2
  have hends := (hroot.reachesFixed_iff hslope (h.slope_quote hd)).mpr hkeeps
  have habove : ∀ y, root ≤ y → 0 < reserveSlope (t.offset d) y := by
    intro y hy
    unfold reserveSlope at *
    omega
  have hnext : ∀ y, 0 < reserveSlope (t.offset d) y ∧ y ≤ 2 ^ 140 →
      swapStep (t.b d) (t.c d) d y = .ok (nextReserve (t.offset d) (t.c d) y) := by
    rintro y ⟨hy, hle⟩
    have hsquare : y * y ≤ 2 ^ 140 * 2 ^ 140 := Nat.mul_le_mul hle hle
    exact swapStep_eq_ok.mpr ⟨⟨by omega, by omega, hy⟩, rfl⟩
  have hstep : ∀ y, 0 < reserveSlope (t.offset d) y ∧ y ≤ 2 ^ 140 →
      0 < reserveSlope (t.offset d) (nextReserve (t.offset d) (t.c d) y) ∧
        nextReserve (t.offset d) (t.c d) y ≤ 2 ^ 140 := by
    rintro y ⟨hy, hle⟩
    refine ⟨habove _ (hroot.le_next hy), ?_⟩
    rcases lt_trichotomy y root with hbelow | rfl | hgt
    · have hsquare : y * y ≤ 2 ^ 67 * 2 ^ 67 := Nat.mul_le_mul (by omega) (by omega)
      have hdiv : nextReserve (t.offset d) (t.c d) y ≤ y * y + t.c d := Nat.div_le_self _ _
      omega
    · rw [hroot.next_eq hslope, if_neg hkeeps]
      exact hle
    · exact (hroot.next_lt hslope hgt).le.trans hle
  obtain ⟨turns, r, ⟨hr, -⟩, hfixed, hrun⟩ :=
    iterateU512_of_reachesFixed hnext hstep hends ⟨h.slope_quote hd, by omega⟩
  have hsame : r = root := by
    rcases lt_trichotomy r root with hbelow | heq | hgt
    · have hlow := hroot.le_next hr
      omega
    · exact heq
    · exact absurd hfixed (hroot.next_lt hslope hgt).ne
  exact ⟨turns, hsame ▸ hrun⟩

/-! ### Outputs -/

/-- The boundary after the trade, at a reserve. -/
def FoundAfter (t : StableTrade) (assetTo d : Nat) : Prop :=
  Boundary t.ann (t.baseCalc + assetTo) (t.baseCalc * assetTo) d

/-- A result that never stops but for its words, and passes the test where there is an output. -/
structure Sound (t : StableTrade) (result : Nat → Checked (Option Nat)) : Prop where
  regular : ∀ fuel, Checked.Regular (result fuel)
  valid : ∀ fuel output, result fuel = .ok (some output) → output ≤ t.quoteReserves ∧
    ∃ assetTo d, t.settle fuel = .ok (some (assetTo, d)) ∧ assetTo ≤ t.quoteCalc ∧
      output = (t.quoteCalc - assetTo) / t.quoteMult ∧ t.test d assetTo = .ok (some true)

/-- Where all the iterations end, there is something to find, and one of the 256 reserves from the
root on passes the test, before the reserve is what it was. -/
def Repairable (t : StableTrade) : Prop :=
  ∀ d, t.Found d → Crosses t.ann (t.baseInitial + t.quoteCalc) (t.baseInitial * t.quoteCalc) →
    ¬ (t.offset d = 0 ∧ t.c d = 0) ∧
    ∀ root dNew, ReserveRoot (t.offset d) (t.c d) root →
      (t.c d : Int) + 1 ≠ reserveTerm (t.offset d) (root + 1) → 0 < root →
      t.FoundAfter root dNew → Crosses t.ann (t.baseCalc + root) (t.baseCalc * root) →
      2 * t.quoteMult ≤ root →
      ∃ k ≤ 255, root + k ≤ t.quoteCalc ∧ t.test (max dNew d) (root + k) = .ok (some true)

theorem Words.test_regular (h : t.Words) (y : Nat) : Checked.Regular (t.test d y) :=
  checkExactInvariant_regular h.computes.amplified

/-- What the invariant before the trade is, if it is calculated. -/
theorem Words.found_of_run (h : t.Words)
    (hrun : calculateInvariant fuel t.baseInitial t.quoteCalc t.an2n = .ok (some d)) :
    t.Found d ∧ Crosses t.ann (t.baseInitial + t.quoteCalc) (t.baseInitial * t.quoteCalc) := by
  obtain ⟨hd, hends, -⟩ := calculateInvariant_spec h.baseInitial_pos h.quoteCalc_pos
    h.computes.amplified hrun
  exact ⟨hd, (reachesFixed_newton_iff h.computes.hann h.computes.product_pos
    (four_mul_product_le _ _)).mp hends⟩

theorem Words.foundAfter_of_run (h : t.Words) {assetTo : Nat} (hpos : 0 < assetTo)
    (hrun : calculateInvariant fuel t.baseCalc assetTo t.an2n = .ok (some d)) :
    t.FoundAfter assetTo d ∧ Crosses t.ann (t.baseCalc + assetTo) (t.baseCalc * assetTo) := by
  have hcalc : 0 < t.baseCalc := (Nat.zero_le _).trans_lt h.lt_baseCalc
  obtain ⟨hd, hends, -⟩ := calculateInvariant_spec hcalc hpos h.computes.amplified hrun
  exact ⟨hd, (reachesFixed_newton_iff h.computes.hann (Nat.mul_pos hcalc hpos)
    (four_mul_product_le _ _)).mp hends⟩

/-- What a trade that settles has gone through. -/
theorem Words.settle_spec (h : t.Words) {assetTo dAfter : Nat}
    (hsettled : t.settle fuel = .ok (some (assetTo, dAfter))) : ∃ d root dNew,
      (t.Found d ∧ Crosses t.ann (t.baseInitial + t.quoteCalc) (t.baseInitial * t.quoteCalc)) ∧
      (ReserveRoot (t.offset d) (t.c d) root ∧
        (t.c d : Int) + 1 ≠ reserveTerm (t.offset d) (root + 1)) ∧ 0 < root ∧
      (t.FoundAfter root dNew ∧ Crosses t.ann (t.baseCalc + root) (t.baseCalc * root)) ∧
      2 * t.quoteMult ≤ root ∧ dAfter = max dNew d ∧
      repair (t.test dAfter) root = .ok (some assetTo) := by
  obtain ⟨found, hfound, hsettled⟩ := Checked.bind_eq_ok.mp hsettled
  cases found with
  | none => cases Checked.pure_eq_ok.mp hsettled
  | some d =>
    obtain ⟨root, hrun, hsettled⟩ := Checked.bind_eq_ok.mp hsettled
    obtain ⟨after, hafter, hsettled⟩ := Checked.bind_eq_ok.mp hsettled
    cases after with
    | none => cases Checked.pure_eq_ok.mp hsettled
    | some dNew =>
      obtain ⟨repaired, hrepair, hsettled⟩ := Checked.bind_eq_ok.mp hsettled
      obtain ⟨_, rfl, hpair⟩ := Option.map_eq_some_iff.mp (Checked.pure_eq_ok.mp hsettled)
      cases hpair
      have hpos : 0 < root := by
        apply Nat.pos_of_ne_zero
        rintro rfl
        simp only [calculateInvariant, or_true, true_or, if_true] at hafter
        cases Checked.pure_eq_ok.mp hafter
      have hmult : 2 * t.quoteMult ≤ root := by
        obtain ⟨verdict, hverdict, hrest⟩ := Checked.bind_eq_ok.mp hrepair
        cases verdict with
        | none => cases Checked.pure_eq_ok.mp hrest
        | some passes => exact checkExactInvariant_le hverdict
      exact ⟨d, root, dNew, h.found_of_run hfound, root_of_run hrun, hpos,
        h.foundAfter_of_run hpos hafter, hmult, rfl, hrepair⟩

/-- With a reserve that passes in reach, the trade settles at one that passes. -/
theorem Words.settle_passes (h : t.Words) (hrepairs : t.Repairable) {assetTo dAfter : Nat}
    (hsettled : t.settle fuel = .ok (some (assetTo, dAfter))) :
    assetTo ≤ t.quoteCalc ∧ t.test dAfter assetTo = .ok (some true) := by
  obtain ⟨d, root, dNew, ⟨hfound, hcross⟩, ⟨hroot, hkeeps⟩, hpos, ⟨hafter, hcrossAfter⟩, hmult, rfl,
    hrepair⟩ := h.settle_spec hsettled
  obtain ⟨k, hk, hle, hpasses⟩ :=
    (hrepairs d hfound hcross).2 root dNew hroot hkeeps hpos hafter hcrossAfter hmult
  obtain ⟨hpass, hbound⟩ := repair_passes hrepair hk hpasses
  exact ⟨hbound.trans hle, hpass⟩

theorem Words.settle_regular (h : t.Words) (hrepairs : t.Repairable) (fuel : Nat) :
    Checked.Regular (t.settle fuel) := by
  refine Checked.regular_bind (calculateInvariant_regular h.computes.amplified fuel)
    fun found hfound => ?_
  cases found with
  | none => exact Checked.regular_pure
  | some d =>
    obtain ⟨hd, hcross⟩ := h.found_of_run hfound
    refine Checked.regular_bind (h.reserve_regular hd (hrepairs d hd hcross).1 fuel)
      fun root _ => Checked.regular_bind
      (calculateInvariant_regular h.computes.amplified fuel) fun after _ => ?_
    cases after with
    | none => exact Checked.regular_pure
    | some dNew => exact Checked.regular_bind (repair_regular h.test_regular) fun _ _ =>
        Checked.regular_pure

theorem Repairable.sound (h : t.Words) (hrepairs : t.Repairable) :
    t.Sound fun fuel => t.settle fuel >>= t.pay where
  regular fuel := by
    refine Checked.regular_bind (h.settle_regular hrepairs fuel) fun settled hsettled => ?_
    obtain _ | ⟨assetTo, dAfter⟩ := settled
    · exact Checked.regular_pure
    · obtain ⟨hle, -⟩ := h.settle_passes hrepairs hsettled
      refine Checked.regular_bind (Checked.regular_sub hle) fun _ _ =>
        Checked.regular_bind (Checked.regular_div h.quote.2.1.ne') fun output _ => ?_
      split
      · exact Checked.regular_pure
      · exact fun e he hover => he (Except.error.inj hover).symm
  valid fuel output hresult := by
    obtain ⟨settled, hsettled, hpaid⟩ := Checked.bind_eq_ok.mp hresult
    obtain _ | ⟨assetTo, dAfter⟩ := settled
    · cases Checked.pure_eq_ok.mp hpaid
    · obtain ⟨hle, hpasses⟩ := h.settle_passes hrepairs hsettled
      simp only [pay, Checked.bind_eq_ok, Checked.sub_eq_ok, Checked.div_eq_ok] at hpaid
      obtain ⟨_, ⟨-, rfl⟩, _, ⟨-, rfl⟩, hpaid⟩ := hpaid
      split at hpaid
      · cases Checked.pure_eq_ok.mp hpaid
        refine ⟨?_, assetTo, dAfter, hsettled, hle, rfl, hpasses⟩
        apply Nat.div_le_of_le_mul
        rw [Nat.mul_comm]
        exact Nat.sub_le _ _
      · cases hpaid

/-- The trade settles, with enough fuel, where its iterations end. -/
theorem Words.settles (h : t.Words) {dNew : Nat} (hd : t.Found d)
    (hcross : Crosses t.ann (t.baseInitial + t.quoteCalc) (t.baseInitial * t.quoteCalc))
    (hne : ¬ (t.offset d = 0 ∧ t.c d = 0)) (hroot : ReserveRoot (t.offset d) (t.c d) root)
    (hkeeps : (t.c d : Int) + 1 ≠ reserveTerm (t.offset d) (root + 1)) (hpos : 0 < root)
    (hafter : t.FoundAfter root dNew)
    (hcrossAfter : Crosses t.ann (t.baseCalc + root) (t.baseCalc * root))
    (hmult : 2 * t.quoteMult ≤ root) : ∃ fuel assetTo,
      t.settle fuel = .ok (some (assetTo, max dNew d)) ∧
      repair (t.test (max dNew d)) root = .ok (some assetTo) := by
  have hcalc := h.baseCalc_lt
  have hlt := h.root_lt hd hroot
  have hquote := h.quote
  have hbase := h.base.2.2
  have hcomputes : Computes t.baseCalc root t.an2n := {
    pos := ⟨(Nat.zero_le _).trans_lt h.lt_baseCalc, hpos⟩
    words := ⟨by omega, by omega⟩
    amplified := h.computes.amplified
    fits := invariantFits_of_word (by omega) (by omega) h.amplified.2 }
  have hdle := h.found_le hd
  have hdNew := hcomputes.boundary_le hafter
  have hquoteMult : t.quoteMult ≤ t.quoteCalc := Nat.le_mul_of_pos_left _ hquote.1
  have htests : ∀ k, k ≤ 255 → ∃ passes, t.test (max dNew d) (root + k) = .ok (some passes) := by
    intro k hk
    have hverdict := checkExactInvariant_eq (d := max dNew d) h.computes.amplified h.amplified.2
      (show t.quoteMult < 2 ^ 64 by omega)
      (show t.baseInitial < 2 ^ 128 ∧ t.quoteCalc < 2 ^ 128 by omega)
      (show t.baseCalc < 2 ^ 128 ∧ root + k < 2 ^ 128 by omega) (by omega)
    rw [if_pos (by omega)] at hverdict
    exact ⟨_, hverdict⟩
  obtain ⟨assetTo, hrepair⟩ := repair_ok htests (by omega)
  obtain ⟨turns, hfound⟩ := h.computes.calculates hcross hd
  obtain ⟨turns', hrun⟩ := h.run_of_root hd hne hroot hkeeps
  obtain ⟨turns'', hfoundAfter⟩ := hcomputes.calculates hcrossAfter hafter
  refine ⟨max turns (max turns' turns''), assetTo, ?_, hrepair⟩
  refine Checked.bind_eq_ok.mpr ⟨_, hfound _ (by omega), Checked.bind_eq_ok.mpr ⟨_,
    hrun _ (by omega), Checked.bind_eq_ok.mpr ⟨_, hfoundAfter _ (by omega),
      Checked.bind_eq_ok.mpr ⟨_, hrepair, rfl⟩⟩⟩⟩

theorem Sound.repairable (h : t.Words) (hsound : t.Sound fun fuel => t.settle fuel >>= t.pay) :
    t.Repairable := by
  intro d hd hcross
  have hne : ¬ (t.offset d = 0 ∧ t.c d = 0) := by
    rintro ⟨hoffset, hc⟩
    obtain ⟨turns, hfound⟩ := h.computes.calculates hcross hd
    have hb : t.b d = d := by
      unfold offset at hoffset
      omega
    have hbase := h.base.2.2
    have hquote := h.quote.2.2
    have hdle := h.found_le hd
    obtain ⟨turns', hrun⟩ := halves_to_zero (d := d) (y := t.quoteCalc) (by omega) hquote
    have hstops : t.settle (max turns turns') = .error .divisionByZero := by
      simp only [settle, hfound _ (Nat.le_max_left _ _), Checked.ok_bind, hb, hc,
        hrun _ (Nat.le_max_right _ _)]
      rfl
    refine hsound.regular (max turns turns') .divisionByZero (fun he => by cases he) ?_
    simp only [hstops]
    rfl
  refine ⟨hne, fun root dNew hroot hkeeps hpos hafter hcrossAfter hmult => ?_⟩
  obtain ⟨fuel, assetTo, hsettled, hrepair⟩ :=
    h.settles hd hcross hne hroot hkeeps hpos hafter hcrossAfter hmult
  have hle : assetTo ≤ t.quoteCalc := by
    by_contra hover
    refine hsound.regular fuel .underflow (fun he => by cases he) ?_
    have hsub : Checked.sub t.quoteCalc assetTo = .error .underflow := if_neg hover
    simp only [hsettled, Checked.ok_bind, pay, hsub]
    rfl
  have hlt : (t.quoteCalc - assetTo) / t.quoteMult < 2 ^ 64 :=
    ((Nat.div_le_self _ _).trans (Nat.sub_le _ _)).trans_lt h.quote.2.2
  have hpaid : (t.settle fuel >>= t.pay) =
      .ok (some ((t.quoteCalc - assetTo) / t.quoteMult)) := by
    refine Checked.bind_eq_ok.mpr ⟨_, hsettled, ?_⟩
    refine Checked.bind_eq_ok.mpr ⟨_, Checked.sub_eq_ok.mpr ⟨hle, rfl⟩, ?_⟩
    refine Checked.bind_eq_ok.mpr ⟨_, Checked.div_eq_ok.mpr ⟨h.quote.2.1.ne', rfl⟩, ?_⟩
    exact if_pos hlt
  obtain ⟨-, settled, dAfter, hsettled', -, -, hpasses⟩ := hsound.valid fuel _ hpaid
  cases hsettled.symm.trans hsettled'
  obtain ⟨k, hk, rfl, -, -⟩ := repair_spec hrepair
  exact ⟨k, hk, hle, hpasses⟩

variable (pair : Pair) (reservesX xMult reservesY yMult : Nat) (baseAsset : AssetClass)
  (baseAmount an2n : Nat)

theorem calcStableSwap_eq {t : StableTrade}
    (ht : of pair reservesX xMult reservesY yMult baseAsset baseAmount an2n = t) (h : t.Words) :
    (fun fuel => calcStableSwap fuel pair reservesX xMult reservesY yMult baseAsset baseAmount
      an2n) = fun fuel => t.settle fuel >>= t.pay := by
  funext fuel
  rw [← h.stableQuoteAmount_eq fuel]
  have hamp := h.amplified.1
  subst ht
  unfold of at hamp ⊢
  unfold calcStableSwap
  split at hamp
  · rename_i heq
    dsimp only at hamp
    rw [if_neg (by omega), if_pos heq, if_pos heq]
  · rename_i hne
    dsimp only at hamp
    rw [if_neg (by omega), if_neg hne, if_neg hne]

/-- The outputs of a trade pass the test exactly if it can be repaired. -/
theorem calcStableSwap_sound_iff {t : StableTrade}
    (ht : of pair reservesX xMult reservesY yMult baseAsset baseAmount an2n = t) (h : t.Words) :
    t.Sound (fun fuel => calcStableSwap fuel pair reservesX xMult reservesY yMult baseAsset
      baseAmount an2n) ↔ t.Repairable := by
  rw [calcStableSwap_eq pair reservesX xMult reservesY yMult baseAsset baseAmount an2n ht h]
  exact ⟨fun hsound => hsound.repairable h, fun hrepairs => hrepairs.sound h⟩

/-- The reserve of one unit more passes where the root fails. -/
theorem calcStableSwap_sound_sample :
    (StableTrade.mk 1000 1 1000 1 10 400).Sound fun fuel =>
      calcStableSwap fuel ⟨.native, .token (sampleToken 1)⟩ 1000 1 1000 1 .native 10 400 := by
  refine (calcStableSwap_sound_iff _ _ _ _ _ _ _ _ (if_pos rfl) ?_).mpr ?_
  · exact ⟨by decide, by decide, by decide, by decide⟩
  · intro d hd hcross
    have hbefore : (StableTrade.mk 1000 1 1000 1 10 400).Found 2000 := ⟨by decide, by decide⟩
    cases hd.unique (by decide) hbefore
    refine ⟨by decide, fun root dNew hroot hkeeps hpos hafter hcrossAfter hmult => ?_⟩
    have hends : ReserveRoot (-970) 19801 990 := ⟨by decide, by decide⟩
    cases hroot.unique hends
    have hnew : (StableTrade.mk 1000 1 1000 1 10 400).FoundAfter 990 2000 :=
      ⟨by decide, by decide⟩
    cases hafter.unique (by decide) hnew
    exact ⟨1, by decide, by decide, by decide +kernel⟩

/-- After 255 failed attempts the trade pays out all the same. -/
theorem calcStableSwap_pays_untested : ¬ ∀ (pair : Pair) (reservesX xMult reservesY yMult : Nat)
    (baseAsset : AssetClass) (baseAmount an2n : Nat) (t : StableTrade),
    of pair reservesX xMult reservesY yMult baseAsset baseAmount an2n = t → t.Words →
      t.Sound fun fuel => calcStableSwap fuel pair reservesX xMult reservesY yMult baseAsset
        baseAmount an2n := by
  intro h
  have hsound := h ⟨.native, .token (sampleToken 1)⟩ 91 1 289547571 100 .native 8 16
    ⟨91, 1, 289547571, 100, 8, 16⟩ (if_pos rfl) ⟨by decide, by decide, by decide, by decide⟩
  obtain ⟨-, assetTo, d, hsettled, -, -, hpasses⟩ :=
    hsound.valid 100 11928748 (by decide +kernel)
  have hends : StableTrade.settle 100 ⟨91, 1, 289547571, 100, 8, 16⟩ =
      .ok (some (27761882205, 106774156)) := by decide +kernel
  cases hends.symm.trans hsettled
  exact absurd hpasses (by decide +kernel)

end StableTrade

end UtxoMonitor.Pools
