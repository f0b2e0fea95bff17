import UtxoMonitor.Pools.StableSwap
import UtxoMonitor.Pools.StableTrades
import Mathlib.Order.Bounds.Basic

/-! The invariant that the redeemer of a swap of a stable pool carries. -/
namespace UtxoMonitor.Pools

open Lib LiquidityBook

/-! ### The calculation -/

/-- What is tradable before and after a swap, by its part in the swap. -/
structure TradedReserves where
  base0 : Nat
  base1 : Nat
  baseMult : Nat
  quote0 : Nat
  quote1 : Nat
  quoteMult : Nat
  quoteLpFee : Nat

/-- The arguments of the test of an invariant. -/
structure ContextValues where
  baseInit : Nat
  quoteInit : Nat
  baseAfterCalc : Nat
  quoteAfterCalc : Nat
  quoteMult : Nat
deriving DecidableEq

/-- The base is x where there is more of it than before, and y elsewhere. -/
def StablePoolT2T.traded (prevState : StablePoolT2T) (x0 y0 x1 y1 : Nat) : TradedReserves :=
  if x0 < x1 then
    { base0 := x0
      base1 := x1
      baseMult := prevState.multiplierX
      quote0 := y0
      quote1 := y1
      quoteMult := prevState.multiplierY
      quoteLpFee := prevState.lpFeeY.numer }
  else
    { base0 := y0
      base1 := y1
      baseMult := prevState.multiplierY
      quote0 := x0
      quote1 := x1
      quoteMult := prevState.multiplierX
      quoteLpFee := prevState.lpFeeX.numer }

namespace TradedReserves

def contextValues (r : TradedReserves) (denom : Nat) : Checked ContextValues := do
  let baseInit ← mulU512 r.base0 r.baseMult
  let quoteInit ← mulU512 r.quote0 r.quoteMult
  let baseAfterCalc ← mulU512 r.base1 r.baseMult
  let quoteDelta ← Checked.sub r.quote0 r.quote1
  let lpFees ← Checked.div (← mulU512 quoteDelta r.quoteLpFee) (← Checked.sub denom r.quoteLpFee)
  let quoteNoLpFees ← Checked.sub (← Checked.sub r.quote1 lpFees) 1
  let quoteAfterCalc ← mulU512 quoteNoLpFees r.quoteMult
  return {
    baseInit := baseInit
    quoteInit := quoteInit
    baseAfterCalc := baseAfterCalc
    quoteAfterCalc := quoteAfterCalc
    quoteMult := r.quoteMult }

end TradedReserves

def ContextValues.test (v : ContextValues) (an2n inv : Nat) : Checked (Option Bool) :=
  checkExactInvariant v.quoteMult v.baseInit v.quoteInit v.baseAfterCalc v.quoteAfterCalc inv an2n

/-- The first value from `inv` on that passes the test. -/
def searchExact (test : Nat → Checked (Option Bool)) : (fuel : Nat) → Nat → Checked (Option Nat)
  | 0, _ => .error .overflow
  | fuel + 1, inv => do
    match ← test inv with
    | none => return none
    | some true => return some inv
    | some false => searchExact test fuel (← addU512 inv 1)

def contextValuesOf (prevState newState : StablePoolT2T) : Checked ContextValues := do
  let x0 ← Checked.sub prevState.reservesX prevState.treasuryX
  let y0 ← Checked.sub prevState.reservesY prevState.treasuryY
  let x1 ← Checked.sub newState.reservesX newState.treasuryX
  let y1 ← Checked.sub newState.reservesY newState.treasuryY
  (prevState.traded x0 y0 x1 y1).contextValues prevState.lpFeeY.denom

def calculateContextValuesList (fuel : Nat) (prevState newState : StablePoolT2T) :
    Checked (Option Nat) := do
  let values ← contextValuesOf prevState newState
  match ← calculateInvariant fuel values.baseInit values.quoteInit prevState.an2n with
  | none => return none
  | some inv => searchExact (values.test prevState.an2n) fuel inv

/-! ### The search -/

section

variable {test : Nat → Checked (Option Bool)} {fuel d inv : Nat}

theorem searchExact_spec (h : searchExact test fuel d = .ok (some inv)) :
    d ≤ inv ∧ test inv = .ok (some true) := by
  induction fuel generalizing d with
  | zero => cases h
  | succ fuel ih =>
    obtain ⟨verdict, hverdict, h⟩ := Checked.bind_eq_ok.mp h
    obtain _ | _ | _ := verdict
    · cases Checked.pure_eq_ok.mp h
    · obtain ⟨_, hadd, h⟩ := Checked.bind_eq_ok.mp h
      obtain ⟨-, rfl⟩ := Checked.add_eq_ok.mp hadd
      obtain ⟨hle, hpasses⟩ := ih h
      exact ⟨by omega, hpasses⟩
    · cases Checked.pure_eq_ok.mp h
      exact ⟨le_rfl, hverdict⟩

theorem searchExact_more {fuel' : Nat} (h : searchExact test fuel d = .ok (some inv))
    (hle : fuel ≤ fuel') : searchExact test fuel' d = .ok (some inv) := by
  induction fuel generalizing d fuel' with
  | zero => cases h
  | succ fuel ih =>
    obtain ⟨fuel', rfl⟩ := Nat.exists_eq_add_of_le hle
    obtain ⟨verdict, hverdict, h⟩ := Checked.bind_eq_ok.mp h
    rw [Nat.succ_add]
    refine Checked.bind_eq_ok.mpr ⟨verdict, hverdict, ?_⟩
    obtain _ | _ | _ := verdict
    · exact h
    · obtain ⟨next, hadd, h⟩ := Checked.bind_eq_ok.mp h
      exact Checked.bind_eq_ok.mpr ⟨next, hadd, ih h (Nat.le_add_right _ _)⟩
    · exact h

/-- The search ends at a value that passes where all before it fail. -/
theorem searchExact_ok (hle : d ≤ inv) (hfits : inv < 2 ^ 512)
    (hfails : ∀ e, d ≤ e → e < inv → test e = .ok (some false))
    (hpasses : test inv = .ok (some true)) (hfuel : inv - d < fuel) :
    searchExact test fuel d = .ok (some inv) := by
  induction fuel generalizing d with
  | zero => omega
  | succ fuel ih =>
    rcases Nat.eq_or_lt_of_le hle with rfl | hlt
    · exact Checked.bind_eq_ok.mpr ⟨_, hpasses, rfl⟩
    · refine Checked.bind_eq_ok.mpr ⟨_, hfails d le_rfl hlt, ?_⟩
      refine Checked.bind_eq_ok.mpr ⟨_, Checked.add_eq_ok.mpr ⟨by omega, rfl⟩, ?_⟩
      exact ih hlt (fun e he => hfails e (by omega)) (by omega)

end

/-! ### The window -/

section

variable {an2n base quote d e : Nat}

theorem exactLeft_mono (h : d ≤ e) : exactLeft an2n base quote d ≤ exactLeft an2n base quote e :=
  Nat.add_le_add (Nat.pow_le_pow_left h 3) (Nat.mul_le_mul_left _ h)

/-- The sum of the reserves is no less than their invariant. -/
theorem exactRight_le_sum (hamp : 4 ≤ an2n) :
    exactRight an2n base quote ≤ exactLeft an2n base quote (base + quote) := by
  obtain ⟨rest, rfl⟩ := Nat.exists_eq_add_of_le hamp
  have hsquare := Nat.mul_le_mul_right (base + quote) (four_mul_product_le base quote)
  unfold exactRight exactLeft
  calc (4 + rest) * (base * quote) * (base + quote)
      = 4 * (base * quote) * (base + quote) + rest * (base * quote) * (base + quote) := by ring
    _ ≤ (base + quote) ^ 2 * (base + quote) + rest * (base * quote) * (base + quote) :=
        Nat.add_le_add_right hsquare _
    _ = (base + quote) ^ 3 + (4 + rest - 4) * (base * quote) * (base + quote) := by
        rw [Nat.add_sub_cancel_left]
        ring

end

namespace TradedReserves

def baseInit (r : TradedReserves) : Nat := r.base0 * r.baseMult

def quoteInit (r : TradedReserves) : Nat := r.quote0 * r.quoteMult

def baseAfter (r : TradedReserves) : Nat := r.base1 * r.baseMult

/-- The fees of the liquidity providers, as they are read off the reserves. -/
def lpFees (r : TradedReserves) : Nat :=
  (r.quote0 - r.quote1) * r.quoteLpFee / (feeDen - r.quoteLpFee)

def quoteAfter (r : TradedReserves) : Nat := (r.quote1 - r.lpFees - 1) * r.quoteMult

/-- The values from the boundary before the swap on that are no less than the invariant before it,
and than that of the quote reserve after it less the error. -/
def Candidates (r : TradedReserves) (an2n d : Nat) : Set Nat :=
  {inv | d ≤ inv ∧ exactRight an2n r.baseInit r.quoteInit ≤
      exactLeft an2n r.baseInit r.quoteInit inv ∧
    exactRight an2n r.baseAfter (r.quoteAfter - 2 * r.quoteMult) ≤
      exactLeft an2n r.baseAfter (r.quoteAfter - 2 * r.quoteMult) inv}

/-- The fees leave more of the quote reserve than the error, and the least candidate is no more than
the invariant after the swap. -/
structure Searchable (r : TradedReserves) (an2n : Nat) : Prop where
  left : r.lpFees + 1 ≤ r.quote1
  error : 2 * r.quoteMult ≤ r.quoteAfter
  window : ∀ d inv, Boundary (an2n / 4) (r.baseInit + r.quoteInit) (r.baseInit * r.quoteInit) d →
    IsLeast (r.Candidates an2n d) inv →
      exactLeft an2n r.baseAfter r.quoteAfter inv ≤ exactRight an2n r.baseAfter r.quoteAfter

/-- Reserves of a pool whose invariant before the swap is calculated. -/
structure Words (r : TradedReserves) (an2n : Nat) : Prop where
  init : r.baseInit < 2 ^ 64 ∧ r.quoteInit < 2 ^ 64
  after : r.base1 < 2 ^ 64 ∧ r.quote1 ≤ r.quote0 ∧ r.quote0 < 2 ^ 64
  mults : r.baseMult < 2 ^ 64 ∧ r.quoteMult < 2 ^ 64
  fee : r.quoteLpFee < feeDen
  amplified : an2n < 2 ^ 64
  computes : Computes r.baseInit r.quoteInit an2n
  crosses : Crosses (an2n / 4) (r.baseInit + r.quoteInit) (r.baseInit * r.quoteInit)

variable {r : TradedReserves} {an2n d fuel inv : Nat}

theorem Words.baseAfter_lt (h : r.Words an2n) : r.baseAfter < 2 ^ 128 := by
  calc r.baseAfter < 2 ^ 64 * 2 ^ 64 := Nat.mul_lt_mul'' h.after.1 h.mults.1
    _ = 2 ^ 128 := by rw [← Nat.pow_add]

theorem Words.quoteAfter_le (h : r.Words an2n) : r.quoteAfter ≤ r.quoteInit := by
  apply Nat.mul_le_mul_right
  exact ((Nat.sub_le _ _).trans (Nat.sub_le _ _)).trans h.after.2.1

/-- There is a candidate, of no more than the reserves. -/
theorem Words.exists_least (h : r.Words an2n) (hd : d ≤ r.baseInit + r.quoteInit) :
    ∃ inv, IsLeast (r.Candidates an2n d) inv ∧ inv < 2 ^ 130 := by
  have hbase := h.init.1
  have hquote := h.init.2
  have hafter := h.baseAfter_lt
  have hle := h.quoteAfter_le
  have hex : r.baseInit + r.quoteInit + (r.baseAfter + (r.quoteAfter - 2 * r.quoteMult)) ∈
      r.Candidates an2n d :=
    ⟨hd.trans (Nat.le_add_right _ _),
      (exactRight_le_sum h.computes.amplified).trans (exactLeft_mono (Nat.le_add_right _ _)),
      (exactRight_le_sum h.computes.amplified).trans (exactLeft_mono (Nat.le_add_left _ _))⟩
  have hne : ∃ inv, inv ∈ r.Candidates an2n d := ⟨_, hex⟩
  classical
  refine ⟨Nat.find hne, ⟨Nat.find_spec hne, fun e he => Nat.find_min' hne he⟩, ?_⟩
  have hbound := Nat.find_min' hne hex
  omega

/-- The values, where the fees leave some of the quote reserve. -/
theorem Words.contextValues_eq_ok (h : r.Words an2n) {values : ContextValues} :
    r.contextValues feeDen = .ok values ↔ r.lpFees + 1 ≤ r.quote1 ∧
      (⟨r.baseInit, r.quoteInit, r.baseAfter, r.quoteAfter, r.quoteMult⟩ : ContextValues) =
        values := by
  have hbase := h.init.1
  have hquote := h.init.2
  have hafter := h.baseAfter_lt
  have hle := h.quoteAfter_le
  obtain ⟨-, hpaid, hlt⟩ := h.after
  have hfee := h.fee
  have hden : feeDen = 100000 := rfl
  have hdelta : (r.quote0 - r.quote1) * r.quoteLpFee ≤ 2 ^ 64 * 100000 :=
    Nat.mul_le_mul (by omega) (by omega)
  simp only [contextValues, mulU512, Checked.bind_eq_ok, Checked.mul_eq_ok, Checked.sub_eq_ok,
    Checked.div_eq_ok, Checked.pure_eq_ok]
  constructor
  · rintro ⟨_, ⟨-, rfl⟩, _, ⟨-, rfl⟩, _, ⟨-, rfl⟩, _, ⟨-, rfl⟩, _, ⟨-, rfl⟩, _, ⟨-, rfl⟩, _,
      ⟨-, rfl⟩, _, ⟨hfees, rfl⟩, _, ⟨hleft, rfl⟩, _, ⟨-, rfl⟩, rfl⟩
    refine ⟨?_, rfl⟩
    unfold lpFees
    omega
  · rintro ⟨hleft, rfl⟩
    unfold lpFees at hleft
    exact ⟨_, ⟨hbase.trans (by omega), rfl⟩, _, ⟨hquote.trans (by omega), rfl⟩, _,
      ⟨hafter.trans (by omega), rfl⟩, _, ⟨hpaid, rfl⟩, _, ⟨by omega, rfl⟩, _, ⟨hfee.le, rfl⟩, _,
      ⟨by omega, rfl⟩, _, ⟨by omega, rfl⟩, _, ⟨by omega, rfl⟩, _,
      ⟨hle.trans_lt (hquote.trans (by omega)), rfl⟩, rfl⟩

/-- The test of the values, as a verdict. -/
theorem Words.test_eq (h : r.Words an2n) (hinv : inv < 2 ^ 130) :
    (⟨r.baseInit, r.quoteInit, r.baseAfter, r.quoteAfter, r.quoteMult⟩ : ContextValues).test an2n
      inv = .ok (if 2 * r.quoteMult ≤ r.quoteAfter then
        some (decide (exactRight an2n r.baseInit r.quoteInit ≤
            exactLeft an2n r.baseInit r.quoteInit inv ∧
          exactLeft an2n r.baseAfter r.quoteAfter inv ≤ exactRight an2n r.baseAfter r.quoteAfter ∧
          exactRight an2n r.baseAfter (r.quoteAfter - 2 * r.quoteMult) ≤
            exactLeft an2n r.baseAfter (r.quoteAfter - 2 * r.quoteMult) inv))
      else none) := by
  have hbase := h.init.1
  have hquote := h.init.2
  have hle := h.quoteAfter_le
  exact checkExactInvariant_eq h.computes.amplified h.amplified h.mults.2
    ⟨hbase.trans (by decide), hquote.trans (by decide)⟩
    ⟨h.baseAfter_lt, (hle.trans_lt hquote).trans (by decide)⟩ hinv

/-- The search from the boundary on finds a value exactly if the error is within the reserve, and
the least candidate is no more than the invariant after the swap. -/
theorem Words.search_iff (h : r.Words an2n) {boundary : Nat}
    (hboundary : Boundary (an2n / 4) (r.baseInit + r.quoteInit) (r.baseInit * r.quoteInit)
      boundary) :
    (∃ fuel inv, searchExact ((⟨r.baseInit, r.quoteInit, r.baseAfter, r.quoteAfter,
        r.quoteMult⟩ : ContextValues).test an2n) fuel boundary = .ok (some inv)) ↔
      2 * r.quoteMult ≤ r.quoteAfter ∧ ∀ inv, IsLeast (r.Candidates an2n boundary) inv →
        exactLeft an2n r.baseAfter r.quoteAfter inv ≤ exactRight an2n r.baseAfter r.quoteAfter := by
  constructor
  · rintro ⟨fuel, found, hsearch⟩
    obtain ⟨hle, hpasses⟩ := searchExact_spec hsearch
    obtain ⟨hreaches, hkeeps, hshifted⟩ := checkExactInvariant_passes hpasses
    refine ⟨checkExactInvariant_le hpasses, fun inv hinv => ?_⟩
    exact (exactLeft_mono (hinv.2 ⟨hle, hreaches, hshifted⟩)).trans hkeeps
  · rintro ⟨herror, hwindow⟩
    have hsum := h.computes.boundary_le hboundary
    obtain ⟨inv, hinv, hlt⟩ := h.exists_least hsum
    obtain ⟨⟨hle, hreaches, hshifted⟩, hleast⟩ := id hinv
    refine ⟨inv - boundary + 1, inv, searchExact_ok hle (hlt.trans (by omega)) ?_ ?_
      (Nat.lt_succ_self _)⟩
    · intro e hge hbelow
      rw [h.test_eq (hbelow.trans hlt), if_pos herror, decide_eq_false]
      rintro ⟨hreaches', -, hshifted'⟩
      exact absurd (hleast ⟨hge, hreaches', hshifted'⟩) (not_le.mpr hbelow)
    · rw [h.test_eq hlt, if_pos herror, decide_eq_true ⟨hreaches, hwindow inv hinv, hshifted⟩]

end TradedReserves

/-! ### Parsed pools -/

/-- The numbers of a datum are words. -/
theorem StablePoolT2TConfig.words {pd : PlutusData} {conf : StablePoolT2TConfig}
    (h : StablePoolT2TConfig.tryFromPd pd = some conf) :
    conf.an2n < 2 ^ 64 ∧ conf.multiplierX < 2 ^ 64 ∧ conf.multiplierY < 2 ^ 64 := by
  obtain ⟨⟨_, fields⟩, -, h⟩ := Option.bind_eq_some_iff.mp h
  obtain ⟨poolNft, -, h⟩ := Option.bind_eq_some_iff.mp h
  obtain ⟨an2n, hamp, h⟩ := Option.bind_eq_some_iff.mp h
  obtain ⟨assetX, -, h⟩ := Option.bind_eq_some_iff.mp h
  obtain ⟨assetY, -, h⟩ := Option.bind_eq_some_iff.mp h
  obtain ⟨multX, hx, h⟩ := Option.bind_eq_some_iff.mp h
  obtain ⟨multY, hy, h⟩ := Option.bind_eq_some_iff.mp h
  obtain ⟨assetLq, -, h⟩ := Option.bind_eq_some_iff.mp h
  obtain ⟨lpFee, -, h⟩ := Option.bind_eq_some_iff.mp h
  obtain ⟨treasuryFee, -, h⟩ := Option.bind_eq_some_iff.mp h
  obtain ⟨treasuryX, -, h⟩ := Option.bind_eq_some_iff.mp h
  obtain ⟨treasuryY, -, h⟩ := Option.bind_eq_some_iff.mp h
  cases h
  exact ⟨u64At_lt hamp, u64At_lt hx, u64At_lt hy⟩

namespace StablePoolT2T

variable {p p' : StablePoolT2T} {input : OnSide Nat} {fuel : Nat}

/-- The numbers that are read from the datum are words, and there is one fee. -/
structure DatumWords (p : StablePoolT2T) : Prop where
  amplified : p.an2n < 2 ^ 64
  mults : p.multiplierX < 2 ^ 64 ∧ p.multiplierY < 2 ^ 64
  oneFee : p.lpFeeX = p.lpFeeY
  denom : p.lpFeeY.denom = feeDen

theorem datumWords_of_parsed {repr : TransactionOutput} {ctx : PoolContext}
    (h : tryFromLedger repr ctx = .ok (some p)) : p.DatumWords := by
  unfold tryFromLedger at h
  split at h
  · rename_i ver conf hver hconf
    obtain ⟨pd, -, hconf⟩ := Option.bind_eq_some_iff.mp hconf
    have hwords := StablePoolT2TConfig.words hconf
    unfold ofConfig at h
    split at h
    · split at h
      · split at h
        · obtain ⟨liquidity, -, h⟩ := Checked.bind_eq_ok.mp h
          cases Checked.pure_eq_ok.mp h
          exact ⟨hwords.1, hwords.2, rfl, rfl⟩
        · cases Checked.pure_eq_ok.mp h
      · cases Checked.pure_eq_ok.mp h
    · cases Checked.pure_eq_ok.mp h
  · cases Checked.pure_eq_ok.mp h

/-! ### Swaps -/

theorem calculateInvariant_some {x y an2n d : Nat}
    (h : calculateInvariant fuel x y an2n = .ok (some d)) : 0 < x ∧ 0 < y ∧ 4 ≤ an2n := by
  unfold calculateInvariant at h
  split at h
  · cases Checked.pure_eq_ok.mp h
  · rename_i hsome
    refine ⟨by omega, by omega, ?_⟩
    by_contra hless
    obtain ⟨s, -, h⟩ := Checked.bind_eq_ok.mp h
    obtain ⟨prod, -, h⟩ := Checked.bind_eq_ok.mp h
    obtain ⟨_, hrun, -⟩ := Checked.bind_eq_ok.mp h
    cases fuel with
    | zero => cases hrun
    | succ fuel =>
      obtain ⟨next, hnext, -⟩ := iterateU512_succ.mp hrun
      have hann := (invariantStep_eq_ok.mp hnext).1
      omega

/-- Reserves of words whose invariant has been calculated. -/
theorem computes_of_calculates {x y an2n d : Nat} (hx : x < 2 ^ 64) (hy : y < 2 ^ 64)
    (hamp : an2n < 2 ^ 64) (h : calculateInvariant fuel x y an2n = .ok (some d)) :
    Computes x y an2n ∧ Crosses (an2n / 4) (x + y) (x * y) := by
  obtain ⟨hxpos, hypos, hfour⟩ := calculateInvariant_some h
  have hcomputes : Computes x y an2n :=
    ⟨⟨hxpos, hypos⟩, ⟨by omega, by omega⟩, hfour,
      invariantFits_of_word (by omega) (by omega) hamp⟩
  obtain ⟨-, hends, -⟩ := calculateInvariant_spec hxpos hypos hfour h
  exact ⟨hcomputes, (reachesFixed_newton_iff hcomputes.hann hcomputes.product_pos
    (four_mul_product_le x y)).mp hends⟩

theorem stableQuoteAmount_found {baseReserves baseMult quoteReserves quoteMult baseAmount an2n
    output : Nat} (h : stableQuoteAmount fuel baseReserves baseMult quoteReserves quoteMult
      baseAmount an2n = .ok (some output)) :
    (baseReserves * baseMult < 2 ^ 64 ∧ quoteReserves * quoteMult < 2 ^ 64) ∧
      ∃ d, calculateInvariant fuel (baseReserves * baseMult) (quoteReserves * quoteMult) an2n =
        .ok (some d) := by
  obtain ⟨_, hcalc, h⟩ := Checked.bind_eq_ok.mp h
  obtain ⟨hquote, rfl⟩ := Checked.mul_eq_ok.mp hcalc
  obtain ⟨_, hinitial, h⟩ := Checked.bind_eq_ok.mp h
  obtain ⟨hbase, rfl⟩ := Checked.mul_eq_ok.mp hinitial
  obtain ⟨_, -, h⟩ := Checked.bind_eq_ok.mp h
  obtain ⟨_, -, h⟩ := Checked.bind_eq_ok.mp h
  obtain ⟨found, hfound, h⟩ := Checked.bind_eq_ok.mp h
  cases found with
  | none => cases Checked.pure_eq_ok.mp h
  | some d => exact ⟨⟨hbase, hquote⟩, d, hfound⟩

/-- A trade with an output has calculated the invariant of its reserves, either way round. -/
theorem calcStableSwap_computes {pair : Pair} {reservesX xMult reservesY yMult baseAmount an2n
    output : Nat} {asset : AssetClass} (hamp : an2n < 2 ^ 64)
    (h : calcStableSwap fuel pair reservesX xMult reservesY yMult asset baseAmount an2n =
      .ok (some output)) :
    (reservesX * xMult < 2 ^ 64 ∧ reservesY * yMult < 2 ^ 64) ∧
      Computes (reservesX * xMult) (reservesY * yMult) an2n ∧
      Crosses (an2n / 4) (reservesX * xMult + reservesY * yMult)
        (reservesX * xMult * (reservesY * yMult)) := by
  unfold calcStableSwap at h
  split at h
  · cases Checked.pure_eq_ok.mp h
  · split at h
    · obtain ⟨⟨hx, hy⟩, d, hfound⟩ := stableQuoteAmount_found h
      exact ⟨⟨hx, hy⟩, computes_of_calculates hx hy hamp hfound⟩
    · obtain ⟨⟨hy, hx⟩, d, hfound⟩ := stableQuoteAmount_found h
      obtain ⟨hcomputes, hcrosses⟩ := computes_of_calculates hy hx hamp hfound
      exact ⟨⟨hx, hy⟩, hcomputes.comm, hcrosses.comm⟩

/-- A swap takes nothing out of a treasury. -/
theorem swap_treasury (h : p.swap fuel input = .ok p') :
    p.treasuryX ≤ p'.treasuryX ∧ p.treasuryY ≤ p'.treasuryY := by
  simp only [swap, Checked.bind_eq_ok] at h
  obtain ⟨_, -, fees, -, _, -, _, -, _, -, h⟩ := h
  cases input with
  | bid amount =>
    simp only [Checked.bind_eq_ok, Checked.add_eq_ok, Checked.pure_eq_ok] at h
    obtain ⟨_, ⟨-, rfl⟩, rfl⟩ := h
    exact ⟨Nat.le_add_right _ _, le_rfl⟩
  | ask amount =>
    simp only [Checked.bind_eq_ok, Checked.add_eq_ok, Checked.pure_eq_ok] at h
    obtain ⟨_, ⟨-, rfl⟩, rfl⟩ := h
    exact ⟨le_rfl, Nat.le_add_right _ _⟩

/-- Fees that leave something are less than the whole. -/
theorem lpFee_lt {pureOutput lp treasury : Nat} {fees : Nat × Nat}
    (h : stableFees pureOutput ⟨lp, feeDen⟩ ⟨treasury, feeDen⟩ = .ok fees) :
    lp < feeDen ∧ 0 < pureOutput := by
  obtain ⟨-, -, -, hle, -⟩ := stableFees_eq_ok.mp h
  refine ⟨?_, (Nat.succ_pos _).trans_le hle⟩
  by_contra hge
  have hshare : pureOutput ≤ pureOutput * lp / feeDen :=
    (Nat.le_div_iff_mul_le (by decide)).mpr (Nat.mul_le_mul_left _ (not_lt.mp hge))
  have hless := (Nat.le_add_right _ _).trans (Nat.le_of_succ_le hle)
  exact absurd hle (not_le.mpr (Nat.lt_succ_of_le (Nat.le_succ_of_le
    (hshare.trans (Nat.le_add_right _ _)))))

/-- What is tradable before and after, by its part in the swap. -/
def tradedTo (p p' : StablePoolT2T) : TradedReserves :=
  p.traded (p.reservesX - p.treasuryX) (p.reservesY - p.treasuryY) (p'.reservesX - p'.treasuryX)
    (p'.reservesY - p'.treasuryY)

/-- After a swap that returns, the values fit their words, and the invariant before it is
calculated. -/
theorem swap_words {repr : TransactionOutput} {ctx : PoolContext}
    (hparsed : tryFromLedger repr ctx = .ok (some p)) (hswap : p.swap fuel input = .ok p') :
    (p.tradedTo p').Words p.an2n := by
  obtain ⟨-, htr, hx, hy, hltX, hltY⟩ := vouched_of_parsed hparsed
  obtain ⟨hamp, ⟨hmultX, hmultY⟩, hone, hden⟩ := datumWords_of_parsed hparsed
  obtain ⟨htreasuryX, htreasuryY⟩ := swap_treasury hswap
  obtain ⟨pureOutput, fees, output, hout, hfees, hsum, hmove, -⟩ := swap_spec hswap
  have hlpFee : (if p.pair.x = p.pair.base then p.lpFeeY else p.lpFeeX) =
      ⟨p.lpFeeY.numer, feeDen⟩ := by rw [hone, ite_self, ← hden]
  have htreasuryFee : p.treasuryFee = ⟨p.treasuryFee.numer, feeDen⟩ := by rw [← htr]
  rw [hlpFee, htreasuryFee] at hfees
  obtain ⟨hfee, hpos⟩ := lpFee_lt hfees
  simp only [outputAmount, Checked.bind_eq_ok, Checked.sub_eq_ok, Checked.pure_eq_ok] at hout
  obtain ⟨_, ⟨-, rfl⟩, _, ⟨-, rfl⟩, paid, hpaid, hget⟩ := hout
  cases paid with
  | none => exact absurd hget hpos.ne
  | some paid =>
    obtain ⟨⟨hltInitX, hltInitY⟩, hcomputes, hcrosses⟩ := calcStableSwap_computes hamp hpaid
    have hmoves := Pair.move_eq_ok.mp hmove
    unfold tradedTo traded
    split
    · rename_i hmore
      refine ⟨⟨hltInitX, hltInitY⟩, ⟨?_, ?_, ?_⟩, ⟨hmultX, hmultY⟩, hfee, hamp, hcomputes, hcrosses⟩
      all_goals
        dsimp only
        split at hmoves
        all_goals omega
    · rename_i hless
      refine ⟨⟨hltInitY, hltInitX⟩, ⟨?_, not_lt.mp hless, by dsimp only; omega⟩, ⟨hmultY, hmultX⟩,
        hone ▸ hfee, hamp, hcomputes.comm, hcrosses.comm⟩
      dsimp only
      split at hmoves
      all_goals omega

/-! ### The invariant of a swap -/

theorem contextValuesOf_eq_ok {values : ContextValues} : contextValuesOf p p' = .ok values ↔
    ((p.treasuryX ≤ p.reservesX ∧ p.treasuryY ≤ p.reservesY) ∧
      p'.treasuryX ≤ p'.reservesX ∧ p'.treasuryY ≤ p'.reservesY) ∧
      (p.tradedTo p').contextValues p.lpFeeY.denom = .ok values := by
  simp only [contextValuesOf, Checked.bind_eq_ok, Checked.sub_eq_ok]
  constructor
  · rintro ⟨_, ⟨hx, rfl⟩, _, ⟨hy, rfl⟩, _, ⟨hx', rfl⟩, _, ⟨hy', rfl⟩, h⟩
    exact ⟨⟨⟨hx, hy⟩, hx', hy'⟩, h⟩
  · rintro ⟨⟨⟨hx, hy⟩, hx', hy'⟩, h⟩
    exact ⟨_, ⟨hx, rfl⟩, _, ⟨hy, rfl⟩, _, ⟨hx', rfl⟩, _, ⟨hy', rfl⟩, h⟩

/-- The calculation ends, with an invariant that passes the test of its values. -/
def FindsInvariant (prevState newState : StablePoolT2T) : Prop :=
  ∃ fuel inv, calculateContextValuesList fuel prevState newState = .ok (some inv) ∧
    ∃ values, contextValuesOf prevState newState = .ok values ∧
      values.test prevState.an2n inv = .ok (some true)

/-- The invariant of a swap is found exactly if the treasuries are within the reserves after it, and
the traded reserves can be searched. -/
theorem calculateContextValuesList_finds_iff {repr : TransactionOutput} {ctx : PoolContext}
    (hparsed : tryFromLedger repr ctx = .ok (some p)) (hswap : p.swap fuel input = .ok p') :
    p.FindsInvariant p' ↔ (p'.treasuryX ≤ p'.reservesX ∧ p'.treasuryY ≤ p'.reservesY) ∧
      (p.tradedTo p').Searchable p.an2n := by
  have h := swap_words hparsed hswap
  obtain ⟨-, -, hx, hy, -, -⟩ := vouched_of_parsed hparsed
  have hden := (datumWords_of_parsed hparsed).denom
  have hann := h.computes.hann
  obtain ⟨boundary, hboundary⟩ := exists_boundary hann h.computes.product_pos
    (four_mul_product_le (p.tradedTo p').baseInit (p.tradedTo p').quoteInit)
  have hsearch := h.search_iff hboundary
  constructor
  · rintro ⟨turns, inv, hfound, -⟩
    obtain ⟨values, hvalues, hfound⟩ := Checked.bind_eq_ok.mp hfound
    obtain ⟨⟨-, htreasuries⟩, hcontext⟩ := contextValuesOf_eq_ok.mp hvalues
    rw [hden] at hcontext
    obtain ⟨hleft, rfl⟩ := h.contextValues_eq_ok.mp hcontext
    obtain ⟨calculated, hcalculated, hfound⟩ := Checked.bind_eq_ok.mp hfound
    cases calculated with
    | none => cases Checked.pure_eq_ok.mp hfound
    | some d =>
      obtain ⟨hd, -⟩ := calculateInvariant_spec h.computes.pos.1 h.computes.pos.2
        h.computes.amplified hcalculated
      cases hd.unique hann hboundary
      obtain ⟨herror, hwindow⟩ := hsearch.mp ⟨turns, inv, hfound⟩
      refine ⟨htreasuries, hleft, herror, fun e inv he => ?_⟩
      cases he.unique hann hboundary
      exact hwindow inv
  · rintro ⟨htreasuries, hleft, herror, hwindow⟩
    have hvalues := contextValuesOf_eq_ok.mpr ⟨⟨⟨hx.le, hy.le⟩, htreasuries⟩,
      hden ▸ h.contextValues_eq_ok.mpr ⟨hleft, rfl⟩⟩
    obtain ⟨turns, inv, hfound⟩ := hsearch.mpr ⟨herror, fun inv => hwindow boundary inv hboundary⟩
    obtain ⟨turns', hcalculated⟩ := h.computes.calculates h.crosses hboundary
    refine ⟨max turns turns', inv, ?_, _, hvalues, (searchExact_spec hfound).2⟩
    refine Checked.bind_eq_ok.mpr ⟨_, hvalues, Checked.bind_eq_ok.mpr
      ⟨_, hcalculated _ (Nat.le_max_right _ _), ?_⟩⟩
    exact searchExact_more hfound (Nat.le_max_left _ _)

/-- The least candidate of an ask of x against y is the invariant before it. -/
theorem calculateContextValuesList_finds_sample : (tokensPool 2 3).FindsInvariant
    { tokensPool 2 3 with
      reservesX := 109544472
      reservesY := 2993661677
      treasuryY := 8791 } := by
  refine (calculateContextValuesList_finds_iff
    (show tryFromLedger (tokensOutput 2 3) samplePoolContext = .ok (some (tokensPool 2 3)) by
      decide +kernel)
    (show (tokensPool 2 3).swap 255 (.ask 7110241) = _ by decide +kernel)).mpr
    ⟨⟨by decide, by decide⟩, by decide, by decide, ?_⟩
  intro d inv hd hinv
  have hbefore : Boundary 880 (102434231 + 3002434231) (102434231 * 3002434231) 3081345355 :=
    ⟨by decide, by decide⟩
  cases hd.unique (by decide) hbefore
  have hle : inv ≤ 3081345355 := hinv.2 ⟨le_rfl, by decide, by decide⟩
  exact (exactLeft_mono hle).trans (by decide)

/-- Where y is base, a bid lowers the invariant, by the fee that the treasury of x is credited. -/
theorem bid_finds_no_invariant : ¬ ∀ (repr : TransactionOutput) (ctx : PoolContext)
    (p p' : StablePoolT2T) (input : OnSide Nat) (fuel : Nat),
    tryFromLedger repr ctx = .ok (some p) → p.swap fuel input = .ok p' → p.FindsInvariant p' := by
  intro h
  have hvalues : contextValuesOf (tokensPool 3 2) { tokensPool 3 2 with
      reservesX := 109544472
      reservesY := 2993661677
      treasuryX := 8791 } = .ok ⟨102434231, 3002434231, 109535681, 2993652895, 1⟩ := by
    decide +kernel
  obtain ⟨fuel, inv, -, values, hfound, hpasses⟩ := h (tokensOutput 3 2) samplePoolContext
    (tokensPool 3 2) { tokensPool 3 2 with
      reservesX := 109544472
      reservesY := 2993661677
      treasuryX := 8791 } (.bid 7110241) 255 (by decide +kernel) (by decide +kernel)
  cases hvalues.symm.trans hfound
  obtain ⟨hreaches, hkeeps, -⟩ := checkExactInvariant_passes hpasses
  rcases Nat.lt_or_ge inv 3081345355 with hlt | hge
  · have hless : exactLeft 3520 102434231 3002434231 3081345354 <
        exactRight 3520 102434231 3002434231 := by decide
    exact absurd (hreaches.trans (exactLeft_mono (Nat.le_of_lt_succ hlt))) (not_le.mpr hless)
  · have hmore : exactRight 3520 109535681 2993652895 <
        exactLeft 3520 109535681 2993652895 3081345355 := by decide
    exact absurd ((exactLeft_mono hge).trans hkeeps) (not_le.mpr hmore)

end StablePoolT2T

end UtxoMonitor.Pools
