import UtxoMonitor.Pools.Parsing
import UtxoMonitor.Pools.Product

/-! The accounts of a stable pool after a swap. -/
namespace UtxoMonitor.Pools

open Lib LiquidityBook

/-! ### Fees -/

section Fees

variable {pureOutput lpFees fRev treasuryFeeNum turns treasuryFee : Nat}

/-- The parts of a fee that is not enough yet fit a word with one more unit. -/
theorem next_paid_lt (hfRev : fRev ≤ feeDen) (hnum : 0 < treasuryFeeNum)
    (h : treasuryFee * fRev + treasuryFee * treasuryFeeNum < 2 ^ 64) :
    (treasuryFee + 1) * fRev < 2 ^ 64 := by
  rw [show feeDen = 100000 from rfl] at hfRev
  rw [Nat.succ_mul]
  rcases Nat.lt_or_ge treasuryFee 100000 with hlt | hge
  · have hmul := Nat.mul_le_mul hlt.le hfRev
    omega
  · have hmul := Nat.mul_le_mul_left treasuryFee hnum
    omega

theorem validTreasuryFee_succ {fee : Nat} :
    validTreasuryFee pureOutput lpFees fRev treasuryFeeNum (turns + 1) treasuryFee = .ok fee ↔
      treasuryFee + 1 < 2 ^ 64 ∧ lpFees ≤ pureOutput ∧ treasuryFee + 1 ≤ pureOutput - lpFees ∧
      (treasuryFee + 1) * fRev < 2 ^ 64 ∧
      (pureOutput - lpFees - (treasuryFee + 1)) * treasuryFeeNum < 2 ^ 64 ∧
      if (pureOutput - lpFees - (treasuryFee + 1)) * treasuryFeeNum ≤ (treasuryFee + 1) * fRev then
        treasuryFee + 1 = fee
      else
        validTreasuryFee pureOutput lpFees fRev treasuryFeeNum turns (treasuryFee + 1) =
          .ok fee := by
  simp only [validTreasuryFee, Checked.bind_eq_ok, Checked.add_eq_ok, Checked.sub_eq_ok,
    Checked.mul_eq_ok]
  constructor
  · rintro ⟨_, ⟨hadd, rfl⟩, _, ⟨hlp, rfl⟩, _, ⟨hsub, rfl⟩, _, ⟨hpaid, rfl⟩, _, ⟨hdue, rfl⟩, h⟩
    exact ⟨hadd, hlp, hsub, hpaid, hdue, Checked.ite_pure_eq_ok.mp h⟩
  · rintro ⟨hadd, hlp, hsub, hpaid, hdue, h⟩
    exact ⟨_, ⟨hadd, rfl⟩, _, ⟨hlp, rfl⟩, _, ⟨hsub, rfl⟩, _, ⟨hpaid, rfl⟩, _, ⟨hdue, rfl⟩,
      Checked.ite_pure_eq_ok.mpr h⟩

/-- The search for a treasury fee ends, with the output not used up by the fees. -/
theorem validTreasuryFee_spec (hlp : lpFees ≤ pureOutput) (hfRev : fRev ≤ feeDen)
    (hnum : 0 < treasuryFeeNum) (hfits : pureOutput * treasuryFeeNum < 2 ^ 64)
    (hturns : pureOutput - lpFees - treasuryFee ≤ turns)
    (hdue : treasuryFee * fRev < (pureOutput - lpFees - treasuryFee) * treasuryFeeNum) :
    ∃ fee, validTreasuryFee pureOutput lpFees fRev treasuryFeeNum turns treasuryFee = .ok fee ∧
      treasuryFee < fee ∧ lpFees + fee ≤ pureOutput := by
  induction turns generalizing treasuryFee with
  | zero =>
    rw [Nat.le_zero.mp hturns, Nat.zero_mul] at hdue
    exact absurd hdue (Nat.not_lt_zero _)
  | succ turns ih =>
    have hroom : 0 < pureOutput - lpFees - treasuryFee := by
      apply Nat.pos_of_ne_zero
      intro hzero
      rw [hzero, Nat.zero_mul] at hdue
      exact absurd hdue (Nat.not_lt_zero _)
    have hword : pureOutput < 2 ^ 64 := (Nat.le_mul_of_pos_right _ hnum).trans_lt hfits
    have hle : ∀ delta ≤ pureOutput, delta * treasuryFeeNum < 2 ^ 64 :=
      fun delta hdelta => (Nat.mul_le_mul_right _ hdelta).trans_lt hfits
    have hpaid : (treasuryFee + 1) * fRev < 2 ^ 64 := by
      apply next_paid_lt hfRev hnum
      have hsplit := hle (pureOutput - lpFees - treasuryFee + treasuryFee) (by omega)
      rw [Nat.add_mul] at hsplit
      omega
    have hdelta := hle (pureOutput - lpFees - (treasuryFee + 1)) (by omega)
    have hadd : treasuryFee + 1 < 2 ^ 64 := by omega
    have hsub : treasuryFee + 1 ≤ pureOutput - lpFees := by omega
    simp only [validTreasuryFee_succ, hadd, hlp, hsub, hpaid, hdelta, true_and]
    by_cases hvalid : (pureOutput - lpFees - (treasuryFee + 1)) * treasuryFeeNum ≤
        (treasuryFee + 1) * fRev
    · refine ⟨treasuryFee + 1, ?_, Nat.lt_succ_self _, by omega⟩
      rw [if_pos hvalid]
    · obtain ⟨fee, hok, hlt, hfee⟩ := ih (by omega) (not_le.mp hvalid)
      refine ⟨fee, ?_, by omega, hfee⟩
      rwa [if_neg hvalid]

theorem feeDen_share_eq_ok {numer share : Nat} :
    Ratio.share ⟨numer, feeDen⟩ pureOutput = .ok share ↔
      pureOutput * numer < 2 ^ 64 ∧ pureOutput * numer / feeDen = share := by
  simp only [Ratio.share, Checked.bind_eq_ok, Checked.mul_eq_ok, Checked.div_eq_ok]
  constructor
  · rintro ⟨_, ⟨hlt, rfl⟩, -, h⟩
    exact ⟨hlt, h⟩
  · rintro ⟨hlt, h⟩
    exact ⟨_, ⟨hlt, rfl⟩, (by decide), h⟩

/-- The search from the fee that was rounded down ends. -/
theorem search_ends {lp treasury : Nat} (htreasury : pureOutput * treasury < 2 ^ 64)
    (hle : pureOutput * lp / feeDen + pureOutput * treasury / feeDen + 2 ≤ pureOutput)
    (hnum : treasury ≠ 0)
    (hdue : pureOutput * treasury / feeDen * (feeDen - treasury - lp) <
      (pureOutput - (pureOutput * lp / feeDen + 1) - pureOutput * treasury / feeDen - 1) *
        treasury) :
    ∃ fee, validTreasuryFee pureOutput (pureOutput * lp / feeDen + 1) (feeDen - treasury - lp)
        treasury pureOutput (pureOutput * treasury / feeDen) = .ok fee ∧
      pureOutput * treasury / feeDen < fee ∧ pureOutput * lp / feeDen + 1 + fee ≤ pureOutput := by
  apply validTreasuryFee_spec ?_ ((Nat.sub_le _ _).trans (Nat.sub_le _ _))
    (Nat.pos_of_ne_zero hnum) htreasury ((Nat.sub_le _ _).trans (Nat.sub_le _ _))
    (hdue.trans_le (Nat.mul_le_mul_right _ (Nat.sub_le _ _)))
  exact (Nat.add_le_add (Nat.le_add_right _ _) (by decide)).trans hle

/-- The fees of an output: what they need to be found, and which they are. -/
theorem stableFees_eq_ok {lp treasury : Nat} {fees : Nat × Nat} :
    stableFees pureOutput ⟨lp, feeDen⟩ ⟨treasury, feeDen⟩ = .ok fees ↔
      pureOutput * lp < 2 ^ 64 ∧ pureOutput * treasury < 2 ^ 64 ∧ lp + treasury ≤ feeDen ∧
      pureOutput * lp / feeDen + pureOutput * treasury / feeDen + 2 ≤ pureOutput ∧
      fees.1 = pureOutput * lp / feeDen + 1 ∧
      if (pureOutput - fees.1 - pureOutput * treasury / feeDen - 1) * treasury ≤
          pureOutput * treasury / feeDen * (feeDen - treasury - lp) ∨ treasury = 0 then
        fees.2 = pureOutput * treasury / feeDen
      else
        validTreasuryFee pureOutput fees.1 (feeDen - treasury - lp) treasury pureOutput
          (pureOutput * treasury / feeDen) = .ok fees.2 := by
  obtain ⟨lpFees, treasuryFee⟩ := fees
  simp only [stableFees, Checked.bind_eq_ok, feeDen_share_eq_ok, Checked.add_eq_ok,
    Checked.sub_eq_ok, Checked.mul_eq_ok, Checked.ite_pure_eq_ok, Prod.mk.injEq, Checked.pure_eq_ok]
  constructor
  · rintro ⟨_, ⟨hlp, rfl⟩, _, ⟨-, rfl⟩, _, ⟨htreasury, rfl⟩, _, ⟨hden, rfl⟩, _, ⟨hden', rfl⟩, _,
      ⟨hle, rfl⟩, _, ⟨hle', rfl⟩, _, ⟨hpos, rfl⟩, _, ⟨-, rfl⟩, _, ⟨-, rfl⟩, h⟩
    refine ⟨hlp, htreasury, by omega, by omega, ?_⟩
    split at h
    · rename_i hvalid
      obtain ⟨rfl, rfl⟩ := h
      exact ⟨rfl, by rw [if_pos hvalid]⟩
    · rename_i hvalid
      obtain ⟨_, hfee, rfl, rfl⟩ := h
      exact ⟨rfl, by rwa [if_neg hvalid]⟩
  · rintro ⟨hlp, htreasury, hden, hle, rfl, h⟩
    have hshare : pureOutput * lp / feeDen + 1 < 2 ^ 64 := by
      rw [show feeDen = 100000 from rfl]
      omega
    have hpaid : pureOutput * treasury / feeDen * (feeDen - treasury - lp) < 2 ^ 64 := by
      refine lt_of_le_of_lt ?_ htreasury
      exact (Nat.mul_le_mul_left _ ((Nat.sub_le _ _).trans (Nat.sub_le _ _))).trans
        (Nat.div_mul_le_self _ _)
    have hdue : (pureOutput - (pureOutput * lp / feeDen + 1) - pureOutput * treasury / feeDen - 1) *
        treasury < 2 ^ 64 :=
      (Nat.mul_le_mul_right _ ((Nat.sub_le _ _).trans ((Nat.sub_le _ _).trans
        (Nat.sub_le _ _)))).trans_lt htreasury
    refine ⟨_, ⟨hlp, rfl⟩, _, ⟨hshare, rfl⟩, _, ⟨htreasury, rfl⟩, _, ⟨by omega, rfl⟩, _,
      ⟨by omega, rfl⟩, _, ⟨?_, rfl⟩, _, ⟨?_, rfl⟩, _, ⟨?_, rfl⟩, _, ⟨hpaid, rfl⟩, _,
      ⟨hdue, rfl⟩, ?_⟩
    · exact (Nat.add_le_add (Nat.le_add_right _ _) (by decide)).trans hle
    · generalize pureOutput * lp / feeDen = lpShare at hle ⊢
      generalize pureOutput * treasury / feeDen = share at hle ⊢
      omega
    · generalize pureOutput * lp / feeDen = lpShare at hle ⊢
      generalize pureOutput * treasury / feeDen = share at hle ⊢
      omega
    split at h
    · rename_i hvalid
      rw [if_pos hvalid]
      exact ⟨rfl, h.symm⟩
    · rename_i hvalid
      rw [if_neg hvalid]
      exact ⟨_, h, rfl, rfl⟩

/-- The fees are found exactly where the output fits with their numerators, and is more than both of
them rounded up. -/
theorem exists_stableFees_iff {lp treasury : Nat} :
    (∃ fees, stableFees pureOutput ⟨lp, feeDen⟩ ⟨treasury, feeDen⟩ = .ok fees) ↔
      pureOutput * lp < 2 ^ 64 ∧ pureOutput * treasury < 2 ^ 64 ∧ lp + treasury ≤ feeDen ∧
      pureOutput * lp / feeDen + pureOutput * treasury / feeDen + 2 ≤ pureOutput := by
  constructor
  · rintro ⟨fees, h⟩
    obtain ⟨hlp, htreasury, hden, hle, -⟩ := stableFees_eq_ok.mp h
    exact ⟨hlp, htreasury, hden, hle⟩
  · rintro ⟨hlp, htreasury, hden, hle⟩
    by_cases hvalid : (pureOutput - (pureOutput * lp / feeDen + 1) -
          pureOutput * treasury / feeDen - 1) * treasury ≤
        pureOutput * treasury / feeDen * (feeDen - treasury - lp) ∨ treasury = 0
    · refine ⟨(pureOutput * lp / feeDen + 1, pureOutput * treasury / feeDen),
        stableFees_eq_ok.mpr ⟨hlp, htreasury, hden, hle, rfl, ?_⟩⟩
      rw [if_pos hvalid]
    · obtain ⟨hdue, hnum⟩ := not_or.mp hvalid
      obtain ⟨fee, hfee, -⟩ := search_ends htreasury hle hnum (not_le.mp hdue)
      refine ⟨(pureOutput * lp / feeDen + 1, fee),
        stableFees_eq_ok.mpr ⟨hlp, htreasury, hden, hle, rfl, ?_⟩⟩
      rwa [if_neg hvalid]

/-- The fees are within the output, and the treasury gets none only where it takes none or where a
single unit is left. -/
theorem stableFees_spec {lp treasury : Nat} {fees : Nat × Nat}
    (h : stableFees pureOutput ⟨lp, feeDen⟩ ⟨treasury, feeDen⟩ = .ok fees) :
    fees.1 + fees.2 ≤ pureOutput ∧ fees.1 < pureOutput ∧
      (fees.2 = 0 ↔ treasury = 0 ∨ pureOutput = pureOutput * lp / feeDen + 2) := by
  obtain ⟨hlp, htreasury, hden, hle, hfirst, hsecond⟩ := stableFees_eq_ok.mp h
  have hnone : treasury = 0 ∨ pureOutput = pureOutput * lp / feeDen + 2 →
      pureOutput * treasury / feeDen = 0 := by
    rintro (rfl | heq)
    · rw [Nat.mul_zero, Nat.zero_div]
    · apply Nat.le_zero.mp
      linarith
  have hlt : fees.1 < pureOutput := by
    rw [hfirst]
    exact (Nat.add_le_add (Nat.le_add_right _ _) le_rfl).trans hle
  split at hsecond
  · rename_i hvalid
    have hsum : fees.1 + fees.2 ≤ pureOutput := by
      rw [hfirst, hsecond]
      omega
    refine ⟨hsum, hlt, ?_⟩
    rw [hsecond]
    constructor
    · intro hzero
      obtain hdue | hnum := hvalid
      · rw [hzero, Nat.zero_mul, Nat.le_zero, Nat.mul_eq_zero] at hdue
        obtain hleft | hnum := hdue
        · right
          omega
        · exact .inl hnum
      · exact .inl hnum
    · exact hnone
  · rename_i hvalid
    obtain ⟨hdue, hnum⟩ := not_or.mp hvalid
    rw [hfirst] at hdue hsecond
    obtain ⟨fee, hfee, hgt, hsum⟩ := search_ends htreasury hle hnum (not_le.mp hdue)
    cases hfee.symm.trans hsecond
    refine ⟨hfirst ▸ hsum, hlt, fun hzero => absurd (hzero ▸ hgt) (Nat.not_lt_zero _), ?_⟩
    intro hleft
    have hzero := hnone hleft
    have hone : pureOutput - (pureOutput * lp / feeDen + 1) - 0 - 1 = 0 := by
      have heq := hleft.resolve_left hnum
      omega
    rw [hzero, hone, Nat.zero_mul, Nat.zero_mul] at hdue
    exact absurd le_rfl hdue

end Fees

/-! ### Outputs -/

section Output

variable {fuel baseReserves baseMult quoteReserves quoteMult baseAmount an2n output : Nat}

theorem scaled_le {quoteCalc assetTo : Nat}
    (hquote : Checked.mul 64 quoteReserves quoteMult = .ok quoteCalc)
    (h : (do
      let output ← Checked.div (← Checked.sub quoteCalc assetTo) quoteMult
      if output < 2 ^ 64 then return some output else .error .overflow : Checked (Option Nat)) =
        .ok (some output)) : output ≤ quoteReserves := by
  obtain ⟨-, rfl⟩ := Checked.mul_eq_ok.mp hquote
  simp only [Checked.bind_eq_ok, Checked.sub_eq_ok, Checked.div_eq_ok] at h
  obtain ⟨_, ⟨-, rfl⟩, _, ⟨hmult, rfl⟩, h⟩ := h
  split at h
  · cases Checked.pure_eq_ok.mp h
    apply Nat.div_le_of_le_mul
    rw [Nat.mul_comm quoteMult]
    exact Nat.sub_le _ _
  · cases h

/-- An output is within the reserves that it is paid from. -/
theorem stableQuoteAmount_le (h : stableQuoteAmount fuel baseReserves baseMult quoteReserves quoteMult
    baseAmount an2n = .ok (some output)) : output ≤ quoteReserves := by
  simp only [stableQuoteAmount, Checked.bind_eq_ok] at h
  obtain ⟨quoteCalc, hquote, _, -, _, -, _, -, d, -, h⟩ := h
  cases d with
  | none => cases Checked.pure_eq_ok.mp h
  | some d =>
    simp only [Checked.bind_eq_ok] at h
    obtain ⟨_, -, _, -, _, -, _, -, _, -, _, -, assetTo, -, dNew, -, h⟩ := h
    cases dNew with
    | none => cases Checked.pure_eq_ok.mp h
    | some dNew =>
      obtain ⟨tested, -, h⟩ := Checked.bind_eq_ok.mp h
      obtain _ | _ | _ := tested
      · obtain ⟨settled, hsettled, h⟩ := Checked.bind_eq_ok.mp h
        cases Checked.pure_eq_ok.mp hsettled
        cases Checked.pure_eq_ok.mp h
      · obtain ⟨settled, -, h⟩ := Checked.bind_eq_ok.mp h
        cases settled with
        | none => cases Checked.pure_eq_ok.mp h
        | some assetTo => exact scaled_le hquote h
      · obtain ⟨settled, -, h⟩ := Checked.bind_eq_ok.mp h
        cases settled with
        | none => cases Checked.pure_eq_ok.mp h
        | some assetTo => exact scaled_le hquote h

theorem calcStableSwap_le {pair : Pair} {reservesX xMult reservesY yMult : Nat} {asset : AssetClass}
    (h : calcStableSwap fuel pair reservesX xMult reservesY yMult asset baseAmount an2n =
      .ok (some output)) : output ≤ pair.given asset reservesY reservesX := by
  unfold calcStableSwap at h
  unfold Pair.given
  split at h
  · cases Checked.pure_eq_ok.mp h
  · split at h
    · rename_i heq
      rw [if_pos heq.symm]
      exact stableQuoteAmount_le h
    · rename_i hne
      rw [if_neg (fun heq => hne heq.symm)]
      exact stableQuoteAmount_le h

end Output

/-! ### Accounts -/

/-- What is bought in a trade. -/
def Pair.bought (pair : Pair) : OnSide Nat → AssetClass
  | .bid _ => pair.base
  | .ask _ => pair.quote

theorem Pair.given_bought {A : Type} {pair : Pair} {input : OnSide Nat} (htwo : pair.x ≠ pair.y)
    (a b : A) : pair.given (pair.bought input) a b = pair.given (pair.paid input) b a := by
  obtain ⟨hbase, hquote⟩ | ⟨hbase, hquote⟩ := pair.base_quote
  · cases input <;> simp [Pair.bought, Pair.paid, Pair.given, hbase, hquote, htwo.symm]
  · cases input <;> simp [Pair.bought, Pair.paid, Pair.given, hbase, hquote, htwo.symm]

/-- A pool whose two assets are one. -/
theorem Pair.given_of_eq {A : Type} {pair : Pair} {input : OnSide Nat} (heq : pair.x = pair.y)
    (a b : A) :
    pair.given (pair.paid input) a b = a ∧ pair.given (pair.bought input) a b = a := by
  obtain ⟨hbase, hquote⟩ | ⟨hbase, hquote⟩ := pair.base_quote
  · cases input <;> simp [Pair.bought, Pair.paid, Pair.given, hbase, hquote, heq]
  · cases input <;> simp [Pair.bought, Pair.paid, Pair.given, hbase, hquote, heq]

namespace StablePoolT2T

/-- The reserves of an asset. -/
def reservesOf (p : StablePoolT2T) (asset : AssetClass) : Nat :=
  p.pair.given asset p.reservesX p.reservesY

def treasuryOf (p : StablePoolT2T) (asset : AssetClass) : Nat :=
  p.pair.given asset p.treasuryX p.treasuryY

/-- The fee of the liquidity providers that a swap takes. -/
def lpFee (p : StablePoolT2T) : Ratio := if p.pair.x = p.pair.base then p.lpFeeY else p.lpFeeX

/-- The input is added to the reserves of its asset alone, and of the asset that is bought the fees
stay, that of the treasury as part of its treasury. -/
structure Accounted (p p' : StablePoolT2T) (input : OnSide Nat) (pureOutput : Nat)
    (fees : Nat × Nat) : Prop where
  paidReserves : p'.reservesOf (p.pair.paid input) = p.reservesOf (p.pair.paid input) + input.unwrap
  paidTreasury : p'.treasuryOf (p.pair.paid input) = p.treasuryOf (p.pair.paid input)
  boughtReserves : p'.reservesOf (p.pair.bought input) + pureOutput =
    p.reservesOf (p.pair.bought input) + fees.1 + fees.2
  boughtTreasury : p'.treasuryOf (p.pair.bought input) = p.treasuryOf (p.pair.bought input) + fees.2

/-- The swap returns, with the accounts of the output in order. -/
def KeepsAccounts (fuel : Nat) (p : StablePoolT2T) (input : OnSide Nat) (pureOutput : Nat) : Prop :=
  ∃ p' fees, p.swap fuel input = .ok p' ∧
    stableFees pureOutput p.lpFee p.treasuryFee = .ok fees ∧ p.Accounted p' input pureOutput fees

/-- The output fits with the numerators of the fees, is more than both fees rounded up, and its fee
goes to its own treasury, unless there is none. -/
structure Accountable (p : StablePoolT2T) (input : OnSide Nat) (pureOutput : Nat) : Prop where
  assets : p.assetX ≠ p.assetY
  lpFee_fits : pureOutput * p.lpFee.numer < 2 ^ 64
  treasuryFee_fits : pureOutput * p.treasuryFee.numer < 2 ^ 64
  fees_le : p.lpFee.numer + p.treasuryFee.numer ≤ feeDen
  fees_lt : pureOutput * p.lpFee.numer / feeDen + pureOutput * p.treasuryFee.numer / feeDen + 2 ≤
    pureOutput
  reserves_fit : p.reservesOf (p.pair.paid input) + input.unwrap < 2 ^ 64
  ownTreasury : p.assetX = p.pair.base ∨ p.treasuryFee.numer = 0 ∨
    pureOutput = pureOutput * p.lpFee.numer / feeDen + 2

variable {fuel pureOutput : Nat} {p p' : StablePoolT2T} {input : OnSide Nat} {fees : Nat × Nat}

/-- What the parser vouches for. -/
structure Vouched (p : StablePoolT2T) : Prop where
  lpFee : p.lpFee.denom = feeDen
  treasuryFee : p.treasuryFee.denom = feeDen
  treasuryX : p.treasuryX < p.reservesX
  treasuryY : p.treasuryY < p.reservesY
  reservesX : p.reservesX < 2 ^ 64
  reservesY : p.reservesY < 2 ^ 64

theorem vouched_of_parsed {repr : TransactionOutput} {ctx : PoolContext}
    (h : tryFromLedger repr ctx = .ok (some p)) : p.Vouched := by
  unfold tryFromLedger at h
  split at h
  · unfold ofConfig at h
    split at h
    · rename_i liquidityNeg reservesX reservesY hlq hx hy
      split at h
      · rename_i haccepted
        split at h
        · obtain ⟨liquidity, -, h⟩ := Checked.bind_eq_ok.mp h
          cases Checked.pure_eq_ok.mp h
          refine ⟨?_, rfl, haccepted.1.1, haccepted.1.2, Value.amountOf_lt hx,
            Value.amountOf_lt hy⟩
          unfold lpFee
          split <;> rfl
        · cases Checked.pure_eq_ok.mp h
      · cases Checked.pure_eq_ok.mp h
    · cases Checked.pure_eq_ok.mp h
  · cases Checked.pure_eq_ok.mp h

/-- The treasury that the side of a trade credits. -/
def credited (p : StablePoolT2T) : OnSide Nat → Nat
  | .bid _ => p.treasuryX
  | .ask _ => p.treasuryY

def credit (p : StablePoolT2T) (input : OnSide Nat) (fee : Nat) : StablePoolT2T :=
  match input with
  | .bid _ => { p with treasuryX := p.treasuryX + fee }
  | .ask _ => { p with treasuryY := p.treasuryY + fee }

@[simp] theorem credit_reservesX (fee : Nat) : (p.credit input fee).reservesX = p.reservesX := by
  cases input <;> rfl

@[simp] theorem credit_reservesY (fee : Nat) : (p.credit input fee).reservesY = p.reservesY := by
  cases input <;> rfl

@[simp] theorem credit_pair (fee : Nat) : (p.credit input fee).pair = p.pair := by
  cases input <;> rfl

/-- The parts of a swap, once its output is known. -/
theorem swap_eq_ok (houtput : p.outputAmount fuel (p.pair.paid input) input.unwrap = .ok pureOutput)
    (hfees : stableFees pureOutput p.lpFee p.treasuryFee = .ok fees)
    (hle : fees.1 + fees.2 ≤ pureOutput) :
    p.swap fuel input = .ok p' ↔ ∃ x y,
      p.pair.move input (pureOutput - fees.2 - fees.1) p.reservesX p.reservesY = .ok (x, y) ∧
      p.credited input + fees.2 < 2 ^ 64 ∧
      { p with reservesX := x, reservesY := y }.credit input fees.2 = p' := by
  have hfees' : stableFees pureOutput (if p.pair.x = p.pair.base then p.lpFeeY else p.lpFeeX)
    p.treasuryFee = .ok fees := hfees
  simp only [swap, houtput, hfees', Checked.bind_eq_ok, Except.ok.injEq, exists_eq_left',
    Checked.sub_eq_ok]
  cases input with
  | bid amount =>
    simp only [Checked.bind_eq_ok, Checked.add_eq_ok, Checked.pure_eq_ok]
    constructor
    · rintro ⟨_, ⟨-, rfl⟩, _, ⟨-, rfl⟩, ⟨x, y⟩, hmove, _, ⟨hfits, rfl⟩, h⟩
      exact ⟨x, y, hmove, hfits, h⟩
    · rintro ⟨x, y, hmove, hfits, h⟩
      exact ⟨_, ⟨by omega, rfl⟩, _, ⟨by omega, rfl⟩, ⟨x, y⟩, hmove, _, ⟨hfits, rfl⟩, h⟩
  | ask amount =>
    simp only [Checked.bind_eq_ok, Checked.add_eq_ok, Checked.pure_eq_ok]
    constructor
    · rintro ⟨_, ⟨-, rfl⟩, _, ⟨-, rfl⟩, ⟨x, y⟩, hmove, _, ⟨hfits, rfl⟩, h⟩
      exact ⟨x, y, hmove, hfits, h⟩
    · rintro ⟨x, y, hmove, hfits, h⟩
      exact ⟨_, ⟨by omega, rfl⟩, _, ⟨by omega, rfl⟩, ⟨x, y⟩, hmove, _, ⟨hfits, rfl⟩, h⟩

variable (input) in
/-- The side credits the treasury of what is bought where x is base, and of what is paid elsewhere. -/
theorem credit_treasury (htwo : p.assetX ≠ p.assetY) (fee : Nat) :
    if p.assetX = p.pair.base then
      p.credited input = p.treasuryOf (p.pair.bought input) ∧
      (p.credit input fee).treasuryOf (p.pair.bought input) =
        p.treasuryOf (p.pair.bought input) + fee ∧
      (p.credit input fee).treasuryOf (p.pair.paid input) = p.treasuryOf (p.pair.paid input)
    else
      p.credited input = p.treasuryOf (p.pair.paid input) ∧
      (p.credit input fee).treasuryOf (p.pair.bought input) = p.treasuryOf (p.pair.bought input) ∧
      (p.credit input fee).treasuryOf (p.pair.paid input) =
        p.treasuryOf (p.pair.paid input) + fee := by
  have hx : p.pair.x = p.assetX := rfl
  have hy : p.pair.y = p.assetY := rfl
  simp only [treasuryOf, credit_pair]
  obtain ⟨hbase, hquote⟩ | ⟨hbase, hquote⟩ := p.pair.base_quote
  · rw [if_pos (by rw [hbase, hx])]
    cases input <;> simp [credited, credit, Pair.bought, Pair.paid, Pair.given, hbase, hquote, hx,
      hy, htwo.symm]
  · rw [if_neg (by rwa [hbase, hy])]
    cases input <;> simp [credited, credit, Pair.bought, Pair.paid, Pair.given, hbase, hquote, hx,
      hy, htwo.symm]

/-- What a swap moves, and where. -/
theorem move_reserves (htwo : p.assetX ≠ p.assetY) {output x y : Nat}
    (h : p.pair.move input output p.reservesX p.reservesY = .ok (x, y)) :
    p.reservesOf (p.pair.paid input) + input.unwrap < 2 ^ 64 ∧
    p.pair.given (p.pair.paid input) x y = p.reservesOf (p.pair.paid input) + input.unwrap ∧
    output ≤ p.reservesOf (p.pair.bought input) ∧
    p.pair.given (p.pair.bought input) x y = p.reservesOf (p.pair.bought input) - output := by
  have hpair : p.pair.x ≠ p.pair.y := htwo
  simp only [reservesOf, Pair.given_bought hpair, Pair.given_paid hpair]
  rw [Pair.move_eq_ok] at h
  split at h
  · rename_i hx
    obtain ⟨hlt, hle, rfl, rfl⟩ := h
    simpa [hx] using And.intro hlt hle
  · rename_i hx
    obtain ⟨hlt, hle, rfl, rfl⟩ := h
    simpa [hx] using And.intro hlt hle

/-- A pool of one asset alone is not accounted for. -/
theorem Accounted.assets (h : p.Accounted p' input pureOutput fees) (hsame : p'.pair = p.pair)
    (hlt : fees.1 < pureOutput) : p.assetX ≠ p.assetY := by
  intro heq
  have hgiven : ∀ a b : Nat, p.pair.given (p.pair.paid input) a b = a ∧
      p.pair.given (p.pair.bought input) a b = a := fun a b => Pair.given_of_eq heq a b
  obtain ⟨hpaid, hpaidTreasury, hbought, hboughtTreasury⟩ := h
  simp only [reservesOf, treasuryOf, hsame, hgiven] at hpaid hpaidTreasury hbought hboughtTreasury
  omega

/-- A swap of a pool of two assets that returns is accounted for where the fee goes to the treasury
of what is bought, or is none. -/
theorem accounted_of_move_iff (htwo : p.assetX ≠ p.assetY) (hle : fees.1 + fees.2 ≤ pureOutput) {x y : Nat}
    (hmove : p.pair.move input (pureOutput - fees.2 - fees.1) p.reservesX p.reservesY =
      .ok (x, y)) :
    p.Accounted ({ p with reservesX := x, reservesY := y }.credit input fees.2) input pureOutput
      fees ↔ p.assetX = p.pair.base ∨ fees.2 = 0 := by
  obtain ⟨-, hpaid, hout, hbought⟩ := move_reserves htwo hmove
  have hreserves : ∀ asset, ({ p with reservesX := x, reservesY := y }.credit input
      fees.2).reservesOf asset = p.pair.given asset x y := by
    intro asset
    simp only [reservesOf, credit_reservesX, credit_reservesY, credit_pair]
    rfl
  have htreasury := credit_treasury (p := { p with reservesX := x, reservesY := y })
    input htwo fees.2
  split at htreasury
  · rename_i hbase
    refine iff_of_true ?_ (.inl hbase)
    obtain ⟨-, hboughtTreasury, hpaidTreasury⟩ := htreasury
    refine ⟨(hreserves _).trans hpaid, hpaidTreasury, ?_, hboughtTreasury⟩
    rw [hreserves, hbought]
    omega
  · rename_i hbase
    obtain ⟨-, hboughtTreasury, hpaidTreasury⟩ := htreasury
    constructor
    · intro h
      right
      have heq : p.treasuryOf (p.pair.paid input) = p.treasuryOf (p.pair.paid input) + fees.2 :=
        h.paidTreasury.symm.trans hpaidTreasury
      omega
    · intro h
      have hnone := h.resolve_left hbase
      refine ⟨(hreserves _).trans hpaid, ?_, ?_, ?_⟩
      · rw [hnone] at hpaidTreasury ⊢
        exact hpaidTreasury
      · rw [hreserves, hbought]
        omega
      · rw [hnone] at hboughtTreasury ⊢
        exact hboughtTreasury

/-- The treasuries have room for the fee of an output that the reserves have. -/
theorem Vouched.credited_lt (hv : p.Vouched) (htwo : p.assetX ≠ p.assetY)
    (hle : fees.1 + fees.2 ≤ pureOutput)
    (hbound : pureOutput ≤ p.pair.given (p.pair.paid input) (p.reservesY - p.treasuryY)
      (p.reservesX - p.treasuryX))
    (hown : p.assetX = p.pair.base ∨ fees.2 = 0) : p.credited input + fees.2 < 2 ^ 64 := by
  obtain ⟨-, -, hx, hy, hltX, hltY⟩ := hv
  have hpair : p.pair.x ≠ p.pair.y := htwo
  obtain hbase | hnone := hown
  · have htreasury := credit_treasury input htwo fees.2
    rw [if_pos hbase] at htreasury
    rw [htreasury.1, treasuryOf, Pair.given_bought hpair]
    rw [Pair.given_paid hpair] at hbound ⊢
    split at hbound
    · rename_i hentersX
      rw [if_pos hentersX]
      omega
    · rename_i hentersX
      rw [if_neg hentersX]
      omega
  · rw [hnone]
    cases input with
    | bid amount => exact hx.trans hltX
    | ask amount => exact hy.trans hltY

/-- A swap of a pool that the parser accepts, and of an input that has an output, returns with its
accounts in order exactly where the output is accountable. -/
theorem swap_accounted_iff {repr : TransactionOutput} {ctx : PoolContext}
    (hparsed : tryFromLedger repr ctx = .ok (some p))
    (houtput : calcStableSwap fuel p.pair (p.reservesX - p.treasuryX) p.multiplierX
      (p.reservesY - p.treasuryY) p.multiplierY (p.pair.paid input) input.unwrap p.an2n =
        .ok (some pureOutput)) :
    p.KeepsAccounts fuel input pureOutput ↔ p.Accountable input pureOutput := by
  have hv := vouched_of_parsed hparsed
  have hlpFee : p.lpFee = ⟨p.lpFee.numer, feeDen⟩ := by rw [← hv.lpFee]
  have htreasuryFee : p.treasuryFee = ⟨p.treasuryFee.numer, feeDen⟩ := by rw [← hv.treasuryFee]
  have hout : p.outputAmount fuel (p.pair.paid input) input.unwrap = .ok pureOutput := by
    simp only [outputAmount, Checked.bind_eq_ok, Checked.sub_eq_ok]
    exact ⟨_, ⟨hv.treasuryX.le, rfl⟩, _, ⟨hv.treasuryY.le, rfl⟩, _, houtput, rfl⟩
  constructor
  · rintro ⟨p', fees, hswap, hfees, hacc⟩
    have hfees' := hfees
    rw [hlpFee, htreasuryFee] at hfees'
    obtain ⟨hle, hlt, hnone⟩ := stableFees_spec hfees'
    obtain ⟨hlp, htreasury, hden, hsum⟩ := exists_stableFees_iff.mp ⟨fees, hfees'⟩
    obtain ⟨x, y, hmove, -, rfl⟩ := (swap_eq_ok hout hfees hle).mp hswap
    have htwo := hacc.assets (credit_pair _) hlt
    have hown := (accounted_of_move_iff htwo hle hmove).mp hacc
    exact ⟨htwo, hlp, htreasury, hden, hsum, (move_reserves htwo hmove).1, hown.imp_right hnone.mp⟩
  · rintro ⟨htwo, hlp, htreasury, hden, hsum, hfit, hown⟩
    obtain ⟨fees, hfees⟩ := exists_stableFees_iff.mpr ⟨hlp, htreasury, hden, hsum⟩
    obtain ⟨hle, hlt, hnone⟩ := stableFees_spec hfees
    rw [← hlpFee, ← htreasuryFee] at hfees
    have hbound := calcStableSwap_le houtput
    have hown' : p.assetX = p.pair.base ∨ fees.2 = 0 := hown.imp_right hnone.mpr
    have hpart : pureOutput - fees.2 - fees.1 ≤
        p.pair.given (p.pair.paid input) p.reservesY p.reservesX := by
      refine ((Nat.sub_le _ _).trans (Nat.sub_le _ _)).trans (hbound.trans ?_)
      unfold Pair.given
      split <;> exact Nat.sub_le _ _
    have hmove := Pair.move_traded (show p.pair.x ≠ p.pair.y from htwo) hfit hpart
    refine ⟨_, fees, (swap_eq_ok hout hfees hle).mpr ⟨_, _, hmove,
      hv.credited_lt htwo hle hbound hown', rfl⟩, hfees, ?_⟩
    exact (accounted_of_move_iff htwo hle hmove).mpr hown'

/-- Two tokens in an order, at a fee of 0.1% for the liquidity providers and of as much for the
treasury. -/
def tokensOutput (x y : UInt8) : TransactionOutput where
  address := .enterprise (.script (RawBytes.replicate 8))
  value := .ofTokens 5000000 [(sampleToken 1, 1), (sampleToken x, 102434231),
    (sampleToken y, 3002434231), (sampleToken 4, 9223372036853775807)]
  datum := some (.datum (.constr 0 [(sampleToken 1).intoPd, .integer 3520, (sampleToken x).intoPd,
    (sampleToken y).intoPd, .integer 1, .integer 1, (sampleToken 4).intoPd, .integer 0, .integer 0,
    .integer 100, .integer 100, .list [], .integer 0, .integer 0, .integer 0]))

abbrev tokensPool (x y : UInt8) : StablePoolT2T :=
  { id := sampleToken 1
    an2n := 3520
    reservesX := 102434231
    multiplierX := 1
    reservesY := 3002434231
    multiplierY := 1
    liquidity := 1000000
    assetX := .token (sampleToken x)
    assetY := .token (sampleToken y)
    assetLq := .token (sampleToken 4)
    lpFeeX := ⟨100, feeDen⟩
    lpFeeY := ⟨100, feeDen⟩
    treasuryFee := ⟨100, feeDen⟩
    treasuryX := 0
    treasuryY := 0
    ver := .v1
    marginalCost := ⟨0, 0⟩ }

theorem swap_accounted_sample :
    (tokensPool 2 3).KeepsAccounts 255 (.ask 7110241) 8790136 ↔
      (tokensPool 2 3).Accountable (.ask 7110241) 8790136 :=
  swap_accounted_iff
    (show tryFromLedger (tokensOutput 2 3) samplePoolContext = .ok (some (tokensPool 2 3)) by
      decide +kernel)
    (by decide +kernel)

/-- Where y is base, the fee that is withheld from y is credited to the treasury of x. -/
theorem bid_credits_paid_treasury :
    tryFromLedger (tokensOutput 3 2) samplePoolContext = .ok (some (tokensPool 3 2)) ∧
    (tokensPool 3 2).swap 255 (.bid 7110241) = .ok { tokensPool 3 2 with
      reservesX := 109544472
      reservesY := 2993661677
      treasuryX := 8791 } ∧
    ¬ (tokensPool 3 2).KeepsAccounts 255 (.bid 7110241) 8790136 := by
  have hswap : (tokensPool 3 2).swap 255 (.bid 7110241) = .ok { tokensPool 3 2 with
      reservesX := 109544472
      reservesY := 2993661677
      treasuryX := 8791 } := by decide +kernel
  refine ⟨by decide +kernel, hswap, ?_⟩
  rintro ⟨p', fees, hok, -, haccounted⟩
  cases hok.symm.trans hswap
  exact absurd haccounted.paidTreasury (by decide +kernel)

end StablePoolT2T

end UtxoMonitor.Pools
