import Mathlib.Data.Nat.Find
import UtxoMonitor.Pools.Ledger
import UtxoMonitor.Pools.Regular

/-! When the parsers of pools stop, and what they accept. -/
namespace UtxoMonitor.Pools

open Lib LiquidityBook

/-- A parser that returns, and returns nothing unsound. -/
def Parsed {P : Type} (parse : Checked (Option P)) (Sound : P → Prop) : Prop :=
  (∃ outcome, parse = .ok outcome) ∧ ∀ p, parse = .ok (some p) → Sound p

theorem parsed_none {P : Type} {Sound : P → Prop} : Parsed (pure none) Sound :=
  ⟨⟨none, rfl⟩, fun _ h => by cases h⟩

theorem Parsed.of_eq {P : Type} {Sound : P → Prop} {parse parse' : Checked (Option P)}
    (h : parse = parse') (hparsed : Parsed parse' Sound) : Parsed parse Sound := h ▸ hparsed

/-- What a parser reads of an output at one of its scripts: the datum, and the amounts of the assets
that the datum names. -/
structure Draft (V C : Type) where
  ver : V
  conf : C
  liquidityNeg : Nat
  reservesX : Nat
  reservesY : Nat

def Draft.read {V C : Type} (ver : Option V) (conf : V → Option C)
    (assets : C → AssetClass × AssetClass × AssetClass) (value : Value) : Option (Draft V C) := do
  let ver ← ver
  let conf ← conf ver
  let liquidityNeg ← value.amountOf (assets conf).1
  let reservesX ← value.amountOf (assets conf).2.1
  let reservesY ← value.amountOf (assets conf).2.2
  return ⟨ver, conf, liquidityNeg, reservesX, reservesY⟩

theorem Draft.read_eq_some {V C : Type} {ver : Option V} {conf : V → Option C}
    {assets : C → AssetClass × AssetClass × AssetClass} {value : Value} {d : Draft V C} :
    Draft.read ver conf assets value = some d ↔
      ver = some d.ver ∧ conf d.ver = some d.conf ∧
      value.amountOf (assets d.conf).1 = some d.liquidityNeg ∧
      value.amountOf (assets d.conf).2.1 = some d.reservesX ∧
      value.amountOf (assets d.conf).2.2 = some d.reservesY := by
  simp only [read, Option.bind_eq_bind, Option.bind_eq_some_iff, Option.pure_def,
    Option.some.injEq]
  constructor
  · rintro ⟨_, hver, _, hconf, _, hlq, _, hx, _, hy, rfl⟩
    exact ⟨hver, hconf, hlq, hx, hy⟩
  · rintro ⟨hver, hconf, hlq, hx, hy⟩
    exact ⟨_, hver, _, hconf, _, hlq, _, hx, _, hy, rfl⟩

/-! ### Classic pools -/

namespace ClassicPool

def draft (repr : TransactionOutput) (ctx : PoolContext) :
    Option (Draft ClassicPoolVer LegacyCfmmPoolConfig) :=
  Draft.read (verOf repr.address ctx)
    (fun _ => repr.intoPd.bind LegacyCfmmPoolConfig.tryFromPd)
    (fun conf => (conf.assetLq, conf.assetX, conf.assetY)) repr.value

/-- A pool whose prices and swaps can be computed. -/
structure Sound (p : ClassicPool) : Prop where
  reservesX : 0 < p.reservesX
  reservesY : 0 < p.reservesY
  lpFee : p.lpFee.numer ≤ p.lpFee.denom
  liquidity : p.liquidity ≤ maxLqCap
  realPrice : ∀ input, Checked.Regular (p.realPrice input)
  swap : ∀ input, Checked.Regular (p.swap input)

structure Clean (d : Draft ClassicPoolVer LegacyCfmmPoolConfig) : Prop where
  liquidityNeg : d.liquidityNeg ≤ maxLqCap
  lpFee : d.conf.lpFeeNum * legacyFeeNumMultiplier ≤ feeDen
  reservesX : 0 < d.reservesX
  reservesY : 0 < d.reservesY
  lovelace : Pair.AboveUntouchable ⟨d.conf.assetX, d.conf.assetY⟩ d.reservesX d.reservesY

variable {repr : TransactionOutput} {ctx : PoolContext} {p : ClassicPool}
  {d : Draft ClassicPoolVer LegacyCfmmPoolConfig}

theorem sound_iff (hdenom : p.lpFee.denom = feeDen) (hx : p.reservesX < 2 ^ 64)
    (hy : p.reservesY < 2 ^ 64) (hsame : p.assetX = p.assetY → p.reservesX = p.reservesY) :
    p.Sound ↔ 0 < p.reservesX ∧ 0 < p.reservesY ∧ p.lpFee.numer ≤ feeDen ∧
      p.liquidity ≤ maxLqCap ∧ p.pair.AboveUntouchable p.reservesX p.reservesY := by
  have hpos : 0 < p.lpFee.denom := by
    rw [hdenom]
    decide
  constructor
  · rintro ⟨hposX, hposY, hfee, hlq, hprice, -⟩
    exact ⟨hposX, hposY, hdenom ▸ hfee, hlq, aboveUntouchable_of_regular hposX hx hposY hy hpos
      hdenom.le hpos hdenom.le fun input _ => (hprice input).of_bind⟩
  · rintro ⟨hposX, hposY, hfee, hlq, habove⟩
    exact ⟨hposX, hposY, hdenom.symm ▸ hfee, hlq,
      fun input => Checked.regular_bind (outputAmount_regular hposX hposY hpos habove input)
        fun _ _ => Checked.regular_pure,
      swap_regular hposX hposY hpos hsame habove⟩

theorem tryFromLedger_of_none (h : draft repr ctx = none) : tryFromLedger repr ctx = pure none := by
  unfold tryFromLedger
  split
  · rename_i ver conf hver hconf
    unfold ofConfig
    split
    · rename_i lq id x y hlq hid hx hy
      rw [draft, (Draft.read_eq_some (d := ⟨ver, conf, lq, x, y⟩)).mpr
        ⟨hver, hconf, hlq, hx, hy⟩] at h
      cases h
    · rfl
  · rfl

/-- Classic pools are read well when what is read names a token as its pool and is clean. -/
theorem parsed_iff (repr : TransactionOutput) (ctx : PoolContext) :
    Parsed (tryFromLedger repr ctx) Sound ↔
      ∀ d, draft repr ctx = some d → (PoolId.tryFrom d.conf.poolNft).isSome → Clean d := by
  cases hd : draft repr ctx with
  | none =>
    rw [tryFromLedger_of_none hd]
    exact iff_of_true parsed_none fun _ h => by cases h
  | some d =>
    obtain ⟨hver, hconf, hlq, hx, hy⟩ := Draft.read_eq_some.mp hd
    simp only [tryFromLedger, hver, hconf, ofConfig, hlq, hx, hy]
    cases hid : PoolId.tryFrom d.conf.poolNft with
    | none =>
      refine iff_of_true parsed_none fun d' h hid' => ?_
      cases h
      rw [hid] at hid'
      cases hid'
    | some id =>
      have hsame : d.conf.assetX = d.conf.assetY → d.reservesX = d.reservesY := fun heq =>
        Option.some.inj (hx.symm.trans (heq ▸ hy))
      constructor
      · rintro ⟨⟨outcome, hok⟩, hsound⟩ d' h -
        cases h
        obtain ⟨_, hliq, hok⟩ := Checked.bind_eq_ok.mp hok
        obtain ⟨_, hfee, -⟩ := Checked.bind_eq_ok.mp hok
        have sound := hsound _ (Checked.bind_eq_ok.mpr ⟨_, hliq, Checked.bind_eq_ok.mpr
          ⟨_, hfee, rfl⟩⟩)
        obtain ⟨hposX, hposY, hlpFee, -, habove⟩ :=
          (sound_iff rfl (Value.amountOf_lt hx) (Value.amountOf_lt hy) hsame).mp sound
        exact ⟨(Checked.sub_eq_ok.mp hliq).1, (Checked.mul_eq_ok.mp hfee).2.trans_le hlpFee, hposX,
          hposY, habove⟩
      · intro h
        obtain ⟨hliq, hfee, hposX, hposY, habove⟩ := h d rfl (hid ▸ rfl)
        have hmul := hfee.trans_lt (show feeDen < 2 ^ 64 by decide)
        simp only [Checked.sub, if_pos hliq, Checked.mul, if_pos hmul]
        refine ⟨⟨_, rfl⟩, fun p hp => ?_⟩
        cases hp
        exact (sound_iff rfl (Value.amountOf_lt hx) (Value.amountOf_lt hy) hsame).mpr
          ⟨hposX, hposY, hfee, Nat.sub_le _ _, habove⟩

end ClassicPool

/-! ### Pools with a treasury fee -/

namespace FeeSwitchPool

def draft (repr : TransactionOutput) (ctx : PoolContext) :
    Option (Draft FeeSwitchPoolVer FeeSwitchBidirectionalPoolConfig) :=
  Draft.read (verOf repr.address ctx) (fun ver => repr.intoPd.bind (configOf ver))
    (fun conf => (conf.assetLq, conf.assetX, conf.assetY)) repr.value

structure Sound (p : FeeSwitchPool) : Prop where
  reservesX : p.treasuryX < p.reservesX
  reservesY : p.treasuryY < p.reservesY
  treasuryFeeX : p.treasuryFee.numer ≤ p.lpFeeX.numer
  treasuryFeeY : p.treasuryFee.numer ≤ p.lpFeeY.numer
  lpFeeX : p.lpFeeX.numer ≤ p.lpFeeX.denom
  lpFeeY : p.lpFeeY.numer ≤ p.lpFeeY.denom
  liquidity : p.liquidity ≤ maxLqCap
  staticPrice : Checked.Regular p.staticPrice
  available : Checked.Regular p.available
  realPrice : ∀ input, Checked.Regular (p.realPrice input)
  swap : ∀ input, Checked.Regular (p.swap input)

/-- The checks that the parser makes. -/
def Accepted (d : Draft FeeSwitchPoolVer FeeSwitchBidirectionalPoolConfig)
    (repr : TransactionOutput) (ctx : PoolContext) : Prop :=
  (d.conf.treasuryX < d.reservesX ∧ d.conf.treasuryY < d.reservesY) ∧
  sufficientLovelace ⟨d.conf.assetX, d.conf.assetY⟩ repr.value.coin ctx.bounds ∧
  (PoolId.tryFrom d.conf.poolNft).isSome

/-- The treasury is within the reserves whether the pool is accepted or not; and if it is, its fees,
its liquidity and its ADA are in order. -/
structure Clean (d : Draft FeeSwitchPoolVer FeeSwitchBidirectionalPoolConfig)
    (repr : TransactionOutput) (ctx : PoolContext) : Prop where
  treasuryX : d.conf.treasuryX ≤ d.reservesX
  treasuryY : d.conf.treasuryY ≤ d.reservesY
  accepted : Accepted d repr ctx → d.liquidityNeg ≤ maxLqCap ∧
    (d.conf.treasuryFeeNum ≤ d.conf.lpFeeNumX ∧ d.conf.lpFeeNumX ≤ feeDen) ∧
    (d.conf.treasuryFeeNum ≤ d.conf.lpFeeNumY ∧ d.conf.lpFeeNumY ≤ feeDen) ∧
    Pair.AboveUntouchable ⟨d.conf.assetX, d.conf.assetY⟩ (d.reservesX - d.conf.treasuryX)
      (d.reservesY - d.conf.treasuryY)

variable {repr : TransactionOutput} {ctx : PoolContext} {p : FeeSwitchPool}
  {d : Draft FeeSwitchPoolVer FeeSwitchBidirectionalPoolConfig}

theorem sound_iff (hlpX : p.lpFeeX.denom = feeDen) (hlpY : p.lpFeeY.denom = feeDen)
    (htreasury : p.treasuryFee.denom = feeDen) (hx : p.reservesX < 2 ^ 64)
    (hy : p.reservesY < 2 ^ 64) (hsame : p.assetX = p.assetY → p.reservesX = p.reservesY) :
    p.Sound ↔ (p.treasuryX < p.reservesX ∧ p.treasuryY < p.reservesY) ∧
      p.liquidity ≤ maxLqCap ∧
      (p.treasuryFee.numer ≤ p.lpFeeX.numer ∧ p.lpFeeX.numer ≤ feeDen) ∧
      (p.treasuryFee.numer ≤ p.lpFeeY.numer ∧ p.lpFeeY.numer ≤ feeDen) ∧
      p.pair.AboveUntouchable (p.reservesX - p.treasuryX) (p.reservesY - p.treasuryY) := by
  have hisX : p.lpFeeX.Is p.lpFeeX.numer := ⟨hlpX ▸ dvd_rfl, by rw [hlpX]⟩
  have hisY : p.lpFeeY.Is p.lpFeeY.numer := ⟨hlpY ▸ dvd_rfl, by rw [hlpY]⟩
  have hist : p.treasuryFee.Is p.treasuryFee.numer := ⟨htreasury ▸ dvd_rfl, by rw [htreasury]⟩
  have hltX : p.reservesX - p.treasuryX < 2 ^ 64 := (Nat.sub_le _ _).trans_lt hx
  have hltY : p.reservesY - p.treasuryY < 2 ^ 64 := (Nat.sub_le _ _).trans_lt hy
  have hden : feeDen < 2 ^ 64 := by decide
  constructor
  · intro h
    have hfeeX := hlpX ▸ h.lpFeeX
    have hfeeY := hlpY ▸ h.lpFeeY
    obtain ⟨feeX, feeY, hX, hY, houtput⟩ := outputAmount_eq h.reservesX.le h.reservesY.le hisX hisY
      hist h.treasuryFeeX h.treasuryFeeY (hfeeX.trans_lt hden) (hfeeY.trans_lt hden)
    refine ⟨⟨h.reservesX, h.reservesY⟩, h.liquidity, ⟨h.treasuryFeeX, hfeeX⟩,
      ⟨h.treasuryFeeY, hfeeY⟩, aboveUntouchable_of_regular (Nat.sub_pos_of_lt h.reservesX) hltX
      (Nat.sub_pos_of_lt h.reservesY) hltY hX.denom_pos hX.denom_le hY.denom_pos hY.denom_le
      fun input _ => ?_⟩
    rw [← houtput]
    exact (h.realPrice input).of_bind
  · rintro ⟨⟨hposX, hposY⟩, hlq, ⟨htX, hfeeX⟩, ⟨htY, hfeeY⟩, habove⟩
    obtain ⟨feeX, feeY, hX, hY, houtput⟩ := outputAmount_eq hposX.le hposY.le hisX hisY hist htX htY
      (hfeeX.trans_lt hden) (hfeeY.trans_lt hden)
    refine ⟨hposX, hposY, htX, htY, hlpX.symm ▸ hfeeX, hlpY.symm ▸ hfeeY, hlq,
      staticPrice_regular hposX.le hposY.le, available_regular hposX.le hposY.le, fun input => ?_,
      swap_regular hposX hposY hX.denom_pos hY.denom_pos hist houtput hsame habove⟩
    refine Checked.regular_bind ?_ fun _ _ => Checked.regular_pure
    rw [houtput]
    exact classicCfmmOutputAmount_regular (Nat.sub_pos_of_lt hposX) (Nat.sub_pos_of_lt hposY)
      hX.denom_pos hY.denom_pos habove

theorem tryFromLedger_of_none (h : draft repr ctx = none) : tryFromLedger repr ctx = pure none := by
  unfold tryFromLedger
  split
  · rename_i ver pd hver hpd
    split
    · rename_i conf hconf
      unfold ofConfig
      split
      · rename_i lq x y hlq hx hy
        rw [draft, (Draft.read_eq_some (d := ⟨ver, conf, lq, x, y⟩)).mpr
          ⟨hver, Option.bind_eq_some_iff.mpr ⟨pd, hpd, hconf⟩, hlq, hx, hy⟩] at h
        cases h
      · rfl
    · rfl
  · rfl

/-- Pools with a treasury fee are read well when what is read is clean. -/
theorem parsed_iff (repr : TransactionOutput) (ctx : PoolContext) :
    Parsed (tryFromLedger repr ctx) Sound ↔
      ∀ d, draft repr ctx = some d → Clean d repr ctx := by
  cases hd : draft repr ctx with
  | none =>
    rw [tryFromLedger_of_none hd]
    exact iff_of_true parsed_none fun _ h => by cases h
  | some d =>
    obtain ⟨hver, hconf, hlq, hx, hy⟩ := Draft.read_eq_some.mp hd
    obtain ⟨pd, hpd, hconf⟩ := Option.bind_eq_some_iff.mp hconf
    have hsame : d.conf.assetX = d.conf.assetY → d.reservesX = d.reservesY := fun heq =>
      Option.some.inj (hx.symm.trans (heq ▸ hy))
    have hltX := Value.amountOf_lt hx
    have hltY := Value.amountOf_lt hy
    simp only [tryFromLedger, hver, hpd, hconf, ofConfig, hlq, hx, hy]
    constructor
    · rintro ⟨⟨outcome, hok⟩, hsound⟩ d' h
      cases h
      obtain ⟨_, hsubX, hrun⟩ := Checked.bind_eq_ok.mp hok
      obtain ⟨_, hsubY, hrun⟩ := Checked.bind_eq_ok.mp hrun
      obtain ⟨htX, rfl⟩ := Checked.sub_eq_ok.mp hsubX
      obtain ⟨htY, rfl⟩ := Checked.sub_eq_ok.mp hsubY
      refine ⟨htX, htY, fun ⟨hpos, hsufficient, hid⟩ => ?_⟩
      obtain ⟨id, hid⟩ := Option.isSome_iff_exists.mp hid
      rw [if_pos ⟨⟨Nat.sub_pos_of_lt hpos.1, Nat.sub_pos_of_lt hpos.2⟩, hsufficient, hpos⟩,
        hid] at hrun
      obtain ⟨_, hliq, hrun⟩ := Checked.bind_eq_ok.mp hrun
      cases Checked.pure_eq_ok.mp hrun
      obtain ⟨-, -, hfeeX, hfeeY, habove⟩ :=
        (sound_iff rfl rfl rfl hltX hltY hsame).mp (hsound _ hok)
      exact ⟨(Checked.sub_eq_ok.mp hliq).1, hfeeX, hfeeY, habove⟩
    · intro h
      obtain ⟨htX, htY, haccepted⟩ := h d rfl
      simp only [Checked.sub, if_pos htX, if_pos htY]
      by_cases hcheck :
          (0 < d.reservesX - d.conf.treasuryX ∧ 0 < d.reservesY - d.conf.treasuryY) ∧
          sufficientLovelace ⟨d.conf.assetX, d.conf.assetY⟩ repr.value.coin ctx.bounds ∧
          (d.conf.treasuryX < d.reservesX ∧ d.conf.treasuryY < d.reservesY)
      · refine Parsed.of_eq (if_pos hcheck) ?_
        cases hid : PoolId.tryFrom d.conf.poolNft with
        | none => exact parsed_none
        | some id =>
          obtain ⟨hliq, hfeeX, hfeeY, habove⟩ := haccepted ⟨hcheck.2.2, hcheck.2.1, hid ▸ rfl⟩
          refine Parsed.of_eq (congrArg (· >>= _) (if_pos hliq)) ⟨⟨_, rfl⟩, fun p hp => ?_⟩
          cases hp
          exact (sound_iff rfl rfl rfl hltX hltY hsame).mpr
            ⟨hcheck.2.2, Nat.sub_le _ _, hfeeX, hfeeY, habove⟩
      · exact Parsed.of_eq (if_neg hcheck) parsed_none

end FeeSwitchPool

/-! ### Pools with royalties -/

/-- What belongs to the treasury and to the owners of royalties. -/
def RoyaltyPoolV2Config.owedX (conf : RoyaltyPoolV2Config) : Nat :=
  conf.treasuryX + conf.firstRoyaltyX + conf.secondRoyaltyX

def RoyaltyPoolV2Config.owedY (conf : RoyaltyPoolV2Config) : Nat :=
  conf.treasuryY + conf.firstRoyaltyY + conf.secondRoyaltyY

namespace RoyaltyPool

def draft (repr : TransactionOutput) (ctx : PoolContext) :
    Option (Draft RoyaltyPoolVer RoyaltyPoolV2Config) :=
  Draft.read (verOf repr.address ctx) (fun ver => repr.intoPd.bind (configOf ver))
    (fun conf => (conf.assetLq, conf.assetX, conf.assetY)) repr.value

structure Sound (p : RoyaltyPool) : Prop where
  reservesX : p.owedX < p.reservesX
  reservesY : p.owedY < p.reservesY
  fees : p.treasuryFee.numer + p.firstRoyaltyFee.numer + p.secondRoyaltyFee.numer ≤ p.lpFee.numer
  lpFee : p.lpFee.numer ≤ p.lpFee.denom
  liquidity : p.liquidity ≤ maxLqCap
  staticPrice : Checked.Regular p.staticPrice
  available : Checked.Regular p.available
  realPrice : ∀ input, Checked.Regular (p.realPrice input)
  swap : ∀ input, Checked.Regular (p.swap input)

/-- The checks that the parser makes before it computes the liquidity. -/
def Accepted (d : Draft RoyaltyPoolVer RoyaltyPoolV2Config) (repr : TransactionOutput)
    (ctx : PoolContext) : Prop :=
  (d.conf.owedX < d.reservesX ∧ d.conf.owedY < d.reservesY) ∧
  sufficientLovelace ⟨d.conf.assetX, d.conf.assetY⟩ repr.value.coin ctx.bounds ∧
  (PoolId.tryFrom d.conf.poolNft).isSome

/-- The bytes of the addresses and keys have the right lengths. -/
def Keyed (conf : RoyaltyPoolV2Config) : Prop :=
  (RawBytes.fromRawBytes conf.treasuryAddress : Option ScriptHash).isSome ∧
  (RawBytes.fromRawBytes conf.firstRoyaltyPubKey : Option Ed25519PublicKey).isSome ∧
  (RawBytes.fromRawBytes conf.secondRoyaltyPubKey : Option Ed25519PublicKey).isSome

structure Clean (d : Draft RoyaltyPoolVer RoyaltyPoolV2Config) (repr : TransactionOutput)
    (ctx : PoolContext) : Prop where
  reservesX : d.conf.owedX ≤ d.reservesX
  reservesY : d.conf.owedY ≤ d.reservesY
  liquidityNeg : Accepted d repr ctx → d.liquidityNeg ≤ maxLqCap
  fees : Accepted d repr ctx → Keyed d.conf →
    d.conf.treasuryFeeNum + d.conf.firstRoyaltyFeeNum + d.conf.secondRoyaltyFeeNum ≤
        d.conf.lpFeeNum ∧
      d.conf.lpFeeNum ≤ feeDen ∧
      Pair.AboveUntouchable ⟨d.conf.assetX, d.conf.assetY⟩ (d.reservesX - d.conf.owedX)
        (d.reservesY - d.conf.owedY)

variable {repr : TransactionOutput} {ctx : PoolContext} {p : RoyaltyPool}
  {d : Draft RoyaltyPoolVer RoyaltyPoolV2Config}

/-- Fees over the one denominator, but for a second owner that has none. -/
structure FeesInParts (p : RoyaltyPool) : Prop where
  lpFee : p.lpFee.denom = feeDen
  treasuryFee : p.treasuryFee.Is p.treasuryFee.numer
  firstRoyaltyFee : p.firstRoyaltyFee.Is p.firstRoyaltyFee.numer
  secondRoyaltyFee : p.secondRoyaltyFee.Is p.secondRoyaltyFee.numer

theorem sound_iff (hfees : p.FeesInParts) (hx : p.reservesX < 2 ^ 64) (hy : p.reservesY < 2 ^ 64)
    (hsame : p.assetX = p.assetY → p.reservesX = p.reservesY) :
    p.Sound ↔ (p.owedX < p.reservesX ∧ p.owedY < p.reservesY) ∧ p.liquidity ≤ maxLqCap ∧
      p.treasuryFee.numer + p.firstRoyaltyFee.numer + p.secondRoyaltyFee.numer ≤ p.lpFee.numer ∧
      p.lpFee.numer ≤ feeDen ∧
      p.pair.AboveUntouchable (p.reservesX - p.owedX) (p.reservesY - p.owedY) := by
  have hislp : p.lpFee.Is p.lpFee.numer := ⟨hfees.lpFee ▸ dvd_rfl, by rw [hfees.lpFee]⟩
  have hltX : p.reservesX - p.owedX < 2 ^ 64 := (Nat.sub_le _ _).trans_lt hx
  have hltY : p.reservesY - p.owedY < 2 ^ 64 := (Nat.sub_le _ _).trans_lt hy
  have hden : feeDen < 2 ^ 64 := by decide
  constructor
  · intro h
    have hlp := hfees.lpFee ▸ h.lpFee
    obtain ⟨fee, hfee, his⟩ := poolFee_eq hislp hfees.treasuryFee hfees.firstRoyaltyFee
      hfees.secondRoyaltyFee h.fees (hlp.trans_lt hden)
    refine ⟨⟨h.reservesX, h.reservesY⟩, h.liquidity, h.fees, hlp, aboveUntouchable_of_regular
      (Nat.sub_pos_of_lt h.reservesX) hltX (Nat.sub_pos_of_lt h.reservesY) hltY his.denom_pos
      his.denom_le his.denom_pos his.denom_le fun input _ => ?_⟩
    rw [← outputAmount_eq h.reservesX.le h.reservesY.le hfee]
    exact (h.realPrice input).of_bind
  · rintro ⟨⟨hposX, hposY⟩, hlq, hsum, hlp, habove⟩
    obtain ⟨fee, hfee, his⟩ := poolFee_eq hislp hfees.treasuryFee hfees.firstRoyaltyFee
      hfees.secondRoyaltyFee hsum (hlp.trans_lt hden)
    refine ⟨hposX, hposY, hsum, hfees.lpFee.symm ▸ hlp, hlq, staticPrice_regular hposX.le hposY.le,
      available_regular hposX.le hposY.le, fun input => ?_,
      swap_regular hposX hposY his.denom_pos hfees.treasuryFee hfees.firstRoyaltyFee
        hfees.secondRoyaltyFee hfee hsame habove⟩
    refine Checked.regular_bind ?_ fun _ _ => Checked.regular_pure
    rw [outputAmount_eq hposX.le hposY.le hfee]
    exact classicCfmmOutputAmount_regular (Nat.sub_pos_of_lt hposX) (Nat.sub_pos_of_lt hposY)
      his.denom_pos his.denom_pos habove

theorem second_of_configOf {ver : RoyaltyPoolVer} {pd : PlutusData} {conf : RoyaltyPoolV2Config}
    (h : configOf ver pd = some conf) :
    Ratio.Is ⟨conf.secondRoyaltyFeeNum, secondFeeDen ver⟩ conf.secondRoyaltyFeeNum := by
  cases ver with
  | v2 => exact Ratio.is_feeDen _
  | v1 | v1LedgerFixed =>
    obtain ⟨_, -, rfl⟩ := Option.map_eq_some_iff.mp h
    exact Ratio.is_zero (by decide)

theorem tryFromLedger_of_none (h : draft repr ctx = none) : tryFromLedger repr ctx = pure none := by
  unfold tryFromLedger
  split
  · rename_i ver pd hver hpd
    split
    · rename_i conf hconf
      unfold ofConfig
      split
      · rename_i lq x y hlq hx hy
        rw [draft, (Draft.read_eq_some (d := ⟨ver, conf, lq, x, y⟩)).mpr
          ⟨hver, Option.bind_eq_some_iff.mpr ⟨pd, hpd, hconf⟩, hlq, hx, hy⟩] at h
        cases h
      · rfl
    · rfl
  · rfl

/-- The parser gets past its arithmetic where what is owed is within the reserves, and then builds
the pool if the checks pass. -/
theorem ofConfig_eq_ok {outcome : Option RoyaltyPool}
    (hlq : repr.value.amountOf d.conf.assetLq = some d.liquidityNeg)
    (hx : repr.value.amountOf d.conf.assetX = some d.reservesX)
    (hy : repr.value.amountOf d.conf.assetY = some d.reservesY) :
    ofConfig d.ver d.conf repr ctx = .ok outcome ↔
      d.conf.owedX ≤ d.reservesX ∧ d.conf.owedY ≤ d.reservesY ∧
      if (d.conf.owedX < d.reservesX ∧ d.conf.owedY < d.reservesY) ∧
          sufficientLovelace ⟨d.conf.assetX, d.conf.assetY⟩ repr.value.coin ctx.bounds then
        build d.ver d.conf repr ctx d.liquidityNeg d.reservesX d.reservesY = .ok outcome
      else outcome = none := by
  have hltX := Value.amountOf_lt hx
  have hltY := Value.amountOf_lt hy
  simp only [ofConfig, hlq, hx, hy, Checked.bind_eq_ok, Checked.sub_eq_ok, Checked.add_eq_ok]
  unfold RoyaltyPoolV2Config.owedX RoyaltyPoolV2Config.owedY
  constructor
  · rintro ⟨_, ⟨hx1, rfl⟩, _, ⟨hx2, rfl⟩, _, ⟨hx3, rfl⟩, _, ⟨hy1, rfl⟩, _, ⟨hy2, rfl⟩, _,
      ⟨hy3, rfl⟩, _, ⟨-, rfl⟩, _, ⟨-, rfl⟩, _, ⟨-, rfl⟩, _, ⟨-, rfl⟩, h⟩
    refine ⟨by omega, by omega, ?_⟩
    split at h
    · rename_i hcheck
      rwa [if_pos ⟨hcheck.2.2, hcheck.2.1⟩]
    · rename_i hcheck
      rw [if_neg fun hpassed => hcheck ⟨⟨by omega, by omega⟩, hpassed.2, hpassed.1⟩]
      exact (Checked.pure_eq_ok.mp h).symm
  · rintro ⟨hX, hY, h⟩
    refine ⟨_, ⟨by omega, rfl⟩, _, ⟨by omega, rfl⟩, _, ⟨by omega, rfl⟩, _, ⟨by omega, rfl⟩, _,
      ⟨by omega, rfl⟩, _, ⟨by omega, rfl⟩, _, ⟨by omega, rfl⟩, _, ⟨by omega, rfl⟩, _,
      ⟨by omega, rfl⟩, _, ⟨by omega, rfl⟩, ?_⟩
    split at h
    · rename_i hpassed
      rwa [if_pos ⟨⟨by omega, by omega⟩, hpassed.2, hpassed.1⟩]
    · rename_i hpassed
      rw [if_neg fun hcheck => hpassed ⟨hcheck.2.2, hcheck.2.1⟩, h]
      rfl

/-- What is built of a datum that passed the checks. -/
theorem build_eq_ok_some (h : build d.ver d.conf repr ctx d.liquidityNeg d.reservesX d.reservesY =
      .ok (some p)) :
    (PoolId.tryFrom d.conf.poolNft = some p.id ∧ d.liquidityNeg ≤ maxLqCap) ∧
    (RawBytes.fromRawBytes d.conf.treasuryAddress = some p.treasuryAddress ∧
      RawBytes.fromRawBytes d.conf.firstRoyaltyPubKey = some p.firstRoyaltyPubKey ∧
      RawBytes.fromRawBytes d.conf.secondRoyaltyPubKey = some p.secondRoyaltyPubKey) ∧
    p = {
      id := p.id
      reservesX := d.reservesX
      reservesY := d.reservesY
      liquidity := maxLqCap - d.liquidityNeg
      assetX := d.conf.assetX
      assetY := d.conf.assetY
      assetLq := d.conf.assetLq
      lpFee := ⟨d.conf.lpFeeNum, feeDen⟩
      treasuryFee := ⟨d.conf.treasuryFeeNum, feeDen⟩
      firstRoyaltyFee := ⟨d.conf.firstRoyaltyFeeNum, feeDen⟩
      secondRoyaltyFee := ⟨d.conf.secondRoyaltyFeeNum, secondFeeDen d.ver⟩
      treasuryX := d.conf.treasuryX
      treasuryY := d.conf.treasuryY
      firstRoyaltyX := d.conf.firstRoyaltyX
      firstRoyaltyY := d.conf.firstRoyaltyY
      secondRoyaltyX := d.conf.secondRoyaltyX
      secondRoyaltyY := d.conf.secondRoyaltyY
      lqLowerBound := 0
      adminAddress := d.conf.adminAddress
      treasuryAddress := p.treasuryAddress
      firstRoyaltyPubKey := p.firstRoyaltyPubKey
      secondRoyaltyPubKey := p.secondRoyaltyPubKey
      ver := d.ver
      marginalCost := (ctx.deployed (scriptOf d.ver)).marginalCost
      bounds := ctx.bounds
      nonce := d.conf.nonce
      stakePartScriptHash := stakePart repr.address } := by
  unfold build at h
  split at h
  · rename_i id hid
    obtain ⟨_, hliq, h⟩ := Checked.bind_eq_ok.mp h
    obtain ⟨hle, rfl⟩ := Checked.sub_eq_ok.mp hliq
    split at h
    · rename_i treasury first second htreasury hfirst hsecond
      cases Checked.pure_eq_ok.mp h
      exact ⟨⟨hid, hle⟩, ⟨htreasury, hfirst, hsecond⟩, rfl⟩
    · cases Checked.pure_eq_ok.mp h
  · cases Checked.pure_eq_ok.mp h

theorem build_isOk_iff :
    (∃ outcome, build d.ver d.conf repr ctx d.liquidityNeg d.reservesX d.reservesY = .ok outcome) ↔
      ((PoolId.tryFrom d.conf.poolNft).isSome → d.liquidityNeg ≤ maxLqCap) := by
  unfold build
  cases PoolId.tryFrom d.conf.poolNft with
  | none => exact ⟨fun _ h => (by cases h), fun _ => ⟨none, rfl⟩⟩
  | some id =>
    constructor
    · rintro ⟨outcome, h⟩ -
      obtain ⟨_, hliq, -⟩ := Checked.bind_eq_ok.mp h
      exact (Checked.sub_eq_ok.mp hliq).1
    · intro h
      simp only [Checked.sub, if_pos (h rfl)]
      cases (RawBytes.fromRawBytes d.conf.treasuryAddress : Option ScriptHash) <;>
        cases (RawBytes.fromRawBytes d.conf.firstRoyaltyPubKey : Option Ed25519PublicKey) <;>
        cases (RawBytes.fromRawBytes d.conf.secondRoyaltyPubKey : Option Ed25519PublicKey) <;>
        exact ⟨_, rfl⟩

theorem exists_build (hid : (PoolId.tryFrom d.conf.poolNft).isSome) (hkeyed : Keyed d.conf)
    (hliq : d.liquidityNeg ≤ maxLqCap) : ∃ p,
    build d.ver d.conf repr ctx d.liquidityNeg d.reservesX d.reservesY = .ok (some p) := by
  obtain ⟨id, hid⟩ := Option.isSome_iff_exists.mp hid
  obtain ⟨treasury, htreasury⟩ := Option.isSome_iff_exists.mp hkeyed.1
  obtain ⟨first, hfirst⟩ := Option.isSome_iff_exists.mp hkeyed.2.1
  obtain ⟨second, hsecond⟩ := Option.isSome_iff_exists.mp hkeyed.2.2
  simp only [build, hid, htreasury, hfirst, hsecond, Checked.sub, if_pos hliq]
  exact ⟨_, rfl⟩

/-- Pools with royalties are read well when what is read is clean. -/
theorem parsed_iff (repr : TransactionOutput) (ctx : PoolContext) :
    Parsed (tryFromLedger repr ctx) Sound ↔
      ∀ d, draft repr ctx = some d → Clean d repr ctx := by
  cases hd : draft repr ctx with
  | none =>
    rw [tryFromLedger_of_none hd]
    exact iff_of_true parsed_none fun _ h => by cases h
  | some d =>
    obtain ⟨hver, hconf, hlq, hx, hy⟩ := Draft.read_eq_some.mp hd
    obtain ⟨pd, hpd, hconf⟩ := Option.bind_eq_some_iff.mp hconf
    have hsame : d.conf.assetX = d.conf.assetY → d.reservesX = d.reservesY := fun heq =>
      Option.some.inj (hx.symm.trans (heq ▸ hy))
    have hltX := Value.amountOf_lt hx
    have hltY := Value.amountOf_lt hy
    have htry : tryFromLedger repr ctx = ofConfig d.ver d.conf repr ctx := by
      simp only [tryFromLedger, hver, hpd, hconf]
    have hsound : ∀ p, build d.ver d.conf repr ctx d.liquidityNeg d.reservesX d.reservesY =
        .ok (some p) → (p.Sound ↔ (d.conf.owedX < d.reservesX ∧ d.conf.owedY < d.reservesY) ∧
          maxLqCap - d.liquidityNeg ≤ maxLqCap ∧
          d.conf.treasuryFeeNum + d.conf.firstRoyaltyFeeNum + d.conf.secondRoyaltyFeeNum ≤
            d.conf.lpFeeNum ∧ d.conf.lpFeeNum ≤ feeDen ∧
          Pair.AboveUntouchable ⟨d.conf.assetX, d.conf.assetY⟩ (d.reservesX - d.conf.owedX)
            (d.reservesY - d.conf.owedY)) := by
      intro p hp
      obtain ⟨-, -, hpool⟩ := build_eq_ok_some hp
      rw [hpool]
      exact sound_iff ⟨rfl, Ratio.is_feeDen _, Ratio.is_feeDen _, second_of_configOf hconf⟩ hltX
        hltY hsame
    rw [htry]
    constructor
    · rintro ⟨⟨outcome, hok⟩, hall⟩ d' h
      cases h
      obtain ⟨hX, hY, hrun⟩ := (ofConfig_eq_ok hlq hx hy).mp hok
      have hliq : Accepted d repr ctx → d.liquidityNeg ≤ maxLqCap := by
        intro ⟨hpos, hsufficient, hid⟩
        rw [if_pos ⟨hpos, hsufficient⟩] at hrun
        exact build_isOk_iff.mp ⟨_, hrun⟩ hid
      refine ⟨hX, hY, hliq, fun haccepted hkeyed => ?_⟩
      obtain ⟨p, hp⟩ := exists_build haccepted.2.2 hkeyed (hliq haccepted)
      have hread := (ofConfig_eq_ok hlq hx hy).mpr
        ⟨hX, hY, (if_pos ⟨haccepted.1, haccepted.2.1⟩).mpr hp⟩
      exact ((hsound p hp).mp (hall p hread)).2.2
    · intro h
      obtain ⟨hX, hY, hliq, hfees⟩ := h d rfl
      by_cases hpassed : (d.conf.owedX < d.reservesX ∧ d.conf.owedY < d.reservesY) ∧
          sufficientLovelace ⟨d.conf.assetX, d.conf.assetY⟩ repr.value.coin ctx.bounds
      · refine ⟨?_, fun p hp => ?_⟩
        · obtain ⟨outcome, hbuild⟩ :=
            build_isOk_iff.mpr fun hid => hliq ⟨hpassed.1, hpassed.2, hid⟩
          exact ⟨outcome, (ofConfig_eq_ok hlq hx hy).mpr ⟨hX, hY, (if_pos hpassed).mpr hbuild⟩⟩
        · obtain ⟨-, -, hrun⟩ := (ofConfig_eq_ok hlq hx hy).mp hp
          rw [if_pos hpassed] at hrun
          obtain ⟨⟨hid, -⟩, ⟨htreasury, hfirst, hsecond⟩, -⟩ := build_eq_ok_some hrun
          exact (hsound p hrun).mpr ⟨hpassed.1, Nat.sub_le _ _, hfees
            ⟨hpassed.1, hpassed.2, hid ▸ rfl⟩ ⟨htreasury ▸ rfl, hfirst ▸ rfl, hsecond ▸ rfl⟩⟩
      · refine ⟨⟨none, (ofConfig_eq_ok hlq hx hy).mpr ⟨hX, hY, (if_neg hpassed).mpr rfl⟩⟩,
          fun p hp => ?_⟩
        obtain ⟨-, -, hrun⟩ := (ofConfig_eq_ok hlq hx hy).mp hp
        rw [if_neg hpassed] at hrun
        cases hrun

end RoyaltyPool

/-! ### Balance pools -/

namespace BalancePool

def draft (repr : TransactionOutput) (ctx : PoolContext) :
    Option (Draft BalancePoolVer BalancePoolConfig) :=
  Draft.read (verOf repr.address ctx) (fun _ => repr.intoPd.bind BalancePoolConfig.tryFromPd)
    (fun conf => (conf.assetLq, conf.assetX, conf.assetY)) repr.value

structure Sound [Numerics] (p : BalancePool) : Prop where
  reservesX : p.treasuryX < p.reservesX
  reservesY : p.treasuryY < p.reservesY
  treasuryFee : p.treasuryFee.numer ≤ p.lpFeeX.numer ∧ p.treasuryFee.numer ≤ p.lpFeeY.numer
  lpFee : p.lpFeeX.numer ≤ p.lpFeeX.denom ∧ p.lpFeeY.numer ≤ p.lpFeeY.denom
  liquidity : p.liquidity ≤ maxLqCap
  staticPrice : Checked.Regular p.staticPrice
  available : Checked.Regular p.available
  realPrice : ∀ input, Checked.Regular (p.realPrice input)
  swap : ∀ input, Checked.Regular (p.swap input)

def Accepted (d : Draft BalancePoolVer BalancePoolConfig) (repr : TransactionOutput)
    (ctx : PoolContext) : Prop :=
  sufficientLovelace ⟨d.conf.assetX, d.conf.assetY⟩ repr.value.coin ctx.bounds ∧
  (PoolId.tryFrom d.conf.poolNft).isSome

structure Clean (d : Draft BalancePoolVer BalancePoolConfig) : Prop where
  liquidityNeg : d.liquidityNeg ≤ maxLqCap
  reservesX : d.conf.treasuryX < d.reservesX
  reservesY : d.conf.treasuryY < d.reservesY
  treasuryFee : d.conf.treasuryFeeNum ≤ d.conf.lpFeeNum
  lpFee : d.conf.lpFeeNum ≤ feeDen

variable {repr : TransactionOutput} {ctx : PoolContext} {p : BalancePool}
  {d : Draft BalancePoolVer BalancePoolConfig}

theorem sound_of_clean [Numerics] [FloorsRoot] {lp treasury : Nat} (hlpX : p.lpFeeX = ⟨lp, feeDen⟩)
    (hlpY : p.lpFeeY = ⟨lp, feeDen⟩) (htreasury : p.treasuryFee = ⟨treasury, feeDen⟩)
    (hweightX : p.weightX ≠ 0) (hweightY : p.weightY ≠ 0) (hltX : p.reservesX < 2 ^ 64)
    (hltY : p.reservesY < 2 ^ 64) (hsame : p.assetX = p.assetY → p.reservesX = p.reservesY)
    (hx : p.treasuryX < p.reservesX) (hy : p.treasuryY < p.reservesY) (hle : treasury ≤ lp)
    (hlp : lp ≤ feeDen) (hlq : p.liquidity ≤ maxLqCap) : p.Sound := by
  have hist : p.treasuryFee.Is treasury := htreasury ▸ Ratio.is_feeDen _
  obtain ⟨feeX, feeY, hX, hY, houtput⟩ := outputAmount_eq hx.le hy.le (hlpX ▸ Ratio.is_feeDen _)
    (hlpY ▸ Ratio.is_feeDen _) hist hle (hlp.trans_lt (by decide))
  have hpure : ∀ asset amount, Checked.Regular (balanceCfmmOutputAmount p.pair
      (p.reservesX - p.treasuryX) p.weightX (p.reservesY - p.treasuryY) p.weightY asset amount
      feeX feeY) := fun asset amount =>
    balanceCfmmOutputAmount_regular (Nat.sub_pos_of_lt hx) ((Nat.sub_le _ _).trans_lt hltX)
      (Nat.sub_pos_of_lt hy) ((Nat.sub_le _ _).trans_lt hltY) hweightX hweightY hX.denom_pos
      hY.denom_pos
  refine ⟨hx, hy, ?_, ?_, hlq, staticPrice_regular hx.le hy.le hweightX hweightY,
    available_regular hx.le hy.le, fun input => ?_, swap_regular hpure hist houtput hsame⟩
  · rw [hlpX, hlpY, htreasury]
    exact ⟨hle, hle⟩
  · rw [hlpX, hlpY]
    exact ⟨hlp, hlp⟩
  · refine Checked.regular_bind ?_ fun _ _ => Checked.regular_pure
    rw [houtput]
    exact hpure _ _

theorem tryFromLedger_of_none (h : draft repr ctx = none) : tryFromLedger repr ctx = pure none := by
  unfold tryFromLedger
  split
  · rename_i ver conf hver hconf
    unfold ofConfig
    split
    · rename_i lq hlq
      split
      · split
        · rename_i id x y hid hx hy
          rw [draft, (Draft.read_eq_some (d := ⟨ver, conf, lq, x, y⟩)).mpr
            ⟨hver, hconf, hlq, hx, hy⟩] at h
          cases h
        · rfl
      · rfl
    · rfl
  · rfl

/-- Balance pools are read well when what is accepted is clean. -/
theorem parsed_iff [Numerics] [FloorsRoot] (repr : TransactionOutput) (ctx : PoolContext) :
    Parsed (tryFromLedger repr ctx) Sound ↔
      ∀ d, draft repr ctx = some d → Accepted d repr ctx → Clean d := by
  cases hd : draft repr ctx with
  | none =>
    rw [tryFromLedger_of_none hd]
    exact iff_of_true parsed_none fun _ h => by cases h
  | some d =>
    obtain ⟨hver, hconf, hlq, hx, hy⟩ := Draft.read_eq_some.mp hd
    have hsame : d.conf.assetX = d.conf.assetY → d.reservesX = d.reservesY := fun heq =>
      Option.some.inj (hx.symm.trans (heq ▸ hy))
    simp only [tryFromLedger, hver, hconf, ofConfig, hlq, hx, hy]
    by_cases hsufficient :
        sufficientLovelace ⟨d.conf.assetX, d.conf.assetY⟩ repr.value.coin ctx.bounds
    · rw [if_pos hsufficient]
      cases hid : PoolId.tryFrom d.conf.poolNft with
      | none =>
        refine iff_of_true parsed_none fun d' h haccepted => ?_
        cases h
        have hnone := haccepted.2
        rw [hid] at hnone
        cases hnone
      | some id =>
        constructor
        · rintro ⟨⟨outcome, hok⟩, hall⟩ d' h -
          cases h
          obtain ⟨_, hliq, hrun⟩ := Checked.bind_eq_ok.mp hok
          cases Checked.pure_eq_ok.mp hrun
          have hsound := hall _ hok
          exact ⟨(Checked.sub_eq_ok.mp hliq).1, hsound.reservesX, hsound.reservesY,
            hsound.treasuryFee.1, hsound.lpFee.1⟩
        · intro h
          have hclean := h d rfl ⟨hsufficient, hid ▸ rfl⟩
          refine Parsed.of_eq (congrArg (· >>= _) (if_pos hclean.liquidityNeg))
            ⟨⟨_, rfl⟩, fun p hp => ?_⟩
          cases hp
          exact sound_of_clean rfl rfl rfl (show adaWeight ≠ 0 by decide)
            (show tokenWeight ≠ 0 by decide) (Value.amountOf_lt hx) (Value.amountOf_lt hy) hsame
            hclean.reservesX hclean.reservesY hclean.treasuryFee hclean.lpFee (Nat.sub_le _ _)
    · rw [if_neg hsufficient]
      exact iff_of_true parsed_none fun d' h haccepted => by
        cases h
        exact absurd haccepted.1 hsufficient

end BalancePool

/-! ### All parsers -/

/-- Roots rounded down, of amounts that a search can cover. -/
@[reducible] def floorNumerics : Numerics where
  balanceRoot invariant basePart weight :=
    Nat.findGreatest (fun root => basePart * root ^ weight ≤ invariant) invariant
  curveBuy _ _ _ _ := 0
  curveSell _ _ _ _ := 0
  fuel := 0

theorem floorsRoot : @FloorsRoot floorNumerics := by
  let _ := floorNumerics
  refine ⟨fun invariant basePart weight root hpos hweight hle => not_lt.mp fun hlt => ?_⟩
  have hspec : basePart * Numerics.balanceRoot invariant basePart weight ^ weight ≤ invariant :=
    Nat.findGreatest_spec (P := fun root => basePart * root ^ weight ≤ invariant) (Nat.zero_le _)
      (by simp [Nat.zero_pow (Nat.pos_of_ne_zero hweight)])
  have hpow := Nat.mul_lt_mul_of_pos_left (Nat.pow_lt_pow_left hlt hweight)
    (Nat.pos_of_ne_zero hpos)
  omega

def sampleFeeSwitchDatum (treasuryFee treasuryX : Nat) : PlutusData :=
  .constr 0 [(sampleToken 1).intoPd, .constr 0 [.bytes [], .bytes []], (sampleToken 2).intoPd,
    (sampleToken 3).intoPd, .integer 99700, .integer treasuryFee, .integer treasuryX, .integer 0,
    .list [], .integer 0]

def sampleFeeSwitchOutput (treasuryFee treasuryX : Nat) : TransactionOutput where
  address := .enterprise (.script (RawBytes.replicate 9))
  value := .ofTokens 50000000 [(sampleToken 1, 1), (sampleToken 2, 7000000),
    (sampleToken 3, 9223372036854000000)]
  datum := some (.datum (sampleFeeSwitchDatum treasuryFee treasuryX))

def samplePoolContext : PoolContext where
  deployed script := ⟨RawBytes.replicate (if script = .constFnPoolFeeSwitch then 9 else 8), ⟨0, 0⟩⟩
  bounds := ⟨10000000, 2000000⟩

end UtxoMonitor.Pools
