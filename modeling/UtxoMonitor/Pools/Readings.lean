import UtxoMonitor.Pools.Parsing
import UtxoMonitor.Pools.QuadraticFees

/-! The pools that outputs are read as, and the outputs that are read as the pool that a swap
leads to. -/
namespace UtxoMonitor.Pools

open Lib LiquidityBook

/-- The amounts that a pool with shares is read with. -/
structure Amounts (value : Value) (pair : Pair) (assetLq : AssetClass)
    (liquidity reservesX reservesY : Nat) : Prop where
  liquidity : value.amountOf assetLq = some (maxLqCap - liquidity)
  reservesX : value.amountOf pair.x = some reservesX
  reservesY : value.amountOf pair.y = some reservesY

theorem Draft.amounts {V C : Type} {ver : Option V} {conf : V → Option C}
    {assets : C → AssetClass × AssetClass × AssetClass} {value : Value} {d : Draft V C}
    (hd : Draft.read ver conf assets value = some d) (hle : d.liquidityNeg ≤ maxLqCap) :
    Amounts value ⟨(assets d.conf).2.1, (assets d.conf).2.2⟩ (assets d.conf).1
      (maxLqCap - d.liquidityNeg) d.reservesX d.reservesY := by
  obtain ⟨-, -, hlq, hx, hy⟩ := Draft.read_eq_some.mp hd
  exact ⟨hlq.trans (congrArg some (Nat.sub_sub_self hle).symm), hx, hy⟩

theorem Draft.read_of_amounts {V C : Type} {ver : Option V} {conf : V → Option C}
    {assets : C → AssetClass × AssetClass × AssetClass} {value : Value} {v : V} {c : C}
    {liquidityNeg x y : Nat} (hver : ver = some v) (hconf : conf v = some c)
    (hle : liquidityNeg ≤ maxLqCap)
    (h : Amounts value ⟨(assets c).2.1, (assets c).2.2⟩ (assets c).1 (maxLqCap - liquidityNeg) x
      y) :
    Draft.read ver conf assets value = some ⟨v, c, liquidityNeg, x, y⟩ :=
  Draft.read_eq_some.mpr ⟨hver, hconf, h.liquidity.trans (congrArg some (Nat.sub_sub_self hle)),
    h.reservesX, h.reservesY⟩

/-- Enough ADA remains for a pool where all of it does that is not one of its reserves. -/
theorem sufficientLovelace_congr {pair : Pair} {lov lov' : Nat} {bounds : PoolValidation}
    (h : ¬ pair.x.isNative → ¬ pair.y.isNative → lov' = lov) :
    sufficientLovelace pair lov' bounds ↔ sufficientLovelace pair lov bounds := by
  unfold sufficientLovelace
  by_cases hx : pair.x.isNative
  · simp [hx]
  · by_cases hy : pair.y.isNative
    · simp [hy]
    · rw [h hx hy]

/-! ### Classic pools -/

namespace ClassicPool

variable {repr repr' : TransactionOutput} {ctx : PoolContext} {p p' : ClassicPool}
  {d : Draft ClassicPoolVer LegacyCfmmPoolConfig}

/-- What is read of an output is a pool. -/
structure ReadAs (d : Draft ClassicPoolVer LegacyCfmmPoolConfig) (repr : TransactionOutput)
    (ctx : PoolContext) (p : ClassicPool) : Prop where
  id : PoolId.tryFrom d.conf.poolNft = some p.id
  liquidityNeg : d.liquidityNeg ≤ maxLqCap
  lpFee : d.conf.lpFeeNum * legacyFeeNumMultiplier < 2 ^ 64
  pool : p = {
    id := p.id
    reservesX := d.reservesX
    reservesY := d.reservesY
    liquidity := maxLqCap - d.liquidityNeg
    assetX := d.conf.assetX
    assetY := d.conf.assetY
    assetLq := d.conf.assetLq
    lpFee := ⟨d.conf.lpFeeNum * legacyFeeNumMultiplier, feeDen⟩
    lqLowerBound := d.conf.lqLowerBound
    ver := d.ver
    marginalCost := (ctx.deployed (scriptOf d.ver)).marginalCost
    bounds := ctx.bounds
    stakePartScriptHash := stakePart repr.address }

theorem tryFromLedger_eq_some : tryFromLedger repr ctx = .ok (some p) ↔
    ∃ d, draft repr ctx = some d ∧ ReadAs d repr ctx p := by
  cases hd : draft repr ctx with
  | none =>
    rw [tryFromLedger_of_none hd]
    exact iff_of_false (fun h => by cases h) (fun ⟨_, h, _⟩ => by cases h)
  | some d =>
    obtain ⟨hver, hconf, hlq, hx, hy⟩ := Draft.read_eq_some.mp hd
    simp only [tryFromLedger, hver, hconf, ofConfig, hlq, hx, hy, Option.some.injEq,
      exists_eq_left']
    cases hid : PoolId.tryFrom d.conf.poolNft with
    | none => exact iff_of_false (fun h => by cases h) fun h => by cases hid.symm.trans h.id
    | some id =>
      simp only [Checked.bind_eq_ok, Checked.sub_eq_ok, Checked.mul_eq_ok, Checked.pure_eq_ok,
        Option.some.injEq]
      constructor
      · rintro ⟨_, ⟨hle, rfl⟩, _, ⟨hlt, rfl⟩, rfl⟩
        exact ⟨hid, hle, hlt, rfl⟩
      · intro h
        cases hid.symm.trans h.id
        exact ⟨_, ⟨h.liquidityNeg, rfl⟩, _, ⟨h.lpFee, rfl⟩, h.pool.symm⟩

theorem ReadAs.amounts (hd : draft repr ctx = some d) (h : ReadAs d repr ctx p) :
    Amounts repr.value p.pair p.assetLq p.liquidity p.reservesX p.reservesY := by
  rw [h.pool]
  exact Draft.amounts hd h.liquidityNeg

/-- An output with the same datum is read as the pool after a swap where it has its amounts. -/
theorem reads_iff (hd : draft repr ctx = some d) (h : ReadAs d repr ctx p)
    (hp' : p' = { p with reservesX := p'.reservesX, reservesY := p'.reservesY })
    (haddress : repr'.address = repr.address) (hpd : repr'.intoPd = repr.intoPd) :
    tryFromLedger repr' ctx = .ok (some p') ↔
      Amounts repr'.value p.pair p.assetLq p.liquidity p'.reservesX p'.reservesY := by
  obtain ⟨hver, hconf, -⟩ := Draft.read_eq_some.mp hd
  have hsame : p'.pair = p.pair ∧ p'.assetLq = p.assetLq ∧ p'.liquidity = p.liquidity := by
    rw [hp']
    exact ⟨rfl, rfl, rfl⟩
  rw [tryFromLedger_eq_some]
  constructor
  · rintro ⟨d', hd', h'⟩
    have hamounts := ReadAs.amounts hd' h'
    rwa [hsame.1, hsame.2.1, hsame.2.2] at hamounts
  · intro hamounts
    obtain ⟨hid, hle, hlt, hpool⟩ := h
    generalize p.id = id at hid hpool
    generalize p'.reservesX = x' at hp' hamounts
    generalize p'.reservesY = y' at hp' hamounts
    subst hpool hp'
    refine ⟨_, Draft.read_of_amounts (haddress ▸ hver) (hpd ▸ hconf) hle hamounts, hid, hle, hlt,
      ?_⟩
    rw [haddress]

end ClassicPool

/-! ### Pools with a treasury fee -/

theorem poolNft_eq {asset : AssetClass} {id : PoolId} (h : PoolId.tryFrom asset = some id) :
    asset = .token id := by
  cases asset <;> cases h
  rfl

namespace FeeSwitchPool

variable {repr repr' : TransactionOutput} {ctx : PoolContext} {p p' : FeeSwitchPool}
  {d : Draft FeeSwitchPoolVer FeeSwitchBidirectionalPoolConfig}
  {conf : FeeSwitchBidirectionalPoolConfig}

structure ReadAs (d : Draft FeeSwitchPoolVer FeeSwitchBidirectionalPoolConfig)
    (repr : TransactionOutput) (ctx : PoolContext) (p : FeeSwitchPool) : Prop where
  treasury : d.conf.treasuryX < d.reservesX ∧ d.conf.treasuryY < d.reservesY
  lovelace : sufficientLovelace ⟨d.conf.assetX, d.conf.assetY⟩ repr.value.coin ctx.bounds
  id : PoolId.tryFrom d.conf.poolNft = some p.id
  liquidityNeg : d.liquidityNeg ≤ maxLqCap
  pool : p = {
    id := p.id
    reservesX := d.reservesX
    reservesY := d.reservesY
    liquidity := maxLqCap - d.liquidityNeg
    assetX := d.conf.assetX
    assetY := d.conf.assetY
    assetLq := d.conf.assetLq
    lpFeeX := ⟨d.conf.lpFeeNumX, feeDen⟩
    lpFeeY := ⟨d.conf.lpFeeNumY, feeDen⟩
    treasuryFee := ⟨d.conf.treasuryFeeNum, feeDen⟩
    treasuryX := d.conf.treasuryX
    treasuryY := d.conf.treasuryY
    lqLowerBound := d.conf.lqLowerBound
    ver := d.ver
    marginalCost := (ctx.deployed (scriptOf d.ver)).marginalCost
    bounds := ctx.bounds
    nonce := 0
    stakePartScriptHash := stakePart repr.address }

theorem tryFromLedger_eq_some : tryFromLedger repr ctx = .ok (some p) ↔
    ∃ d, draft repr ctx = some d ∧ ReadAs d repr ctx p := by
  cases hd : draft repr ctx with
  | none =>
    rw [tryFromLedger_of_none hd]
    exact iff_of_false (fun h => by cases h) (fun ⟨_, h, _⟩ => by cases h)
  | some d =>
    obtain ⟨hver, hconf, hlq, hx, hy⟩ := Draft.read_eq_some.mp hd
    obtain ⟨pd, hpd, hconf⟩ := Option.bind_eq_some_iff.mp hconf
    simp only [tryFromLedger, hver, hpd, hconf, ofConfig, hlq, hx, hy, Option.some.injEq,
      exists_eq_left', Checked.bind_eq_ok, Checked.sub_eq_ok]
    constructor
    · rintro ⟨_, ⟨-, rfl⟩, _, ⟨-, rfl⟩, hrun⟩
      split at hrun
      · rename_i hcheck
        cases hid : PoolId.tryFrom d.conf.poolNft with
        | none =>
          rw [hid] at hrun
          cases hrun
        | some id =>
          rw [hid] at hrun
          simp only [Checked.bind_eq_ok, Checked.sub_eq_ok, Checked.pure_eq_ok,
            Option.some.injEq] at hrun
          obtain ⟨_, ⟨hle, rfl⟩, rfl⟩ := hrun
          exact ⟨hcheck.2.2, hcheck.2.1, hid, hle, rfl⟩
      · cases hrun
    · intro h
      obtain ⟨htX, htY⟩ := h.treasury
      refine ⟨_, ⟨htX.le, rfl⟩, _, ⟨htY.le, rfl⟩, ?_⟩
      rw [if_pos ⟨⟨Nat.sub_pos_of_lt htX, Nat.sub_pos_of_lt htY⟩, h.lovelace, h.treasury⟩, h.id]
      simp only [Checked.bind_eq_ok, Checked.sub_eq_ok, Checked.pure_eq_ok, Option.some.injEq]
      exact ⟨_, ⟨h.liquidityNeg, rfl⟩, h.pool.symm⟩

theorem ReadAs.amounts (hd : draft repr ctx = some d) (h : ReadAs d repr ctx p) :
    Amounts repr.value p.pair p.assetLq p.liquidity p.reservesX p.reservesY := by
  rw [h.pool]
  exact Draft.amounts hd h.liquidityNeg

/-- An output is read as the pool after a swap where it has its amounts, its treasury is within
them, and its datum is that of the pool but for the treasury. -/
theorem reads_iff (hd : draft repr ctx = some d) (h : ReadAs d repr ctx p)
    (hp' : p' = { p with
      reservesX := p'.reservesX
      reservesY := p'.reservesY
      treasuryX := p'.treasuryX
      treasuryY := p'.treasuryY })
    (haddress : repr'.address = repr.address)
    (hpd : repr'.intoPd.bind (configOf d.ver) = some conf)
    (hcoin : ¬ p.pair.x.isNative → ¬ p.pair.y.isNative → repr'.value.coin = repr.value.coin) :
    tryFromLedger repr' ctx = .ok (some p') ↔
      Amounts repr'.value p.pair p.assetLq p.liquidity p'.reservesX p'.reservesY ∧
      (p'.treasuryX < p'.reservesX ∧ p'.treasuryY < p'.reservesY) ∧
      conf = { d.conf with treasuryX := p'.treasuryX, treasuryY := p'.treasuryY } := by
  obtain ⟨hver, hconf, -⟩ := Draft.read_eq_some.mp hd
  rw [tryFromLedger_eq_some]
  obtain ⟨-, hlovelace, hid, hle, hpool⟩ := h
  generalize p.id = id at hid hpool
  generalize p'.reservesX = x' at hp' ⊢
  generalize p'.reservesY = y' at hp' ⊢
  generalize p'.treasuryX = treasuryX' at hp' ⊢
  generalize p'.treasuryY = treasuryY' at hp' ⊢
  subst hpool hp'
  constructor
  · rintro ⟨⟨ver', ⟨nft, _, _, _, _, _, _, _, _, _⟩, _, _, _⟩, hd', h'⟩
    have hamounts := ReadAs.amounts hd' h'
    obtain ⟨hver', hconf', -⟩ := Draft.read_eq_some.mp hd'
    rw [haddress, hver, Option.some.injEq] at hver'
    rw [← hver', hpd, Option.some.injEq] at hconf'
    obtain ⟨htreasury, -, hid', -, hpool'⟩ := h'
    have hnft : nft = d.conf.poolNft := (poolNft_eq hid').trans (poolNft_eq hid).symm
    simp only [FeeSwitchPool.mk.injEq, Ratio.mk.injEq, and_true, true_and] at hpool'
    obtain ⟨rfl, rfl, -, rfl, rfl, rfl, rfl, rfl, rfl, rfl, rfl, rfl, -⟩ := hpool'
    subst hconf' hnft
    exact ⟨hamounts, htreasury, rfl⟩
  · rintro ⟨hamounts, htreasury, rfl⟩
    refine ⟨_, Draft.read_of_amounts (haddress ▸ hver) hpd hle hamounts, htreasury,
      (sufficientLovelace_congr hcoin).mpr hlovelace, hid, hle, ?_⟩
    rw [haddress]

end FeeSwitchPool

/-! ### Pools with royalties -/

namespace RoyaltyPool

variable {repr repr' : TransactionOutput} {ctx : PoolContext} {p p' : RoyaltyPool}
  {d : Draft RoyaltyPoolVer RoyaltyPoolV2Config}

structure ReadAs (d : Draft RoyaltyPoolVer RoyaltyPoolV2Config) (repr : TransactionOutput)
    (ctx : PoolContext) (p : RoyaltyPool) : Prop where
  owed : d.conf.owedX < d.reservesX ∧ d.conf.owedY < d.reservesY
  lovelace : sufficientLovelace ⟨d.conf.assetX, d.conf.assetY⟩ repr.value.coin ctx.bounds
  id : PoolId.tryFrom d.conf.poolNft = some p.id
  liquidityNeg : d.liquidityNeg ≤ maxLqCap
  treasuryAddress : RawBytes.fromRawBytes d.conf.treasuryAddress = some p.treasuryAddress
  firstRoyaltyPubKey : RawBytes.fromRawBytes d.conf.firstRoyaltyPubKey = some p.firstRoyaltyPubKey
  secondRoyaltyPubKey :
    RawBytes.fromRawBytes d.conf.secondRoyaltyPubKey = some p.secondRoyaltyPubKey
  pool : p = {
    id := p.id
    reservesX := d.reservesX
    reservesY := d.reservesY
    liquidity := maxLqCap - d.liquidityNeg
    assetX := d.conf.assetX
    assetY := d.conf.assetY
    assetLq := d.conf.assetLq
    lpFee := ⟨d.conf.lpFeeNum, feeDen⟩
    treasuryFee := ⟨d.conf.treasuryFeeNum, feeDen⟩
    firstRoyaltyFee := ⟨d.conf.firstRoyaltyFeeNum, feeDen⟩
    secondRoyaltyFee := ⟨d.conf.secondRoyaltyFeeNum, secondFeeDen d.ver⟩
    treasuryX := d.conf.treasuryX
    treasuryY := d.conf.treasuryY
    firstRoyaltyX := d.conf.firstRoyaltyX
    firstRoyaltyY := d.conf.firstRoyaltyY
    secondRoyaltyX := d.conf.secondRoyaltyX
    secondRoyaltyY := d.conf.secondRoyaltyY
    lqLowerBound := 0
    adminAddress := d.conf.adminAddress
    treasuryAddress := p.treasuryAddress
    firstRoyaltyPubKey := p.firstRoyaltyPubKey
    secondRoyaltyPubKey := p.secondRoyaltyPubKey
    ver := d.ver
    marginalCost := (ctx.deployed (scriptOf d.ver)).marginalCost
    bounds := ctx.bounds
    nonce := d.conf.nonce
    stakePartScriptHash := stakePart repr.address }

theorem tryFromLedger_eq_some : tryFromLedger repr ctx = .ok (some p) ↔
    ∃ d, draft repr ctx = some d ∧ ReadAs d repr ctx p := by
  cases hd : draft repr ctx with
  | none =>
    rw [tryFromLedger_of_none hd]
    exact iff_of_false (fun h => by cases h) (fun ⟨_, h, _⟩ => by cases h)
  | some d =>
    obtain ⟨hver, hconf, hlq, hx, hy⟩ := Draft.read_eq_some.mp hd
    obtain ⟨pd, hpd, hconf⟩ := Option.bind_eq_some_iff.mp hconf
    have htry : tryFromLedger repr ctx = ofConfig d.ver d.conf repr ctx := by
      simp only [tryFromLedger, hver, hpd, hconf]
    rw [htry, ofConfig_eq_ok hlq hx hy]
    simp only [Option.some.injEq, exists_eq_left']
    constructor
    · rintro ⟨-, -, hrun⟩
      split at hrun
      · rename_i hpassed
        obtain ⟨⟨hid, hle⟩, ⟨htreasury, hfirst, hsecond⟩, hpool⟩ := build_eq_ok_some hrun
        exact ⟨hpassed.1, hpassed.2, hid, hle, htreasury, hfirst, hsecond, hpool⟩
      · cases hrun
    · intro h
      refine ⟨h.owed.1.le, h.owed.2.le, (if_pos ⟨h.owed, h.lovelace⟩).mpr ?_⟩
      simp only [build, h.id, h.treasuryAddress, h.firstRoyaltyPubKey, h.secondRoyaltyPubKey,
        Checked.bind_eq_ok, Checked.sub_eq_ok, Checked.pure_eq_ok, Option.some.injEq]
      exact ⟨_, ⟨h.liquidityNeg, rfl⟩, h.pool.symm⟩

theorem ReadAs.amounts (hd : draft repr ctx = some d) (h : ReadAs d repr ctx p) :
    Amounts repr.value p.pair p.assetLq p.liquidity p.reservesX p.reservesY := by
  rw [h.pool]
  exact Draft.amounts hd h.liquidityNeg

/-- An output with the datum of a pool after a swap is read as the pool where it has its amounts and
what is owed is within them. -/
theorem reads_iff (hd : draft repr ctx = some d) (h : ReadAs d repr ctx p)
    (hp' : p' = { p with
      reservesX := p'.reservesX
      reservesY := p'.reservesY
      treasuryX := p'.treasuryX
      treasuryY := p'.treasuryY
      firstRoyaltyX := p'.firstRoyaltyX
      firstRoyaltyY := p'.firstRoyaltyY
      secondRoyaltyX := p'.secondRoyaltyX
      secondRoyaltyY := p'.secondRoyaltyY })
    (haddress : repr'.address = repr.address)
    (hpd : repr'.intoPd.bind (configOf d.ver) = some { d.conf with
      treasuryX := p'.treasuryX
      treasuryY := p'.treasuryY
      firstRoyaltyX := p'.firstRoyaltyX
      firstRoyaltyY := p'.firstRoyaltyY
      secondRoyaltyX := p'.secondRoyaltyX
      secondRoyaltyY := p'.secondRoyaltyY })
    (hcoin : ¬ p.pair.x.isNative → ¬ p.pair.y.isNative → repr'.value.coin = repr.value.coin) :
    tryFromLedger repr' ctx = .ok (some p') ↔
      Amounts repr'.value p.pair p.assetLq p.liquidity p'.reservesX p'.reservesY ∧
      (p'.owedX < p'.reservesX ∧ p'.owedY < p'.reservesY) := by
  obtain ⟨hver, hconf, -⟩ := Draft.read_eq_some.mp hd
  rw [tryFromLedger_eq_some]
  obtain ⟨-, hlovelace, hid, hle, htreasury, hfirst, hsecond, hpool⟩ := h
  unfold owedX owedY
  generalize p.id = id at hid hpool
  generalize p.treasuryAddress = treasuryAddress at htreasury hpool
  generalize p.firstRoyaltyPubKey = firstRoyaltyPubKey at hfirst hpool
  generalize p.secondRoyaltyPubKey = secondRoyaltyPubKey at hsecond hpool
  generalize p'.reservesX = x' at hp' ⊢
  generalize p'.reservesY = y' at hp' ⊢
  generalize p'.treasuryX = treasuryX' at hp' hpd ⊢
  generalize p'.treasuryY = treasuryY' at hp' hpd ⊢
  generalize p'.firstRoyaltyX = firstX' at hp' hpd ⊢
  generalize p'.firstRoyaltyY = firstY' at hp' hpd ⊢
  generalize p'.secondRoyaltyX = secondX' at hp' hpd ⊢
  generalize p'.secondRoyaltyY = secondY' at hp' hpd ⊢
  subst hpool hp'
  constructor
  · rintro ⟨d', hd', h'⟩
    have hamounts := ReadAs.amounts hd' h'
    obtain ⟨hver', hconf', -⟩ := Draft.read_eq_some.mp hd'
    rw [haddress, hver, Option.some.injEq] at hver'
    rw [← hver', hpd, Option.some.injEq] at hconf'
    have hx' : x' = d'.reservesX := congrArg reservesX h'.pool
    have hy' : y' = d'.reservesY := congrArg reservesY h'.pool
    have howed := h'.owed
    rw [← hconf', ← hx', ← hy'] at howed
    exact ⟨hamounts, howed⟩
  · rintro ⟨hamounts, howed⟩
    refine ⟨_, Draft.read_of_amounts (haddress ▸ hver) hpd hle hamounts, howed,
      (sufficientLovelace_congr hcoin).mpr hlovelace, hid, hle, htreasury, hfirst, hsecond, ?_⟩
    rw [haddress]

end RoyaltyPool

/-! ### Balance pools -/

namespace BalancePool

variable {repr repr' : TransactionOutput} {ctx : PoolContext} {p p' : BalancePool}
  {d : Draft BalancePoolVer BalancePoolConfig}

structure ReadAs (d : Draft BalancePoolVer BalancePoolConfig) (repr : TransactionOutput)
    (ctx : PoolContext) (p : BalancePool) : Prop where
  lovelace : sufficientLovelace ⟨d.conf.assetX, d.conf.assetY⟩ repr.value.coin ctx.bounds
  id : PoolId.tryFrom d.conf.poolNft = some p.id
  liquidityNeg : d.liquidityNeg ≤ maxLqCap
  pool : p = {
    id := p.id
    reservesX := d.reservesX
    weightX := adaWeight
    reservesY := d.reservesY
    weightY := tokenWeight
    liquidity := maxLqCap - d.liquidityNeg
    assetX := d.conf.assetX
    assetY := d.conf.assetY
    assetLq := d.conf.assetLq
    lpFeeX := ⟨d.conf.lpFeeNum, feeDen⟩
    lpFeeY := ⟨d.conf.lpFeeNum, feeDen⟩
    treasuryFee := ⟨d.conf.treasuryFeeNum, feeDen⟩
    treasuryX := d.conf.treasuryX
    treasuryY := d.conf.treasuryY
    ver := d.ver
    marginalCost := (ctx.deployed .balanceFnPoolV1).marginalCost
    minPoolLovelace := ctx.bounds.minN2tLovelace }

theorem tryFromLedger_eq_some : tryFromLedger repr ctx = .ok (some p) ↔
    ∃ d, draft repr ctx = some d ∧ ReadAs d repr ctx p := by
  cases hd : draft repr ctx with
  | none =>
    rw [tryFromLedger_of_none hd]
    exact iff_of_false (fun h => by cases h) (fun ⟨_, h, _⟩ => by cases h)
  | some d =>
    obtain ⟨hver, hconf, hlq, hx, hy⟩ := Draft.read_eq_some.mp hd
    simp only [tryFromLedger, hver, hconf, ofConfig, hlq, hx, hy, Option.some.injEq,
      exists_eq_left']
    constructor
    · intro hrun
      split at hrun
      · rename_i hlovelace
        cases hid : PoolId.tryFrom d.conf.poolNft with
        | none =>
          rw [hid] at hrun
          cases hrun
        | some id =>
          rw [hid] at hrun
          simp only [Checked.bind_eq_ok, Checked.sub_eq_ok, Checked.pure_eq_ok,
            Option.some.injEq] at hrun
          obtain ⟨_, ⟨hle, rfl⟩, rfl⟩ := hrun
          exact ⟨hlovelace, hid, hle, rfl⟩
      · cases hrun
    · intro h
      rw [if_pos h.lovelace, h.id]
      simp only [Checked.bind_eq_ok, Checked.sub_eq_ok, Checked.pure_eq_ok, Option.some.injEq]
      exact ⟨_, ⟨h.liquidityNeg, rfl⟩, h.pool.symm⟩

theorem ReadAs.amounts (hd : draft repr ctx = some d) (h : ReadAs d repr ctx p) :
    Amounts repr.value p.pair p.assetLq p.liquidity p.reservesX p.reservesY := by
  rw [h.pool]
  exact Draft.amounts hd h.liquidityNeg

/-- An output with the datum of a pool after a swap is read as the pool where it has its amounts. -/
theorem reads_iff (hd : draft repr ctx = some d) (h : ReadAs d repr ctx p)
    (hp' : p' = { p with
      reservesX := p'.reservesX
      reservesY := p'.reservesY
      treasuryX := p'.treasuryX
      treasuryY := p'.treasuryY })
    (haddress : repr'.address = repr.address)
    (hpd : repr'.intoPd.bind BalancePoolConfig.tryFromPd =
      some { d.conf with treasuryX := p'.treasuryX, treasuryY := p'.treasuryY })
    (hcoin : ¬ p.pair.x.isNative → ¬ p.pair.y.isNative → repr'.value.coin = repr.value.coin) :
    tryFromLedger repr' ctx = .ok (some p') ↔
      Amounts repr'.value p.pair p.assetLq p.liquidity p'.reservesX p'.reservesY := by
  obtain ⟨hver, hconf, -⟩ := Draft.read_eq_some.mp hd
  rw [tryFromLedger_eq_some]
  obtain ⟨hlovelace, hid, hle, hpool⟩ := h
  generalize p.id = id at hid hpool
  generalize p'.reservesX = x' at hp' ⊢
  generalize p'.reservesY = y' at hp' ⊢
  generalize p'.treasuryX = treasuryX' at hp' hpd
  generalize p'.treasuryY = treasuryY' at hp' hpd
  subst hpool hp'
  constructor
  · rintro ⟨d', hd', h'⟩
    exact ReadAs.amounts hd' h'
  · intro hamounts
    exact ⟨_, Draft.read_of_amounts (haddress ▸ hver) hpd hle hamounts,
      (sufficientLovelace_congr hcoin).mpr hlovelace, hid, hle, rfl⟩

end BalancePool

/-! ### Stable pools -/

namespace StablePoolT2T

variable {repr repr' : TransactionOutput} {ctx : PoolContext} {p p' : StablePoolT2T}
  {d : Draft StablePoolT2TVer StablePoolT2TConfig}

def draft (repr : TransactionOutput) (ctx : PoolContext) :
    Option (Draft StablePoolT2TVer StablePoolT2TConfig) :=
  Draft.read (verOf repr.address ctx) (fun _ => repr.intoPd.bind StablePoolT2TConfig.tryFromPd)
    (fun conf => (conf.assetLq, conf.assetX, conf.assetY)) repr.value

theorem tryFromLedger_of_none (h : draft repr ctx = none) : tryFromLedger repr ctx = pure none := by
  unfold tryFromLedger
  split
  · rename_i ver conf hver hconf
    unfold ofConfig
    split
    · rename_i lq x y hlq hx hy
      rw [draft, (Draft.read_eq_some (d := ⟨ver, conf, lq, x, y⟩)).mpr
        ⟨hver, hconf, hlq, hx, hy⟩] at h
      cases h
    · rfl
  · rfl

structure ReadAs (d : Draft StablePoolT2TVer StablePoolT2TConfig) (repr : TransactionOutput)
    (ctx : PoolContext) (p : StablePoolT2T) : Prop where
  treasury : d.conf.treasuryX < d.reservesX ∧ d.conf.treasuryY < d.reservesY
  lovelace : sufficientLovelace ⟨d.conf.assetX, d.conf.assetY⟩ repr.value.coin ctx.bounds
  id : PoolId.tryFrom d.conf.poolNft = some p.id
  liquidityNeg : d.liquidityNeg ≤ maxLqCap
  pool : p = {
    id := p.id
    an2n := d.conf.an2n
    reservesX := d.reservesX
    multiplierX := d.conf.multiplierX
    reservesY := d.reservesY
    multiplierY := d.conf.multiplierY
    liquidity := maxLqCap - d.liquidityNeg
    assetX := d.conf.assetX
    assetY := d.conf.assetY
    assetLq := d.conf.assetLq
    lpFeeX := ⟨d.conf.lpFeeNum, feeDen⟩
    lpFeeY := ⟨d.conf.lpFeeNum, feeDen⟩
    treasuryFee := ⟨d.conf.treasuryFeeNum, feeDen⟩
    treasuryX := d.conf.treasuryX
    treasuryY := d.conf.treasuryY
    ver := d.ver
    marginalCost := (ctx.deployed .stableFnPoolT2T).marginalCost }

theorem tryFromLedger_eq_some : tryFromLedger repr ctx = .ok (some p) ↔
    ∃ d, draft repr ctx = some d ∧ ReadAs d repr ctx p := by
  cases hd : draft repr ctx with
  | none =>
    rw [tryFromLedger_of_none hd]
    exact iff_of_false (fun h => by cases h) (fun ⟨_, h, _⟩ => by cases h)
  | some d =>
    obtain ⟨hver, hconf, hlq, hx, hy⟩ := Draft.read_eq_some.mp hd
    simp only [tryFromLedger, hver, hconf, ofConfig, hlq, hx, hy, Option.some.injEq,
      exists_eq_left']
    constructor
    · intro hrun
      split at hrun
      · rename_i hpassed
        cases hid : PoolId.tryFrom d.conf.poolNft with
        | none =>
          rw [hid] at hrun
          cases hrun
        | some id =>
          rw [hid] at hrun
          simp only [Checked.bind_eq_ok, Checked.sub_eq_ok, Checked.pure_eq_ok,
            Option.some.injEq] at hrun
          obtain ⟨_, ⟨hle, rfl⟩, rfl⟩ := hrun
          exact ⟨hpassed.1, hpassed.2, hid, hle, rfl⟩
      · cases hrun
    · intro h
      rw [if_pos ⟨h.treasury, h.lovelace⟩, h.id]
      simp only [Checked.bind_eq_ok, Checked.sub_eq_ok, Checked.pure_eq_ok, Option.some.injEq]
      exact ⟨_, ⟨h.liquidityNeg, rfl⟩, h.pool.symm⟩

theorem ReadAs.amounts (hd : draft repr ctx = some d) (h : ReadAs d repr ctx p) :
    Amounts repr.value p.pair p.assetLq p.liquidity p.reservesX p.reservesY := by
  rw [h.pool]
  exact Draft.amounts hd h.liquidityNeg

/-- An output with the datum of a pool after a swap is read as the pool where it has its amounts and
its treasury is within them. -/
theorem reads_iff (hd : draft repr ctx = some d) (h : ReadAs d repr ctx p)
    (hp' : p' = { p with
      reservesX := p'.reservesX
      reservesY := p'.reservesY
      treasuryX := p'.treasuryX
      treasuryY := p'.treasuryY })
    (haddress : repr'.address = repr.address)
    (hpd : repr'.intoPd.bind StablePoolT2TConfig.tryFromPd =
      some { d.conf with treasuryX := p'.treasuryX, treasuryY := p'.treasuryY })
    (hcoin : ¬ p.pair.x.isNative → ¬ p.pair.y.isNative → repr'.value.coin = repr.value.coin) :
    tryFromLedger repr' ctx = .ok (some p') ↔
      Amounts repr'.value p.pair p.assetLq p.liquidity p'.reservesX p'.reservesY ∧
      (p'.treasuryX < p'.reservesX ∧ p'.treasuryY < p'.reservesY) := by
  obtain ⟨hver, hconf, -⟩ := Draft.read_eq_some.mp hd
  rw [tryFromLedger_eq_some]
  obtain ⟨-, hlovelace, hid, hle, hpool⟩ := h
  generalize p.id = id at hid hpool
  generalize p'.reservesX = x' at hp' ⊢
  generalize p'.reservesY = y' at hp' ⊢
  generalize p'.treasuryX = treasuryX' at hp' hpd ⊢
  generalize p'.treasuryY = treasuryY' at hp' hpd ⊢
  subst hpool hp'
  constructor
  · rintro ⟨d', hd', h'⟩
    have hamounts := ReadAs.amounts hd' h'
    obtain ⟨-, hconf', -⟩ := Draft.read_eq_some.mp hd'
    rw [hpd, Option.some.injEq] at hconf'
    have hx' : x' = d'.reservesX := congrArg reservesX h'.pool
    have hy' : y' = d'.reservesY := congrArg reservesY h'.pool
    have htreasury := h'.treasury
    rw [← hconf', ← hx', ← hy'] at htreasury
    exact ⟨hamounts, htreasury⟩
  · rintro ⟨hamounts, htreasury⟩
    exact ⟨_, Draft.read_of_amounts (haddress ▸ hver) hpd hle hamounts, htreasury,
      (sufficientLovelace_congr hcoin).mpr hlovelace, hid, hle, rfl⟩

end StablePoolT2T

/-! ### Degen pools -/

namespace QuadraticPool

variable {repr repr' : TransactionOutput} {ctx : QuadraticPoolContext} {p p' : QuadraticPool}
  {conf : QuadraticPoolConfig}

/-- The config of a datum, and the fee collected. -/
def configOf (ver : QuadraticPoolVer) (pd : PlutusData) : Option (QuadraticPoolConfig × Nat) :=
  match ver with
  | .v1 => (QuadraticPoolConfig.tryFromPd pd).map fun conf => (conf, 0)
  | .v1T2t => (QuadraticPoolT2TConfig.tryFromPd pd).map fun conf =>
    (conf.toQuadraticPoolConfig, conf.accumulatedXFee)

def feeNumOf : QuadraticPoolVer → Nat
  | .v1 => 0
  | .v1T2t => t2tFeeNum

def costOf (ctx : QuadraticPoolContext) : QuadraticPoolVer → ExUnits
  | .v1 => ctx.degenQuadraticPoolV1.marginalCost
  | .v1T2t => ctx.degenQuadraticPoolV1T2T.marginalCost

/-- The reserves of a pool, with its fees within them and the rest below its cap. -/
structure Uncapped (p : QuadraticPool) : Prop where
  kept : p.accumulatedXFee ≤ p.reservesX
  cap : p.reservesX - p.accumulatedXFee < p.capThr

structure ReadAs (conf : QuadraticPoolConfig) (repr : TransactionOutput)
    (ctx : QuadraticPoolContext) (p : QuadraticPool) : Prop where
  ver : verOf repr.address ctx = some p.ver
  config : repr.intoPd.bind (configOf p.ver) = some (conf, p.accumulatedXFee)
  uncapped : p.Uncapped
  operator : conf.operatorPkh = ctx.operatorCred
  id : PoolId.tryFrom conf.poolNft = some p.id
  reservesX : (repr.value.amountOf p.assetX).getD 0 = p.reservesX
  reservesY : repr.value.amountOf p.assetY = some p.reservesY
  pool : p = {
    id := p.id
    reservesX := p.reservesX
    reservesY := p.reservesY
    assetX := conf.assetX
    assetY := conf.assetY
    aNum := conf.aNum
    bNum := conf.bNum
    capThr := conf.xCapThr
    ver := p.ver
    accumulatedXFee := p.accumulatedXFee
    xFeeNum := feeNumOf p.ver
    marginalCost := costOf ctx p.ver
    bounds := ctx.bounds
    virgin := (ctx.mints.map fun minted : List Token => minted.contains p.id).getD false
    capped := isCapped ctx }

theorem tryFromLedger_eq {ver : QuadraticPoolVer} {fee : Nat}
    (hver : verOf repr.address ctx = some ver)
    (hconf : repr.intoPd.bind (configOf ver) = some (conf, fee)) :
    tryFromLedger repr ctx = ofConfig ver conf fee (feeNumOf ver) (costOf ctx ver) repr ctx := by
  obtain ⟨pd, hpd, hconf⟩ := Option.bind_eq_some_iff.mp hconf
  cases ver with
  | v1 =>
    obtain ⟨conf', hconf', heq⟩ := Option.map_eq_some_iff.mp hconf
    cases heq
    simp only [tryFromLedger, hver, hpd, hconf', feeNumOf, costOf]
  | v1T2t =>
    obtain ⟨conf', hconf', heq⟩ := Option.map_eq_some_iff.mp hconf
    cases heq
    simp only [tryFromLedger, hver, hpd, hconf', feeNumOf, costOf]

theorem exists_config_of_read (h : tryFromLedger repr ctx = .ok (some p)) : ∃ ver conf fee,
    verOf repr.address ctx = some ver ∧ repr.intoPd.bind (configOf ver) = some (conf, fee) := by
  unfold tryFromLedger at h
  split at h
  · rename_i pd hver hpd
    split at h
    · rename_i conf hconf
      refine ⟨.v1, conf, 0, hver, Option.bind_eq_some_iff.mpr ⟨pd, hpd, ?_⟩⟩
      exact Option.map_eq_some_iff.mpr ⟨conf, hconf, rfl⟩
    · cases h
  · rename_i pd hver hpd
    split at h
    · rename_i conf hconf
      refine ⟨.v1T2t, conf.toQuadraticPoolConfig, conf.accumulatedXFee, hver,
        Option.bind_eq_some_iff.mpr ⟨pd, hpd, ?_⟩⟩
      exact Option.map_eq_some_iff.mpr ⟨conf, hconf, rfl⟩
    · cases h
  · cases h

theorem tryFromLedger_eq_some : tryFromLedger repr ctx = .ok (some p) ↔
    ∃ conf, ReadAs conf repr ctx p := by
  constructor
  · intro h
    obtain ⟨ver, conf, fee, hver, hconf⟩ := exists_config_of_read h
    rw [tryFromLedger_eq hver hconf] at h
    simp only [ofConfig, Checked.bind_eq_ok, Checked.sub_eq_ok] at h
    obtain ⟨_, ⟨hkept, rfl⟩, h⟩ := h
    split at h
    · cases h
    · rename_i id hid
      split at h
      · rename_i hchecks
        obtain ⟨reservesY, hy, rfl⟩ := Option.map_eq_some_iff.mp (Checked.pure_eq_ok.mp h)
        exact ⟨conf, hver, hconf, ⟨hkept, hchecks.2⟩, hchecks.1, hid, rfl, hy, rfl⟩
      · cases h
  · rintro ⟨conf, h⟩
    have hpool := h.pool
    have hX : p.assetX = conf.assetX := congrArg assetX hpool
    have hY : p.assetY = conf.assetY := congrArg assetY hpool
    have hcap : p.capThr = conf.xCapThr := congrArg capThr hpool
    rw [tryFromLedger_eq h.ver h.config]
    simp only [ofConfig, Checked.bind_eq_ok, Checked.sub_eq_ok, ← hX, ← hY, ← hcap, h.reservesX,
      h.reservesY, h.id]
    refine ⟨_, ⟨h.uncapped.kept, rfl⟩, ?_⟩
    simp only [if_pos (And.intro h.operator h.uncapped.cap), Option.map_some]
    rw [hX, hY, hcap]
    exact congrArg (Except.ok ∘ some) hpool.symm

/-- An output is read as the pool after a swap where it has its reserves, and the fee collected,
and they are below the cap. -/
theorem reads_iff {fee : Nat} (h : ReadAs conf repr ctx p)
    (hp' : p' = { p with
      reservesX := p'.reservesX
      reservesY := p'.reservesY
      accumulatedXFee := p'.accumulatedXFee })
    (haddress : repr'.address = repr.address)
    (hpd : repr'.intoPd.bind (configOf p.ver) = some (conf, fee)) :
    tryFromLedger repr' ctx = .ok (some p') ↔
      ((repr'.value.amountOf p.assetX).getD 0 = p'.reservesX ∧
        repr'.value.amountOf p.assetY = some p'.reservesY) ∧
      p'.Uncapped ∧ fee = p'.accumulatedXFee := by
  have hsame : p'.assetX = p.assetX ∧ p'.assetY = p.assetY ∧ p'.ver = p.ver ∧ p'.id = p.id := by
    rw [hp']
    exact ⟨rfl, rfl, rfl, rfl⟩
  obtain ⟨hassetX, hassetY, hver, hid⟩ := hsame
  rw [tryFromLedger_eq_some]
  constructor
  · rintro ⟨conf', h'⟩
    have hconfig := h'.config
    rw [hver, hpd, Option.some.injEq, Prod.mk.injEq] at hconfig
    have hx := h'.reservesX
    have hy := h'.reservesY
    rw [hassetX] at hx
    rw [hassetY] at hy
    exact ⟨⟨hx, hy⟩, h'.uncapped, hconfig.2⟩
  · rintro ⟨⟨hx, hy⟩, huncapped, rfl⟩
    refine ⟨conf, ?_⟩
    constructor
    case ver => rw [haddress, hver, h.ver]
    case config => rw [hver, hpd]
    case uncapped => exact huncapped
    case operator => exact h.operator
    case id => rw [hid, h.id]
    case reservesX => rw [hassetX, hx]
    case reservesY => rw [hassetY, hy]
    case pool =>
      rw [h.pool] at hp'
      rw [hid, hver]
      exact hp'

end QuadraticPool

end UtxoMonitor.Pools
