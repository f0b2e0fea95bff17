import UtxoMonitor.ExecutionEngine.Blueprint
import UtxoMonitor.ExecutionEngine.PoolSuccessors
import UtxoMonitor.Pools.ClassicalOrders

/-! The transactions that run an order against a pool alone, and how they settle. -/
namespace UtxoMonitor.Pools

open Lib LiquidityBook

open EventSink (FinalizedTxOut)
open ExecutionEngine (Bundled)

/-! ### What is paid out -/

/-- `set` -/
def Value.set (value : Value) (token : Token) (amount : UInt64) : Value where
  coin := value.coin
  multiasset := value.multiasset.insert token amount.toNat
  coin_lt := value.coin_lt
  amount_lt token' amount' hlookup := by
    rw [Std.ExtTreeMap.getElem?_insert] at hlookup
    split at hlookup
    · cases hlookup
      exact amount.toNat_lt
    · exact value.amount_lt token' amount' hlookup

/-- `safe_set`: nothing is entered for nothing of a token. -/
def Value.safeSet (value : Value) (token : Token) (amount : UInt64) : Value :=
  value.withAmount (.token token) amount.toNat amount.toNat_lt

def Value.ofCoin (coin : Nat) : Value := .ofTokens (UInt64.ofNat coin) []

/-- Amounts of the assets of a pair, with ADA besides. -/
def pairValue (assetX : AssetClass) (amountX : Nat) (assetY : AssetClass) (amountY : Nat)
    (adaResidue : Nat) : Checked Value :=
  match assetX, assetY with
  | .native, .token tokenY => do
    let ada ← Checked.add 64 adaResidue amountX
    return (Value.ofCoin ada).safeSet tokenY (UInt64.ofNat amountY)
  | .token tokenX, .native => do
    let ada ← Checked.add 64 adaResidue amountY
    return (Value.ofCoin ada).safeSet tokenX (UInt64.ofNat amountX)
  | .token tokenX, .token tokenY => do
    let ada ← Checked.add 64 adaResidue 0
    return ((Value.ofCoin ada).safeSet tokenX (UInt64.ofNat amountX)).safeSet tokenY
      (UInt64.ofNat amountY)
  | .native, .native => do
    let ada ← Checked.add 64 adaResidue (← Checked.add 64 amountX amountY)
    return .ofCoin ada

def ownerAddress (pkh : Ed25519KeyHash) : Option Ed25519KeyHash → Address
  | some stakePkh => .base (.pubKey pkh) (.pubKey stakePkh)
  | none => .enterprise (.pubKey pkh)

def DepositOutput.intoLedger (output : DepositOutput) : Checked TransactionOutput := do
  let value ← pairValue output.tokenXAsset output.tokenXChargeAmount output.tokenYAsset
    output.tokenYChargeAmount output.adaResidue
  let tokenLq ← Checked.unwrap output.tokenLqAsset.intoToken
  return ⟨ownerAddress output.redeemerPkh output.redeemerStakePkh,
    value.set tokenLq (UInt64.ofNat output.tokenLqAmount), none⟩

def RedeemOutput.intoLedger (output : RedeemOutput) : Checked TransactionOutput := do
  let value ← pairValue output.tokenXAsset output.tokenXAmount output.tokenYAsset
    output.tokenYAmount output.adaResidue
  return ⟨ownerAddress output.redeemerPkh output.redeemerStakePkh, value, none⟩

def RoyaltyWithdrawOutput.intoLedger (output : RoyaltyWithdrawOutput) :
    Checked TransactionOutput := do
  let value ← pairValue output.tokenXAsset output.tokenXAmount output.tokenYAsset
    output.tokenYAmount output.adaResidue
  return ⟨.enterprise (.pubKey output.redeemerPkh), value, none⟩

def DaoRequestorOutput.intoLedger (output : DaoRequestorOutput) : TransactionOutput :=
  ⟨output.requestorAddress, .ofCoin output.lovelaceQty, none⟩

def TreasuryWithdrawOutput.intoLedger (output : TreasuryWithdrawOutput) :
    Checked TransactionOutput := do
  let value ← pairValue output.tokenXAsset output.tokenXAmount output.tokenYAsset
    output.tokenYAmount output.adaResidue
  return ⟨.enterprise (.script output.treasuryScriptHash), value, none⟩

/-- The output that the order is to be paid with comes first. -/
def OperationResultOutputs.intoLedger : OperationResultOutputs → Checked (List TransactionOutput)
  | deposit output => return [← output.intoLedger]
  | redeem output => return [← output.intoLedger]
  | royaltyWithdraw output => return [← output.intoLedger]
  | daoAction requestor none => return [requestor.intoLedger]
  | daoAction requestor (some treasury) => return [requestor.intoLedger, ← treasury.intoLedger]

/-! ### Running an order -/

/-- What the builder of a transaction is given, besides the scripts. -/
structure OrderTx where
  poolInIdx : Nat
  orderInIdx : Nat
  poolOut : TransactionOutput
  results : List TransactionOutput
  operatorOut : Option TransactionOutput
  strictFee : Option Nat

structure RunContext extends ApplyContext where
  operatorRewardAddress : Address
  display : OutputRef → String
  /-- The builder: why there is no transaction, or the hash of its body. -/
  build : OrderTx → Except String TransactionHash

/-- The sum of the ADA of some outputs. -/
def totalCoin (outs : List TransactionOutput) : Option Nat :=
  outs.foldlM (fun total out => checkedAdd total out.value.coin) 0

/-- What is left for the operator where the fee is set: all ADA that nothing else is paid with. -/
def operatorOutput (address : Address) (inputs outputs : List TransactionOutput) (strictFee : Nat) :
    Checked (Option TransactionOutput) := do
  let totalIn ← Checked.unwrap (totalCoin inputs)
  let totalOut ← Checked.unwrap (totalCoin outputs)
  return ((checkedSub totalIn totalOut).bind fun withoutFee => checkedSub withoutFee strictFee).map
    fun coin => ⟨address, .ofCoin coin, none⟩

def tryRunOrderAgainstPool {P : Type}
    (intoLedger : P → ImmutablePoolUtxo → Checked TransactionOutput)
    (applied : Checked (Except (RunOrderError Order) (P × OperationResultBlueprint)))
    (ctx : RunContext) (poolBearer : FinalizedTxOut) (order : Bundled Order FinalizedTxOut) :
    Checked (Except (RunOrderError Order) (OrderTx × Bundled P FinalizedTxOut)) := do
  let poolFirst := compare poolBearer.reference order.bearer.reference != .gt
  match ← applied with
  | .error e => return .error e
  | .ok (next, blueprint) =>
    let poolOut ← intoLedger next (.ofOutput poolBearer.out)
    let results ← blueprint.outputs.intoLedger
    let tx : OrderTx := {
      poolInIdx := if poolFirst then 0 else 1
      orderInIdx := if poolFirst then 1 else 0
      poolOut := poolOut
      results := results
      operatorOut := none
      strictFee := blueprint.strictFee }
    let finish (tx : OrderTx) :
        Except (RunOrderError Order) (OrderTx × Bundled P FinalizedTxOut) :=
      match ctx.build tx with
      | .error description => .error (.fatal description order.entity)
      | .ok hash => .ok (tx, ⟨next, ⟨poolOut, ⟨hash, 0⟩⟩⟩)
    match blueprint.strictFee with
    | none => return finish tx
    | some strictFee =>
      match ← operatorOutput ctx.operatorRewardAddress [poolBearer.out, order.bearer.out]
        (poolOut :: results) strictFee with
      | none => return .error (.fatal "Insufficient ada value" order.entity)
      | some operatorOut => return finish { tx with operatorOut := some operatorOut }

/-- The outcome for a pool of one kind, as one for the pools of every kind. -/
def poolAs {P : Type} (wrap : P → AnyPool)
    (applied : Checked (Except (RunOrderError Order) (P × OperationResultBlueprint))) :
    Checked (Except (RunOrderError Order) (AnyPool × OperationResultBlueprint)) := do
  match ← applied with
  | .ok (next, blueprint) => return .ok (wrap next, blueprint)
  | .error e => return .error e

namespace AnyPool

variable [Serialization] [DepositNumerics]

def applyOrder (pool : AnyPool) (ctx : RunContext) (reference : OutputRef) (order : Order) :
    Checked (Except (RunOrderError Order) (AnyPool × OperationResultBlueprint)) :=
  match pool with
  | pureCfmm pool => poolAs pureCfmm (pool.applyOrder ctx.toApplyContext order)
  | balancedCfmm pool => poolAs balancedCfmm (pool.applyOrder ctx.display reference order)
  | stableCfmm pool => poolAs stableCfmm (pool.applyOrder ctx.display reference order)

/-- The transaction, and the pool as the transaction leaves it. -/
def tryRun (ctx : RunContext) (pool : Bundled AnyPool FinalizedTxOut)
    (order : Bundled Order FinalizedTxOut) :
    Checked (Except (RunOrderError Order) (OrderTx × Bundled AnyPool FinalizedTxOut)) :=
  tryRunOrderAgainstPool (fun pool => (Maker.any pool).intoLedger)
    (pool.entity.applyOrder ctx order.bearer.reference order.entity) ctx pool.bearer order

end AnyPool

/-! ### What the outputs hold -/

/-- So much of one asset, and nothing of the others. -/
def only (asset : AssetClass) (amount : Nat) (asset' : AssetClass) : Nat :=
  if asset' = asset then amount else 0

theorem only_add (asset : AssetClass) (m n : Nat) (asset' : AssetClass) :
    only asset (m + n) asset' = only asset m asset' + only asset n asset' := by
  unfold only
  split <;> rfl

section

variable {value : Value} {token : Token} {amount coin : Nat} {asset : AssetClass}

theorem held_ofCoin (h : coin < 2 ^ 64) (asset : AssetClass) :
    (Value.ofCoin coin).held asset = only .native coin asset := by
  cases asset with
  | native => exact UInt64.toNat_ofNat_of_lt' h
  | token t =>
    rw [Value.held, Value.ofCoin, amountOf_ofTokens]
    rfl

theorem held_safeSet (h : amount < 2 ^ 64) (asset : AssetClass) :
    (value.safeSet token (UInt64.ofNat amount)).held asset =
      if asset = .token token then amount else value.held asset := by
  rw [Value.safeSet, Value.held_withAmount, UInt64.toNat_ofNat_of_lt' h]

theorem held_set (h : amount < 2 ^ 64) (asset : AssetClass) :
    (value.set token (UInt64.ofNat amount)).held asset =
      if asset = .token token then amount else value.held asset := by
  cases asset with
  | native => rfl
  | token t =>
    simp only [Value.held, Value.amountOf, Value.set, Std.ExtTreeMap.getElem?_insert,
      AssetClass.token.injEq, UInt64.toNat_ofNat_of_lt' h]
    by_cases hsame : t = token
    · simp [hsame]
    · have hcompare : ¬ compare token t = .eq := by simpa using fun h => hsame h.symm
      rw [if_neg hcompare, if_neg hsame]

theorem held_pairValue {assetX assetY : AssetClass} {amountX amountY adaResidue : Nat}
    (h : pairValue assetX amountX assetY amountY adaResidue = .ok value) (hne : assetX ≠ assetY)
    (hX : amountX < 2 ^ 64) (hY : amountY < 2 ^ 64) (asset : AssetClass) : value.held asset =
      only .native adaResidue asset + only assetX amountX asset + only assetY amountY asset := by
  cases assetX with
  | native =>
    cases assetY with
    | native => exact absurd rfl hne
    | token tokenY =>
      simp only [pairValue, Checked.bind_eq_ok, Checked.add_eq_ok, Checked.pure_eq_ok] at h
      obtain ⟨ada, ⟨hada, rfl⟩, rfl⟩ := h
      rw [held_safeSet hY, held_ofCoin hada]
      cases asset <;> simp [only]
  | token tokenX =>
    cases assetY with
    | native =>
      simp only [pairValue, Checked.bind_eq_ok, Checked.add_eq_ok, Checked.pure_eq_ok] at h
      obtain ⟨ada, ⟨hada, rfl⟩, rfl⟩ := h
      rw [held_safeSet hX, held_ofCoin hada]
      cases asset <;> simp [only]
    | token tokenY =>
      simp only [pairValue, Checked.bind_eq_ok, Checked.add_eq_ok, Checked.pure_eq_ok] at h
      obtain ⟨ada, ⟨hada, rfl⟩, rfl⟩ := h
      rw [held_safeSet hY, held_safeSet hX, held_ofCoin hada]
      cases asset with
      | native => simp [only]
      | token t =>
        by_cases hy : t = tokenY
        · have hx : ¬ t = tokenX := fun hx => hne (by rw [← hx, hy])
          simp [only, hy]
          intro heq
          exact absurd (hy.trans heq) hx
        · simp [only, hy]

end

/-! ### What is read of the inputs -/

namespace AnyPool

/-- The assets of a pool, all different ones. -/
structure Distinct (pool : AnyPool) : Prop where
  reserves : pool.pair.x ≠ pool.pair.y
  lqX : pool.assetLq ≠ pool.pair.x
  lqY : pool.assetLq ≠ pool.pair.y
  nftX : .token pool.id ≠ pool.pair.x
  nftY : .token pool.id ≠ pool.pair.y
  nftLq : .token pool.id ≠ pool.assetLq

/-- What an output with so much ADA holds for the pool that it is read as: its reserves, its shares
and its NFT. -/
def declared (pool : AnyPool) (coin : Nat) (asset : AssetClass) : Nat :=
  only pool.pair.x pool.reservesX asset + only pool.pair.y pool.reservesY asset +
    only pool.assetLq (maxLqCap - pool.quality) asset + only (.token pool.id) 1 asset +
    (if pool.pair.x.isNative ∨ pool.pair.y.isNative then 0 else only .native coin asset)

/-- The same pool, with other reserves or other liquidity. -/
structure SameAssets (pool pool' : AnyPool) : Prop where
  pair : pool'.pair = pool.pair
  assetLq : pool'.assetLq = pool.assetLq
  id : pool'.id = pool.id

end AnyPool

/-- What an output holds for the order that it is read as. -/
def Order.declared : Order → AssetClass → Nat
  | deposit order, asset =>
    only order.order.tokenX order.order.tokenXAmount asset +
      only order.order.tokenY order.order.tokenYAmount asset +
      (if order.order.tokenX.isNative ∨ order.order.tokenY.isNative then 0
        else only .native (order.order.exFee + order.order.collateralAda) asset)
  | redeem order, asset =>
    only .native (order.order.exFee + order.order.collateralAda) asset +
      only order.order.tokenLq order.order.tokenLqAmount asset
  | royaltyWithdraw order, asset => only .native order.order.initAdaValue asset
  | daoActionRequest order, asset => only .native order.order.lovelace asset

/-- The order names the assets of the pool. -/
def Order.Names (pool : AnyPool) : Order → Prop
  | deposit order => order.order.tokenX = pool.pair.x ∧ order.order.tokenY = pool.pair.y ∧
    order.order.tokenLq = pool.assetLq
  | redeem order => order.order.tokenX = pool.pair.x ∧ order.order.tokenY = pool.pair.y ∧
    order.order.tokenLq = pool.assetLq
  | _ => True

/-! ### What the pool keeps -/

section

variable {pool pool' : AnyPool} {out poolOut : TransactionOutput}

/-- The stake part of the address does not bear on the value. -/
theorem value_of_intoLedger {pair : Pair} {x y : Nat} {shares : Checked (List (Token × UInt64))}
    {id : PoolId} {updateDatum : PlutusData → PlutusData} {stake : Option ScriptHash}
    {immutPool : ImmutablePoolUtxo}
    (h : Pools.intoLedger pair x y shares id updateDatum stake immutPool = .ok poolOut) :
    ∃ poolOut', Pools.intoLedger pair x y shares id updateDatum none immutPool = .ok poolOut' ∧
      poolOut'.value = poolOut.value := by
  obtain ⟨reserves, hreserves, h⟩ := Checked.bind_eq_ok.mp h
  obtain ⟨tokens, htokens, h⟩ := Checked.bind_eq_ok.mp h
  refine ⟨_, Checked.bind_eq_ok.mpr ⟨_, hreserves, Checked.bind_eq_ok.mpr ⟨_, htokens, rfl⟩⟩, ?_⟩
  cases h
  rw [ExecutionEngine.dataMut_value, ExecutionEngine.dataMut_value]

/-- In a list that names every asset once, an asset is held as it is entered. -/
theorem lookup_eq_sum {l : List (AssetClass × Nat)} (h : (l.map Prod.fst).Nodup)
    (asset : AssetClass) :
    (l.lookup asset).getD 0 = (l.map fun e => only e.1 e.2 asset).sum := by
  induction l with
  | nil => rfl
  | cons e l ih =>
    obtain ⟨hnotin, hnodup⟩ := List.nodup_cons.mp h
    rw [List.lookup_cons, List.map_cons, List.sum_cons]
    by_cases hsame : asset = e.1
    · have hrest : (l.map fun e => only e.1 e.2 asset).sum = 0 := by
        rw [List.sum_eq_zero_iff]
        intro n hn
        obtain ⟨e', he', rfl⟩ := List.mem_map.mp hn
        apply if_neg
        intro heq
        exact hnotin (List.mem_map.mpr ⟨e', he', by rw [← heq, hsame]⟩)
      rw [hrest, only, if_pos hsame, beq_iff_eq.mpr hsame]
      rfl
    · rw [only, if_neg hsame, beq_false_of_ne hsame, Nat.zero_add]
      exact ih hnodup

theorem held_intoLedger (hdistinct : pool.Distinct) (hX : pool.reservesX < 2 ^ 64)
    (hY : pool.reservesY < 2 ^ 64)
    (h : (Maker.any pool).intoLedger (.ofOutput out) = .ok poolOut) (asset : AssetClass) :
    poolOut.value.held asset = pool.declared out.value.coin asset := by
  rw [Maker.intoLedger_any] at h
  obtain ⟨poolOut', h', hvalue⟩ := value_of_intoLedger h
  obtain ⟨shares, hshares, hholds, -⟩ := holds_of_intoLedger hX hY (fun _ hnone => by cases hnone) h'
  obtain ⟨hlq, hentries⟩ := Maker.shares_of_set hshares
  rw [hentries] at hholds
  rw [← hvalue]
  obtain ⟨hreserves, hlqX, hlqY, hnftX, hnftY, hnftLq⟩ := hdistinct
  cases asset with
  | native =>
    have hnft : ¬ AssetClass.native = .token pool.id := fun h => by cases h
    rw [Value.held_native, hholds.coin, AnyPool.declared, only, only, only, only, if_neg hlq.symm,
      if_neg hnft]
    by_cases hx : pool.pair.x.isNative
    · have hy : ¬ .native = pool.pair.y := fun hy => hreserves ((eq_native hx).trans hy)
      rw [if_pos hx, if_pos (eq_native hx).symm, if_neg hy, if_pos (.inl hx)]
      rfl
    · have hx' : ¬ .native = pool.pair.x := fun h => hx (congrArg AssetClass.isNative h.symm)
      rw [if_neg hx, if_neg hx']
      by_cases hy : pool.pair.y.isNative
      · rw [if_pos hy, if_pos (eq_native hy).symm, if_pos (.inr hy)]
        omega
      · have hy' : ¬ .native = pool.pair.y := fun h => hy (congrArg AssetClass.isNative h.symm)
        rw [if_neg hy, if_neg hy', if_neg (by simp [hx, hy]), only, if_pos rfl]
        omega
  | token t =>
    have hnone : (if pool.pair.x.isNative ∨ pool.pair.y.isNative then 0
        else only .native out.value.coin (.token t)) = 0 := by
      split
      · rfl
      · exact if_neg fun h => by cases h
    rw [Value.held, hholds.tokens, lookup_eq_sum, AnyPool.declared, hnone]
    · simp only [holdings, List.map_cons, List.map_nil, List.cons_append, List.nil_append,
        List.sum_cons, List.sum_nil]
      omega
    · simp [holdings, hreserves.symm, hlqX, hlqY, hnftX, hnftY, hnftLq]

end

/-! ### What an order does to a pool -/

structure Deposited (pool : AnyPool) (order : Deposit) (pool' : AnyPool) (output : DepositOutput) :
    Prop where
  same : pool.SameAssets pool'
  reserves : ∃ netX netY, order.net order.tokenX order.tokenXAmount = some netX ∧
    order.net order.tokenY order.tokenYAmount = some netY ∧
    pool'.reservesX + output.tokenXChargeAmount = pool.reservesX + netX ∧
    pool'.reservesY + output.tokenYChargeAmount = pool.reservesY + netY ∧
    pool.reservesX + netX < 2 ^ 64 ∧ pool.reservesY + netY < 2 ^ 64
  liquidity : pool'.quality = pool.quality + output.tokenLqAmount
  liquidity_lt : pool'.quality < 2 ^ 64
  assets : output.tokenXAsset = order.tokenX ∧ output.tokenYAsset = order.tokenY ∧
    output.tokenLqAsset = order.tokenLq
  adaResidue : output.adaResidue = order.collateralAda

structure Redeemed (pool : AnyPool) (order : Redeem) (pool' : AnyPool) (output : RedeemOutput) :
    Prop where
  same : pool.SameAssets pool'
  reservesX : pool'.reservesX + output.tokenXAmount = pool.reservesX
  reservesY : pool'.reservesY + output.tokenYAmount = pool.reservesY
  liquidity : pool'.quality + order.tokenLqAmount = pool.quality
  assets : output.tokenXAsset = order.tokenX ∧ output.tokenYAsset = order.tokenY
  adaResidue : output.adaResidue = order.collateralAda

structure RoyaltyPaid (pool : AnyPool) (order : RoyaltyWithdraw) (pool' : AnyPool)
    (output : RoyaltyWithdrawOutput) : Prop where
  same : pool.SameAssets pool'
  reservesX : pool'.reservesX + output.tokenXAmount = pool.reservesX
  reservesY : pool'.reservesY + output.tokenYAmount = pool.reservesY
  liquidity : pool'.quality = pool.quality
  assets : output.tokenXAsset = pool.pair.x ∧ output.tokenYAsset = pool.pair.y
  adaResidue : output.adaResidue + order.fee = order.initAdaValue

structure TreasuryPaid (pool pool' : AnyPool) (treasury : Option TreasuryWithdrawOutput) : Prop where
  same : pool.SameAssets pool'
  reservesX : pool'.reservesX + (treasury.elim 0 (·.tokenXAmount)) = pool.reservesX
  reservesY : pool'.reservesY + (treasury.elim 0 (·.tokenYAmount)) = pool.reservesY
  liquidity : pool'.quality = pool.quality
  output : ∀ output ∈ treasury, output.tokenXAsset = pool.pair.x ∧
    output.tokenYAsset = pool.pair.y ∧ output.adaResidue = 0

/-- What an order of every kind does to a pool, and what it pays out. -/
def Carries (pool : AnyPool) (pool' : AnyPool) : Order → OperationResultOutputs → Prop
  | .deposit order, .deposit output => Deposited pool order.order pool' output
  | .redeem order, .redeem output => Redeemed pool order.order pool' output
  | .royaltyWithdraw order, .royaltyWithdraw output => RoyaltyPaid pool order.order pool' output
  | .daoActionRequest order, .daoAction requestor treasury =>
    requestor.lovelaceQty + order.order.fee = order.order.lovelace ∧
      TreasuryPaid pool pool' treasury
  | _, _ => False

section

variable {O A P : Type} {wrap : O → Order} {result : A → P × OperationResultBlueprint}
  {applied : Checked (Applied O A)} {pool pool' : AnyPool} {next : P}
  {blueprint : OperationResultBlueprint}

theorem applyAs_eq_ok (h : applyAs wrap result applied = .ok (.ok (next, blueprint))) :
    ∃ a, applied = .ok (.ok a) ∧ result a = (next, blueprint) := by
  obtain ⟨outcome, happlied, h⟩ := Checked.bind_eq_ok.mp h
  cases outcome with
  | ok a => exact ⟨a, happlied, Except.ok.inj (Checked.pure_eq_ok.mp h)⟩
  | error e => cases h

theorem poolAs_eq_ok {wrap : P → AnyPool}
    {applied : Checked (Except (RunOrderError Order) (P × OperationResultBlueprint))}
    (h : poolAs wrap applied = .ok (.ok (pool', blueprint))) :
    ∃ next, applied = .ok (.ok (next, blueprint)) ∧ pool' = wrap next := by
  obtain ⟨outcome, happlied, h⟩ := Checked.bind_eq_ok.mp h
  cases outcome with
  | ok r =>
    cases h
    exact ⟨_, happlied, rfl⟩
  | error e => cases h

variable {rewardLp : Nat → Nat → Checked (Option (Nat × Nat × Nat))}
  {sharesAmount : Nat → Checked (Option (Nat × Nat))} {withReserves : Nat → Nat → Nat → P}
  {wrapPool : P → AnyPool}

/-- What is promised of a pool with other reserves and other liquidity. -/
structure Replaces (pool : AnyPool) (x y lq : Nat) (pool' : AnyPool) : Prop where
  same : pool.SameAssets pool'
  reservesX : pool'.reservesX = x
  reservesY : pool'.reservesY = y
  liquidity : pool'.quality = lq

theorem depositInto_output {reservesX reservesY liquidity : Nat} {deposit : ClassicalOnChainDeposit}
    {output : DepositOutput}
    (h : depositInto reservesX reservesY liquidity rewardLp withReserves deposit =
      .ok (.ok (next, output))) :
    (output.tokenXAsset = deposit.order.tokenX ∧ output.tokenYAsset = deposit.order.tokenY ∧
      output.tokenLqAsset = deposit.order.tokenLq) ∧
    output.adaResidue = deposit.order.collateralAda := by
  simp only [depositInto] at h
  split at h
  · obtain ⟨reward, -, h⟩ := Checked.bind_eq_ok.mp h
    split at h
    · split at h
      · cases Checked.pure_eq_ok.mp h
        exact ⟨⟨rfl, rfl, rfl⟩, rfl⟩
      · cases Checked.pure_eq_ok.mp h
    · cases Checked.pure_eq_ok.mp h
  · cases Checked.pure_eq_ok.mp h

theorem redeemFrom_output {reservesX reservesY liquidity : Nat} {redeem : ClassicalOnChainRedeem}
    {output : RedeemOutput}
    (h : redeemFrom reservesX reservesY liquidity sharesAmount withReserves redeem =
      .ok (.ok (next, output))) :
    (output.tokenXAsset = redeem.order.tokenX ∧ output.tokenYAsset = redeem.order.tokenY) ∧
    output.adaResidue = redeem.order.collateralAda := by
  obtain ⟨shares, -, h⟩ := Checked.bind_eq_ok.mp h
  split at h
  · split at h
    · cases Checked.pure_eq_ok.mp h
      exact ⟨⟨rfl, rfl⟩, rfl⟩
    · cases Checked.pure_eq_ok.mp h
  · cases Checked.pure_eq_ok.mp h

theorem deposited_of_depositInto {deposit : ClassicalOnChainDeposit} {output : DepositOutput}
    (hwith : ∀ x y lq, Replaces pool x y lq (wrapPool (withReserves x y lq)))
    (h : depositInto pool.reservesX pool.reservesY pool.quality rewardLp withReserves deposit =
      .ok (.ok (next, output))) : Deposited pool deposit.order (wrapPool next) output := by
  obtain ⟨hassets, hresidue⟩ := depositInto_output h
  obtain ⟨netX, netY, hnetX, hnetY, -, ⟨hltX, hleX⟩, ⟨hltY, hleY⟩, hlt, rfl⟩ := depositInto_spec h
  obtain ⟨hsame, hx, hy, hlq⟩ := hwith (pool.reservesX + netX - output.tokenXChargeAmount)
    (pool.reservesY + netY - output.tokenYChargeAmount) (pool.quality + output.tokenLqAmount)
  refine ⟨hsame, ⟨netX, netY, hnetX, hnetY, ?_, ?_, hltX, hltY⟩, hlq, ?_, hassets, hresidue⟩
  · rw [hx, Nat.sub_add_cancel hleX]
  · rw [hy, Nat.sub_add_cancel hleY]
  · rwa [hlq]

theorem redeemed_of_redeemFrom {redeem : ClassicalOnChainRedeem} {output : RedeemOutput}
    (hwith : ∀ x y lq, Replaces pool x y lq (wrapPool (withReserves x y lq)))
    (h : redeemFrom pool.reservesX pool.reservesY pool.quality sharesAmount withReserves redeem =
      .ok (.ok (next, output))) : Redeemed pool redeem.order (wrapPool next) output := by
  obtain ⟨hassets, hresidue⟩ := redeemFrom_output h
  obtain ⟨-, hleX, hleY, hle, rfl⟩ := redeemFrom_spec h
  obtain ⟨hsame, hx, hy, hlq⟩ := hwith (pool.reservesX - output.tokenXAmount)
    (pool.reservesY - output.tokenYAmount) (pool.quality - redeem.order.tokenLqAmount)
  refine ⟨hsame, ?_, ?_, ?_, hassets, hresidue⟩
  · rw [hx, Nat.sub_add_cancel hleX]
  · rw [hy, Nat.sub_add_cancel hleY]
  · rw [hlq, Nat.sub_add_cancel hle]

end

section

variable {pool pool' : AnyPool} {order : Order} {blueprint : OperationResultBlueprint}
  {ctx : ApplyContext}

theorem royaltyPaid_of_withdrawn {p p' : RoyaltyPool} {order : RoyaltyWithdraw} {key : RoyaltyKey}
    {output : RoyaltyWithdrawOutput}
    (h : p.Withdrawn key order.withdrawRoyaltyX order.withdrawRoyaltyY p')
    (hfee : order.fee ≤ order.initAdaValue)
    (houtput : output = {
      tokenXAsset := p.assetX
      tokenXAmount := order.withdrawRoyaltyX
      tokenYAsset := p.assetY
      tokenYAmount := order.withdrawRoyaltyY
      adaResidue := order.initAdaValue - order.fee
      redeemerPkh := order.royaltyPubKeyHash }) :
    RoyaltyPaid (.pureCfmm (.royalty p)) order (.pureCfmm (.royalty p')) output := by
  obtain ⟨hX, hY, hpool⟩ := h
  cases houtput
  cases key with
  | first =>
    obtain ⟨-, -, rfl⟩ := hpool
    exact ⟨⟨rfl, rfl, rfl⟩, Nat.sub_add_cancel hX, Nat.sub_add_cancel hY, rfl, ⟨rfl, rfl⟩,
      Nat.sub_add_cancel hfee⟩
  | second =>
    obtain ⟨-, -, -, rfl⟩ := hpool
    exact ⟨⟨rfl, rfl, rfl⟩, Nat.sub_add_cancel hX, Nat.sub_add_cancel hY, rfl, ⟨rfl, rfl⟩,
      Nat.sub_add_cancel hfee⟩

theorem treasuryPaid_of_applyDaoAction [Serialization] {p p' : RoyaltyPool}
    {request : OnChainDaoActionRequest}
    {ctx : DaoApplyContext} {verify : Ed25519PublicKey → Bytes → Ed25519Signature → Bool}
    {result : DaoActionResult} (h : p.applyDaoAction verify request ctx = .ok (.ok (p', result))) :
    result.requestorOutput.lovelaceQty + request.order.fee = request.order.lovelace ∧
      TreasuryPaid (.pureCfmm (.royalty p)) (.pureCfmm (.royalty p')) result.treasuryWithdraw := by
  obtain ⟨data, -, h⟩ := Checked.bind_eq_ok.mp h
  dsimp only at h
  split at h
  · cases Checked.pure_eq_ok.mp h
  · split at h
    · rename_i next lovelaceQty hnext hlovelace
      obtain ⟨hle, rfl⟩ := checkedSub_eq_some.mp hlovelace
      obtain ⟨nonce, -, h⟩ := Checked.bind_eq_ok.mp h
      cases Checked.pure_eq_ok.mp h
      refine ⟨Nat.sub_add_cancel hle, ?_⟩
      by_cases haction : request.order.daoAction = .withdrawTreasury
      · have htreasury : next.treasuryWithdraw request.order = some {
            tokenXAsset := next.assetX
            tokenXAmount := request.order.treasuryXAbsDelta
            tokenYAsset := next.assetY
            tokenYAmount := request.order.treasuryYAbsDelta
            adaResidue := 0
            treasuryScriptHash := next.treasuryAddress } := by
          rw [RoyaltyPool.treasuryWithdraw, haction]
        simp only [RoyaltyPool.actDao, haction] at hnext
        rw [htreasury]
        split at hnext
        · rename_i x tx y ty hx htx hy hty
          obtain ⟨hleX, rfl⟩ := checkedSub_eq_some.mp hx
          obtain ⟨hleY, rfl⟩ := checkedSub_eq_some.mp hy
          cases hnext
          refine ⟨⟨rfl, rfl, rfl⟩, Nat.sub_add_cancel hleX, Nat.sub_add_cancel hleY, rfl, ?_⟩
          intro output houtput
          cases houtput
          exact ⟨rfl, rfl, rfl⟩
        · cases hnext
      · have htreasury : next.treasuryWithdraw request.order = none := by
          unfold RoyaltyPool.treasuryWithdraw
          split
          · contradiction
          · rfl
        rw [htreasury]
        unfold RoyaltyPool.actDao at hnext
        split at hnext
        · contradiction
        all_goals cases hnext; exact ⟨⟨rfl, rfl, rfl⟩, rfl, rfl, rfl, fun _ h => by cases h⟩
    · cases Checked.pure_eq_ok.mp h

theorem ConstFnPool.carries [Serialization] {pool pool' : ConstFnPool}
    (h : pool.applyOrder ctx order = .ok (.ok (pool', blueprint))) :
    Carries (.pureCfmm pool) (.pureCfmm pool') order blueprint.outputs := by
  have hwith : ∀ x y lq, Replaces (.pureCfmm pool) x y lq (.pureCfmm (pool.withReserves x y lq)) := by
    intro x y lq
    cases pool <;> exact ⟨⟨rfl, rfl, rfl⟩, rfl, rfl, rfl⟩
  have hliquidity : pool.liquidity = pool.quality := by
    cases pool <;> rfl
  cases order with
  | deposit order =>
    obtain ⟨⟨next, output⟩, happlied, hresult⟩ := applyAs_eq_ok h
    cases hresult
    rw [applyDeposit_eq, hliquidity] at happlied
    exact deposited_of_depositInto hwith happlied
  | redeem order =>
    obtain ⟨⟨next, output⟩, happlied, hresult⟩ := applyAs_eq_ok h
    cases hresult
    rw [applyRedeem_eq, hliquidity] at happlied
    exact redeemed_of_redeemFrom hwith happlied
  | royaltyWithdraw order =>
    cases pool with
    | royalty pool =>
      obtain ⟨⟨next, result⟩, happlied, hresult⟩ := applyAs_eq_ok h
      cases hresult
      obtain ⟨-, -, hwithdrawn, hfee, houtput⟩ := RoyaltyPool.applyRoyaltyWithdraw_spec happlied
      exact royaltyPaid_of_withdrawn hwithdrawn hfee houtput
    | classic pool => cases h
    | feeSwitch pool => cases h
  | daoActionRequest order =>
    cases pool with
    | royalty pool =>
      obtain ⟨⟨next, result⟩, happlied, hresult⟩ := applyAs_eq_ok h
      cases hresult
      exact treasuryPaid_of_applyDaoAction happlied
    | classic pool => cases h
    | feeSwitch pool => cases h

theorem AnyPool.carries [Serialization] [DepositNumerics] {ctx : RunContext} {reference : OutputRef}
    (h : pool.applyOrder ctx reference order = .ok (.ok (pool', blueprint))) :
    Carries pool pool' order blueprint.outputs := by
  cases pool with
  | pureCfmm pool =>
    obtain ⟨next, happlied, rfl⟩ := poolAs_eq_ok h
    exact ConstFnPool.carries happlied
  | balancedCfmm pool =>
    have hwith (pool : BalancePool) (x y lq : Nat) : Replaces (.balancedCfmm pool) x y lq
        (.balancedCfmm { pool with reservesX := x, reservesY := y, liquidity := lq }) :=
      ⟨⟨rfl, rfl, rfl⟩, rfl, rfl, rfl⟩
    obtain ⟨next, happlied, rfl⟩ := poolAs_eq_ok h
    cases order with
    | deposit order =>
      obtain ⟨⟨_, output⟩, hdeposit, hresult⟩ := applyAs_eq_ok happlied
      cases hresult
      exact deposited_of_depositInto (hwith pool) hdeposit
    | redeem order =>
      obtain ⟨⟨_, output⟩, hredeem, hresult⟩ := applyAs_eq_ok happlied
      cases hresult
      exact redeemed_of_redeemFrom (hwith pool) hredeem
    | royaltyWithdraw order => cases happlied
    | daoActionRequest order => cases happlied
  | stableCfmm pool =>
    have hwith (pool : StablePoolT2T) (x y lq : Nat) : Replaces (.stableCfmm pool) x y lq
        (.stableCfmm { pool with reservesX := x, reservesY := y, liquidity := lq }) :=
      ⟨⟨rfl, rfl, rfl⟩, rfl, rfl, rfl⟩
    obtain ⟨next, happlied, rfl⟩ := poolAs_eq_ok h
    cases order with
    | deposit order =>
      obtain ⟨⟨_, output⟩, hdeposit, hresult⟩ := applyAs_eq_ok happlied
      cases hresult
      exact deposited_of_depositInto (hwith pool) hdeposit
    | redeem order =>
      obtain ⟨⟨_, output⟩, hredeem, hresult⟩ := applyAs_eq_ok happlied
      cases hresult
      exact redeemed_of_redeemFrom (hwith pool) hredeem
    | royaltyWithdraw order => cases happlied
    | daoActionRequest order => cases happlied

end

/-! ### How a transaction settles -/

section

variable {pool pool' : AnyPool} {out : TransactionOutput} {coin : Nat}

theorem AnyPool.SameAssets.distinct (h : pool.SameAssets pool') (hdistinct : pool.Distinct) :
    pool'.Distinct := by
  obtain ⟨hreserves, hlqX, hlqY, hnftX, hnftY, hnftLq⟩ := hdistinct
  rw [← h.pair] at hreserves
  rw [← h.pair, ← h.assetLq] at hlqX hlqY
  rw [← h.pair, ← h.id] at hnftX hnftY
  rw [← h.assetLq, ← h.id] at hnftLq
  exact ⟨hreserves, hlqX, hlqY, hnftX, hnftY, hnftLq⟩

/-- The entries of a pool that is the same but for its amounts. -/
theorem declared_of_same (h : pool.SameAssets pool') (asset : AssetClass) :
    pool'.declared coin asset = only pool.pair.x pool'.reservesX asset +
      only pool.pair.y pool'.reservesY asset +
      only pool.assetLq (maxLqCap - pool'.quality) asset + only (.token pool.id) 1 asset +
      (if pool.pair.x.isNative ∨ pool.pair.y.isNative then 0 else only .native coin asset) := by
  rw [AnyPool.declared, h.pair, h.assetLq, h.id]

/-- What is deposited of an asset, with what ADA pays besides. -/
theorem only_net {order : Deposit} {asset : AssetClass} {amount net : Nat}
    (h : order.net asset amount = some net) (asset' : AssetClass) : only asset amount asset' =
      only asset net asset' +
        if asset.isNative then only .native (order.exFee + order.collateralAda) asset' else 0 := by
  unfold Deposit.net at h
  split at h
  · rename_i hnative
    simp only [Option.bind_eq_some_iff, checkedSub_eq_some] at h
    obtain ⟨_, ⟨hfee, rfl⟩, hcollateral, rfl⟩ := h
    rw [if_pos hnative, eq_native hnative, ← only_add]
    congr 1
    omega
  · rename_i hnative
    cases h
    rw [if_neg hnative, Nat.add_zero]

theorem Deposited.settles {order : ClassicalOnChainDeposit} {output : DepositOutput}
    (h : Deposited pool order.order pool' output) (hdistinct : pool.Distinct)
    (hnames : (Order.deposit order).Names pool) (hshares : pool'.quality ≤ maxLqCap)
    (hout : output.intoLedger = .ok out) (asset : AssetClass) :
    pool'.declared coin asset + out.value.held asset + only .native order.order.exFee asset =
      pool.declared coin asset + (Order.deposit order).declared asset := by
  obtain ⟨hsame, ⟨netX, netY, hnetX, hnetY, hX, hY, hltX, hltY⟩, hlq, hlt, ⟨hassetX, hassetY,
    hassetLq⟩, hresidue⟩ := h
  obtain ⟨hnameX, hnameY, hnameLq⟩ := hnames
  obtain ⟨value, hvalue, hout⟩ := Checked.bind_eq_ok.mp hout
  obtain ⟨tokenLq, htoken, hout⟩ := Checked.bind_eq_ok.mp hout
  cases Checked.pure_eq_ok.mp hout
  have hlqToken : pool.assetLq = .token tokenLq := by
    rw [← hnameLq, ← hassetLq]
    exact poolNft_eq (Checked.unwrap_eq_ok.mp htoken)
  rw [hassetX, hassetY, hnameX, hnameY, hresidue] at hvalue
  have hpaid := held_pairValue hvalue hdistinct.reserves (by omega) (by omega) asset
  have hheld : (value.set tokenLq (UInt64.ofNat output.tokenLqAmount)).held asset =
      value.held asset + only pool.assetLq output.tokenLqAmount asset := by
    rw [held_set (by omega), hlqToken, only]
    split
    · rename_i hasset
      have hzero : value.held asset = 0 := by
        rw [hpaid, hasset, ← hlqToken, only, only, only, if_neg hdistinct.lqX, if_neg hdistinct.lqY,
          if_neg (by rw [hlqToken]; exact fun h => by cases h)]
      rw [hzero, Nat.zero_add]
    · rfl
  have hmoveX : only pool.pair.x pool'.reservesX asset +
      only pool.pair.x output.tokenXChargeAmount asset =
        only pool.pair.x pool.reservesX asset + only pool.pair.x netX asset := by
    rw [← only_add, ← only_add, hX]
  have hmoveY : only pool.pair.y pool'.reservesY asset +
      only pool.pair.y output.tokenYChargeAmount asset =
        only pool.pair.y pool.reservesY asset + only pool.pair.y netY asset := by
    rw [← only_add, ← only_add, hY]
  have hmoveLq : only pool.assetLq (maxLqCap - pool'.quality) asset +
      only pool.assetLq output.tokenLqAmount asset =
        only pool.assetLq (maxLqCap - pool.quality) asset := by
    rw [← only_add]
    congr 1
    omega
  have hfee := only_add .native order.order.exFee order.order.collateralAda asset
  have hdepositX := only_net hnetX asset
  have hdepositY := only_net hnetY asset
  rw [hnameX] at hdepositX
  rw [hnameY] at hdepositY
  rw [hheld, hpaid, declared_of_same hsame, AnyPool.declared, Order.declared, hnameX, hnameY]
  by_cases hnativeX : pool.pair.x.isNative
  · have hnativeY : ¬ pool.pair.y.isNative := fun hnativeY =>
      hdistinct.reserves ((eq_native hnativeX).trans (eq_native hnativeY).symm)
    rw [if_pos hnativeX] at hdepositX
    rw [if_neg hnativeY] at hdepositY
    rw [if_pos (.inl hnativeX), if_pos (.inl hnativeX)]
    omega
  · rw [if_neg hnativeX] at hdepositX
    by_cases hnativeY : pool.pair.y.isNative
    · rw [if_pos hnativeY] at hdepositY
      rw [if_pos (.inr hnativeY), if_pos (.inr hnativeY)]
      omega
    · rw [if_neg hnativeY] at hdepositY
      rw [if_neg (by simp [hnativeX, hnativeY]), if_neg (by simp [hnativeX, hnativeY])]
      omega

theorem Redeemed.settles {order : ClassicalOnChainRedeem} {output : RedeemOutput}
    (h : Redeemed pool order.order pool' output) (hdistinct : pool.Distinct)
    (hnames : (Order.redeem order).Names pool) (hX : pool.reservesX < 2 ^ 64)
    (hY : pool.reservesY < 2 ^ 64) (hshares : pool.quality ≤ maxLqCap)
    (hout : output.intoLedger = .ok out) (asset : AssetClass) :
    pool'.declared coin asset + out.value.held asset + only .native order.order.exFee asset =
      pool.declared coin asset + (Order.redeem order).declared asset := by
  obtain ⟨hsame, hmoveX, hmoveY, hlq, ⟨hassetX, hassetY⟩, hresidue⟩ := h
  obtain ⟨hnameX, hnameY, hnameLq⟩ := hnames
  obtain ⟨value, hvalue, hout⟩ := Checked.bind_eq_ok.mp hout
  cases Checked.pure_eq_ok.mp hout
  rw [hassetX, hassetY, hnameX, hnameY, hresidue] at hvalue
  have hpaid := held_pairValue hvalue hdistinct.reserves (by omega) (by omega) asset
  have hX := only_add pool.pair.x pool'.reservesX output.tokenXAmount asset
  have hY := only_add pool.pair.y pool'.reservesY output.tokenYAmount asset
  have hmoveLq : only pool.assetLq (maxLqCap - pool'.quality) asset =
      only pool.assetLq (maxLqCap - pool.quality) asset +
        only pool.assetLq order.order.tokenLqAmount asset := by
    rw [← only_add]
    congr 1
    omega
  have hfee := only_add .native order.order.exFee order.order.collateralAda asset
  rw [hmoveX] at hX
  rw [hmoveY] at hY
  rw [hpaid, declared_of_same hsame, AnyPool.declared, Order.declared, hnameLq]
  omega

theorem RoyaltyPaid.settles {order : OnChainRoyaltyWithdraw} {output : RoyaltyWithdrawOutput}
    (h : RoyaltyPaid pool order.order pool' output) (hdistinct : pool.Distinct)
    (hX : pool.reservesX < 2 ^ 64) (hY : pool.reservesY < 2 ^ 64)
    (hout : output.intoLedger = .ok out) (asset : AssetClass) :
    pool'.declared coin asset + out.value.held asset + only .native order.order.fee asset =
      pool.declared coin asset + (Order.royaltyWithdraw order).declared asset := by
  obtain ⟨hsame, hmoveX, hmoveY, hlq, ⟨hassetX, hassetY⟩, hresidue⟩ := h
  obtain ⟨value, hvalue, hout⟩ := Checked.bind_eq_ok.mp hout
  cases Checked.pure_eq_ok.mp hout
  rw [hassetX, hassetY] at hvalue
  have hpaid := held_pairValue hvalue hdistinct.reserves (by omega) (by omega) asset
  have hX := only_add pool.pair.x pool'.reservesX output.tokenXAmount asset
  have hY := only_add pool.pair.y pool'.reservesY output.tokenYAmount asset
  have hfee := only_add .native output.adaResidue order.order.fee asset
  rw [hmoveX] at hX
  rw [hmoveY] at hY
  rw [hresidue] at hfee
  rw [hpaid, declared_of_same hsame, AnyPool.declared, Order.declared, hlq]
  omega

/-- What some outputs hold of an asset. -/
def heldBy (outs : List TransactionOutput) (asset : AssetClass) : Nat :=
  (outs.map fun out => out.value.held asset).sum

theorem TreasuryPaid.settles {order : OnChainDaoActionRequest} {requestor : DaoRequestorOutput}
    {treasury : Option TreasuryWithdrawOutput} {outs : List TransactionOutput}
    (hrequestor : requestor.lovelaceQty + order.order.fee = order.order.lovelace)
    (h : TreasuryPaid pool pool' treasury) (hdistinct : pool.Distinct)
    (hX : pool.reservesX < 2 ^ 64) (hY : pool.reservesY < 2 ^ 64)
    (hlovelace : order.order.lovelace < 2 ^ 64)
    (hout : (OperationResultOutputs.daoAction requestor treasury).intoLedger = .ok outs)
    (asset : AssetClass) :
    pool'.declared coin asset + heldBy outs asset + only .native order.order.fee asset =
      pool.declared coin asset + (Order.daoActionRequest order).declared asset := by
  obtain ⟨hsame, hmoveX, hmoveY, hlq, houtput⟩ := h
  have hpaid : requestor.intoLedger.value.held asset = only .native requestor.lovelaceQty asset :=
    held_ofCoin (by omega) asset
  have hfee := only_add .native requestor.lovelaceQty order.order.fee asset
  rw [hrequestor] at hfee
  rw [declared_of_same hsame, AnyPool.declared, Order.declared, hlq]
  cases treasury with
  | none =>
    cases Checked.pure_eq_ok.mp hout
    rw [heldBy, List.map_singleton, List.sum_singleton, hpaid]
    rw [Option.elim_none, Nat.add_zero] at hmoveX hmoveY
    rw [hmoveX, hmoveY]
    omega
  | some treasury =>
    obtain ⟨treasuryOut, htreasury, houts⟩ := Checked.bind_eq_ok.mp hout
    cases Checked.pure_eq_ok.mp houts
    obtain ⟨value, hvalue, htreasury⟩ := Checked.bind_eq_ok.mp htreasury
    cases Checked.pure_eq_ok.mp htreasury
    obtain ⟨hassetX, hassetY, hresidue⟩ := houtput treasury rfl
    rw [Option.elim_some] at hmoveX hmoveY
    rw [hassetX, hassetY, hresidue] at hvalue
    have hwithdrawn := held_pairValue hvalue hdistinct.reserves (by omega) (by omega) asset
    have hnone : only .native 0 asset = 0 := ite_self 0
    have hX := only_add pool.pair.x pool'.reservesX treasury.tokenXAmount asset
    have hY := only_add pool.pair.y pool'.reservesY treasury.tokenYAmount asset
    rw [hmoveX] at hX
    rw [hmoveY] at hY
    rw [heldBy, List.map_cons, List.map_singleton, List.sum_cons, List.sum_singleton, hpaid,
      hwithdrawn]
    omega

end

/-! ### What is read of an order -/

/-- What the parsers of the orders read of a value. -/
def Order.ReadOf (value : Value) : Order → Prop
  | deposit order => order.order.tokenXAmount = value.held order.order.tokenX ∧
    order.order.tokenYAmount = value.held order.order.tokenY
  | redeem order => order.order.exFee + order.order.collateralAda = value.coin ∧
    order.order.tokenLqAmount = value.held order.order.tokenLq
  | royaltyWithdraw order => order.order.initAdaValue = value.coin
  | daoActionRequest order => order.order.lovelace = value.coin

section

variable {repr : TransactionOutput}

theorem deposit_readOf {ctx : ClassicalOrderContext} {order : ClassicalOnChainDeposit}
    (h : ClassicalOnChainDeposit.tryFromLedger repr ctx = some order) :
    (Order.deposit order).ReadOf repr.value := by
  obtain ⟨_, -, h⟩ := Option.bind_eq_some_iff.mp h
  obtain ⟨_, -, h⟩ := Option.bind_eq_some_iff.mp h
  obtain ⟨_, -, h⟩ := Option.bind_eq_some_iff.mp h
  split at h
  · cases h
    exact ⟨rfl, rfl⟩
  · cases h

theorem redeem_readOf {ctx : ClassicalOrderContext} {order : ClassicalOnChainRedeem}
    (h : ClassicalOnChainRedeem.tryFromLedger repr ctx = .ok (some order)) :
    (Order.redeem order).ReadOf repr.value := by
  unfold ClassicalOnChainRedeem.tryFromLedger at h
  split at h
  · split at h
    · rename_i amount hamount
      obtain ⟨collateral, hcollateral, h⟩ := Checked.bind_eq_ok.mp h
      obtain ⟨hfee, rfl⟩ := Checked.sub_eq_ok.mp hcollateral
      split at h
      · split at h
        · cases Checked.pure_eq_ok.mp h
          exact ⟨Nat.add_sub_cancel' hfee, by rw [Value.held, hamount]; rfl⟩
        · cases Checked.pure_eq_ok.mp h
      · cases Checked.pure_eq_ok.mp h
    · cases Checked.pure_eq_ok.mp h
  · cases Checked.pure_eq_ok.mp h

theorem royaltyWithdraw_readOf {ctx : RoyaltyWithdrawRequestContext}
    {order : OnChainRoyaltyWithdraw}
    (h : OnChainRoyaltyWithdraw.tryFromLedger repr ctx = .ok (some order)) :
    (Order.royaltyWithdraw order).ReadOf repr.value := by
  unfold OnChainRoyaltyWithdraw.tryFromLedger at h
  split at h
  · rename_i hread
    obtain ⟨_, -, h⟩ := Checked.bind_eq_ok.mp h
    split at h
    · cases Checked.pure_eq_ok.mp h
      exact RoyaltyWithdraw.initAdaValue_of_read hread
    · cases Checked.pure_eq_ok.mp h
  · cases Checked.pure_eq_ok.mp h

theorem daoActionRequest_readOf {ctx : DaoRequestContext} {order : OnChainDaoActionRequest}
    (h : OnChainDaoActionRequest.tryFromLedger repr ctx = .ok (some order)) :
    (Order.daoActionRequest order).ReadOf repr.value := by
  unfold OnChainDaoActionRequest.tryFromLedger at h
  split at h
  · split at h
    · dsimp only at h
      split at h
      · cases Checked.pure_eq_ok.mp h
      · split at h
        · obtain ⟨_, -, h⟩ := Checked.bind_eq_ok.mp h
          split at h
          · cases Checked.pure_eq_ok.mp h
            exact rfl
          · cases Checked.pure_eq_ok.mp h
        · cases Checked.pure_eq_ok.mp h
    · cases Checked.pure_eq_ok.mp h
  · cases Checked.pure_eq_ok.mp h

theorem Order.readOf_of_read {ctx : AmmOrderContext} {order : Order}
    (h : Order.tryFromLedger repr ctx = .ok (some order)) : order.ReadOf repr.value := by
  unfold Order.tryFromLedger at h
  dsimp only at h
  split at h
  · rename_i hread
    cases Checked.pure_eq_ok.mp h
    exact deposit_readOf hread
  · obtain ⟨_, hredeem, h⟩ := Checked.bind_eq_ok.mp h
    split at h
    · cases Checked.pure_eq_ok.mp h
      exact redeem_readOf hredeem
    · obtain ⟨_, hwithdraw, h⟩ := Checked.bind_eq_ok.mp h
      split at h
      · cases Checked.pure_eq_ok.mp h
        exact royaltyWithdraw_readOf hwithdraw
      · obtain ⟨_, hrequest, h⟩ := Checked.bind_eq_ok.mp h
        split at h
        · cases Checked.pure_eq_ok.mp h
          exact daoActionRequest_readOf hrequest
        · cases Checked.pure_eq_ok.mp h

end

theorem quality_le_of_read {ctx : PoolContext} {degenCtx : QuadraticPoolContext} {pool : AnyPool}
    {out : TransactionOutput} (h : (Maker.any pool).ReadFrom ctx degenCtx out) :
    pool.quality ≤ maxLqCap := by
  cases pool with
  | pureCfmm pool =>
    cases pool with
    | classic pool =>
      obtain ⟨d, -, hreads⟩ := ClassicPool.tryFromLedger_eq_some.mp h
      rw [hreads.pool]
      exact Nat.sub_le _ _
    | feeSwitch pool =>
      obtain ⟨d, -, hreads⟩ := FeeSwitchPool.tryFromLedger_eq_some.mp h
      rw [hreads.pool]
      exact Nat.sub_le _ _
    | royalty pool =>
      obtain ⟨d, -, hreads⟩ := RoyaltyPool.tryFromLedger_eq_some.mp h
      rw [hreads.pool]
      exact Nat.sub_le _ _
  | balancedCfmm pool =>
    obtain ⟨d, -, hreads⟩ := BalancePool.tryFromLedger_eq_some.mp h
    rw [hreads.pool]
    exact Nat.sub_le _ _
  | stableCfmm pool =>
    obtain ⟨d, -, hreads⟩ := StablePoolT2T.tryFromLedger_eq_some.mp h
    rw [hreads.pool]
    exact Nat.sub_le _ _

/-! ### Runs -/

theorem totalCoin_lt {outs : List TransactionOutput} {total : Nat}
    (h : totalCoin outs = some total) : total < 2 ^ 64 := by
  induction outs using List.reverseRecOn with
  | nil =>
    cases h
    exact Nat.two_pow_pos 64
  | append_singleton outs out ih =>
    rw [totalCoin, List.foldlM_append] at h
    obtain ⟨before, -, h⟩ := Option.bind_eq_some_iff.mp h
    rw [List.foldlM_cons] at h
    obtain ⟨next, hnext, h⟩ := Option.bind_eq_some_iff.mp h
    cases h
    obtain ⟨hlt, rfl⟩ := checkedAdd_eq_some.mp hnext
    exact hlt

theorem totalCoin_spec {outs : List TransactionOutput} {total : Nat}
    (h : totalCoin outs = some total) : heldBy outs .native = total := by
  have hfold : ∀ start, outs.foldlM (fun total out => checkedAdd total out.value.coin) start =
      some total → start + heldBy outs .native = total := by
    clear h
    induction outs with
    | nil =>
      intro start h
      cases h
      rfl
    | cons out outs ih =>
      intro start h
      rw [List.foldlM_cons] at h
      obtain ⟨next, hnext, h⟩ := Option.bind_eq_some_iff.mp h
      obtain ⟨-, rfl⟩ := checkedAdd_eq_some.mp hnext
      rw [← ih _ h, heldBy, List.map_cons, List.sum_cons, Value.held_native, Nat.add_assoc]
      rfl
  exact (Nat.zero_add _).symm.trans (hfold 0 h)

/-- What an operator's output holds, with the fee, is what the other outputs leave of the ADA. -/
theorem operatorOutput_spec {address : Address} {inputs outputs : List TransactionOutput}
    {strictFee : Nat} {out : TransactionOutput}
    (h : operatorOutput address inputs outputs strictFee = .ok (some out)) :
    heldBy outputs .native + strictFee + out.value.coin = heldBy inputs .native := by
  obtain ⟨totalIn, hin, h⟩ := Checked.bind_eq_ok.mp h
  obtain ⟨totalOut, hout, h⟩ := Checked.bind_eq_ok.mp h
  have hin := Checked.unwrap_eq_ok.mp hin
  obtain ⟨coin, hcoin, rfl⟩ := Option.map_eq_some_iff.mp (Checked.pure_eq_ok.mp h)
  obtain ⟨withoutFee, hleft, hcoin⟩ := Option.bind_eq_some_iff.mp hcoin
  obtain ⟨hle, rfl⟩ := checkedSub_eq_some.mp hleft
  obtain ⟨hfee, rfl⟩ := checkedSub_eq_some.mp hcoin
  have hlt : totalIn < 2 ^ 64 := totalCoin_lt hin
  have hheld := held_ofCoin (show totalIn - totalOut - strictFee < 2 ^ 64 by omega) .native
  rw [Value.held_native, only, if_pos rfl] at hheld
  rw [hheld, totalCoin_spec hin, totalCoin_spec (Checked.unwrap_eq_ok.mp hout)]
  omega

/-- A run that succeeds applies the order, and pays the pool and the order with what that comes
to. -/
structure Ran [Serialization] [DepositNumerics] (ctx : RunContext)
    (pool : Bundled AnyPool FinalizedTxOut) (order : Bundled Order FinalizedTxOut) (tx : OrderTx)
    (next : AnyPool) (blueprint : OperationResultBlueprint) : Prop where
  applied : pool.entity.applyOrder ctx order.bearer.reference order.entity =
    .ok (.ok (next, blueprint))
  poolOut : (Maker.any next).intoLedger (.ofOutput pool.bearer.out) = .ok tx.poolOut
  results : blueprint.outputs.intoLedger = .ok tx.results
  operatorOut : ∀ out ∈ tx.operatorOut, ∀ fee ∈ tx.strictFee,
    heldBy (tx.poolOut :: tx.results) .native + fee + out.value.coin =
      heldBy [pool.bearer.out, order.bearer.out] .native

theorem ran_of_tryRun [Serialization] [DepositNumerics] {ctx : RunContext}
    {pool next : Bundled AnyPool FinalizedTxOut} {order : Bundled Order FinalizedTxOut}
    {tx : OrderTx} (h : AnyPool.tryRun ctx pool order = .ok (.ok (tx, next))) :
    ∃ blueprint, Ran ctx pool order tx next.entity blueprint := by
  obtain ⟨applied, happlied, h⟩ := Checked.bind_eq_ok.mp h
  cases applied with
  | error e => cases h
  | ok result =>
    obtain ⟨next', blueprint⟩ := result
    obtain ⟨poolOut, hpoolOut, h⟩ := Checked.bind_eq_ok.mp h
    obtain ⟨results, hresults, h⟩ := Checked.bind_eq_ok.mp h
    refine ⟨blueprint, ?_⟩
    dsimp only at h
    split at h
    · rename_i hfee
      split at h
      · cases h
      · cases h
        refine ⟨happlied, hpoolOut, hresults, ?_⟩
        intro out hout
        cases hout
    · rename_i strictFee hfee
      obtain ⟨operatorOut, hoperator, h⟩ := Checked.bind_eq_ok.mp h
      split at h
      · cases h
      · split at h
        · cases h
        · cases h
          refine ⟨happlied, hpoolOut, hresults, ?_⟩
          intro out hout fee hstrict
          cases hout
          cases hfee.symm.trans hstrict
          exact operatorOutput_spec hoperator

/-- What is left of the ADA once the pool and the order are paid: the fee, and with a deposit of two
tokens all that the collateral does not take. -/
def Order.leftAda (coin : Nat) : Order → Int
  | deposit order =>
    if order.order.tokenX.isNative ∨ order.order.tokenY.isNative then order.order.exFee
    else coin - order.order.collateralAda
  | order => order.fee

section

variable {pool pool' : AnyPool} {order : Order} {outputs : OperationResultOutputs}
  {outs : List TransactionOutput} {out poolOut : TransactionOutput} {coin : Nat}

theorem quality_le_of_intoLedger
    (h : (Maker.any pool).intoLedger (.ofOutput out) = .ok poolOut) : pool.quality ≤ maxLqCap := by
  rw [Maker.intoLedger_any] at h
  obtain ⟨_, -, h⟩ := Checked.bind_eq_ok.mp h
  obtain ⟨shares, hshares, -⟩ := Checked.bind_eq_ok.mp h
  obtain ⟨_, -, hshares⟩ := Checked.bind_eq_ok.mp hshares
  obtain ⟨_, hliquidity, -⟩ := Checked.bind_eq_ok.mp hshares
  exact (Checked.sub_eq_ok.mp hliquidity).1

/-- An order leaves the pool the assets that it has, and amounts that fit. -/
theorem Carries.keeps (h : Carries pool pool' order outputs) (hX : pool.reservesX < 2 ^ 64)
    (hY : pool.reservesY < 2 ^ 64) :
    pool.SameAssets pool' ∧ pool'.reservesX < 2 ^ 64 ∧ pool'.reservesY < 2 ^ 64 := by
  cases order with
  | deposit order =>
    cases outputs with
    | deposit output =>
      obtain ⟨hsame, ⟨netX, netY, -, -, hmoveX, hmoveY, hltX, hltY⟩, -⟩ := h
      exact ⟨hsame, by omega, by omega⟩
    | _ => cases h
  | redeem order =>
    cases outputs with
    | redeem output =>
      obtain ⟨hsame, hmoveX, hmoveY, -⟩ := h
      exact ⟨hsame, by omega, by omega⟩
    | _ => cases h
  | royaltyWithdraw order =>
    cases outputs with
    | royaltyWithdraw output =>
      obtain ⟨hsame, hmoveX, hmoveY, -⟩ := h
      exact ⟨hsame, by omega, by omega⟩
    | _ => cases h
  | daoActionRequest order =>
    cases outputs with
    | daoAction requestor treasury =>
      obtain ⟨-, hsame, hmoveX, hmoveY, -⟩ := h
      exact ⟨hsame, by omega, by omega⟩
    | _ => cases h

/-- What the order pays out, with what the pool is left with and the fee, is what the pool and the
order have. -/
theorem Carries.settles (h : Carries pool pool' order outputs) (hdistinct : pool.Distinct)
    (hnames : order.Names pool) (hX : pool.reservesX < 2 ^ 64) (hY : pool.reservesY < 2 ^ 64)
    (hshares : pool.quality ≤ maxLqCap) (hshares' : pool'.quality ≤ maxLqCap) {value : Value}
    (hread : order.ReadOf value) (hout : outputs.intoLedger = .ok outs) (asset : AssetClass) :
    pool'.declared coin asset + heldBy outs asset + only .native order.fee asset =
      pool.declared coin asset + order.declared asset := by
  have hone : ∀ out : TransactionOutput, heldBy [out] asset = out.value.held asset :=
    fun out => List.sum_singleton
  cases order with
  | deposit order =>
    cases outputs with
    | deposit output =>
      obtain ⟨out, hpaid, hout⟩ := Checked.bind_eq_ok.mp hout
      cases Checked.pure_eq_ok.mp hout
      rw [hone]
      exact Deposited.settles h hdistinct hnames hshares' hpaid asset
    | _ => cases h
  | redeem order =>
    cases outputs with
    | redeem output =>
      obtain ⟨out, hpaid, hout⟩ := Checked.bind_eq_ok.mp hout
      cases Checked.pure_eq_ok.mp hout
      rw [hone]
      exact Redeemed.settles h hdistinct hnames hX hY hshares hpaid asset
    | _ => cases h
  | royaltyWithdraw order =>
    cases outputs with
    | royaltyWithdraw output =>
      obtain ⟨out, hpaid, hout⟩ := Checked.bind_eq_ok.mp hout
      cases Checked.pure_eq_ok.mp hout
      rw [hone]
      exact RoyaltyPaid.settles h hdistinct hX hY hpaid asset
    | _ => cases h
  | daoActionRequest order =>
    cases outputs with
    | daoAction requestor treasury =>
      have hlovelace : order.order.lovelace = value.coin := hread
      have hlt := value.coin_lt
      exact TreasuryPaid.settles h.1 h.2 hdistinct hX hY (by omega) hout asset
    | _ => cases h

end

section

variable {poolCtx : PoolContext} {degenCtx : QuadraticPoolContext} {orderCtx : AmmOrderContext}
  {ctx : RunContext} {pool next : Bundled AnyPool FinalizedTxOut}
  {order : Bundled Order FinalizedTxOut} {tx : OrderTx}

/-- In ADA a pool has what its output holds. -/
theorem declared_native {pool : AnyPool} {out : TransactionOutput} (hdistinct : pool.Distinct)
    (hlq : pool.assetLq ≠ .native)
    (h : Amounts out.value pool.pair pool.assetLq pool.quality pool.reservesX pool.reservesY) :
    pool.declared out.value.coin .native = out.value.coin := by
  have hnft : ¬ AssetClass.native = .token pool.id := fun h => by cases h
  rw [AnyPool.declared, only, only, only, only, if_neg hlq.symm, if_neg hnft]
  by_cases hx : pool.pair.x.isNative
  · have hy : ¬ .native = pool.pair.y := fun hy => hdistinct.reserves ((eq_native hx).trans hy)
    have hcoin := h.reservesX
    rw [eq_native hx, Value.amountOf, Option.some.injEq] at hcoin
    rw [if_pos (eq_native hx).symm, if_neg hy, if_pos (.inl hx)]
    omega
  · have hx' : ¬ .native = pool.pair.x := fun h => hx (congrArg AssetClass.isNative h.symm)
    rw [if_neg hx']
    by_cases hy : pool.pair.y.isNative
    · have hcoin := h.reservesY
      rw [eq_native hy, Value.amountOf, Option.some.injEq] at hcoin
      rw [if_pos (eq_native hy).symm, if_pos (.inr hy)]
      omega
    · have hy' : ¬ .native = pool.pair.y := fun h => hy (congrArg AssetClass.isNative h.symm)
      rw [if_neg hy', if_neg (by simp [hx, hy]), only, if_pos rfl]
      omega

theorem leftAda_eq {pool : AnyPool} {value : Value} {order : Order} (hdistinct : pool.Distinct)
    (hnames : order.Names pool) (hlq : pool.assetLq ≠ .native) (h : order.ReadOf value) :
    (value.coin + order.fee : Int) = order.declared .native + order.leftAda value.coin := by
  cases order with
  | deposit order =>
    obtain ⟨hnameX, hnameY, -⟩ := hnames
    obtain ⟨hX, hY⟩ := h
    rw [hnameX] at hX
    rw [hnameY] at hY
    simp only [Order.declared, Order.leftAda, Order.fee, only, hnameX, hnameY]
    by_cases hx : pool.pair.x.isNative
    · have hy : ¬ .native = pool.pair.y := fun hy => hdistinct.reserves ((eq_native hx).trans hy)
      rw [eq_native hx, Value.held_native] at hX
      rw [if_pos (eq_native hx).symm, if_neg hy, if_pos (.inl hx), if_pos (.inl hx)]
      omega
    · have hx' : ¬ .native = pool.pair.x := fun h => hx (congrArg AssetClass.isNative h.symm)
      rw [if_neg hx']
      by_cases hy : pool.pair.y.isNative
      · rw [eq_native hy, Value.held_native] at hY
        rw [if_pos (eq_native hy).symm, if_pos (.inr hy), if_pos (.inr hy)]
        omega
      · have hy' : ¬ .native = pool.pair.y := fun h => hy (congrArg AssetClass.isNative h.symm)
        have hnone : ¬ (pool.pair.x.isNative ∨ pool.pair.y.isNative) := fun h => h.elim hx hy
        rw [if_neg hy', if_neg hnone, if_neg hnone, if_true]
        omega
  | redeem order =>
    obtain ⟨-, -, hnameLq⟩ := hnames
    obtain ⟨hcoin, -⟩ := h
    rw [← hnameLq] at hlq
    simp only [Order.declared, Order.leftAda, Order.fee, only, if_pos, if_neg hlq.symm]
    omega
  | royaltyWithdraw order =>
    have hcoin : order.order.initAdaValue = value.coin := h
    simp only [Order.declared, Order.leftAda, Order.fee, only, if_pos]
    omega
  | daoActionRequest order =>
    have hcoin : order.order.lovelace = value.coin := h
    simp only [Order.declared, Order.leftAda, Order.fee, only, if_pos]
    omega

theorem assetLq_of_intoLedger {pool : AnyPool} {out poolOut : TransactionOutput}
    (h : (Maker.any pool).intoLedger (.ofOutput out) = .ok poolOut) : pool.assetLq ≠ .native := by
  rw [Maker.intoLedger_any] at h
  obtain ⟨_, -, h⟩ := Checked.bind_eq_ok.mp h
  obtain ⟨shares, hshares, -⟩ := Checked.bind_eq_ok.mp h
  exact (Maker.shares_of_set hshares).1

/-- Whatever kind of order is run against whatever kind of pool, the pool, the order's owner and the
fee share out exactly what the pool and the order are read as holding. What is left of the ADA is the
fee, but for deposits of two tokens, and an operator's output is what the fee leaves over the fee of
the transaction. -/
theorem order_settles [Serialization] [DepositNumerics]
    (hpool : (Maker.any pool.entity).ReadFrom poolCtx degenCtx pool.bearer.out)
    (horder : Order.tryFromLedger order.bearer.out orderCtx = .ok (some order.entity))
    (hdistinct : pool.entity.Distinct) (hnames : order.entity.Names pool.entity)
    (hrun : AnyPool.tryRun ctx pool order = .ok (.ok (tx, next))) :
    (∀ asset, heldBy (tx.poolOut :: tx.results) asset + only .native order.entity.fee asset =
      pool.entity.declared pool.bearer.out.value.coin asset + order.entity.declared asset) ∧
    (heldBy [pool.bearer.out, order.bearer.out] .native : Int) =
      heldBy (tx.poolOut :: tx.results) .native +
        order.entity.leftAda order.bearer.out.value.coin ∧
    ∀ out ∈ tx.operatorOut, ∀ fee ∈ tx.strictFee,
      (out.value.coin + fee : Int) = order.entity.leftAda order.bearer.out.value.coin := by
  obtain ⟨blueprint, happlied, hpoolOut, hresults, hoperator⟩ := ran_of_tryRun hrun
  have hamounts := Maker.amounts_of_read hpool
  have hX := Value.amountOf_lt hamounts.reservesX
  have hY := Value.amountOf_lt hamounts.reservesY
  have hread := Order.readOf_of_read horder
  have hcarries := AnyPool.carries happlied
  obtain ⟨hsame, hX', hY'⟩ := hcarries.keeps hX hY
  have hlq : pool.entity.assetLq ≠ .native := by
    rw [← hsame.assetLq]
    exact assetLq_of_intoLedger hpoolOut
  have hsettles : ∀ asset, heldBy (tx.poolOut :: tx.results) asset +
      only .native order.entity.fee asset =
        pool.entity.declared pool.bearer.out.value.coin asset + order.entity.declared asset := by
    intro asset
    rw [heldBy, List.map_cons, List.sum_cons,
      held_intoLedger (hsame.distinct hdistinct) hX' hY' hpoolOut]
    exact hcarries.settles hdistinct hnames hX hY (quality_le_of_read hpool)
      (quality_le_of_intoLedger hpoolOut) hread hresults asset
  have hada : (heldBy [pool.bearer.out, order.bearer.out] .native : Int) =
      heldBy (tx.poolOut :: tx.results) .native +
        order.entity.leftAda order.bearer.out.value.coin := by
    have hnative := hsettles .native
    have hleft := leftAda_eq hdistinct hnames hlq hread
    have hinputs : heldBy [pool.bearer.out, order.bearer.out] .native =
        pool.bearer.out.value.coin + order.bearer.out.value.coin := by
      simp [heldBy]
    rw [declared_native hdistinct hlq hamounts, only, if_pos rfl] at hnative
    omega
  refine ⟨hsettles, hada, ?_⟩
  intro out hout fee hfee
  have hspent := hoperator out hout fee hfee
  omega

end

/-! ### A deposit -/

section Samples

local instance : Serialization := ⟨fun _ => [], fun _ => .replicate 0⟩

local instance : DepositNumerics := ⟨fun shares liquidity reserves => shares * reserves / liquidity⟩

/-- A deposit of 5 ADA, and of more of the token than the pool has for them. -/
def sampleDepositOutput : TransactionOutput where
  address := .enterprise (.script (.replicate 7))
  value := .ofTokens 8000000 [(sampleToken 2, 800000)]
  datum := some (.datum (.constr 0 [(sampleToken 1).intoPd, .constr 0 [.bytes [], .bytes []],
    (sampleToken 2).intoPd, (sampleToken 3).intoPd, .integer 1500000, .bytes (.replicate 28 5),
    .constr 1 [], .integer 1500000]))

def sampleDeposit : ClassicalOnChainDeposit where
  id := ⟨.replicate 5, 0⟩
  poolId := sampleToken 1
  order := {
    poolNft := sampleToken 1
    tokenX := .native
    tokenXAmount := 8000000
    tokenY := .token (sampleToken 2)
    tokenYAmount := 800000
    tokenLq := .token (sampleToken 3)
    exFee := 1500000
    rewardPkh := .replicate 5
    rewardStakePkh := none
    collateralAda := 1500000
    orderType := .constFnFeeSwitch }

def sampleAmmOrderContext : AmmOrderContext where
  outputRef := ⟨.replicate 5, 0⟩
  classical script :=
    ⟨.replicate (if script = .deposit .constFnFeeSwitch then 7 else 6), ⟨0, 0⟩⟩
  requests _ := ⟨.replicate 6, ⟨0, 0⟩⟩
  minDepositCollateralAda := 1000000
  minRedeemCollateralAda := 1000000
  minAdaInRoyaltyOutput := 1000000
  minDaoCollateralAda := 1000000

def sampleRunContext : RunContext where
  verify _ _ _ := false
  royaltyTransactionFee := 0
  dao := ⟨fun _ => ⟨.replicate 6, ⟨0, 0⟩⟩, ⟨[], .nil, 0, 0⟩⟩
  operatorRewardAddress := .enterprise (.pubKey (.replicate 1))
  display _ := ""
  build _ := .ok (.replicate 2)

def samplePoolBundle : Bundled AnyPool FinalizedTxOut :=
  ⟨.pureCfmm (.feeSwitch sampleFeeSwitchPool),
    ⟨sampleFeeSwitchOutput 100 5000, ⟨.replicate 4, 0⟩⟩⟩

def sampleOrderBundle : Bundled Order FinalizedTxOut :=
  ⟨.deposit sampleDeposit, ⟨sampleDepositOutput, ⟨.replicate 5, 0⟩⟩⟩

/-- The transaction that runs the deposit. -/
def sampleRun : Option OrderTx :=
  match AnyPool.tryRun sampleRunContext samplePoolBundle sampleOrderBundle with
  | .ok (.ok (tx, _)) => some tx
  | _ => none

theorem sampleRun_isSome : sampleRun.isSome := by decide +kernel

theorem exists_sampleRun : ∃ tx next,
    AnyPool.tryRun sampleRunContext samplePoolBundle sampleOrderBundle = .ok (.ok (tx, next)) := by
  have h := sampleRun_isSome
  unfold sampleRun at h
  split at h
  · exact ⟨_, _, by assumption⟩
  · cases h

theorem order_settles_sample : ∃ tx next,
    AnyPool.tryRun sampleRunContext samplePoolBundle sampleOrderBundle = .ok (.ok (tx, next)) ∧
    heldBy (tx.poolOut :: tx.results) (.token (sampleToken 2)) = 7800000 := by
  obtain ⟨tx, next, hrun⟩ := exists_sampleRun
  refine ⟨tx, next, hrun, ?_⟩
  have hpool : (Maker.any samplePoolBundle.entity).ReadFrom samplePoolContext
      sampleQuadraticContext samplePoolBundle.bearer.out :=
    traded_sample.read
  have horder : Order.tryFromLedger sampleOrderBundle.bearer.out sampleAmmOrderContext =
      .ok (some sampleOrderBundle.entity) := by decide +kernel
  have hdistinct : samplePoolBundle.entity.Distinct :=
    ⟨by decide, by decide, by decide, by decide, by decide, by decide⟩
  have hsettles := (order_settles hpool horder hdistinct ⟨rfl, rfl, rfl⟩ hrun).1
    (.token (sampleToken 2))
  exact hsettles

end Samples

end UtxoMonitor.Pools
