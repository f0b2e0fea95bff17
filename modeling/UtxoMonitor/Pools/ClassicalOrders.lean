import UtxoMonitor.Pools.RoyaltyWithdraw

/-! The orders that are run against a pool alone: how they are read, and what a pool of any kind does
with them. -/
namespace UtxoMonitor.Pools

open Lib LiquidityBook

/-! ### Deposits and redeems on the ledger -/

/-- The scripts that deposits and redeems of every type pay to. -/
inductive OrderScript where
  | deposit (orderType : OrderType)
  | redeem (orderType : OrderType)
deriving DecidableEq

structure ClassicalOrderContext where
  outputRef : OutputRef
  deployed : OrderScript → DeployedScriptInfo
  minDepositCollateralAda : Nat
  minRedeemCollateralAda : Nat

/-- The first of the types, in the order in which they are tried, whose script an address pays to. -/
def orderTypeOf (addr : Address) (deployed : OrderType → DeployedScriptInfo)
    (orderTypes : List OrderType) : Option OrderType :=
  orderTypes.find? fun orderType => testAddress addr (deployed orderType)

/-- The key hash in a field, if the field has one. -/
def stakePkhAt (fields : List PlutusData) (index : Nat) : Option Ed25519KeyHash :=
  (((takeField fields index).bind PlutusData.intoConstrPd).bind fun (_, inner) =>
    bytesAt inner 0).bind RawBytes.fromRawBytes

structure OnChainDepositConfig where
  poolNft : AssetClass
  tokenX : AssetClass
  tokenY : AssetClass
  tokenLq : AssetClass
  exFee : Nat
  rewardPkh : Ed25519KeyHash
  rewardStakePkh : Option Ed25519KeyHash
  collateralAda : Nat

def OnChainDepositConfig.tryFromPd (data : PlutusData) : Option OnChainDepositConfig := do
  let (_, fields) ← data.intoConstrPd
  return {
    poolNft := ← assetAt fields 0
    tokenX := ← assetAt fields 1
    tokenY := ← assetAt fields 2
    tokenLq := ← assetAt fields 3
    exFee := ← u64At fields 4
    rewardPkh := ← (bytesAt fields 5).bind RawBytes.fromRawBytes
    rewardStakePkh := stakePkhAt fields 6
    collateralAda := ← u64At fields 7 }

def ClassicalOnChainDeposit.tryFromLedger (repr : TransactionOutput) (ctx : ClassicalOrderContext) :
    Option ClassicalOnChainDeposit := do
  let orderType ← orderTypeOf repr.address (fun t => ctx.deployed (.deposit t))
    [.constFnFeeSwitch, .balanceFn, .constFn, .stableFn, .royaltyConstFnV1, .royaltyConstFnV2]
  let conf ← repr.intoPd.bind OnChainDepositConfig.tryFromPd
  let poolNft ← PoolId.tryFrom conf.poolNft
  if ctx.minDepositCollateralAda ≤ conf.collateralAda then
    return {
      id := ctx.outputRef
      poolId := poolNft
      order := {
        poolNft := poolNft
        tokenX := conf.tokenX
        tokenXAmount := (repr.value.amountOf conf.tokenX).getD 0
        tokenY := conf.tokenY
        tokenYAmount := (repr.value.amountOf conf.tokenY).getD 0
        tokenLq := conf.tokenLq
        exFee := conf.exFee
        rewardPkh := conf.rewardPkh
        rewardStakePkh := conf.rewardStakePkh
        collateralAda := conf.collateralAda
        orderType := orderType } }
  else none

structure OnChainRedeemConfig where
  poolNft : AssetClass
  tokenX : AssetClass
  tokenY : AssetClass
  tokenLq : AssetClass
  exFee : Nat
  rewardPkh : Ed25519KeyHash
  rewardStakePkh : Option Ed25519KeyHash

def OnChainRedeemConfig.tryFromPd (data : PlutusData) : Option OnChainRedeemConfig := do
  let (_, fields) ← data.intoConstrPd
  return {
    poolNft := ← assetAt fields 0
    tokenX := ← assetAt fields 1
    tokenY := ← assetAt fields 2
    tokenLq := ← assetAt fields 3
    exFee := ← u64At fields 4
    rewardPkh := ← (bytesAt fields 5).bind RawBytes.fromRawBytes
    rewardStakePkh := stakePkhAt fields 6 }

/-- The fee is subtracted from the ADA unchecked. -/
def ClassicalOnChainRedeem.tryFromLedger (repr : TransactionOutput) (ctx : ClassicalOrderContext) :
    Checked (Option ClassicalOnChainRedeem) :=
  match orderTypeOf repr.address (fun t => ctx.deployed (.redeem t))
      [.constFnFeeSwitch, .balanceFn, .constFn, .royaltyConstFnV1, .royaltyConstFnV2, .stableFn],
    repr.intoPd.bind OnChainRedeemConfig.tryFromPd with
  | some orderType, some conf =>
    match repr.value.amountOf conf.tokenLq with
    | some tokenLqAmount => do
      let collateralAda ← Checked.sub repr.value.coin conf.exFee
      match PoolId.tryFrom conf.poolNft with
      | some poolNft =>
        if ctx.minRedeemCollateralAda ≤ collateralAda then
          return some {
            id := ctx.outputRef
            poolId := poolNft
            order := {
              poolNft := poolNft
              tokenX := conf.tokenX
              tokenY := conf.tokenY
              tokenLq := conf.tokenLq
              tokenLqAmount := tokenLqAmount
              exFee := conf.exFee
              rewardPkh := conf.rewardPkh
              rewardStakePkh := conf.rewardStakePkh
              collateralAda := collateralAda
              orderType := orderType } }
        else return none
      | none => return none
    | none => return none
  | _, _ => return none

/-! ### Orders of every kind -/

deriving instance DecidableEq for ClassicalOrder, Deposit, Redeem, RoyaltyWithdraw, DaoV1Request

inductive Order where
  | deposit (order : ClassicalOnChainDeposit)
  | redeem (order : ClassicalOnChainRedeem)
  | royaltyWithdraw (order : OnChainRoyaltyWithdraw)
  | daoActionRequest (order : OnChainDaoActionRequest)
deriving DecidableEq

namespace Order

def selfRef : Order → OutputRef
  | deposit order => order.id
  | redeem order => order.id
  | royaltyWithdraw order => order.id
  | daoActionRequest order => order.id

def poolRef : Order → PoolId
  | deposit order => order.poolId
  | redeem order => order.poolId
  | royaltyWithdraw order => order.poolId
  | daoActionRequest order => order.poolId

/-- What the operator is promised. -/
def fee : Order → Nat
  | deposit order => order.order.exFee
  | redeem order => order.order.exFee
  | royaltyWithdraw order => order.order.fee
  | daoActionRequest order => order.order.fee

/-- The weight in a backlog: requests come last. -/
def weight : Order → Nat
  | deposit order => order.order.exFee
  | redeem order => order.order.exFee
  | royaltyWithdraw _ => 0
  | daoActionRequest _ => 0

end Order

structure AmmOrderContext where
  outputRef : OutputRef
  classical : OrderScript → DeployedScriptInfo
  requests : ProtocolValidator → DeployedScriptInfo
  minDepositCollateralAda : Nat
  minRedeemCollateralAda : Nat
  minAdaInRoyaltyOutput : Nat
  minDaoCollateralAda : Nat

/-- The kinds are tried one after another, until one panics or reads the output. -/
def Order.tryFromLedger (repr : TransactionOutput) (ctx : AmmOrderContext) : Checked (Option Order) :=
  let classical : ClassicalOrderContext :=
    ⟨ctx.outputRef, ctx.classical, ctx.minDepositCollateralAda, ctx.minRedeemCollateralAda⟩
  match ClassicalOnChainDeposit.tryFromLedger repr classical with
  | some order => return some (deposit order)
  | none => do
    match ← ClassicalOnChainRedeem.tryFromLedger repr classical with
    | some order => return some (redeem order)
    | none =>
      match ← OnChainRoyaltyWithdraw.tryFromLedger repr
        ⟨ctx.outputRef, ctx.requests, ctx.minAdaInRoyaltyOutput⟩ with
      | some order => return some (royaltyWithdraw order)
      | none =>
        match ← OnChainDaoActionRequest.tryFromLedger repr
          ⟨ctx.outputRef, ctx.requests, ctx.minDaoCollateralAda⟩ with
        | some order => return some (daoActionRequest order)
        | none => return none

/-! ### What a pool does with an order -/

/-- Why an order is not run, and the order, which is handed back. -/
inductive RunOrderError (Order : Type) where
  | fatal (description : String) (order : Order)
  | nonFatal (description : String) (order : Order)

def RunOrderError.order {Order : Type} : RunOrderError Order → Order
  | fatal _ order => order
  | nonFatal _ order => order

/-- `From<ApplyOrderError>` -/
def RunOrderError.of {O Order : Type} (wrap : O → Order) : ApplyOrderError O → RunOrderError Order
  | .incompatible order => nonFatal "Math error" (wrap order)
  | .verificationFailed order description =>
    fatal s!"Verification failed. {description}" (wrap order)

/-- What an order pays out. -/
inductive OperationResultOutputs where
  | deposit (output : DepositOutput)
  | redeem (output : RedeemOutput)
  | royaltyWithdraw (output : RoyaltyWithdrawOutput)
  | daoAction (requestor : DaoRequestorOutput) (treasury : Option TreasuryWithdrawOutput)

/-- The outputs of an order, and the fee of its transaction where that is not left to the builder. -/
structure OperationResultBlueprint where
  outputs : OperationResultOutputs
  strictFee : Option Nat

structure ApplyContext where
  verify : Ed25519PublicKey → Bytes → Ed25519Signature → Bool
  royaltyTransactionFee : Nat
  dao : DaoApplyContext

/-- The outcome for an order of one kind, as one for the orders of every kind. -/
def applyAs {O A P : Type} (wrap : O → Order) (result : A → P × OperationResultBlueprint)
    (applied : Checked (Applied O A)) :
    Checked (Except (RunOrderError Order) (P × OperationResultBlueprint)) := do
  match ← applied with
  | .ok a => return .ok (result a)
  | .error e => return .error (.of wrap e)

section

variable [Serialization] [DepositNumerics]

def ConstFnPool.applyOrder (pool : ConstFnPool) (ctx : ApplyContext) :
    Order → Checked (Except (RunOrderError Order) (ConstFnPool × OperationResultBlueprint))
  | .deposit order =>
    applyAs .deposit (fun (next, output) => (next, ⟨.deposit output, none⟩))
      (pool.applyDeposit order)
  | .redeem order =>
    applyAs .redeem (fun (next, output) => (next, ⟨.redeem output, none⟩)) (pool.applyRedeem order)
  | .royaltyWithdraw order =>
    match pool with
    | royalty pool => applyAs .royaltyWithdraw
        (fun (next, result) =>
          (royalty next, ⟨.royaltyWithdraw result.output, some result.strictFee⟩))
        (pool.applyRoyaltyWithdraw ctx.verify order ctx.royaltyTransactionFee)
    | _ => return .error (.of .royaltyWithdraw (.incompatible order))
  | .daoActionRequest order =>
    match pool with
    | royalty pool => applyAs .daoActionRequest
        (fun (next, result) =>
          (royalty next,
            ⟨.daoAction result.requestorOutput result.treasuryWithdraw, result.strictFee⟩))
        (pool.applyDaoAction ctx.verify order ctx.dao)
    | _ => return .error (.of .daoActionRequest (.incompatible order))

/-- Orders that only pools with royalties run. -/
def unsupported {P : Type} (order : Order) (display : OutputRef → String) (reference : OutputRef) :
    Checked (Except (RunOrderError Order) (P × OperationResultBlueprint)) :=
  return .error (.fatal s!"Unsupported order operation {display reference}" order)

def BalancePool.applyOrder (pool : BalancePool) (display : OutputRef → String)
    (reference : OutputRef) :
    Order → Checked (Except (RunOrderError Order) (BalancePool × OperationResultBlueprint))
  | .deposit order =>
    applyAs .deposit (fun (next, output) => (next, ⟨.deposit output, none⟩))
      (pool.applyDeposit order)
  | .redeem order =>
    applyAs .redeem (fun (next, output) => (next, ⟨.redeem output, none⟩)) (pool.applyRedeem order)
  | order => unsupported order display reference

def StablePoolT2T.applyOrder (pool : StablePoolT2T) (display : OutputRef → String)
    (reference : OutputRef) :
    Order → Checked (Except (RunOrderError Order) (StablePoolT2T × OperationResultBlueprint))
  | .deposit order =>
    applyAs .deposit (fun (next, output) => (next, ⟨.deposit output, none⟩))
      (pool.applyDeposit order)
  | .redeem order =>
    applyAs .redeem (fun (next, output) => (next, ⟨.redeem output, none⟩)) (pool.applyRedeem order)
  | order => unsupported order display reference

end

end UtxoMonitor.Pools
