import UtxoMonitor.Orders.Takers

/-! Orders that are executed at once, and how they are read. -/
namespace UtxoMonitor.Orders

open Lib LiquidityBook Domain Pools

/-! ### Instant orders -/

/-- A version of limit order optimized for immediate execution. -/
structure InstantOrder where
  /-- Identifier of the order. -/
  beacon : Token
  /-- What a user pays. -/
  inputAsset : AssetClass
  /-- Remaining tradable input. -/
  inputAmount : Nat
  /-- What a user receives. -/
  outputAsset : AssetClass
  /-- Accumulated output. -/
  outputAmount : Nat
  /-- Worst acceptable price (Output/Input). -/
  basePrice : ℚ≥0
  /-- Currency used to pay for execution. -/
  feeAsset : AssetClass
  /-- Remaining ADA to facilitate execution. -/
  executionBudget : Nat
  /-- Fee reserved for the whole swap. -/
  fee : Nat
  redeemerAddress : PlutusAddress
  cancellationPkh : Ed25519KeyHash
  /-- How many execution units each order consumes. -/
  marginalCost : ExUnits
  /-- If this state is untouched. -/
  virgin : Bool
  /-- Order cannot be canceled before this point. -/
  cancellationAfter : Nat
deriving DecidableEq

namespace InstantOrder

def side (o : InstantOrder) : LiquidityBook.Side := sideOf o.inputAsset o.outputAsset

def price (o : InstantOrder) : AbsolutePrice :=
  match o.side with
  | .bid => o.basePrice⁻¹
  | .ask => o.basePrice

def operatorFee (o : InstantOrder) (inputConsumed : Nat) : Nat :=
  min (o.fee * inputConsumed) (2 ^ 64 - 1) / o.inputAmount

def terminal (o : InstantOrder) : TerminalTake where
  remainingInput := o.inputAmount
  accumulatedOutput := o.outputAmount
  remainingBudget := o.executionBudget
  remainingFee := o.fee

/-- Whatever is left of the input, the order ends. -/
def withAppliedTrade (o : InstantOrder) (removedInput addedOutput : Nat) :
    Checked (Next InstantOrder TerminalTake) := do
  let inputAmount ← Checked.sub o.inputAmount removedInput
  let outputAmount ← Checked.add 64 o.outputAmount addedOutput
  let o := { o with inputAmount := inputAmount, outputAmount := outputAmount }
  return .term o.terminal

def withBudgetCorrected (o : InstantOrder) (delta : Int) : Checked (Int × InstantOrder) := do
  let (realDelta, executionBudget) ← correctedBudget o.executionBudget delta
  return (realDelta, { o with executionBudget := executionBudget })

def withFeeCharged (o : InstantOrder) (fee : Nat) : Checked InstantOrder := do
  return { o with fee := ← Checked.sub o.fee fee }

def withOutputAdded (o : InstantOrder) (addedOutput : Nat) : Checked InstantOrder := do
  return { o with outputAmount := ← Checked.add 64 o.outputAmount addedOutput }

def tryTerminate (o : InstantOrder) : Next InstantOrder TerminalTake := .term o.terminal

end InstantOrder

instance : MarketTaker InstantOrder ExUnits where
  side := InstantOrder.side
  input o := o.inputAmount
  output o := o.outputAmount
  price := InstantOrder.price
  operatorFee := InstantOrder.operatorFee
  fee o := o.fee
  budget o := o.executionBudget
  consumableBudget o := o.executionBudget
  marginalCostHint o := o.marginalCost
  -- The integer part of the price, as a word.
  minMarginalOutput o := o.basePrice.num / o.basePrice.den % 2 ^ 64
  timeBounds _ := .none

instance : CheckedTaker InstantOrder where
  withAppliedTrade := InstantOrder.withAppliedTrade
  withBudgetCorrected := InstantOrder.withBudgetCorrected
  withFeeCharged := InstantOrder.withFeeCharged
  withOutputAdded := InstantOrder.withOutputAdded
  tryTerminate := InstantOrder.tryTerminate

instance : PlainTaker InstantOrder where
  trade o removed added := by
    show ending <$> o.withAppliedTrade removed added = _
    rw [InstantOrder.withAppliedTrade]
    dsimp only [input, output]
    cases Checked.sub o.inputAmount removed with
    | error e => rfl
    | ok inputAmount => cases Checked.add 64 o.outputAmount added <;> rfl
  outputAdded o addedOutput := by
    show Orders.terminal <$> o.withOutputAdded addedOutput = _
    rw [InstantOrder.withOutputAdded]
    dsimp only [Settling.withOutputAdded, terminal, output]
    cases Checked.add 64 o.outputAmount addedOutput <;> rfl
  feeCharged o charged := by
    show Orders.terminal <$> o.withFeeCharged charged = _
    rw [InstantOrder.withFeeCharged]
    dsimp only [Settling.withFeeCharged, terminal, fee]
    cases Checked.sub o.fee charged <;> rfl
  budgetCorrected o delta := by
    show Prod.map id Orders.terminal <$> o.withBudgetCorrected delta = _
    rw [InstantOrder.withBudgetCorrected]
    dsimp only [Settling.withBudgetCorrected, terminal, budget]
    cases correctedBudget o.executionBudget delta <;> rfl
  terminate o := rfl

/-! ### How they are read -/

structure InstantOrderValidation where
  minLovelace : Nat
  minFeeLovelace : Nat
  minExecutionBudgetLovelace : Nat

/-- What the reading of instant orders takes from the configuration. -/
structure InstantOrderConfig where
  executorCred : Ed25519KeyHash
  instantOrder : DeployedScriptInfo
  validation : InstantOrderValidation

namespace InstantOrder

structure Datum where
  redeemerAddress : PlutusAddress
  input : AssetClass
  output : AssetClass
  basePrice : Ratio
  fee : Nat
  minLovelace : Nat
  permittedExecutor : Ed25519KeyHash
  cancellationPkh : Ed25519KeyHash
  cancellationAfter : Nat

def Datum.tryFromPd (data : PlutusData) : Option InstantOrder.Datum := do
  let (_, fields) ← data.intoConstrPd
  return {
    input := ← assetAt fields 2
    output := ← assetAt fields 3
    basePrice := ← ratioTryFromPd (← takeField fields 4)
    fee := ← u64At fields 5
    minLovelace := ← u64At fields 6
    redeemerAddress := ← PlutusAddress.tryFromPd (← takeField fields 1)
    cancellationPkh := ← RawBytes.fromRawBytes (← bytesAt fields 9)
    permittedExecutor := ← RawBytes.fromRawBytes (← bytesAt fields 7)
    cancellationAfter := ← u64At fields 8 }

/-- The reference of an output, padded to the width of a token. -/
def beaconFromOref (oref : OutputRef) : Token :=
  let pseudoBeacon := oref.txHash.toRawBytes ++ bigEndian 8 oref.index.toNat ++ List.replicate 20 0
  ⟨⟨pseudoBeacon.take 28, by simp [pseudoBeacon]⟩, ⟨32, ⟨pseudoBeacon.drop 28, by simp [pseudoBeacon]⟩⟩⟩

/-- ADA that is neither a fee nor to stay, or all of a token. -/
def tradableInput (conf : InstantOrder.Datum) (coin totalInputAssetAmount : Nat) : Checked Nat :=
  match conf.input with
  | .native => do
    let rest ← Checked.sub coin conf.fee
    Checked.sub rest conf.minLovelace
  | .token _ => return totalInputAssetAmount

/-- What is made of a datum. Whether the fee is sufficient is worked out, and not looked at. -/
def ofDatum (config : InstantOrderConfig) (repr : Pools.TransactionOutput) (outputRef : OutputRef)
    (conf : InstantOrder.Datum) : Checked (Option InstantOrder) :=
  match repr.value.amountOf conf.input with
  | some totalInputAssetAmount => do
    let tradableInput ← tradableInput conf repr.value.coin totalInputAssetAmount
    if (linearOutputRelative tradableInput conf.basePrice).isSome then do
      let _sufficientFee ← Checked.add 64 config.validation.minExecutionBudgetLovelace
        config.validation.minFeeLovelace
      if tradableInput ≤ totalInputAssetAmount ∧ conf.permittedExecutor = config.executorCred ∧
          config.validation.minLovelace ≤ conf.minLovelace then do
        let basePrice ← hardenPrice conf.basePrice tradableInput
        let fee ← Checked.sub conf.fee config.validation.minExecutionBudgetLovelace
        return some {
          beacon := beaconFromOref outputRef
          inputAsset := conf.input
          inputAmount := tradableInput
          outputAsset := conf.output
          outputAmount := (repr.value.amountOf conf.output).getD 0
          basePrice := basePrice
          executionBudget := config.validation.minExecutionBudgetLovelace
          feeAsset := .native
          redeemerAddress := conf.redeemerAddress
          cancellationPkh := conf.cancellationPkh
          marginalCost := config.instantOrder.marginalCost
          virgin := true
          cancellationAfter := conf.cancellationAfter
          fee := fee }
      else return none
    else return none
  | none => return none

/-- `TryFromLedger for InstantOrder` -/
def tryFromLedger (config : InstantOrderConfig) (repr : Pools.TransactionOutput)
    (outputRef : OutputRef) : Checked (Option InstantOrder) :=
  if testAddress repr.address config.instantOrder then
    match repr.intoPd.bind Datum.tryFromPd with
    | some conf => ofDatum config repr outputRef conf
    | none => return none
  else return none

end InstantOrder

/-! ### Orders with an ad-hoc fee -/

/-- A share of a trade. -/
structure AdhocFeeStructure where
  relativeFeePercent : Fin 101

def AdhocFeeStructure.fee (self : AdhocFeeStructure) (body : Nat) : Checked Nat := do
  return (← Checked.mul 64 body self.relativeFeePercent) / 100

/-- A version of `LimitOrder` with ad-hoc fee algorithm. -/
structure AdhocOrder where
  order : InstantOrder
  adhocFeeInput : Nat
deriving DecidableEq

namespace AdhocOrder

def withAppliedTrade (o : AdhocOrder) (removedInput addedOutput : Nat) :
    Checked (Next AdhocOrder TerminalTake) := do
  match ← o.order.withAppliedTrade removedInput addedOutput with
  | .succ order => return .succ ⟨order, o.adhocFeeInput⟩
  | .term term => return .term term

def withBudgetCorrected (o : AdhocOrder) (delta : Int) : Checked (Int × AdhocOrder) := do
  let (realDelta, order) ← o.order.withBudgetCorrected delta
  return (realDelta, ⟨order, o.adhocFeeInput⟩)

def withFeeCharged (o : AdhocOrder) (fee : Nat) : Checked AdhocOrder := do
  return ⟨← o.order.withFeeCharged fee, o.adhocFeeInput⟩

def withOutputAdded (o : AdhocOrder) (addedOutput : Nat) : Checked AdhocOrder := do
  return ⟨← o.order.withOutputAdded addedOutput, o.adhocFeeInput⟩

def tryTerminate (o : AdhocOrder) : Next AdhocOrder TerminalTake :=
  match o.order.tryTerminate with
  | .succ order => .succ ⟨order, o.adhocFeeInput⟩
  | .term term => .term term

end AdhocOrder

instance : MarketTaker AdhocOrder ExUnits where
  side o := side o.order
  input o := input o.order
  output o := output o.order
  price o := price o.order
  operatorFee o := operatorFee o.order
  fee o := fee o.order
  budget o := budget o.order
  consumableBudget o := consumableBudget o.order
  marginalCostHint o := MarketTaker.marginalCostHint o.order
  minMarginalOutput o := minMarginalOutput o.order
  timeBounds o := timeBounds o.order

instance : CheckedTaker AdhocOrder where
  withAppliedTrade := AdhocOrder.withAppliedTrade
  withBudgetCorrected := AdhocOrder.withBudgetCorrected
  withFeeCharged := AdhocOrder.withFeeCharged
  withOutputAdded := AdhocOrder.withOutputAdded
  tryTerminate := AdhocOrder.tryTerminate

instance : PlainTaker AdhocOrder where
  trade o removed added := by
    show ending <$> o.withAppliedTrade removed added = _
    rw [AdhocOrder.withAppliedTrade, InstantOrder.withAppliedTrade]
    dsimp only [input, output]
    cases Checked.sub o.order.inputAmount removed with
    | error e => rfl
    | ok inputAmount => cases Checked.add 64 o.order.outputAmount added <;> rfl
  outputAdded o addedOutput := by
    show Orders.terminal <$> o.withOutputAdded addedOutput = _
    rw [AdhocOrder.withOutputAdded, InstantOrder.withOutputAdded]
    dsimp only [Settling.withOutputAdded, terminal, output]
    cases Checked.add 64 o.order.outputAmount addedOutput <;> rfl
  feeCharged o charged := by
    show Orders.terminal <$> o.withFeeCharged charged = _
    rw [AdhocOrder.withFeeCharged, InstantOrder.withFeeCharged]
    dsimp only [Settling.withFeeCharged, terminal, fee]
    cases Checked.sub o.order.fee charged <;> rfl
  budgetCorrected o delta := by
    show Prod.map id Orders.terminal <$> o.withBudgetCorrected delta = _
    rw [AdhocOrder.withBudgetCorrected, InstantOrder.withBudgetCorrected]
    dsimp only [Settling.withBudgetCorrected, terminal, budget]
    cases correctedBudget o.order.executionBudget delta <;> rfl
  terminate o := rfl

/-- What the reading of these orders takes from the configuration. -/
structure AdhocOrderConfig extends InstantOrderConfig where
  feeStructure : AdhocFeeStructure
  allowedAdditionalPaymentDestinations : SmallVec Ed25519KeyHash

/-- `AddedPaymentDestinations::complies_with` -/
def compliesWith (added whitelist : SmallVec Ed25519KeyHash) : Bool :=
  !added.exists_ fun hash => !whitelist.contains hash

def subtractAdhocFee (body : Nat) (feeStructure : AdhocFeeStructure) : Checked Nat := do
  let fee ← feeStructure.fee body
  Checked.sub body fee

def virtualInputAmount (io : InstantOrder) (feeStructure : AdhocFeeStructure) : Checked Nat :=
  if io.inputAsset = .native then subtractAdhocFee io.inputAmount feeStructure
  else return io.inputAmount

/-- The fee is only taken of ADA that is paid for a token. -/
def adhocFeeInputOf (io : InstantOrder) (virtualInputAmount : Nat) : Option Nat :=
  if io.inputAsset = .native then checkedSub io.inputAmount virtualInputAmount else some 0

/-- `TryFromLedger for AdhocOrder` -/
def AdhocOrder.tryFromLedger (config : AdhocOrderConfig) (repr : Pools.TransactionOutput)
    (outputRef : OutputRef) (addedPaymentDestinations : SmallVec Ed25519KeyHash) :
    Checked (Option AdhocOrder) := do
  match ← InstantOrder.tryFromLedger config.toInstantOrderConfig repr outputRef with
  | none => return none
  | some io => do
    let virtualInputAmount ← virtualInputAmount io config.feeStructure
    match adhocFeeInputOf io virtualInputAmount with
    | none => return none
    | some adhocFeeInput =>
      if io.redeemerAddress.stakeCred.isSome ∧ compliesWith addedPaymentDestinations
          config.allowedAdditionalPaymentDestinations then
        return some ⟨{ io with inputAmount := virtualInputAmount }, adhocFeeInput⟩
      else return none

end UtxoMonitor.Orders
