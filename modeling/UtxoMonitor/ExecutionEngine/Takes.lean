import UtxoMonitor.ExecutionEngine.ExecutionState
import UtxoMonitor.Orders.AnyOrder
import UtxoMonitor.Orders.Instant

/-! How the orders of a batch are carried out. -/
namespace UtxoMonitor.ExecutionEngine

open Lib LiquidityBook Pools Orders

open EventSink (FinalizedTxOut)

variable [ValueArithmetic]

/-- What is left of an order's output: the order with its datum updated, or the proceeds at the redeemer's
address. -/
def residualOrder {T : Type} (ord : T) (redeemerAddress : PlutusAddress)
    (updateDatum : T → PlutusData → PlutusData) (consumedOut : FinalizedTxOut)
    (candidate : Pools.TransactionOutput) :
    Next T TerminalTake → Pools.TransactionOutput × EffectPreview T
  | .succ next =>
    let candidate := candidate.dataMut (updateDatum next)
    (candidate, .updated ⟨ord, consumedOut⟩ ⟨next, candidate⟩)
  | .term _ =>
    (candidate.nullDatum.updateAddress redeemerAddress.toAddress, .eliminated ⟨ord, consumedOut⟩)

/-- The fee of the transaction and the interest are set aside, and the order's output is replaced. -/
def ExecutionState.settle (state : ExecutionState) (consumedBudget interest : Nat)
    (input : FinalizedTxOut) (output : Pools.TransactionOutput) : Checked ExecutionState := do
  let state ← state.addTxFee consumedBudget
  let state ← state.addOperatorInterest interest
  return state.addIo input output

/-- `BatchExec for Magnet<Take<LimitOrder, FinalizedTxOut>>` -/
def LimitOrder.exec (state : ExecutionState) (take : TakeInProgress Orders.LimitOrder)
    (consumedOut : FinalizedTxOut) : Checked (ExecutionState × EffectPreview Orders.LimitOrder) := do
  let ord := take.target
  let removedInput ← removedInput take
  let addedOutput ← addedOutput take
  let consumedBudget ← consumedBudget take
  let consumedFee ← consumedFee take
  let candidate ← consumedOut.out.subAsset ord.feeAsset (← Checked.add 64 consumedBudget consumedFee)
  let candidate ← candidate.subAsset ord.inputAsset removedInput
  let candidate ← candidate.addAsset ord.outputAsset addedOutput
  let (residual, effect) := residualOrder ord ord.redeemerAddress
    (fun next data => unsafeUpdateDatum data next.inputAmount next.fee) consumedOut candidate take.result
  return (← state.settle consumedBudget consumedFee consumedOut residual, effect)

/-- `BatchExec for Magnet<Take<GridOrder, FinalizedTxOut>>` -/
def GridOrder.exec (state : ExecutionState) (take : TakeInProgress GridOrder)
    (consumedOut : FinalizedTxOut) : Checked (ExecutionState × EffectPreview GridOrder) := do
  let ord := take.target
  let removedInput ← removedInput take
  let addedOutput ← addedOutput take
  let consumedBudget ← consumedBudget take
  let consumedFee ← consumedFee take
  let candidate ← consumedOut.out.subAsset .native (← Checked.add 64 consumedBudget consumedFee)
  let candidate ← candidate.subAsset ord.absoluteIo.1 removedInput
  let candidate ← candidate.addAsset ord.absoluteIo.2 addedOutput
  let (residual, effect) := residualOrder ord ord.redeemerAddress
    (fun next data => GridOrder.unsafeUpdateDatum data next.quoteOffer next.price next.side)
    consumedOut candidate take.result
  return (← state.settle consumedBudget consumedFee consumedOut residual, effect)

/-! ### Orders with an ad-hoc fee -/

/-- What an execution takes from an order and adds to it. -/
structure Amounts where
  removedInput : Nat
  addedOutput : Nat
  consumedBudget : Nat
  consumedFee : Nat
  proportionalFee : Nat

/-- The fee on all of the input, or on the ADA that is received. -/
def fullAdhocFee (feeStructure : AdhocFeeStructure) (o : AdhocOrder) (addedOutput : Nat) :
    Checked Nat :=
  match o.order.inputAsset, o.order.outputAsset with
  | .native, _ => return o.adhocFeeInput
  | _, .native => feeStructure.fee addedOutput
  | _, _ => return 0

def proportionalFee (o : AdhocOrder) (fullAdhocFee removedInput : Nat) : Checked Nat := do
  return (← Checked.div (fullAdhocFee * removedInput) o.order.inputAmount) % 2 ^ 64

def AdhocOrder.amounts (feeStructure : AdhocFeeStructure) (take : TakeInProgress AdhocOrder) :
    Checked Amounts := do
  let removedInput ← removedInput take
  let addedOutput ← addedOutput take
  let consumedBudget ← consumedBudget take
  let consumedFee ← consumedFee take
  let fullAdhocFee ← fullAdhocFee feeStructure take.target addedOutput
  let proportionalFee ← proportionalFee take.target fullAdhocFee removedInput
  return ⟨removedInput, addedOutput, consumedBudget, consumedFee, proportionalFee⟩

/-- What is left of the order's output, before it goes to the redeemer. -/
def AdhocOrder.candidate (o : AdhocOrder) (amounts : Amounts) (out : Pools.TransactionOutput) :
    Checked Pools.TransactionOutput := do
  let candidate ← out.subAsset o.order.inputAsset amounts.removedInput
  let candidate ← candidate.addAsset o.order.outputAsset amounts.addedOutput
  let consumed ← Checked.add 64 amounts.consumedBudget amounts.consumedFee
  candidate.subAsset o.order.feeAsset (← Checked.add 64 consumed amounts.proportionalFee)

/-- `BatchExec for Magnet<Take<AdhocOrder, FinalizedTxOut>>` -/
def AdhocOrder.exec (feeStructure : AdhocFeeStructure) (state : ExecutionState)
    (take : TakeInProgress AdhocOrder) (consumedUtxo : FinalizedTxOut) :
    Checked (ExecutionState × EffectPreview AdhocOrder) := do
  let amounts ← AdhocOrder.amounts feeStructure take
  let candidate ← AdhocOrder.candidate take.target amounts consumedUtxo.out
  match take.result with
  | .term _ => do
    let residual := candidate.nullDatum.updateAddress take.target.order.redeemerAddress.toAddress
    let interest ← Checked.add 64 amounts.consumedFee amounts.proportionalFee
    return (← state.settle amounts.consumedBudget interest consumedUtxo residual,
      .eliminated ⟨take.target, consumedUtxo⟩)
  -- Adhoc orders must always be terminated.
  | .succ _ => .error .unwrap

/-! ### Several kinds -/

/-- `BatchExec`: how a transition of an entity is carried out. Of the context, only the structure of
ad-hoc fees has to do with amounts. -/
class BatchExec (T E : Type) where
  exec : AdhocFeeStructure → ExecutionState → Trans T T E → FinalizedTxOut →
    Checked (ExecutionState × EffectPreview T)

section

variable {T T' E : Type}

def EffectPreview.map (f : T → T') : EffectPreview T → EffectPreview T'
  | .updated ⟨old, consumed⟩ ⟨next, produced⟩ => .updated ⟨f old, consumed⟩ ⟨f next, produced⟩
  | .eliminated ⟨old, consumed⟩ => .eliminated ⟨f old, consumed⟩

/-- `map_succ`, by a function that not every state is expected to have a value under. -/
def mapSucc (f : T' → Option T) : Next T' E → Checked (Next T E)
  | .succ next => do return .succ (← Checked.unwrap (f next))
  | .term last => return .term last

/-- One of several kinds of entities, carried out as what it is. -/
def execAs [BatchExec T E] (wrap : T → T') (unwrap : T' → Option T)
    (feeStructure : AdhocFeeStructure) (state : ExecutionState) (target : T) (result : Next T' E)
    (src : FinalizedTxOut) : Checked (ExecutionState × EffectPreview T') := do
  let result ← mapSucc unwrap result
  let (state, effect) ← BatchExec.exec feeStructure state ⟨target, result⟩ src
  return (state, EffectPreview.map wrap effect)

end

instance : BatchExec Orders.LimitOrder TerminalTake := ⟨fun _ => LimitOrder.exec⟩

instance : BatchExec GridOrder TerminalTake := ⟨fun _ => GridOrder.exec⟩

instance : BatchExec AdhocOrder TerminalTake := ⟨AdhocOrder.exec⟩

def limit? : AnyOrder → Option Orders.LimitOrder
  | .limit o => some o
  | .grid _ => none

def grid? : AnyOrder → Option GridOrder
  | .limit _ => none
  | .grid o => some o

/-- `BatchExec for Magnet<Take<AnyOrder, FinalizedTxOut>>` -/
def AnyOrder.exec (feeStructure : AdhocFeeStructure) (state : ExecutionState)
    (take : TakeInProgress AnyOrder) (src : FinalizedTxOut) :
    Checked (ExecutionState × EffectPreview AnyOrder) :=
  match take.target with
  | .limit o => execAs .limit limit? feeStructure state o take.result src
  | .grid o => execAs .grid grid? feeStructure state o take.result src

instance : BatchExec AnyOrder TerminalTake := ⟨AnyOrder.exec⟩

/-- Entities of two kinds in one batch. -/
instance {T T' E : Type} [BatchExec T E] [BatchExec T' E] : BatchExec (T ⊕ T') E where
  exec feeStructure state trans src :=
    match trans.target with
    | .inl t => execAs .inl Sum.getLeft? feeStructure state t trans.result src
    | .inr t => execAs .inr Sum.getRight? feeStructure state t trans.result src

end UtxoMonitor.ExecutionEngine
