import UtxoMonitor.EventSink.Transitions

/-! The handlers of specialized orders and of funding boxes, and how an event goes through a chain
of handlers. -/
namespace UtxoMonitor.EventSink

open Lib LiquidityBook Domain

/-! ### Specialized orders -/

/-- Orders that name the pool they are for. -/
class SpecializedOrder (O Pool : Type) [LedgerEntity Pool] where
  TOrderId : Type
  decEqOrderId : DecidableEq TOrderId
  getSelfRef : O → TOrderId
  getPoolRef : O → StableId Pool
  /-- `From<OutputRef>` for ids of orders -/
  orderIdOf : OutputRef → TOrderId

section Specialized

variable {O : Type} (Pool : Type) {K : Type} [LedgerEntity Pool] [SpecializedOrder O Pool]

abbrev TOrderId (O Pool : Type) [LedgerEntity Pool] [SpecializedOrder O Pool] : Type :=
  SpecializedOrder.TOrderId O Pool

instance : DecidableEq (TOrderId O Pool) := SpecializedOrder.decEqOrderId

def getSelfRef : O → TOrderId O Pool := SpecializedOrder.getSelfRef

def getPoolRef : O → StableId Pool := SpecializedOrder.getPoolRef

variable (O) in
def orderIdOf : OutputRef → TOrderId O Pool := SpecializedOrder.orderIdOf

inductive OrderUpdate (O : Type) where
  | created (o : O)
  | eliminated (o : O)
deriving DecidableEq

def OrderUpdate.from : O ⊕ O → OrderUpdate O
  | .inl consumed => .eliminated consumed
  | .inr produced => .created produced

def poolRefOf : O ⊕ O → StableId Pool
  | .inl o => getPoolRef Pool o
  | .inr o => getPoolRef Pool o

/-- The indexed orders that inputs refer to, in the order of the inputs. -/
def spentOrders (index : InMemoryKvIndex (TOrderId O Pool) O) (inputs : List TransactionInput) :
    List O :=
  inputs.filterMap fun i => index.get (orderIdOf O Pool (OutputRef.ofInput i))

variable [TryFromLedger O K]

def readOrder (tx : TxViewMut) (out : UInt64 × Pools.TransactionOutput) : Option O :=
  tryFromLedger out.2 ({
    outputRef := tx.refOf out
    consumedUtxos := .new tx.consumedUtxos
    consumedIdentifiers := default
    producedIdentifiers := default
    addedPaymentDestinations := default
    mints := tx.mints } : EventContext K)

/-- What else decides how an event of specialized orders is handled. -/
structure OrderMoment (I P : Type) where
  now : Nat
  recognised : Walk I
  pairs : Walk P

variable (K) in
def extractAtomicTransitions (m : OrderMoment (TOrderId O Pool) (PairId Pool))
    (index : InMemoryKvIndex (TOrderId O Pool) O) (tx : TxViewMut) :
    Except TxViewMut (List (O ⊕ O) × TxViewMut) :=
  if tx.outputs.length = 0 then .error tx else
    let consumed := collect (getSelfRef Pool) (spentOrders Pool index tx.inputs)
    let (produced, nonProcessed) := popOutputs (fun out produced =>
      (readOrder (K := K) tx out).map fun order => produced.insert (getSelfRef Pool order) order)
      (∅ : AList fun _ : TOrderId O Pool => O) tx.outputs
    let tx := { tx with outputs := nonProcessed }
    let keys := m.recognised.order (consumed.keys ++ produced.keys).dedup
    let transitions := keys.filterMap fun k =>
      match consumed.lookup k, produced.lookup k with
      | some consumed, _ => some (.inl consumed)
      | none, some produced => some (.inr produced)
      | none, none => none
    if transitions.isEmpty then .error tx else .ok (transitions, tx)

def indexAtomicTransition (now : Nat) (index : InMemoryKvIndex (TOrderId O Pool) O) :
    O ⊕ O → InMemoryKvIndex (TOrderId O Pool) O
  | .inl consumed => index.registerForEviction now (getSelfRef Pool consumed)
  | .inr produced => index.put (getSelfRef Pool produced) produced

/-- A message about an order, for the pair of its pool. -/
abbrev SpecialUpdate (O Pool : Type) [LedgerEntity Pool] :=
  PairId Pool × Channel (OrderUpdate O) LedgerCx

/-- Of the transitions found, or their inverses, those whose pool has a known pair are indexed and
sent on. -/
def commitAtomic {E : Type} (m : OrderMoment (TOrderId O Pool) (PairId Pool))
    (poolIndex : InMemoryEntityIndex Pool) (index : InMemoryKvIndex (TOrderId O Pool) O)
    (inverse : O ⊕ O → O ⊕ O) (upd : OrderUpdate O → Channel (OrderUpdate O) LedgerCx)
    (back : TxViewMut → E) : Except TxViewMut (List (O ⊕ O) × TxViewMut) →
      Handled (InMemoryKvIndex (TOrderId O Pool) O) (SpecialUpdate O Pool) E
  | .ok (transitions, tx) =>
    let known := transitions.filterMap fun tr =>
      (poolIndex.pairOf (poolRefOf Pool tr)).map fun pair => (pair, inverse tr)
    { index :=
        (known.map Prod.snd).foldl (indexAtomicTransition Pool m.now) (index.runEviction m.now)
      sent := batchSend m.pairs (known.map fun (pair, tr) => (pair, upd (.from tr)))
      remainder := some (back tx) }
  | .error tx => { index := index, sent := [], remainder := some (back tx) }

variable (K) in
/-- `EventHandler` for `SpecializedHandler`, of ledger and mempool events -/
def SpecializedHandler.tryHandle (m : OrderMoment (TOrderId O Pool) (PairId Pool))
    (poolIndex : InMemoryEntityIndex Pool) (index : InMemoryKvIndex (TOrderId O Pool) O) :
    SinkEvent → Handled (InMemoryKvIndex (TOrderId O Pool) O) (SpecialUpdate O Pool) SinkEvent
  | .ledger (.txApplied tx slot blockNumber blockHash) =>
    commitAtomic Pool m poolIndex index id (.ledger · ⟨blockHash, slot⟩)
      (fun tx => .ledger (.txApplied tx slot blockNumber blockHash))
      (extractAtomicTransitions Pool K m index tx)
  | .ledger (.txUnapplied tx slot blockNumber blockHash) =>
    commitAtomic Pool m poolIndex index Sum.swap (.ledger · ⟨blockHash, slot⟩)
      (fun tx => .ledger (.txUnapplied tx slot blockNumber blockHash))
      (extractAtomicTransitions Pool K m index tx)
  | .mempool (.txAccepted tx) =>
    commitAtomic Pool m poolIndex index id .mempool (fun tx => .mempool (.txAccepted tx))
      (extractAtomicTransitions Pool K m index tx)
  | .mempool (.txDropped tx) =>
    commitAtomic Pool m poolIndex index Sum.swap .mempool (fun tx => .mempool (.txDropped tx))
      (extractAtomicTransitions Pool K m index tx)

end Specialized

/-! ### Funding boxes -/

structure FinalizedTxOut where
  out : Pools.TransactionOutput
  reference : OutputRef

inductive FundingEvent where
  | consumed (utxo : FinalizedTxOut)
  | produced (utxo : FinalizedTxOut)

def FundingEvent.inverse : FundingEvent → FundingEvent
  | consumed x => produced x
  | produced x => consumed x

/-- Boxes by reference, with the partition each belongs to. -/
abbrev FundingIndex := InMemoryKvIndex OutputRef (Nat × FinalizedTxOut)

def partitionByAddress (fundingAddresses : List Address) (address : Address) : Option Nat :=
  fundingAddresses.findIdx? fun e => e = address

/-- The indexed boxes that inputs refer to, in the order of the inputs. -/
def spentBoxes (index : FundingIndex) (inputs : List TransactionInput) :
    List (Nat × FinalizedTxOut) :=
  inputs.filterMap fun i => index.get (OutputRef.ofInput i)

def extractFundingEvents (fundingAddresses : List Address) (skipSet : OutputRef)
    (index : FundingIndex) (tx : TxViewMut) :
    Except TxViewMut (List (Nat × FundingEvent) × TxViewMut) :=
  if tx.outputs.length = 0 then .error tx else
    let consumedUtxos := spentBoxes index tx.inputs
    let (producedUtxos, nonProcessed) := popOutputs (fun out producedUtxos =>
      (partitionByAddress fundingAddresses out.2.address).map fun part =>
        if tx.refOf out ≠ skipSet then producedUtxos ++ [(part, ⟨out.2, tx.refOf out⟩)]
        else producedUtxos) ([] : List (Nat × FinalizedTxOut)) tx.outputs
    let tx := { tx with outputs := nonProcessed }
    let events := (consumedUtxos.map fun (pt, utxo) => (pt, FundingEvent.consumed utxo)) ++
      producedUtxos.map fun (pt, utxo) => (pt, .produced utxo)
    if events.isEmpty then .error tx else .ok (events, tx)

def indexFundingEvent (now : Nat) (index : FundingIndex) : Nat × FundingEvent → FundingIndex
  | (_, .consumed consumed) => index.registerForEviction now consumed.reference
  | (part, .produced produced) => index.put produced.reference (part, produced)

def commitFunding {E : Type} (now : Nat) (parts : Walk Nat) (index : FundingIndex)
    (inverse : FundingEvent → FundingEvent) (back : TxViewMut → E) :
    Except TxViewMut (List (Nat × FundingEvent) × TxViewMut) →
      Handled FundingIndex (Nat × FundingEvent) E
  | .ok (events, tx) =>
    let events := events.map fun (pt, event) => (pt, inverse event)
    { index := events.foldl (indexFundingEvent now) (index.runEviction now)
      sent := batchSend parts events
      remainder := some (back tx) }
  | .error tx => { index := index, sent := [], remainder := some (back tx) }

/-- `EventHandler` for `FundingEventHandler`, of ledger and mempool events -/
def FundingEventHandler.tryHandle (now : Nat) (parts : Walk Nat) (fundingAddresses : List Address)
    (skipSet : OutputRef) (index : FundingIndex) :
    SinkEvent → Handled FundingIndex (Nat × FundingEvent) SinkEvent
  | .ledger (.txApplied tx slot blockNumber blockHash) =>
    commitFunding now parts index id
      (fun tx => .ledger (.txApplied tx slot blockNumber blockHash))
      (extractFundingEvents fundingAddresses skipSet index tx)
  | .ledger (.txUnapplied tx slot blockNumber blockHash) =>
    commitFunding now parts index .inverse
      (fun tx => .ledger (.txUnapplied tx slot blockNumber blockHash))
      (extractFundingEvents fundingAddresses skipSet index tx)
  | .mempool (.txAccepted tx) =>
    commitFunding now parts index id (fun tx => .mempool (.txAccepted tx))
      (extractFundingEvents fundingAddresses skipSet index tx)
  | .mempool (.txDropped tx) =>
    commitFunding now parts index .inverse (fun tx => .mempool (.txDropped tx))
      (extractFundingEvents fundingAddresses skipSet index tx)

/-! ### Chains of handlers -/

/-- A handler as it is when its turn comes, with what else decides its call. -/
inductive Turn : Type 1 where
  | pairUpdate (T : Type) [LedgerEntity T] [TryFromLedger T (StableId T)]
      (m : Moment (StableId T) (PairId T)) (index : InMemoryEntityIndex T)
  | specialized (O Pool K : Type) [LedgerEntity Pool] [SpecializedOrder O Pool] [TryFromLedger O K]
      (m : OrderMoment (TOrderId O Pool) (PairId Pool)) (poolIndex : InMemoryEntityIndex Pool)
      (index : InMemoryKvIndex (TOrderId O Pool) O)
  | funding (now : Nat) (parts : Walk Nat) (fundingAddresses : List Address) (skipSet : OutputRef)
      (index : FundingIndex)
  /-- Forwards whatever comes, and passes nothing on. -/
  | forwardWith

namespace Turn

def Message : Turn → Type
  | pairUpdate T _ _ => PairUpdate T
  | specialized O Pool _ _ _ _ => SpecialUpdate O Pool
  | funding _ _ _ _ _ => Nat × FundingEvent
  | forwardWith => SinkEvent

/-- `try_handle`: the messages sent, and the event if it is passed on. -/
def tryHandle (t : Turn) (ev : SinkEvent) : List t.Message × Option SinkEvent :=
  match t with
  | pairUpdate _ m index =>
    match ev with
    | .ledger ev =>
      let handled := PairUpdateHandler.tryHandleLedger m index ev
      (handled.sent, handled.remainder.map .ledger)
    | .mempool ev =>
      let handled := PairUpdateHandler.tryHandleMempool m index ev
      (handled.sent, handled.remainder.map .mempool)
  | specialized _ Pool K m poolIndex index =>
    let handled := SpecializedHandler.tryHandle Pool K m poolIndex index ev
    (handled.sent, handled.remainder)
  | funding now parts fundingAddresses skipSet index =>
    let handled := FundingEventHandler.tryHandle now parts fundingAddresses skipSet index ev
    (handled.sent, handled.remainder)
  | forwardWith => ([ev], none)

end Turn

/-- `process_events` for one event: the event as each handler of the chain gets it, if it does. -/
def processEvent : Option SinkEvent → List Turn → List (Turn × Option SinkEvent)
  | _, [] => []
  | unhandled, han :: hans =>
    (han, unhandled) :: processEvent (unhandled.bind fun ev => (han.tryHandle ev).2) hans

end UtxoMonitor.EventSink
