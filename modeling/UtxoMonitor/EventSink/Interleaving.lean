import UtxoMonitor.EventSink.Chain
import UtxoMonitor.Lib.Locks

/-! The handlers of several streams of events, which share their indexes: what each of them locks, in
which order, and how the streams may block each other. -/
namespace UtxoMonitor.EventSink.Interleaved

open Lib LiquidityBook Domain LockProg

/-! ### Shared indexes -/

/-- The indexes, each behind a lock of its own; `H` names the indexes of specialized orders. -/
inductive IndexLock (H : Type) where
  | funding
  | pools
  | orders (h : H)
deriving DecidableEq

inductive Message (O Pool H : Type) [LedgerEntity Pool] where
  | funding (part : Nat) (event : FundingEvent)
  | pair (upd : PairUpdate Pool)
  | special (h : H) (upd : SpecialUpdate O Pool)
  | event (ev : SinkEvent)

/-- The indexes, and what was sent to the topics. -/
structure Shared (O Pool H : Type) [LedgerEntity Pool] [SpecializedOrder O Pool] where
  funding : FundingIndex
  pools : InMemoryEntityIndex Pool
  orders : H → InMemoryKvIndex (TOrderId O Pool) O
  sent : List (Message O Pool H)

abbrev HandlerProg (O Pool H A : Type) [LedgerEntity Pool] [SpecializedOrder O Pool] : Type :=
  LockProg (IndexLock H) (Shared O Pool H) A

section Handlers

variable {O Pool H K A : Type} [LedgerEntity Pool] [SpecializedOrder O Pool]

/-- The loop over the inputs of a transaction, which locks an index for each of them. -/
def lookUp (l : IndexLock H) (find : Shared O Pool H → OutputRef → A → A) :
    List TransactionInput → A → HandlerProg O Pool H A
  | [], found => pure found
  | i :: inputs, found => do
    acquire l
    let found ← read fun shared => find shared (OutputRef.ofInput i) found
    release l
    lookUp l find inputs found

/-- Messages go to their topics one after the other. -/
def sendAll : List (Message O Pool H) → HandlerProg O Pool H Unit
  | [] => pure ()
  | message :: messages => do
    update fun shared => ((), { shared with sent := shared.sent ++ [message] })
    sendAll messages

/-- The event, of what is left of its transaction. -/
def carry (tx : TxViewMut) : SinkEvent → SinkEvent
  | .ledger (.txApplied _ slot blockNumber blockHash) =>
    .ledger (.txApplied tx slot blockNumber blockHash)
  | .ledger (.txUnapplied _ slot blockNumber blockHash) =>
    .ledger (.txUnapplied tx slot blockNumber blockHash)
  | .mempool (.txAccepted _) => .mempool (.txAccepted tx)
  | .mempool (.txDropped _) => .mempool (.txDropped tx)

/-- A block is taken back. -/
def Unapplies : SinkEvent → Bool
  | .ledger (.txUnapplied _ _ _ _) => true
  | _ => false

/-! ### Entities -/

section Continuous

variable [TryFromLedger Pool (StableId Pool)]

def findEntity (shared : Shared O Pool H) (oref : OutputRef)
    (consumed : AList fun _ : StableId Pool => Pool) : AList fun _ : StableId Pool => Pool :=
  let stateId := versionOf oref
  if shared.pools.exists_ stateId then
    match shared.pools.getState stateId with
    | some entity => consumed.insert (stableId entity) entity
    | none => consumed
  else consumed

/-- What a transaction that consumes these entities does. -/
def continuousTransitions (m : Moment (StableId Pool) (PairId Pool))
    (consumed : AList fun _ : StableId Pool => Pool) (tx : TxViewMut) :
    Except TxViewMut (List (Ior Pool Pool) × TxViewMut) :=
  let (produced, nonProcessed) := popOutputs (fun out produced =>
    (tryFromLedger out.2 ({
      outputRef := tx.refOf out
      consumedUtxos := .new tx.consumedUtxos
      consumedIdentifiers := .new (m.consumed.order consumed.keys)
      producedIdentifiers := .new (m.produced.order produced.keys)
      addedPaymentDestinations := tx.addedDestinations
      mints := tx.mints } : EventContext (StableId Pool))).map fun entity =>
        produced.insert (stableId entity) entity)
    (∅ : AList fun _ : StableId Pool => Pool) tx.outputs
  let tx := { tx with outputs := nonProcessed }
  let keys := m.recognised.order (consumed.keys ++ produced.keys).dedup
  let transitions := keys.filterMap fun k => Ior.tryFrom (consumed.lookup k) (produced.lookup k)
  if transitions.isEmpty then .error tx else .ok (transitions, tx)

def extractContinuousTransitions (m : Moment (StableId Pool) (PairId Pool)) (tx : TxViewMut) :
    HandlerProg O Pool H (Except TxViewMut (List (Ior Pool Pool) × TxViewMut)) :=
  if tx.outputs.length = 0 then pure (.error tx) else do
    let consumed ← lookUp .pools findEntity tx.inputs ∅
    pure (continuousTransitions m consumed tx)

/-- What the handler makes of the transitions it found. -/
def commitContinuous (m : Moment (StableId Pool) (PairId Pool)) (index : InMemoryEntityIndex Pool)
    (found : Except TxViewMut (List (Ior Pool Pool) × TxViewMut)) :
    SinkEvent → Handled (InMemoryEntityIndex Pool) (PairUpdate Pool) SinkEvent
  | .ledger (.txApplied _ slot blockNumber blockHash) =>
    commitTransitions m index id
      (fun tr => (pairIdOf tr, .ledger (.forward tr) ⟨blockHash, slot⟩))
      (fun tx => .ledger (.txApplied tx slot blockNumber blockHash)) found
  | .ledger (.txUnapplied _ slot blockNumber blockHash) =>
    commitTransitions m index Ior.swap
      (fun tr => (pairIdOf tr.swap, .ledger (.backward tr.swap) ⟨blockHash, slot⟩))
      (fun tx => .ledger (.txUnapplied tx slot blockNumber blockHash)) found
  | .mempool (.txAccepted _) =>
    commitTransitions m index id (fun tr => (pairIdOf tr, .mempool (.forward tr)))
      (fun tx => .mempool (.txAccepted tx)) found
  | .mempool (.txDropped _) =>
    commitTransitions m index id (fun tr => (pairIdOf tr.swap, .mempool (.backward tr.swap)))
      (fun tx => .mempool (.txDropped tx)) found

def PairUpdateHandler.tryHandle (m : Moment (StableId Pool) (PairId Pool)) (ev : SinkEvent) :
    HandlerProg O Pool H (Option SinkEvent) := do
  match ← extractContinuousTransitions m ev.tx with
  | .ok found =>
    acquire .pools
    let handled ← update fun shared =>
      let handled := commitContinuous m shared.pools (.ok found) ev
      (handled, { shared with pools := handled.index })
    release .pools
    sendAll (handled.sent.map .pair)
    pure handled.remainder
  | .error tx => pure (some (carry tx ev))

end Continuous

/-! ### Specialized orders -/

section Specialized

def findOrder (h : H) (shared : Shared O Pool H) (oref : OutputRef)
    (consumed : AList fun _ : TOrderId O Pool => O) : AList fun _ : TOrderId O Pool => O :=
  match (shared.orders h).get (orderIdOf O Pool oref) with
  | some order => consumed.insert (getSelfRef Pool order) order
  | none => consumed

variable (K) [TryFromLedger O K]

/-- What a transaction that consumes these orders does. -/
def atomicTransitions (m : OrderMoment (TOrderId O Pool) (PairId Pool))
    (consumed : AList fun _ : TOrderId O Pool => O) (tx : TxViewMut) :
    Except TxViewMut (List (O ⊕ O) × TxViewMut) :=
  let (produced, nonProcessed) := popOutputs (fun out produced =>
    (readOrder (K := K) tx out).map fun order => produced.insert (getSelfRef Pool order) order)
    (∅ : AList fun _ : TOrderId O Pool => O) tx.outputs
  let tx := { tx with outputs := nonProcessed }
  let keys := m.recognised.order (consumed.keys ++ produced.keys).dedup
  let transitions := keys.filterMap fun k =>
    match consumed.lookup k, produced.lookup k with
    | some consumed, _ => some (.inl consumed)
    | none, some produced => some (.inr produced)
    | none, none => none
  if transitions.isEmpty then .error tx else .ok (transitions, tx)

def extractAtomicTransitions (h : H) (m : OrderMoment (TOrderId O Pool) (PairId Pool))
    (tx : TxViewMut) : HandlerProg O Pool H (Except TxViewMut (List (O ⊕ O) × TxViewMut)) :=
  if tx.outputs.length = 0 then pure (.error tx) else do
    let consumed ← lookUp (.orders h) (findOrder h) tx.inputs ∅
    pure (atomicTransitions K m consumed tx)

omit [TryFromLedger O K] in
/-- What the handler makes of the transitions it found. -/
def commitAtomic (m : OrderMoment (TOrderId O Pool) (PairId Pool))
    (poolIndex : InMemoryEntityIndex Pool) (index : InMemoryKvIndex (TOrderId O Pool) O)
    (found : Except TxViewMut (List (O ⊕ O) × TxViewMut)) :
    SinkEvent → Handled (InMemoryKvIndex (TOrderId O Pool) O) (SpecialUpdate O Pool) SinkEvent
  | .ledger (.txApplied _ slot blockNumber blockHash) =>
    EventSink.commitAtomic Pool m poolIndex index id (.ledger · ⟨blockHash, slot⟩)
      (fun tx => .ledger (.txApplied tx slot blockNumber blockHash)) found
  | .ledger (.txUnapplied _ slot blockNumber blockHash) =>
    EventSink.commitAtomic Pool m poolIndex index Sum.swap (.ledger · ⟨blockHash, slot⟩)
      (fun tx => .ledger (.txUnapplied tx slot blockNumber blockHash)) found
  | .mempool (.txAccepted _) =>
    EventSink.commitAtomic Pool m poolIndex index id .mempool (fun tx => .mempool (.txAccepted tx))
      found
  | .mempool (.txDropped _) =>
    EventSink.commitAtomic Pool m poolIndex index Sum.swap .mempool
      (fun tx => .mempool (.txDropped tx)) found

omit [TryFromLedger O K] in
/-- Both indexes are locked, in an order that depends on the event. -/
def lockBoth (h : H) : SinkEvent → HandlerProg O Pool H Unit
  | .ledger (.txUnapplied _ _ _ _) => do
    acquire (.orders h)
    acquire .pools
  | _ => do
    acquire .pools
    acquire (.orders h)

omit [TryFromLedger O K] in
/-- Guards are dropped in the reverse order. -/
def unlockBoth (h : H) : SinkEvent → HandlerProg O Pool H Unit
  | .ledger (.txUnapplied _ _ _ _) => do
    release .pools
    release (.orders h)
  | _ => do
    release (.orders h)
    release .pools

variable [DecidableEq H]

def SpecializedHandler.tryHandle (h : H) (m : OrderMoment (TOrderId O Pool) (PairId Pool))
    (ev : SinkEvent) : HandlerProg O Pool H (Option SinkEvent) := do
  match ← extractAtomicTransitions K h m ev.tx with
  | .ok found =>
    lockBoth h ev
    let handled ← update fun shared =>
      let handled := commitAtomic m shared.pools (shared.orders h) (.ok found) ev
      (handled, { shared with orders := Function.update shared.orders h handled.index })
    unlockBoth h ev
    sendAll (handled.sent.map (.special h))
    pure handled.remainder
  | .error tx => pure (some (carry tx ev))

end Specialized

/-! ### Funding boxes -/

section Funding

def findBox (shared : Shared O Pool H) (oref : OutputRef) (consumed : List (Nat × FinalizedTxOut)) :
    List (Nat × FinalizedTxOut) :=
  match shared.funding.get oref with
  | some utxo => consumed ++ [utxo]
  | none => consumed

/-- What a transaction that consumes these boxes does. -/
def fundingEvents (fundingAddresses : List Address) (skipSet : OutputRef)
    (consumedUtxos : List (Nat × FinalizedTxOut)) (tx : TxViewMut) :
    Except TxViewMut (List (Nat × FundingEvent) × TxViewMut) :=
  let (producedUtxos, nonProcessed) := popOutputs (fun out producedUtxos =>
    (partitionByAddress fundingAddresses out.2.address).map fun part =>
      if tx.refOf out ≠ skipSet then producedUtxos ++ [(part, ⟨out.2, tx.refOf out⟩)]
      else producedUtxos) ([] : List (Nat × FinalizedTxOut)) tx.outputs
  let tx := { tx with outputs := nonProcessed }
  let events := (consumedUtxos.map fun (pt, utxo) => (pt, FundingEvent.consumed utxo)) ++
    producedUtxos.map fun (pt, utxo) => (pt, .produced utxo)
  if events.isEmpty then .error tx else .ok (events, tx)

def extractFundingEvents (fundingAddresses : List Address) (skipSet : OutputRef) (tx : TxViewMut) :
    HandlerProg O Pool H (Except TxViewMut (List (Nat × FundingEvent) × TxViewMut)) :=
  if tx.outputs.length = 0 then pure (.error tx) else do
    let consumedUtxos ← lookUp .funding findBox tx.inputs []
    pure (fundingEvents fundingAddresses skipSet consumedUtxos tx)

/-- What the handler makes of the events it found. -/
def commitFunding (now : Nat) (parts : Walk Nat) (index : FundingIndex)
    (found : Except TxViewMut (List (Nat × FundingEvent) × TxViewMut)) :
    SinkEvent → Handled FundingIndex (Nat × FundingEvent) SinkEvent
  | .ledger (.txApplied _ slot blockNumber blockHash) =>
    EventSink.commitFunding now parts index id
      (fun tx => .ledger (.txApplied tx slot blockNumber blockHash)) found
  | .ledger (.txUnapplied _ slot blockNumber blockHash) =>
    EventSink.commitFunding now parts index .inverse
      (fun tx => .ledger (.txUnapplied tx slot blockNumber blockHash)) found
  | .mempool (.txAccepted _) =>
    EventSink.commitFunding now parts index id (fun tx => .mempool (.txAccepted tx)) found
  | .mempool (.txDropped _) =>
    EventSink.commitFunding now parts index .inverse (fun tx => .mempool (.txDropped tx)) found

def FundingEventHandler.tryHandle (now : Nat) (parts : Walk Nat) (fundingAddresses : List Address)
    (skipSet : OutputRef) (ev : SinkEvent) : HandlerProg O Pool H (Option SinkEvent) := do
  match ← extractFundingEvents fundingAddresses skipSet ev.tx with
  | .ok found =>
    acquire .funding
    let handled ← update fun shared =>
      let handled := commitFunding now parts shared.funding (.ok found) ev
      (handled, { shared with funding := handled.index })
    release .funding
    sendAll (handled.sent.map fun (part, event) => .funding part event)
    pure handled.remainder
  | .error tx => pure (some (carry tx ev))

end Funding

/-! ### Chains of handlers -/

/-- The handlers, of which each stream has clones. -/
inductive Handler (H : Type) where
  | funding (fundingAddresses : List Address) (skipSet : OutputRef)
  | pairUpdate
  | specialized (h : H)
  | forwardWith

/-- What decides how an event is handled, beside the indexes. -/
structure Moments (O Pool H : Type) [LedgerEntity Pool] [SpecializedOrder O Pool] where
  pairs : Moment (StableId Pool) (PairId Pool)
  orders : H → OrderMoment (TOrderId O Pool) (PairId Pool)
  parts : Walk Nat

section Chains

variable (K) [TryFromLedger Pool (StableId Pool)] [TryFromLedger O K] [DecidableEq H]

def Handler.tryHandle (m : Moments O Pool H) (ev : SinkEvent) :
    Handler H → HandlerProg O Pool H (Option SinkEvent)
  | .funding fundingAddresses skipSet =>
    FundingEventHandler.tryHandle m.pairs.now m.parts fundingAddresses skipSet ev
  | .pairUpdate => PairUpdateHandler.tryHandle m.pairs ev
  | .specialized h => SpecializedHandler.tryHandle K h (m.orders h) ev
  | .forwardWith => do
    sendAll [.event ev]
    pure none

/-- Apply handlers one by one until the event is handled. -/
def processEvent (m : Moments O Pool H) : List (Handler H) → SinkEvent → HandlerProg O Pool H Unit
  | [], _ => pure ()
  | han :: hans, ev => do
    match ← han.tryHandle K m ev with
    | some ev => processEvent m hans ev
    | none => pure ()

/-- A stream of events goes through its handlers, one event after the other. -/
def processEvents (hans : List (Handler H)) :
    List (SinkEvent × Moments O Pool H) → HandlerProg O Pool H Unit
  | [] => pure ()
  | (ev, m) :: evs => do
    processEvent K m hans ev
    processEvents hans evs

end Chains

/-! ### A handler that is left alone -/

section Alone

variable {shared : Shared O Pool H} {ev : SinkEvent}

@[simp] theorem run_lookUp (l : IndexLock H) (find : Shared O Pool H → OutputRef → A → A)
    (inputs : List TransactionInput) (found : A) :
    (lookUp l find inputs found).run shared =
      (inputs.foldl (fun found i => find shared (OutputRef.ofInput i) found) found, shared) := by
  induction inputs generalizing found with
  | nil => rfl
  | cons i inputs ih => simp [lookUp, ih]

@[simp] theorem run_sendAll (messages : List (Message O Pool H)) :
    (sendAll messages).run shared = ((), { shared with sent := shared.sent ++ messages }) := by
  induction messages generalizing shared with
  | nil => simp [sendAll]
  | cons message messages ih => simp [sendAll, ih]

section Continuous

variable [TryFromLedger Pool (StableId Pool)] (m : Moment (StableId Pool) (PairId Pool))

theorem run_extractContinuousTransitions (tx : TxViewMut) :
    (extractContinuousTransitions m tx : HandlerProg O Pool H _).run shared =
      (EventSink.extractContinuousTransitions m shared.pools tx, shared) := by
  rw [extractContinuousTransitions, EventSink.extractContinuousTransitions]
  split
  · rfl
  · simp only [bind_eq, run_bind, run_lookUp]
    rfl

omit [TryFromLedger Pool (StableId Pool)] in
theorem carry_eq_of_error (index : InMemoryEntityIndex Pool) (tx : TxViewMut) :
    commitContinuous m index (.error tx) ev = ⟨index, [], some (carry tx ev)⟩ := by
  rcases ev with (_ | _) | (_ | _) <;> rfl

theorem commitContinuous_ledger (index : InMemoryEntityIndex Pool) (ev : LedgerTxEvent TxViewMut) :
    let handled := EventSink.PairUpdateHandler.tryHandleLedger m index ev
    commitContinuous m index (EventSink.extractContinuousTransitions m index (SinkEvent.ledger ev).tx)
      (.ledger ev) = ⟨handled.index, handled.sent, handled.remainder.map .ledger⟩ := by
  cases ev with
  | txApplied tx slot blockNumber blockHash =>
    simp only [commitContinuous, EventSink.PairUpdateHandler.tryHandleLedger, SinkEvent.tx]
    cases EventSink.extractContinuousTransitions m index tx <;> rfl
  | txUnapplied tx slot blockNumber blockHash =>
    simp only [commitContinuous, EventSink.PairUpdateHandler.tryHandleLedger, SinkEvent.tx]
    cases EventSink.extractContinuousTransitions m index tx <;> rfl

theorem commitContinuous_mempool (index : InMemoryEntityIndex Pool) (ev : MempoolUpdate TxViewMut) :
    let handled := EventSink.PairUpdateHandler.tryHandleMempool m index ev
    commitContinuous m index
      (EventSink.extractContinuousTransitions m index (SinkEvent.mempool ev).tx) (.mempool ev) =
        ⟨handled.index, handled.sent, handled.remainder.map .mempool⟩ := by
  cases ev with
  | txAccepted tx =>
    simp only [commitContinuous, EventSink.PairUpdateHandler.tryHandleMempool, SinkEvent.tx]
    cases EventSink.extractContinuousTransitions m index tx <;> rfl
  | txDropped tx =>
    simp only [commitContinuous, EventSink.PairUpdateHandler.tryHandleMempool, SinkEvent.tx]
    cases EventSink.extractContinuousTransitions m index tx <;> rfl

/-- What the handler of entities does alone is what it does at once. -/
theorem PairUpdateHandler.run_tryHandle :
    let handled := commitContinuous m shared.pools
      (EventSink.extractContinuousTransitions m shared.pools ev.tx) ev
    (PairUpdateHandler.tryHandle m ev).run shared = (handled.remainder,
      { shared with pools := handled.index, sent := shared.sent ++ handled.sent.map .pair }) := by
  simp only [PairUpdateHandler.tryHandle, bind_eq, run_bind, run_extractContinuousTransitions]
  cases EventSink.extractContinuousTransitions m shared.pools ev.tx with
  | ok found => simp
  | error tx => simp [carry_eq_of_error]

end Continuous

section Specialized

variable (K) [TryFromLedger O K] (m : OrderMoment (TOrderId O Pool) (PairId Pool)) (h : H)

omit [TryFromLedger O K] in
theorem foldl_findOrder (inputs : List TransactionInput)
    (consumed : AList fun _ : TOrderId O Pool => O) :
    inputs.foldl (fun found i => findOrder h shared (OutputRef.ofInput i) found) consumed =
      (spentOrders Pool (shared.orders h) inputs).foldl
        (fun collected v => collected.insert (getSelfRef Pool v) v) consumed := by
  rw [spentOrders, List.foldl_filterMap]
  rfl

theorem run_extractAtomicTransitions (tx : TxViewMut) :
    (extractAtomicTransitions K h m tx).run shared =
      (EventSink.extractAtomicTransitions Pool K m (shared.orders h) tx, shared) := by
  rw [extractAtomicTransitions, EventSink.extractAtomicTransitions]
  split
  · rfl
  · simp only [bind_eq, run_bind, run_lookUp, foldl_findOrder]
    rfl

omit [TryFromLedger O K] in
theorem carry_eq_of_atomic_error (poolIndex : InMemoryEntityIndex Pool)
    (index : InMemoryKvIndex (TOrderId O Pool) O) (tx : TxViewMut) :
    commitAtomic m poolIndex index (.error tx) ev = ⟨index, [], some (carry tx ev)⟩ := by
  rcases ev with (_ | _) | (_ | _) <;> rfl

omit [TryFromLedger O K] in
@[simp] theorem run_lockBoth : (lockBoth h ev : HandlerProg O Pool H Unit).run shared = ((), shared) := by
  rcases ev with (_ | _) | (_ | _) <;> rfl

omit [TryFromLedger O K] in
@[simp] theorem run_unlockBoth :
    (unlockBoth h ev : HandlerProg O Pool H Unit).run shared = ((), shared) := by
  rcases ev with (_ | _) | (_ | _) <;> rfl

variable [DecidableEq H]

/-- What the handler of specialized orders does alone is what it does at once. -/
theorem SpecializedHandler.run_tryHandle :
    let handled := EventSink.SpecializedHandler.tryHandle Pool K m shared.pools (shared.orders h) ev
    (SpecializedHandler.tryHandle K h m ev).run shared = (handled.remainder,
      { shared with
        orders := Function.update shared.orders h handled.index
        sent := shared.sent ++ handled.sent.map (.special h) }) := by
  have hatomic : EventSink.SpecializedHandler.tryHandle Pool K m shared.pools (shared.orders h) ev =
      commitAtomic m shared.pools (shared.orders h)
        (EventSink.extractAtomicTransitions Pool K m (shared.orders h) ev.tx) ev := by
    rcases ev with (_ | _) | (_ | _) <;> rfl
  simp only [SpecializedHandler.tryHandle, bind_eq, run_bind, run_extractAtomicTransitions, hatomic]
  cases EventSink.extractAtomicTransitions Pool K m (shared.orders h) ev.tx with
  | ok found => simp
  | error tx => simp [carry_eq_of_atomic_error]

end Specialized

section Funding

variable (now : Nat) (parts : Walk Nat) (fundingAddresses : List Address) (skipSet : OutputRef)

theorem foldl_findBox (inputs : List TransactionInput) (consumed : List (Nat × FinalizedTxOut)) :
    inputs.foldl (fun found i => findBox shared (OutputRef.ofInput i) found) consumed =
      consumed ++ spentBoxes shared.funding inputs := by
  induction inputs generalizing consumed with
  | nil => simp [spentBoxes]
  | cons i inputs ih =>
    rw [List.foldl_cons, ih, findBox, spentBoxes, spentBoxes, List.filterMap_cons]
    cases shared.funding.get (OutputRef.ofInput i) <;> simp

theorem run_extractFundingEvents (tx : TxViewMut) :
    (extractFundingEvents fundingAddresses skipSet tx : HandlerProg O Pool H _).run shared =
      (EventSink.extractFundingEvents fundingAddresses skipSet shared.funding tx, shared) := by
  rw [extractFundingEvents, EventSink.extractFundingEvents]
  split
  · rfl
  · simp only [bind_eq, run_bind, run_lookUp, foldl_findBox, List.nil_append]
    rfl

theorem carry_eq_of_funding_error (index : FundingIndex) (tx : TxViewMut) :
    commitFunding now parts index (.error tx) ev = ⟨index, [], some (carry tx ev)⟩ := by
  rcases ev with (_ | _) | (_ | _) <;> rfl

/-- What the handler of funding boxes does alone is what it does at once. -/
theorem FundingEventHandler.run_tryHandle :
    let handled := EventSink.FundingEventHandler.tryHandle now parts fundingAddresses skipSet
      shared.funding ev
    (FundingEventHandler.tryHandle now parts fundingAddresses skipSet ev).run shared =
      (handled.remainder,
        { shared with
          funding := handled.index
          sent := shared.sent ++ handled.sent.map fun (part, event) => .funding part event }) := by
  have hatomic : EventSink.FundingEventHandler.tryHandle now parts fundingAddresses skipSet
      shared.funding ev = commitFunding now parts shared.funding
        (EventSink.extractFundingEvents fundingAddresses skipSet shared.funding ev.tx) ev := by
    rcases ev with (_ | _) | (_ | _) <;> rfl
  simp only [FundingEventHandler.tryHandle, bind_eq, run_bind, run_extractFundingEvents, hatomic]
  cases EventSink.extractFundingEvents fundingAddresses skipSet shared.funding ev.tx with
  | ok found => simp
  | error tx => simp [carry_eq_of_funding_error]

end Funding

end Alone

/-! ### In which order the indexes are locked -/

/-- Besides one index alone, a handler locks the index of pools and one of orders, and only when it takes
a block back the orders first. -/
def Allowed (undoes : Bool) (held : List (IndexLock H)) (l : IndexLock H) : Prop :=
  held = [] ∨ (held = [.pools] ∧ ∃ h, l = .orders h) ∨
    (undoes = true ∧ l = .pools ∧ ∃ h, held = [.orders h])

section Discipline

variable [DecidableEq H] {undoes : Bool} {ev : SinkEvent}

omit [DecidableEq H] in
theorem not_mem_of_allowed (held : List (IndexLock H)) (l : IndexLock H)
    (h : Allowed undoes held l) : l ∉ held := by
  rcases h with rfl | ⟨rfl, h, rfl⟩ | ⟨-, rfl, h, rfl⟩
  · exact List.not_mem_nil
  · simp
  · simp

theorem keeps_lookUp (l : IndexLock H) (find : Shared O Pool H → OutputRef → A → A)
    (inputs : List TransactionInput) (found : A) :
    Keeps (Allowed undoes) (fun _ held => held = []) (lookUp l find inputs found) [] := by
  induction inputs generalizing found with
  | nil => rfl
  | cons i inputs ih =>
    refine ⟨.inl rfl, fun shared => ⟨List.mem_singleton_self l, ?_⟩⟩
    rw [List.erase_cons_head]
    exact ih _

theorem keeps_sendAll (messages : List (Message O Pool H)) :
    Keeps (Allowed undoes) (fun _ held => held = []) (sendAll messages) [] := by
  induction messages with
  | nil => rfl
  | cons message messages ih => exact fun _ => ih

theorem keeps_lockBoth (h : H) (hundoes : Unapplies ev = true → undoes = true) :
    Keeps (Allowed undoes)
      (fun _ held => held = if Unapplies ev then [.pools, .orders h] else [.orders h, .pools])
      (lockBoth h ev : HandlerProg O Pool H Unit) [] := by
  rcases ev with (_ | _) | (_ | _)
  · exact ⟨.inl rfl, .inr (.inl ⟨rfl, h, rfl⟩), rfl⟩
  · exact ⟨.inl rfl, .inr (.inr ⟨hundoes rfl, rfl, h, rfl⟩), rfl⟩
  · exact ⟨.inl rfl, .inr (.inl ⟨rfl, h, rfl⟩), rfl⟩
  · exact ⟨.inl rfl, .inr (.inl ⟨rfl, h, rfl⟩), rfl⟩

theorem keeps_unlockBoth (h : H) : Keeps (Allowed undoes) (fun _ held => held = [])
    (unlockBoth h ev : HandlerProg O Pool H Unit)
    (if Unapplies ev then [.pools, .orders h] else [.orders h, .pools]) := by
  rcases ev with (_ | _) | (_ | _)
  · exact keeps_release_both
  · exact keeps_release_both
  · exact keeps_release_both
  · exact keeps_release_both

/-- What is passed on of an event, with nothing locked. -/
def PassedOn (ev : SinkEvent) (remainder : Option SinkEvent) (held : List (IndexLock H)) : Prop :=
  held = [] ∧ ∀ ev' ∈ remainder, Unapplies ev' = Unapplies ev

/-- A handler that found something locks, changes the indexes, unlocks and sends. -/
theorem keeps_commit {locked : List (IndexLock H)} {lockAll unlockAll : HandlerProg O Pool H Unit}
    {I M : Type} (commit : Shared O Pool H → Handled I M SinkEvent × Shared O Pool H)
    (message : M → Message O Pool H)
    (hlock : Keeps (Allowed undoes) (fun _ held => held = locked) lockAll [])
    (hunlock : Keeps (Allowed undoes) (fun _ held => held = []) unlockAll locked)
    (hpassed : ∀ shared, ∀ ev' ∈ (commit shared).1.remainder, Unapplies ev' = Unapplies ev) :
    Keeps (Allowed undoes) (PassedOn ev) (do
      lockAll
      let handled ← update commit
      unlockAll
      sendAll (handled.sent.map message)
      pure handled.remainder) [] := by
  refine hlock.bind ?_
  rintro - _ rfl shared
  refine hunlock.bind ?_
  rintro - _ rfl
  refine (keeps_sendAll _).bind ?_
  rintro - _ rfl
  exact ⟨rfl, hpassed shared⟩

theorem keeps_extract {found : A → HandlerProg O Pool H (Option SinkEvent)} {extract : TxViewMut → Bool}
    : True := trivial

end Discipline

end Handlers

end UtxoMonitor.EventSink.Interleaved
