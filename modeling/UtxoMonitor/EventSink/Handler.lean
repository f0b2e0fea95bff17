import UtxoMonitor.EventSink.Index
import UtxoMonitor.Handler.TxHandler
import UtxoMonitor.Pools.Ledger

/-! The handler that follows entities of one kind: what it reads of a transaction, remembers, and
sends on. -/
namespace UtxoMonitor.EventSink

open Lib LiquidityBook Domain

/-! ### Transactions as the handlers see them -/

/-- A Tx being processed. Its outputs may be partially consumed in the process, its hash stays. -/
structure TxViewMut where
  hash : TransactionHash
  inputs : List TransactionInput
  /-- Indexed outputs -/
  outputs : List (UInt64 × Pools.TransactionOutput)
  mints : Option (SmallVec Token)
  signers : List Ed25519KeyHash

structure EventContext (K : Type) where
  outputRef : OutputRef
  consumedUtxos : SmallVec OutputRef
  consumedIdentifiers : SmallVec K
  producedIdentifiers : SmallVec K
  addedPaymentDestinations : SmallVec Ed25519KeyHash
  mints : Option (SmallVec Token)

/-- How entities are read from outputs, in contexts that identify entities by `K`. -/
class TryFromLedger (T K : Type) where
  tryFromLedger : Pools.TransactionOutput → EventContext K → Option T

export TryFromLedger (tryFromLedger)

structure LedgerCx where
  blockHash : BlockHeaderHash
  slot : Slot
deriving DecidableEq

/-- The order in which the keys of a hash map are walked, which their insertion does not fix. -/
structure Walk (K : Type) where
  order : List K → List K
  perm : ∀ ks, (order ks).Perm ks

instance {K : Type} : Inhabited (Walk K) := ⟨⟨id, List.Perm.refl⟩⟩

/-- What else decides how an event is handled: the time, and how the maps of the call are walked. -/
structure Moment (K P : Type) where
  now : Nat
  consumed : Walk K
  produced : Walk K
  recognised : Walk K
  pairs : Walk P

namespace TxViewMut

variable (tx : TxViewMut)

def addedDestinations : SmallVec Ed25519KeyHash :=
  .new <| tx.outputs.filterMap fun (_, o) =>
    match o.address with
    | .base (.pubKey hash) _ => if hash ∈ tx.signers then none else some hash
    | .enterprise (.pubKey hash) => if hash ∈ tx.signers then none else some hash
    | _ => none

def consumedUtxos : List OutputRef := tx.inputs.map OutputRef.ofInput

def refOf (out : UInt64 × Pools.TransactionOutput) : OutputRef := ⟨tx.hash, out.1⟩

end TxViewMut

/-- The loop over the outputs of a transaction, from the last one: those that are read change the
state of the loop, the others are left in their order. -/
def popOutputs {S : Type} (read : UInt64 × Pools.TransactionOutput → S → Option S) (init : S)
    (outputs : List (UInt64 × Pools.TransactionOutput)) :
    S × List (UInt64 × Pools.TransactionOutput) :=
  outputs.foldr (fun out (s, nonProcessed) =>
    match read out s with
    | some s => (s, nonProcessed)
    | none => (s, out :: nonProcessed)) (init, [])

/-- The updates of each pair are sent one after the other, the pairs in whatever order. -/
def batchSend {P M : Type} [DecidableEq P] (walk : Walk P) (updates : List (P × M)) :
    List (P × M) :=
  (walk.order (updates.map Prod.fst).dedup).flatMap fun pair =>
    updates.filter fun upd => upd.1 = pair

/-! ### Events of two sources -/

inductive Source where
  | ledger
  | mempool
deriving DecidableEq

/-- An event of either source. -/
inductive SinkEvent where
  | ledger (ev : LedgerTxEvent TxViewMut)
  | mempool (ev : MempoolUpdate TxViewMut)

namespace SinkEvent

def source : SinkEvent → Source
  | ledger _ => .ledger
  | mempool _ => .mempool

def tx : SinkEvent → TxViewMut
  | ledger (.txApplied tx _ _ _) => tx
  | ledger (.txUnapplied tx _ _ _) => tx
  | mempool (.txAccepted tx) => tx
  | mempool (.txDropped tx) => tx

/-- The transaction is taken back. -/
def undoes : SinkEvent → Bool
  | ledger (.txApplied _ _ _ _) => false
  | ledger (.txUnapplied _ _ _ _) => true
  | mempool (.txAccepted _) => false
  | mempool (.txDropped _) => true

end SinkEvent

/-! ### Transitions of entities -/

section Continuous

variable {T : Type} [LedgerEntity T] [TryFromLedger T (StableId T)]

omit [TryFromLedger T (StableId T)] in
/-- The indexed entities that a transaction spends. -/
def consumedEntities (index : InMemoryEntityIndex T) (inputs : List TransactionInput) :
    AList fun _ : StableId T => T :=
  inputs.foldl (fun consumed i =>
    let stateId := versionOf (OutputRef.ofInput i)
    if index.exists_ stateId then
      match index.getState stateId with
      | some entity => consumed.insert (stableId entity) entity
      | none => consumed
    else consumed) ∅

/-- The context in which an output is read, when some entities have been read already. -/
def eventContext (m : Moment (StableId T) (PairId T)) (index : InMemoryEntityIndex T)
    (tx : TxViewMut) (out : UInt64 × Pools.TransactionOutput)
    (produced : AList fun _ : StableId T => T) : EventContext (StableId T) where
  outputRef := tx.refOf out
  consumedUtxos := .new tx.consumedUtxos
  consumedIdentifiers := .new (m.consumed.order (consumedEntities index tx.inputs).keys)
  producedIdentifiers := .new (m.produced.order produced.keys)
  addedPaymentDestinations := tx.addedDestinations
  mints := tx.mints

def readEntity (m : Moment (StableId T) (PairId T)) (index : InMemoryEntityIndex T)
    (tx : TxViewMut) (out : UInt64 × Pools.TransactionOutput)
    (produced : AList fun _ : StableId T => T) : Option T :=
  tryFromLedger out.2 (eventContext m index tx out produced)

/-- The entities that a transaction produces, and the outputs that are none. -/
def producedEntities (m : Moment (StableId T) (PairId T)) (index : InMemoryEntityIndex T)
    (tx : TxViewMut) :
    (AList fun _ : StableId T => T) × List (UInt64 × Pools.TransactionOutput) :=
  popOutputs (fun out produced =>
    (readEntity m index tx out produced).map fun entity =>
      produced.insert (stableId entity) entity) ∅ tx.outputs

def extractContinuousTransitions (m : Moment (StableId T) (PairId T))
    (index : InMemoryEntityIndex T) (tx : TxViewMut) :
    Except TxViewMut (List (Ior T T) × TxViewMut) :=
  if tx.outputs.length = 0 then .error tx else
    let consumed := consumedEntities index tx.inputs
    let (produced, nonProcessed) := producedEntities m index tx
    -- Preserve non-processed outputs in original ordering.
    let tx := { tx with outputs := nonProcessed }
    let keys := m.recognised.order (consumed.keys ++ produced.keys).dedup
    let transitions := keys.filterMap fun k => Ior.tryFrom (consumed.lookup k) (produced.lookup k)
    if transitions.isEmpty then .error tx else .ok (transitions, tx)

def pairIdOf : Ior T T → PairId T
  | .left o => pairId o
  | .right o => pairId o
  | .both o _ => pairId o

def indexTransition (now : Nat) (index : InMemoryEntityIndex T) :
    Ior T T → InMemoryEntityIndex T
  | .left consumed => index.registerForEviction now (version consumed)
  | .right produced => index.putState produced
  | .both consumed produced =>
    (index.registerForEviction now (version consumed)).putState produced

/-- What comes of an event: the index, the messages sent, and the event if it is passed on. -/
structure Handled (I M E : Type) where
  index : I
  sent : List M
  remainder : Option E

/-- A message about the pair it is sent for. -/
abbrev PairUpdate (T : Type) [Tradable T] := PairId T × Channel (Transition T) LedgerCx

/-- Each transition found is indexed as `indexed` has it and sent on as `upd` has it. -/
def commitTransitions {E : Type} (m : Moment (StableId T) (PairId T))
    (index : InMemoryEntityIndex T) (indexed : Ior T T → Ior T T) (upd : Ior T T → PairUpdate T)
    (back : TxViewMut → E) :
    Except TxViewMut (List (Ior T T) × TxViewMut) → Handled (InMemoryEntityIndex T) (PairUpdate T) E
  | .ok (transitions, tx) => {
      index := (transitions.map indexed).foldl (indexTransition m.now) (index.runEviction m.now)
      sent := batchSend m.pairs (transitions.map upd)
      remainder := some (back tx) }
  | .error tx => { index := index, sent := [], remainder := some (back tx) }

/-- `EventHandler<LedgerTxEvent>` for `PairUpdateHandler` -/
def PairUpdateHandler.tryHandleLedger (m : Moment (StableId T) (PairId T))
    (index : InMemoryEntityIndex T) : LedgerTxEvent TxViewMut →
    Handled (InMemoryEntityIndex T) (PairUpdate T) (LedgerTxEvent TxViewMut)
  | .txApplied tx slot blockNumber blockHash =>
    commitTransitions m index id
      (fun tr => (pairIdOf tr, .ledger (.forward tr) ⟨blockHash, slot⟩))
      (fun tx => .txApplied tx slot blockNumber blockHash)
      (extractContinuousTransitions m index tx)
  | .txUnapplied tx slot blockNumber blockHash =>
    commitTransitions m index Ior.swap
      (fun tr => (pairIdOf tr.swap, .ledger (.backward tr.swap) ⟨blockHash, slot⟩))
      (fun tx => .txUnapplied tx slot blockNumber blockHash)
      (extractContinuousTransitions m index tx)

/-- `EventHandler<MempoolUpdate>` for `PairUpdateHandler` -/
def PairUpdateHandler.tryHandleMempool (m : Moment (StableId T) (PairId T))
    (index : InMemoryEntityIndex T) : MempoolUpdate TxViewMut →
    Handled (InMemoryEntityIndex T) (PairUpdate T) (MempoolUpdate TxViewMut)
  | .txAccepted tx =>
    commitTransitions m index id (fun tr => (pairIdOf tr, .mempool (.forward tr)))
      .txAccepted (extractContinuousTransitions m index tx)
  | .txDropped tx =>
    -- What is indexed is not the inverse transition.
    commitTransitions m index id (fun tr => (pairIdOf tr.swap, .mempool (.backward tr.swap)))
      .txDropped (extractContinuousTransitions m index tx)

end Continuous

/-! ### The entities of the tests -/

/-- Every output is a state of the one entity. -/
structure TrivialEntity where
  ref : OutputRef
  coin : Nat
deriving DecidableEq

instance : LedgerEntity TrivialEntity where
  StableId := UInt8
  decEqId := inferInstance
  stableId _ := 0
  Version := OutputRef
  decEqVersion := inferInstance
  version := TrivialEntity.ref
  isQuasiPermanent _ := false
  PairId := UInt8
  decEqPairId := inferInstance
  pairId _ := 0
  versionOf := id

instance : TryFromLedger TrivialEntity (StableId TrivialEntity) where
  tryFromLedger repr ctx := some ⟨ctx.outputRef, repr.value.coin⟩

/-- A transaction that spends the first output of another and has one output, or none. -/
def sampleTx (hash spends : UInt8) (coins : List UInt64) : TxViewMut where
  hash := .replicate hash
  inputs := [⟨.replicate spends, 0⟩]
  outputs := coins.zipIdx.map fun (coin, ix) =>
    (.ofNat ix, ⟨.reward (.pubKey (.replicate hash)), .ofTokens coin [], none⟩)
  mints := none
  signers := []

def sampleMoment (now : Nat) : Moment (StableId TrivialEntity) (PairId TrivialEntity) :=
  ⟨now, default, default, default, default⟩

end UtxoMonitor.EventSink
