import UtxoMonitor.Lib.Runs
import UtxoMonitor.ChainSync.Data
import UtxoMonitor.Index.Events

/-! The handler of ledger and mempool events, and what each event does to the record of an
output. -/
namespace UtxoMonitor

open Lib

inductive MempoolUpdate (Tx : Type) where
  | txAccepted (tx : Tx)
  | txDropped (tx : Tx)
deriving DecidableEq

def applyTx (tx : TxViewMut) (settledAt : Option Slot) : Tx Unit :=
  apply tx.hash tx.inputRefs tx.outputs settledAt

def unapplyTx (tx : TxViewMut) : Tx Unit := unapply tx.hash tx.inputRefs tx.outputs

/-- `EventHandler::try_handle`: the index it leaves behind, and the event if it is passed on. -/
def LedgerTxEvent.tryHandle (db : RocksDB) (ev : LedgerTxEvent TxViewMut) :
    RocksDB × Option (LedgerTxEvent TxViewMut) :=
  match ev with
  | .txApplied tx slot _ _ => ((applyTx tx (some slot)).run db, none)
  | .txUnapplied tx _ _ _ => ((unapplyTx tx).run db, none)

def MempoolUpdate.tryHandle (db : RocksDB) (ev : MempoolUpdate TxViewMut) :
    RocksDB × Option (MempoolUpdate TxViewMut) :=
  match ev with
  | .txAccepted tx => ((applyTx tx none).run db, none)
  | .txDropped tx => ((unapplyTx tx).run db, none)

/-! ### What one event does to one record -/

def TxoRecord.mark (spent : Bool) (r : TxoRecord) : TxoRecord := { r with spent := spent }

namespace TxViewMut

variable (tx : TxViewMut)

/-- The record of `o` once the inputs of `tx` are marked. -/
def marked (spent : Bool) (o : OutputRef) (r : Option TxoRecord) : Option TxoRecord :=
  if o ∈ tx.inputRefs then r.map (.mark spent) else r

/-- The record of `o` after `tx` is applied. -/
def applied (settledAt : Option Slot) (o : OutputRef) (r : Option TxoRecord) : Option TxoRecord :=
  match tx.outputAt o with
  | some out => some ⟨out, settledAt, keptSpent (tx.marked true o r)⟩
  | none => tx.marked true o r

/-- The record of `o` after `tx` is unapplied. -/
def unapplied (o : OutputRef) (r : Option TxoRecord) : Option TxoRecord :=
  if o ∈ tx.outputRefs then none else tx.marked false o r

end TxViewMut

namespace Update

/-- The record that a sequence of updates leaves. -/
def records (us : List Update) (r : Option TxoRecord) : Option TxoRecord :=
  us.foldl (fun r u => u.record r) r

theorem records_append (us vs : List Update) (r : Option TxoRecord) :
    records (us ++ vs) r = records vs (records us r) := by
  simp [records]

theorem records_marks (X : Type) (xs : List X) (slot : Option Slot) (spent : Bool)
    (r : Option TxoRecord) :
    records (xs.map fun _ => .mark slot spent) r =
      if xs = [] then r else r.map (.mark spent) := by
  induction xs generalizing r with
  | nil => rfl
  | cons x xs ih =>
    change records (xs.map fun _ => .mark slot spent) (r.map (.mark spent)) = _
    rw [ih]
    cases r <;> simp [TxoRecord.mark]

theorem records_creates (outs : List (UInt64 × TransactionOutput)) (settledAt : Option Slot)
    (r : Option TxoRecord) :
    records (outs.map fun p => .create p.2 settledAt) r =
      match outs.getLast? with
      | some p => some ⟨p.2, settledAt, keptSpent r⟩
      | none => r := by
  induction outs generalizing r with
  | nil => rfl
  | cons p outs ih =>
    change records (outs.map fun p => .create p.2 settledAt)
      (some ⟨p.2, settledAt, keptSpent r⟩) = _
    rw [ih, List.getLast?_cons]
    cases outs.getLast? <;> rfl

theorem records_deletes (X : Type) (xs : List X) (r : Option TxoRecord) :
    records (xs.map fun _ => .delete) r = if xs = [] then r else none := by
  induction xs generalizing r with
  | nil => rfl
  | cons x xs ih =>
    change records (xs.map fun _ => .delete) none = _
    rw [ih]
    simp

end Update

theorem storedTxo_runUpdates (us : List (OutputRef × Update)) (db : RocksDB) (o : OutputRef) :
    storedTxo (runUpdates us db) o = Update.records (updatesOf o us) (storedTxo db o) := by
  rw [storedTxo, cellOf_runUpdates, Update.steps_txo]
  rfl

theorem updatesOf_map {X : Type} (o : OutputRef) (xs : List X) (oref : X → OutputRef)
    (u : X → Update) :
    updatesOf o (xs.map fun x => (oref x, u x)) = (xs.filter fun x => oref x = o).map u := by
  induction xs with
  | nil => rfl
  | cons x xs ih => by_cases h : oref x = o <;> simp_all [updatesOf]

theorem filter_eq_nil_iff_notMem_map {X : Type} (o : OutputRef) (xs : List X)
    (oref : X → OutputRef) : (xs.filter fun x => oref x = o) = [] ↔ o ∉ xs.map oref := by
  simp [List.filter_eq_nil_iff]

section Calls

variable (tx : TxViewMut) (db : RocksDB) (o : OutputRef)

theorem run_applyTx (settledAt : Option Slot) :
    (applyTx tx settledAt).run db =
      runUpdates (applyUpdates tx.hash tx.inputRefs tx.outputs settledAt) db :=
  run_apply _ _ _ _ _

theorem run_unapplyTx :
    (unapplyTx tx).run db =
      runUpdates (unapplyUpdates tx.hash tx.inputRefs tx.outputs) db :=
  run_unapply _ _ _ _

theorem records_marked (slot : Option Slot) (spent : Bool) (r : Option TxoRecord) :
    Update.records (updatesOf o (tx.inputRefs.map fun oref => (oref, .mark slot spent))) r =
      tx.marked spent o r := by
  rw [updatesOf_map o tx.inputRefs (fun oref => oref), Update.records_marks]
  simp only [filter_eq_nil_iff_notMem_map o tx.inputRefs (fun oref => oref), List.map_id',
    TxViewMut.marked, ite_not]

theorem records_applyUpdates (settledAt : Option Slot) (r : Option TxoRecord) :
    Update.records (updatesOf o (applyUpdates tx.hash tx.inputRefs tx.outputs settledAt)) r =
      tx.applied settledAt o r := by
  rw [applyUpdates, updatesOf_append, Update.records_append, records_marked,
    updatesOf_map o tx.outputs (fun p => ⟨tx.hash, p.1⟩), Update.records_creates]
  simp only [TxViewMut.applied, TxViewMut.outputAt]
  cases (tx.outputs.filter fun p => OutputRef.mk tx.hash p.1 = o).getLast? <;> rfl

theorem records_unapplyUpdates (r : Option TxoRecord) :
    Update.records (updatesOf o (unapplyUpdates tx.hash tx.inputRefs tx.outputs)) r =
      tx.unapplied o r := by
  rw [unapplyUpdates, updatesOf_append, Update.records_append, records_marked,
    updatesOf_map o tx.outputs (fun p => ⟨tx.hash, p.1⟩), Update.records_deletes]
  simp only [filter_eq_nil_iff_notMem_map o tx.outputs (fun p => ⟨tx.hash, p.1⟩), ite_not]
  rfl

/-- The handler's application of a transaction, seen on one record. -/
theorem storedTxo_applyTx (settledAt : Option Slot) :
    storedTxo ((applyTx tx settledAt).run db) o = tx.applied settledAt o (storedTxo db o) := by
  rw [run_applyTx, storedTxo_runUpdates, records_applyUpdates]

theorem storedTxo_unapplyTx :
    storedTxo ((unapplyTx tx).run db) o = tx.unapplied o (storedTxo db o) := by
  rw [run_unapplyTx, storedTxo_runUpdates, records_unapplyUpdates]

end Calls

/-! ### Runs of the two handlers -/

/-- An event of either source. -/
inductive Event where
  | ledger (ev : LedgerTxEvent TxViewMut)
  | mempool (ev : MempoolUpdate TxViewMut)
deriving DecidableEq

namespace Event

def run (db : RocksDB) : Event → RocksDB
  | ledger ev => (ev.tryHandle db).1
  | mempool ev => (ev.tryHandle db).1

def tx : Event → TxViewMut
  | ledger (.txApplied tx _ _ _) => tx
  | ledger (.txUnapplied tx _ _ _) => tx
  | mempool (.txAccepted tx) => tx
  | mempool (.txDropped tx) => tx

/-- The slot an event applies its transaction at; `none` for an event that takes it back. -/
def applies : Event → Option (Option Slot)
  | ledger (.txApplied _ slot _ _) => some (some slot)
  | mempool (.txAccepted _) => some none
  | _ => none

end Event

/-- The index after the events, in the order in which the handlers finish them. -/
def runEvents (evs : List Event) : RocksDB := evs.foldl Event.run RocksDB.empty

theorem runEvents_append (evs evs' : List Event) :
    runEvents (evs ++ evs') = evs'.foldl Event.run (runEvents evs) := List.foldl_append

/-- What an event does to the record of `o`. -/
def Event.record (ev : Event) (o : OutputRef) (r : Option TxoRecord) : Option TxoRecord :=
  match ev.applies with
  | some settledAt => ev.tx.applied settledAt o r
  | none => ev.tx.unapplied o r

theorem storedTxo_event (ev : Event) (db : RocksDB) (o : OutputRef) :
    storedTxo (ev.run db) o = ev.record o (storedTxo db o) := by
  cases ev with
  | ledger ev =>
    cases ev with
    | txApplied tx slot blockNumber blockHash => exact storedTxo_applyTx tx db o (some slot)
    | txUnapplied tx slot blockNumber blockHash => exact storedTxo_unapplyTx tx db o
  | mempool ev =>
    cases ev with
    | txAccepted tx => exact storedTxo_applyTx tx db o none
    | txDropped tx => exact storedTxo_unapplyTx tx db o

theorem storedTxo_concat (evs : List Event) (ev : Event) (o : OutputRef) :
    storedTxo (runEvents (evs ++ [ev])) o = ev.record o (storedTxo (runEvents evs) o) := by
  rw [runEvents_append]
  exact storedTxo_event ev _ o

theorem Consistent.applyTx {db : RocksDB} (h : Consistent db) (tx : TxViewMut)
    (settledAt : Option Slot) : Consistent ((applyTx tx settledAt).run db) := by
  rw [run_applyTx]
  exact h.runUpdates _

theorem Consistent.unapplyTx {db : RocksDB} (h : Consistent db) (tx : TxViewMut) :
    Consistent ((unapplyTx tx).run db) := by
  rw [run_unapplyTx]
  exact h.runUpdates _

theorem Consistent.event {db : RocksDB} (h : Consistent db) (ev : Event) :
    Consistent (ev.run db) := by
  cases ev with
  | ledger ev =>
    cases ev with
    | txApplied tx slot blockNumber blockHash => exact h.applyTx tx (some slot)
    | txUnapplied tx slot blockNumber blockHash => exact h.unapplyTx tx
  | mempool ev =>
    cases ev with
    | txAccepted tx => exact h.applyTx tx none
    | txDropped tx => exact h.unapplyTx tx

theorem consistent_runEvents (evs : List Event) : Consistent (runEvents evs) := by
  induction evs using List.reverseRecOn with
  | nil => exact Consistent.empty
  | append_singleton evs ev ih =>
    rw [runEvents_append]
    exact ih.event ev

end UtxoMonitor
