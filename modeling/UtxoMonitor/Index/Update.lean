import UtxoMonitor.Index.Cell

/-! A call of `apply` or `unapply` as a sequence of updates of single outputs. -/
namespace UtxoMonitor

open Lib

/-- What a transaction does to one output: mark it by reference, write it, or delete it. -/
inductive Update where
  | mark (slot : Option Slot) (spent : Bool)
  | create (txo : TransactionOutput) (settledAt : Option Slot)
  | delete

/-- The `spent` flag a confirmed or announced output keeps. -/
def keptSpent (existing : Option TxoRecord) : Bool := existing.elim false TxoRecord.spent

def TransactionOutput.credentials (out : TransactionOutput) : Credentials :=
  addressCredentials out.address

/-- The cell once an output of address and value `out` is removed from it. -/
def Cell.remove (x : Cell) (out : TransactionOutput) (settledAt : Option Slot) : Cell :=
  { x.deleteIndexes out.credentials settledAt with
    txo := none
    units := fun u => x.units u ∧ u ∉ outputUnits out }

def Cell.removeFound (x : Cell) : Option TxoRecord → Cell
  | some r => x.remove r.output r.settledAt
  | none => x

/-- The cell once the record `r` is written to it and indexed at `slot`. -/
def Cell.write (x : Cell) (r : TxoRecord) (slot : Option Slot) : Cell :=
  { x.writeSecondaryIndexes r.output.credentials slot r.spent with
    txo := some r
    units := fun u => x.units u ∨ (r.spent = false ∧ u ∈ outputUnits r.output) }

namespace Update

def prog (oref : OutputRef) : Update → Tx Unit
  | mark slot spent => updateTxoByRef oref slot spent
  | create txo settledAt => updateUnspentTxo oref txo settledAt
  | delete => deleteTxoAndIndexes oref

def progFound (oref : OutputRef) : Update → Option TxoRecord → Tx Unit
  | mark slot spent => updateTxoByRefFound oref slot spent
  | create txo settledAt => updateUnspentTxoFound oref txo settledAt
  | delete => deleteTxoAndIndexesFound oref

/-- The record an update writes where it found `existing`. -/
def record : Update → Option TxoRecord → Option TxoRecord
  | mark _ spent, existing => existing.map fun r => { r with spent := spent }
  | create txo settledAt, existing => some ⟨txo, settledAt, keptSpent existing⟩
  | delete, _ => none

/-- The slot under which an update files the output it found as `existing`. -/
def filedAt : Update → Option TxoRecord → Option Slot
  | mark slot spent, existing => if spent then slot else existing.bind TxoRecord.settledAt
  | create _ settledAt, _ => settledAt
  | delete, _ => none

/-- The effect of an update on the cell of its output, after reading `existing`. -/
def cell (u : Update) (existing : Option TxoRecord) (x : Cell) : Cell :=
  match u.record existing with
  | some r => (x.removeFound existing).write r (u.filedAt existing)
  | none => x.removeFound existing

/-- The units whose sentinel an update drops, after reading `existing`. -/
def clears (u : Update) (existing : Option TxoRecord) (pre : Bytes) : Prop :=
  ∃ r, u.record existing = some r ∧ r.spent = false ∧ pre ∈ outputUnits r.output

variable (o : OutputRef)

theorem acts_writeTail (r : TxoRecord) :
    Acts ((if !r.spent then writeUnitIndexes r.output o else pure ()).bind fun _ =>
        writeTxo o r.output r.settledAt r.spent) o
      (fun x => { x with
        txo := some r
        units := fun u => x.units u ∨ (r.spent = false ∧ u ∈ outputUnits r.output) })
      (fun pre => r.spent = false ∧ pre ∈ outputUnits r.output) := by
  obtain ⟨out, settledAt, spent⟩ := r
  cases spent with
  | false =>
    refine ((acts_writeUnitIndexes o out).seq (acts_putTxo o _)).congr ?_ (by simp)
    funext x
    ext <;> simp
  | true =>
    refine (Acts.done.seq (acts_putTxo o _)).congr ?_ (by simp)
    funext x
    ext <;> simp

theorem acts_mark (slot : Option Slot) (spent : Bool) (existing : Option TxoRecord) :
    Acts (updateTxoByRefFound o slot spent existing) o ((mark slot spent).cell existing)
      ((mark slot spent).clears existing) := by
  cases existing with
  | none => exact Acts.done.congr rfl (by simp [clears, record])
  | some r =>
    obtain ⟨out, settledAt, was⟩ := r
    have hloop := acts_rewriteIndexes o out.credentials settledAt
      (if spent then slot else settledAt) spent
    have h := hloop.seq ((acts_deleteUnitIndexes o out).seq
      (acts_writeTail o ⟨out, settledAt, spent⟩))
    cases spent <;>
    · refine h.congr ?_ (by simp [clears, record])
      funext x
      ext <;> simp [cell, record, filedAt, Cell.removeFound, Cell.remove, Cell.write,
        Cell.writeSecondaryIndexes, Cell.deleteIndexes]

theorem acts_create (txo : TransactionOutput) (settledAt : Option Slot)
    (existing : Option TxoRecord) :
    Acts (updateUnspentTxoFound o txo settledAt existing) o ((create txo settledAt).cell existing)
      ((create txo settledAt).clears existing) := by
  cases existing with
  | none =>
    have h := (acts_writeIndexes o txo.credentials settledAt false).seq
      (acts_writeTail o ⟨txo, settledAt, false⟩)
    exact h.congr rfl (by simp [clears, record, keptSpent])
  | some r =>
    obtain ⟨out, settled, spent⟩ := r
    have h := (acts_deleteIndexes o out.credentials settled).seq
      ((acts_deleteUnitIndexes o out).seq ((acts_deleteTxo o).seq
        ((acts_writeIndexes o txo.credentials settledAt spent).seq
          (acts_writeTail o ⟨txo, settledAt, spent⟩))))
    refine (h.of_run_eq ?_).congr ?_ (by simp [clears, record, keptSpent])
    · intro db
      cases spent <;> simp [updateUnspentTxoFound, TransactionOutput.credentials]
    · funext x
      ext <;> simp [cell, record, filedAt, keptSpent, Cell.removeFound, Cell.remove, Cell.write,
        Cell.writeSecondaryIndexes, Cell.deleteIndexes]

theorem acts_delete (existing : Option TxoRecord) :
    Acts (deleteTxoAndIndexesFound o existing) o (delete.cell existing)
      (delete.clears existing) := by
  cases existing with
  | none => exact Acts.done.congr rfl (by simp [clears, record])
  | some r =>
    obtain ⟨out, settledAt, spent⟩ := r
    have h := (acts_deleteIndexes o out.credentials settledAt).seq
      ((acts_deleteUnitIndexes o out).seq (acts_deleteTxo o))
    exact h.congr rfl (by simp [clears, record])

theorem acts (u : Update) (existing : Option TxoRecord) :
    Acts (u.progFound o existing) o (u.cell existing) (u.clears existing) := by
  cases u with
  | mark slot spent => exact acts_mark o slot spent existing
  | create txo settledAt => exact acts_create o txo settledAt existing
  | delete => exact acts_delete o existing

theorem prog_eq (u : Update) :
    u.prog o = (getUtxoByRef o).bind fun existing => u.progFound o existing := by
  cases u <;> rfl

/-- Running alone, an update reads the record that the table holds. -/
theorem run_prog (u : Update) (db : RocksDB) :
    (u.prog o).run db = (u.progFound o (cellOf db o).txo).run db := by
  rw [prog_eq, TxProg.run_bind]
  rfl

end Update

/-! ### Sequences of updates -/

/-- The database after a sequence of updates. -/
def runUpdates (us : List (OutputRef × Update)) (db : RocksDB) : RocksDB :=
  us.foldl (fun db u => (u.2.prog u.1).run db) db

/-- The cell of an output after the updates of it. -/
def Cell.steps (us : List Update) (x : Cell) : Cell :=
  us.foldl (fun x u => u.cell x.txo x) x

/-- The updates of one output, in order. -/
def updatesOf (o : OutputRef) (us : List (OutputRef × Update)) : List Update :=
  us.filterMap fun u => if u.1 = o then some u.2 else none

@[simp] theorem updatesOf_append (o : OutputRef) (us vs : List (OutputRef × Update)) :
    updatesOf o (us ++ vs) = updatesOf o us ++ updatesOf o vs := by
  simp [updatesOf]

@[simp] theorem Cell.steps_append (us vs : List Update) (x : Cell) :
    x.steps (us ++ vs) = (x.steps us).steps vs := by
  simp [Cell.steps]

theorem runUpdates_cons (u : OutputRef × Update) (us : List (OutputRef × Update)) (db : RocksDB) :
    runUpdates (u :: us) db =
      runUpdates us ((u.2.progFound u.1 (cellOf db u.1).txo).run db) := by
  rw [← Update.run_prog]
  rfl

theorem cellOf_run_prog (u : Update) (o o' : OutputRef) (db : RocksDB) :
    cellOf ((u.prog o').run db) o =
      if o' = o then u.cell (cellOf db o).txo (cellOf db o) else cellOf db o := by
  rw [Update.run_prog]
  split
  · rename_i h
    subst h
    exact (Update.acts o' u _).own db
  · rename_i h
    exact (Update.acts o' u _).frame db o (Ne.symm h)

/-- A sequence of updates acts on every output separately. -/
theorem cellOf_runUpdates (us : List (OutputRef × Update)) (o : OutputRef) (db : RocksDB) :
    cellOf (runUpdates us db) o = (cellOf db o).steps (updatesOf o us) := by
  induction us generalizing db with
  | nil => rfl
  | cons u us ih =>
    change cellOf (runUpdates us ((u.2.prog u.1).run db)) o = _
    rw [ih, cellOf_run_prog]
    by_cases h : u.1 = o <;> simp [updatesOf, h, Cell.steps]

theorem runUpdates_append (us vs : List (OutputRef × Update)) (db : RocksDB) :
    runUpdates (us ++ vs) db = runUpdates vs (runUpdates us db) := by
  simp [runUpdates]

theorem Shaped.runUpdates {db : RocksDB} (hs : Shaped db) (us : List (OutputRef × Update)) :
    Shaped (runUpdates us db) := by
  induction us generalizing db with
  | nil => exact hs
  | cons u us ih =>
    rw [runUpdates_cons]
    exact ih ((Update.acts _ u.2 _).shaped _ hs)

/-- Updates never write a sentinel. -/
theorem hasSentinel_of_runUpdates {us : List (OutputRef × Update)} {db : RocksDB} {pre : Bytes}
    (h : HasSentinel (runUpdates us db) pre) : HasSentinel db pre := by
  induction us generalizing db with
  | nil => exact h
  | cons u us ih =>
    rw [runUpdates_cons] at h
    exact (((Update.acts _ u.2 _).sentinel _ _).mp (ih h)).1

/-! ### The two calls -/

def applyUpdates (txHash : TransactionHash) (inputs : List OutputRef)
    (outputs : List (UInt64 × TransactionOutput)) (confirmedAt : Option Slot) :
    List (OutputRef × Update) :=
  (inputs.map fun oref => (oref, .mark confirmedAt true)) ++
    outputs.map fun (ix, o) => (⟨txHash, ix⟩, .create o confirmedAt)

def unapplyUpdates (txHash : TransactionHash) (inputs : List OutputRef)
    (outputs : List (UInt64 × TransactionOutput)) : List (OutputRef × Update) :=
  (inputs.map fun oref => (oref, .mark none false)) ++
    outputs.map fun (ix, _) => (⟨txHash, ix⟩, .delete)

theorem run_apply (txHash : TransactionHash) (inputs : List OutputRef)
    (outputs : List (UInt64 × TransactionOutput)) (confirmedAt : Option Slot) (db : RocksDB) :
    (apply txHash inputs outputs confirmedAt).run db =
      runUpdates (applyUpdates txHash inputs outputs confirmedAt) db := by
  simp only [apply, TxProg.bind_eq, TxProg.run_bind, TxProg.run_forM, applyUpdates,
    runUpdates_append]
  simp only [runUpdates, List.foldl_map]
  rfl

theorem run_unapply (txHash : TransactionHash) (inputs : List OutputRef)
    (outputs : List (UInt64 × TransactionOutput)) (db : RocksDB) :
    (unapply txHash inputs outputs).run db =
      runUpdates (unapplyUpdates txHash inputs outputs) db := by
  simp only [unapply, TxProg.bind_eq, TxProg.run_bind, TxProg.run_forM, unapplyUpdates,
    runUpdates_append]
  simp only [runUpdates, List.foldl_map]
  rfl

end UtxoMonitor
