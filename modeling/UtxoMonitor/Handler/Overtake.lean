import UtxoMonitor.Lib.Interleaving
import UtxoMonitor.Handler.TxHandler
import UtxoMonitor.Index.Tables

/-! Updates whose reads another commit has overtaken. Each of them finds the record from before that
commit and writes what it makes of it over what the commit has left. -/
namespace UtxoMonitor

open Lib

/-- The updates on `new`, each with the record it finds on `old`. -/
def overtake : List (OutputRef × Update) → RocksDB → RocksDB → RocksDB
  | [], _, new => new
  | (o, u) :: us, old, new =>
    let existing := storedTxo old o
    overtake us ((u.progFound o existing).run old) ((u.progFound o existing).run new)

/-- What overtaken updates of one output make of its cell `y`, with the records of the cell `x`. -/
def Cell.overtake : List Update → Cell → Cell → Cell
  | [], _, y => y
  | u :: us, x, y => overtake us (u.cell x.txo x) (u.cell x.txo y)

theorem cellOf_overtake (us : List (OutputRef × Update)) (o : OutputRef) (old new : RocksDB) :
    cellOf (overtake us old new) o =
      Cell.overtake (updatesOf o us) (cellOf old o) (cellOf new o) := by
  induction us generalizing old new with
  | nil => rfl
  | cons u us ih =>
    obtain ⟨o', u⟩ := u
    rw [overtake, ih]
    by_cases h : o' = o
    · subst h
      simp only [updatesOf, List.filterMap_cons, if_true, Cell.overtake]
      rw [(Update.acts o' u _).own, (Update.acts o' u _).own]
      rfl
    · simp only [updatesOf, List.filterMap_cons, if_neg h]
      rw [(Update.acts o' u _).frame _ _ (Ne.symm h), (Update.acts o' u _).frame _ _ (Ne.symm h)]

theorem Shaped.overtake {us : List (OutputRef × Update)} {old new : RocksDB} (hs : Shaped new) :
    Shaped (overtake us old new) := by
  induction us generalizing old new with
  | nil => exact hs
  | cons u us ih => exact ih ((Update.acts u.1 u.2 _).shaped _ hs)

theorem hasSentinel_of_overtake {us : List (OutputRef × Update)} {old new : RocksDB} {pre : Bytes}
    (h : HasSentinel (overtake us old new) pre) : HasSentinel new pre := by
  induction us generalizing old new with
  | nil => exact h
  | cons u us ih => exact (((Update.acts u.1 u.2 _).sentinel _ _).mp (ih h)).1

/-! ### The calls as programs -/

section Blind

variable (o : OutputRef)

theorem blind_deleteIndexes (kind : CredentialKind) (credential : Credential)
    (settledAt : Option Slot) : (deleteIndexes kind credential settledAt o).Blind :=
  .delete _ _ (.delete _ _ (.done _))

theorem blind_writeSecondaryIndexes (kind : CredentialKind) (credential : Credential)
    (slot : Option Slot) (spent : Bool) :
    (writeSecondaryIndexes kind credential o slot spent).Blind := by
  refine .put _ _ _ ?_
  cases spent with
  | false => exact .put _ _ _ (.done _)
  | true => exact .done _

theorem blind_writeUnitIndexes (output : TransactionOutput) :
    (writeUnitIndexes output o).Blind :=
  .forM fun _ => .delete _ _ (.put _ _ _ (.done _))

theorem blind_deleteUnitIndexes (output : TransactionOutput) :
    (deleteUnitIndexes output o).Blind :=
  .forM fun _ => .delete _ _ (.done _)

theorem blind_writeTxo (output : TransactionOutput) (settledAt : Option Slot) (spent : Bool) :
    (writeTxo o output settledAt spent).Blind :=
  .put _ _ _ (.done _)

theorem blind_writeTail (output : TransactionOutput) (settledAt : Option Slot) (spent : Bool) :
    (do
      if !spent then
        writeUnitIndexes output o
      writeTxo o output settledAt spent : Tx Unit).Blind := by
  cases spent with
  | false => exact (blind_writeUnitIndexes o output).bind fun _ => blind_writeTxo o _ _ _
  | true => exact blind_writeTxo o _ _ _

theorem Update.blind_progFound (u : Update) (existing : Option TxoRecord) :
    (u.progFound o existing).Blind := by
  cases u with
  | mark slot spent =>
    cases existing with
    | none => exact .done _
    | some r =>
      refine .bind (.forM ?_) ?_
      · intro kc
        exact (blind_deleteIndexes o _ _ _).bind fun _ => blind_writeSecondaryIndexes o _ _ _ _
      · intro _
        exact (blind_deleteUnitIndexes o _).bind fun _ => blind_writeTail o _ _ _
  | create txo settledAt =>
    have hwrite : ∀ spent : Bool, (do
        (addressCredentials txo.address).forM fun kc =>
          writeSecondaryIndexes kc.1 kc.2 o settledAt spent
        if !spent then
          writeUnitIndexes txo o
        writeTxo o txo settledAt spent : Tx Unit).Blind := fun spent =>
      .bind (.forM fun kc => blind_writeSecondaryIndexes o _ _ _ _) fun _ =>
        blind_writeTail o txo settledAt spent
    cases existing with
    | none => exact .bind (.done _) hwrite
    | some r =>
      refine .bind (.forM fun kc => blind_deleteIndexes o _ _ _) ?_
      intro _
      refine .bind (blind_deleteUnitIndexes o _) ?_
      intro _
      exact .bind (.delete _ _ (.done _)) fun _ => .bind (.done _) hwrite
  | delete =>
    cases existing with
    | none => exact .done _
    | some r =>
      refine .bind (.forM fun kc => blind_deleteIndexes o _ _ _) ?_
      intro _
      exact (blind_deleteUnitIndexes o _).bind fun _ => .delete _ _ (.done _)

end Blind

/-- A sequence of updates reads one record for each update. -/
theorem resume_updates (us : List (OutputRef × Update)) (n : Nat) (old new : RocksDB) :
    (us.forM fun u => u.2.prog u.1).resume n old new =
      runUpdates (us.drop n) (overtake (us.take n) old new) := by
  induction us generalizing n old new with
  | nil => cases n <;> rfl
  | cons u us ih =>
    cases n with
    | zero =>
      rw [TxProg.resume_zero, TxProg.run_forM]
      rfl
    | succ n =>
      change ((u.2.prog u.1).bind fun _ => us.forM fun u => u.2.prog u.1).resume (n + 1) old new = _
      rw [Update.prog_eq, TxProg.bind_assoc]
      change ((u.2.progFound u.1 (storedTxo old u.1)).bind fun _ =>
        us.forM fun u => u.2.prog u.1).resume n old new = _
      rw [(Update.blind_progFound u.1 u.2 _).resume_bind, ih]
      rfl

/-! ### Cells with listings of more than one record -/

theorem Cell.lists_removeFound (y : Cell) (r : Option TxoRecord) (e : IndexEntry) :
    (y.removeFound r).lists e ↔ y.lists e ∧ ∀ ρ ∈ r, ¬ ρ.output.entries e := by
  cases r with
  | none => simp [removeFound]
  | some ρ =>
    cases e <;> simp [removeFound, remove, lists, deleteIndexes, TransactionOutput.entries]

theorem Cell.lists_write (y : Cell) (ρ : TxoRecord) (slot : Option Slot) (e : IndexEntry) :
    (y.write ρ slot).lists e ↔ y.lists e ∨ (ρ.spent = false ∧ ρ.output.entries e) := by
  cases e <;>
    simp [write, lists, writeSecondaryIndexes, TransactionOutput.entries, and_comm]

theorem Update.lists_cell (u : Update) (r : Option TxoRecord) (y : Cell) (e : IndexEntry) :
    (u.cell r y).lists e ↔
      (y.lists e ∧ ∀ ρ ∈ r, ¬ ρ.output.entries e) ∨ ListedBy (u.record r) e := by
  unfold cell ListedBy
  cases u.record r with
  | none => simp [Cell.lists_removeFound]
  | some ρ => simp [Cell.lists_write, Cell.lists_removeFound]

/-! ### What overtaken updates leave -/

/-- The update finds a record or makes one. -/
def Update.Writes (u : Update) (r : Option TxoRecord) : Prop := r ≠ none ∨ u.record r ≠ none

theorem Update.not_writes_iff {u : Update} {r : Option TxoRecord} :
    ¬ u.Writes r ↔ r = none ∧ u.record r = none := by
  simp [Writes, not_or]

theorem Update.Writes.cell_txo {u : Update} {r : Option TxoRecord} (h : u.Writes r) (y : Cell) :
    (u.cell r y).txo = u.record r := by
  unfold cell
  cases hr : u.record r with
  | some ρ => rfl
  | none =>
    cases r with
    | some ρ => rfl
    | none => exact absurd hr (h.resolve_left fun hn => hn rfl)

theorem Update.cell_of_not_writes {u : Update} {r : Option TxoRecord} (h : ¬ u.Writes r)
    (y : Cell) : u.cell r y = y := by
  obtain ⟨rfl, hu⟩ := not_writes_iff.mp h
  simp [cell, hu, Cell.removeFound]

/-- Overtaken updates that write nothing leave what the commit has left. -/
theorem Cell.overtake_of_not_writes {us : List Update} {x : Cell}
    (h : ∀ u ∈ us, ¬ u.Writes x.txo) (y : Cell) : Cell.overtake us x y = y := by
  induction us generalizing y with
  | nil => rfl
  | cons u us ih =>
    have hu := h u List.mem_cons_self
    rw [overtake, Update.cell_of_not_writes hu, Update.cell_of_not_writes hu]
    exact ih (fun v hv => h v (List.mem_cons_of_mem _ hv)) y

theorem Cell.overtake_of_txo_eq {us : List Update} {x y : Cell} (h : x.txo = y.txo) :
    Cell.overtake us x y = y.steps us := by
  induction us generalizing x y with
  | nil => rfl
  | cons u us ih =>
    have htxo : (u.cell x.txo x).txo = (u.cell x.txo y).txo := by
      rw [u.cell_txo, h, u.cell_txo]
    rw [overtake, ih htxo, h]
    rfl

/-- The updates, beginning on the record `r`, take out or list a record of the entry. -/
def Covers (e : IndexEntry) : List Update → Option TxoRecord → Prop
  | [], _ => False
  | u :: us, r =>
    (∃ ρ ∈ r, ρ.output.entries e) ∨ ListedBy (u.record r) e ∨ Covers e us (u.record r)

theorem ListedBy.entries {r : Option TxoRecord} {e : IndexEntry} (h : ListedBy r e) :
    ∃ ρ ∈ r, ρ.output.entries e := by
  obtain ⟨ρ, hr, -, he⟩ := h
  exact ⟨ρ, hr, he⟩

theorem Covers.of_listed {e : IndexEntry} {u : Update} {us : List Update} {r : Option TxoRecord}
    (h : ListedBy (Update.records (u :: us) r) e) : Covers e (u :: us) r := by
  induction us generalizing u r with
  | nil => exact .inr (.inl h)
  | cons v us ih => exact .inr (.inr (ih h))

/-- After an update that wrote its record, the cell lists the last record and those entries of the
cell before which the updates do not cover. -/
theorem Update.lists_steps {u : Update} {r : Option TxoRecord} {y : Cell}
    (htxo : (u.cell r y).txo = u.record r) (us : List Update) (e : IndexEntry) :
    ((u.cell r y).steps us).lists e ↔
      ListedBy (records (u :: us) r) e ∨ (y.lists e ∧ ¬ Covers e (u :: us) r) := by
  induction us generalizing u r y with
  | nil =>
    have hlast : records [u] r = u.record r := rfl
    change (u.cell r y).lists e ↔ _
    rw [lists_cell, hlast]
    simp only [Covers, or_false, not_or, not_exists, not_and]
    tauto
  | cons v us ih =>
    have hcell : (u.cell r y).steps (v :: us) =
        (v.cell (u.record r) (u.cell r y)).steps us := by
      rw [← htxo]
      rfl
    have htxo' : (v.cell (u.record r) (u.cell r y)).txo = v.record (u.record r) := by
      rw [← htxo, v.cell_txo]
    have hrecords : records (u :: v :: us) r = records (v :: us) (u.record r) := rfl
    have hlisted : ListedBy (u.record r) e → Covers e (v :: us) (u.record r) := fun h =>
      .inl h.entries
    rw [hcell, ih htxo', lists_cell, hrecords]
    simp only [Covers.eq_def e (u :: v :: us), not_or, not_exists, not_and]
    tauto

/-- Overtaken updates that write the output leave the record they make of the one they found, and
every listing that they do not cover. -/
theorem Cell.overtake_of_writes {us : List Update} {x : Cell} (h : ∃ u ∈ us, u.Writes x.txo)
    (y : Cell) (vs : List Update) :
    ((Cell.overtake us x y).steps vs).txo = Update.records (us ++ vs) x.txo ∧
    ∀ e, ((Cell.overtake us x y).steps vs).lists e ↔
      ListedBy (Update.records (us ++ vs) x.txo) e ∨
        (y.lists e ∧ ¬ Covers e (us ++ vs) x.txo) := by
  induction us generalizing y with
  | nil =>
    obtain ⟨u, hu, -⟩ := h
    cases hu
  | cons u us ih =>
    by_cases hu : u.Writes x.txo
    · have htxo := hu.cell_txo y
      have hboth : (u.cell x.txo x).txo = (u.cell x.txo y).txo := by rw [u.cell_txo, htxo]
      rw [overtake, overtake_of_txo_eq hboth, ← Cell.steps_append]
      refine ⟨?_, Update.lists_steps htxo (us ++ vs)⟩
      rw [Update.steps_txo, htxo]
      rfl
    · obtain ⟨hx, hrec⟩ := Update.not_writes_iff.mp hu
      have hrest : ∃ w ∈ us, w.Writes x.txo := by
        obtain ⟨w, hw, hwrites⟩ := h
        rcases List.mem_cons.mp hw with rfl | hw
        · exact absurd hwrites hu
        · exact ⟨w, hw, hwrites⟩
      have hrecords : Update.records (u :: us ++ vs) x.txo = Update.records (us ++ vs) x.txo := by
        change Update.records (us ++ vs) (u.record x.txo) = _
        rw [hrec, hx]
      have hcovers : ∀ e, Covers e (u :: us ++ vs) x.txo ↔ Covers e (us ++ vs) x.txo := by
        intro e
        rw [List.cons_append, Covers, hrec, hx]
        simp [ListedBy]
      rw [overtake, Update.cell_of_not_writes hu, Update.cell_of_not_writes hu, hrecords]
      simp only [hcovers]
      exact ih hrest y

end UtxoMonitor
