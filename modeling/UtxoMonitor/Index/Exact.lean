import UtxoMonitor.Index.Query

/-! Runs of the index, and the invariant that ties its unspent and unit tables to the txo table. -/
namespace UtxoMonitor

open Lib

/-- The record stored for an output. -/
def storedTxo (db : RocksDB) (o : OutputRef) : Option TxoRecord := (cellOf db o).txo

/-- The unspent and unit entries of an output are those its record calls for. -/
structure Cell.Exact (x : Cell) : Prop where
  unspent : ∀ k c, x.unspent k c ↔
    ∃ r, x.txo = some r ∧ r.spent = false ∧ (k, c) ∈ r.output.credentials
  units : ∀ u, x.units u ↔ ∃ r, x.txo = some r ∧ r.spent = false ∧ u ∈ outputUnits r.output

namespace Update

theorem cell_txo (u : Update) (x : Cell) : (u.cell x.txo x).txo = u.record x.txo := by
  unfold cell
  cases hr : u.record x.txo with
  | some r => rfl
  | none =>
    cases hx : x.txo with
    | some r => rfl
    | none => simp [Cell.removeFound, hx]

theorem steps_txo (us : List Update) (x : Cell) :
    (x.steps us).txo = us.foldl (fun r u => u.record r) x.txo := by
  induction us generalizing x with
  | nil => rfl
  | cons u us ih =>
    change ((u.cell x.txo x).steps us).txo = _
    rw [ih, cell_txo]
    rfl

end Update

namespace Cell.Exact

theorem removeFound {x : Cell} (h : x.Exact) :
    (∀ k c, ¬ (x.removeFound x.txo).unspent k c) ∧ ∀ u, ¬ (x.removeFound x.txo).units u := by
  cases hx : x.txo with
  | none =>
    constructor
    · intro k c hu
      obtain ⟨r, hr, -⟩ := (h.unspent k c).mp hu
      simp [hx] at hr
    · intro u hu
      obtain ⟨r, hr, -⟩ := (h.units u).mp hu
      simp [hx] at hr
  | some r =>
    constructor
    · intro k c hu
      obtain ⟨hu, hn⟩ := hu
      obtain ⟨r', hr, -, hm⟩ := (h.unspent k c).mp hu
      obtain rfl : r = r' := by simpa [hx] using hr
      exact hn hm
    · intro u hu
      obtain ⟨hu, hn⟩ := hu
      obtain ⟨r', hr, -, hm⟩ := (h.units u).mp hu
      obtain rfl : r = r' := by simpa [hx] using hr
      exact hn hm

theorem update {x : Cell} (h : x.Exact) (u : Update) : (u.cell x.txo x).Exact := by
  have htxo := u.cell_txo x
  obtain ⟨hun, hui⟩ := h.removeFound
  unfold Update.cell at htxo ⊢
  cases hr : u.record x.txo with
  | none =>
    simp only [hr] at htxo ⊢
    exact ⟨by simp [htxo, hun], by simp [htxo, hui]⟩
  | some r =>
    simp only [Cell.write, Cell.writeSecondaryIndexes]
    exact ⟨by simp [hun, and_comm], by simp [hui]⟩

theorem steps {x : Cell} (h : x.Exact) (us : List Update) : (x.steps us).Exact := by
  induction us generalizing x with
  | nil => exact h
  | cons u us ih => exact ih (h.update u)

end Cell.Exact

/-- The invariant of the index. -/
structure Consistent (db : RocksDB) : Prop where
  shaped : Shaped db
  exact : ∀ o, (cellOf db o).Exact

theorem Consistent.empty : Consistent RocksDB.empty where
  shaped := Shaped.empty
  exact o := by constructor <;> simp [cellOf, RocksDB.empty]

theorem Consistent.runUpdates {db : RocksDB} (h : Consistent db)
    (us : List (OutputRef × Update)) : Consistent (runUpdates us db) where
  shaped := h.shaped.runUpdates us
  exact o := by
    rw [cellOf_runUpdates]
    exact (h.exact o).steps _

/-! ### The backfill of the unit table -/

theorem mem_foldl_put {X : Type} (rows : List X) (cf : Cf) (f : X → Bytes) (v : Stored)
    (db : RocksDB) (cf' : Cf) (key : Bytes) :
    key ∈ rows.foldl (fun db x => db.put cf (f x) v) db cf' ↔
      (cf' = cf ∧ ∃ x ∈ rows, key = f x) ∨ key ∈ db cf' := by
  induction rows generalizing db with
  | nil => simp
  | cons x rows ih =>
    rw [List.foldl_cons, ih, Db.mem_put]
    simp only [List.mem_cons, exists_eq_or_imp, and_or_left, or_assoc]
    exact or_left_comm

theorem foldl_put_other {X : Type} (rows : List X) {cf cf' : Cf} (f : X → Bytes) (v : Stored)
    (db : RocksDB) (h : cf' ≠ cf) :
    rows.foldl (fun db x => db.put cf (f x) v) db cf' = db cf' := by
  induction rows generalizing db with
  | nil => rfl
  | cons x rows ih => rw [List.foldl_cons, ih, Db.put_other _ _ _ h]

theorem Shaped.foldl_put {X : Type} {rows : List X} {cf : Cf} {f : X → Bytes} {v : Stored}
    {db : RocksDB} (hs : Shaped db) (hr : ∀ x ∈ rows, RowShape cf (f x) v) :
    Shaped (rows.foldl (fun db x => db.put cf (f x) v) db) := by
  induction rows generalizing db with
  | nil => exact hs
  | cons x rows ih =>
    exact ih (hs.put (hr x List.mem_cons_self)) fun y hy => hr y (List.mem_cons_of_mem _ hy)

/-- Every record of the txo table lies under the key of an output. -/
def OutputKeyed (db : RocksDB) : Prop :=
  ∀ key r, readTxo db key = some r → ∃ o, key = utxoKey o

theorem Shaped.outputKeyed {db : RocksDB} (hs : Shaped db) : OutputKeyed db := by
  intro key r h
  obtain ⟨o, -, rfl, -⟩ := hs _ _ _ (Option.join_eq_some_iff.mp h)
  exact ⟨o, rfl⟩

/-- A stored unspent output has the unit `u`. -/
def HasUnit (db : RocksDB) (u : Bytes) (o : OutputRef) : Prop :=
  ∃ r, storedTxo db o = some r ∧ r.spent = false ∧ u ∈ outputUnits r.output

theorem mem_backfillRows {db : RocksDB} (hk : OutputKeyed db) {p key : Bytes}
    (hp : toAsciiLowercase p = p) :
    (∃ row ∈ backfillRows db p, key = row.1) ↔ ∃ o, key = utxoKey o ∧ HasUnit db p o := by
  have hrow : ∀ {row : Bytes × Stored}, row ∈ backfillRows db p ↔ (db .txo)[row.1]? = some row.2 ∧
      ∃ r, row.2 = some r ∧ r.spent = false ∧ p ∈ outputUnits r.output := by
    rintro ⟨key, v⟩
    simp only [backfillRows, List.mem_filter, Std.ExtTreeMap.mem_toList_iff_getElem?_eq_some,
      Option.any_eq_true, Bool.and_eq_true, Bool.not_eq_true', outputContainsUnit_iff, hp]
  constructor
  · rintro ⟨⟨key, v⟩, hmem, rfl⟩
    obtain ⟨hget, r, rfl, hsp, hu⟩ := hrow.mp hmem
    have hread : readTxo db key = some r := Option.join_eq_some_iff.mpr hget
    obtain ⟨o, rfl⟩ := hk _ _ hread
    exact ⟨o, rfl, r, hread, hsp, hu⟩
  · rintro ⟨o, rfl, r, hr, hsp, hu⟩
    exact ⟨(utxoKey o, some r), hrow.mpr ⟨Option.join_eq_some_iff.mp hr, r, rfl, hsp, hu⟩, rfl⟩

section Backfill

variable (p : Bytes) (found : List (Bytes × Stored)) (db : RocksDB)

theorem backfill_other (cf : Cf) (h : cf ≠ .unitUnspent) :
    (backfill p found).run db cf = db cf := by
  simp only [backfill, TxProg.bind_eq, TxProg.run_bind, TxProg.run_forM]
  split
  · rw [TxProg.run_deleteCf, Db.delete_other _ _ h]
    exact foldl_put_other found _ none db h
  · rw [TxProg.run_putCf, Db.put_other _ _ _ h]
    exact foldl_put_other found _ none db h

theorem mem_backfill {key : Bytes} (hkey : ¬ IsSentinelKey key) :
    key ∈ (backfill p found).run db .unitUnspent ↔
      (∃ row ∈ found, key = p ++ row.1) ∨ key ∈ db .unitUnspent := by
  have hne : key ≠ unitIndexSentinelKey p := fun he => hkey ⟨p, he⟩
  simp only [backfill, TxProg.bind_eq, TxProg.run_bind, TxProg.run_forM, unitIndexKeyPrefix]
  split
  · rw [TxProg.run_deleteCf, Db.mem_delete]
    simpa [hne] using
      mem_foldl_put found .unitUnspent (fun row => p ++ row.1) none db .unitUnspent key
  · rw [TxProg.run_putCf, Db.mem_put]
    simpa [hne] using
      mem_foldl_put found .unitUnspent (fun row => p ++ row.1) none db .unitUnspent key

theorem Shaped.backfill {p : Bytes} {found : List (Bytes × Stored)} {db : RocksDB}
    (hs : Shaped db) (hf : ∀ row ∈ found, ∃ o, row.1 = utxoKey o) :
    Shaped ((backfill p found).run db) := by
  have hput : Shaped (found.foldl (fun db row => db.put .unitUnspent (p ++ row.1) none) db) := by
    apply hs.foldl_put
    intro row hrow
    obtain ⟨o, ho⟩ := hf row hrow
    exact ⟨Or.inl ⟨p, o, by rw [ho]; rfl⟩, rfl⟩
  simp only [UtxoMonitor.backfill, TxProg.bind_eq, TxProg.run_bind, TxProg.run_forM]
  split
  · exact hput.delete _ _
  · exact hput.put ⟨Or.inr ⟨p, rfl⟩, rfl⟩

end Backfill

/-- Where the index is consistent, the backfill adds nothing but its marker. -/
theorem cellOf_ensureUnitIndex {db : RocksDB} (h : Consistent db) {p : Bytes}
    (hp : toAsciiLowercase p = p) (o : OutputRef) :
    cellOf (ensureUnitIndex db p) o = cellOf db o := by
  simp only [ensureUnitIndex]
  split
  · rfl
  have hentry : ∀ u, (∃ row ∈ backfillRows db p, unitIndexEntryKey u o = p ++ row.1) →
      unitIndexEntryKey u o ∈ db .unitUnspent := by
    rintro u ⟨row, hrow, heq⟩
    obtain ⟨o', ho, hunit⟩ := (mem_backfillRows h.shaped.outputKeyed hp).mp ⟨row, hrow, rfl⟩
    rw [ho] at heq
    obtain ⟨rfl, rfl⟩ := unitIndexEntryKey_inj.mp (show _ = unitIndexEntryKey p o' from heq)
    exact ((h.exact o).units u).mpr hunit
  refine Cell.ext ?_ ?_ ?_ ?_
  · simp only [cellOf, backfill_other p _ db .txo (by simp)]
  · funext k c s
    simp only [cellOf, backfill_other p _ db (.events k) (by simp)]
  · funext k c
    simp only [cellOf, backfill_other p _ db (.unspent k) (by simp)]
  · funext u
    simp only [cellOf, mem_backfill p _ db (not_isSentinelKey_entry u o)]
    exact propext (or_iff_right_of_imp (hentry u))

theorem Shaped.ensureUnitIndex {db : RocksDB} (hs : Shaped db) {p : Bytes}
    (hp : toAsciiLowercase p = p) : Shaped (ensureUnitIndex db p) := by
  simp only [UtxoMonitor.ensureUnitIndex]
  split
  · exact hs
  · apply hs.backfill
    intro row hrow
    obtain ⟨o, ho, -⟩ := (mem_backfillRows hs.outputKeyed hp).mp ⟨row, hrow, rfl⟩
    exact ⟨o, ho⟩

theorem Consistent.ensureUnitIndex {db : RocksDB} (h : Consistent db) {p : Bytes}
    (hp : toAsciiLowercase p = p) : Consistent (ensureUnitIndex db p) where
  shaped := h.shaped.ensureUnitIndex hp
  exact o := by
    rw [cellOf_ensureUnitIndex h hp]
    exact h.exact o

theorem cellOf_prepareQuery {db : RocksDB} (h : Consistent db)
    (scope : Option (Credential × CredentialKind)) (query : TxoQuery) (limit : Nat)
    (o : OutputRef) : cellOf (prepareQuery db scope query limit) o = cellOf db o := by
  unfold prepareQuery
  split
  · rfl
  · split
    · exact cellOf_ensureUnitIndex h (toAsciiLowercase_idem _) o
    · rfl

theorem Consistent.prepareQuery {db : RocksDB} (h : Consistent db)
    (scope : Option (Credential × CredentialKind)) (query : TxoQuery) (limit : Nat) :
    Consistent (prepareQuery db scope query limit) := by
  unfold UtxoMonitor.prepareQuery
  split
  · exact h
  · split
    · exact h.ensureUnitIndex (toAsciiLowercase_idem _)
    · exact h

/-! ### Runs -/

/-- A call on the index. -/
inductive Call where
  | apply (txHash : TransactionHash) (inputs : List OutputRef)
      (outputs : List (UInt64 × TransactionOutput)) (settledAt : Option Slot)
  | unapply (txHash : TransactionHash) (inputs : List OutputRef)
      (outputs : List (UInt64 × TransactionOutput))
  | getUtxos (scope : Option (Credential × CredentialKind)) (query : TxoQuery)
      (offset limit : Nat)

def Call.run (db : RocksDB) : Call → RocksDB
  | .apply txHash inputs outputs settledAt =>
    (UtxoMonitor.apply txHash inputs outputs settledAt).run db
  | .unapply txHash inputs outputs => (UtxoMonitor.unapply txHash inputs outputs).run db
  | .getUtxos scope query offset limit => (UtxoMonitor.getUtxos db scope query offset limit).1

/-- The database after a run that starts on the empty one. -/
def runCalls (calls : List Call) : RocksDB := calls.foldl Call.run RocksDB.empty

theorem getUtxos_fst (db : RocksDB) (scope : Option (Credential × CredentialKind))
    (query : TxoQuery) (offset limit : Nat) :
    (getUtxos db scope query offset limit).1 = prepareQuery db scope query limit := by
  by_cases h : limit = 0 <;> simp [getUtxos, prepareQuery, h]

theorem Consistent.call {db : RocksDB} (h : Consistent db) (call : Call) :
    Consistent (call.run db) := by
  cases call with
  | apply txHash inputs outputs settledAt =>
    rw [Call.run, run_apply]
    exact h.runUpdates _
  | unapply txHash inputs outputs =>
    rw [Call.run, run_unapply]
    exact h.runUpdates _
  | getUtxos scope query offset limit =>
    rw [Call.run, getUtxos_fst]
    exact h.prepareQuery scope query limit

/-- The invariant holds after every run. -/
theorem consistent_runCalls (calls : List Call) : Consistent (runCalls calls) := by
  have hrun : ∀ db, Consistent db → Consistent (calls.foldl Call.run db) := by
    induction calls with
    | nil => exact fun _ h => h
    | cons call calls ih => exact fun db h => ih _ (h.call call)
  exact hrun _ Consistent.empty

end UtxoMonitor
