import UtxoMonitor.Index.Store

/-! What the six tables say about one output, and the effect of every update on it. An update of
an output touches the cell of that output and no other. -/
namespace UtxoMonitor

open Lib

/-- The entries of all tables that belong to one output. -/
@[ext]
structure Cell where
  txo : Option TxoRecord
  events : CredentialKind → Credential → Slot → Prop
  unspent : CredentialKind → Credential → Prop
  units : Bytes → Prop

def cellOf (db : RocksDB) (o : OutputRef) : Cell where
  txo := (db .txo)[utxoKey o]?.join
  events := fun k c s => credentialToUtxoAllKey c (some s) o ∈ db (.events k)
  unspent := fun k c => credentialToUtxoUnspentKey c o ∈ db (.unspent k)
  units := fun u => unitIndexEntryKey u o ∈ db .unitUnspent

def HasSentinel (db : RocksDB) (pre : Bytes) : Prop :=
  unitIndexSentinelKey pre ∈ db .unitUnspent

/-- The key and the value of a row are of the kind its table holds. -/
def RowShape : Cf → Bytes → Stored → Prop
  | .txo, key, v => ∃ o r, key = utxoKey o ∧ v = some r
  | .events _, key, v => (∃ c s o, key = credentialToUtxoAllKey c (some s) o) ∧ v = none
  | .unspent _, key, v => (∃ c o, key = credentialToUtxoUnspentKey c o) ∧ v = none
  | .unitUnspent, key, v => ((∃ u o, key = unitIndexEntryKey u o) ∨ IsSentinelKey key) ∧ v = none

def Shaped (db : RocksDB) : Prop := ∀ cf key v, (db cf)[key]? = some v → RowShape cf key v

theorem Shaped.empty : Shaped RocksDB.empty := by
  intro cf key v h
  simp [RocksDB.empty] at h

theorem Shaped.put {db : RocksDB} (hs : Shaped db) {cf : Cf} {key : Bytes} {v : Stored}
    (hr : RowShape cf key v) : Shaped (db.put cf key v) := by
  intro cf' key' v' h
  rw [Db.getElem?_put] at h
  split at h
  · rename_i he
    obtain ⟨rfl, rfl⟩ := he
    cases h
    exact hr
  · exact hs _ _ _ h

theorem Shaped.delete {db : RocksDB} (hs : Shaped db) (cf : Cf) (key : Bytes) :
    Shaped (db.delete cf key) := by
  intro cf' key' v' h
  rw [Db.getElem?_delete] at h
  split at h
  · cases h
  · exact hs _ _ _ h

/-- Running `p` turns the cell of `o` by `g`, drops the sentinels in `cleared`, and leaves every
other cell alone. -/
structure Acts (p : Tx Unit) (o : OutputRef) (g : Cell → Cell) (cleared : Bytes → Prop) :
    Prop where
  own : ∀ db, cellOf (p.run db) o = g (cellOf db o)
  frame : ∀ db o', o' ≠ o → cellOf (p.run db) o' = cellOf db o'
  sentinel : ∀ db pre, HasSentinel (p.run db) pre ↔ HasSentinel db pre ∧ ¬ cleared pre
  shaped : ∀ db, Shaped db → Shaped (p.run db)

namespace Acts

variable {p q : Tx Unit} {o : OutputRef} {g h : Cell → Cell} {cl cl' : Bytes → Prop}

theorem done : Acts (pure ()) o id (fun _ => False) where
  own _ := rfl
  frame _ _ _ := rfl
  sentinel _ _ := by simp
  shaped _ hs := hs

theorem seq (hp : Acts p o g cl) (hq : Acts q o h cl') :
    Acts (p.bind fun _ => q) o (h ∘ g) (fun pre => cl pre ∨ cl' pre) where
  own db := by rw [TxProg.run_bind, hq.own, hp.own]; rfl
  frame db o' ho := by rw [TxProg.run_bind, hq.frame _ _ ho, hp.frame _ _ ho]
  sentinel db pre := by rw [TxProg.run_bind, hq.sentinel, hp.sentinel]; grind
  shaped db hs := by rw [TxProg.run_bind]; exact hq.shaped _ (hp.shaped _ hs)

theorem congr (hp : Acts p o g cl) (hg : g = h) (hc : ∀ pre, cl pre ↔ cl' pre) :
    Acts p o h cl' := by
  subst hg
  obtain rfl : cl = cl' := funext fun pre => propext (hc pre)
  exact hp

theorem of_run_eq (hq : Acts q o g cl) (h : ∀ db, p.run db = q.run db) : Acts p o g cl where
  own db := by rw [h, hq.own]
  frame db o' ho := by rw [h, hq.frame _ _ ho]
  sentinel db pre := by rw [h, hq.sentinel]
  shaped db hs := by rw [h]; exact hq.shaped _ hs

theorem forM {X : Type} {xs : List X} {f : X → Tx Unit} {g : X → Cell → Cell}
    {cl : X → Bytes → Prop} (hf : ∀ x, Acts (f x) o (g x) (cl x)) :
    Acts (xs.forM f) o (fun c => xs.foldl (fun c x => g x c) c)
      (fun pre => ∃ x ∈ xs, cl x pre) := by
  induction xs with
  | nil => exact done.congr rfl (by simp)
  | cons x xs ih => exact ((hf x).seq ih).congr rfl (by simp)

end Acts

/-! ### Single writes -/

section Writes

variable (o : OutputRef) (k : CredentialKind) (c : Credential) (s : Option Slot) (u : Bytes)

theorem allKey_eventSlot (c : Credential) (s : Option Slot) (o : OutputRef) :
    credentialToUtxoAllKey c s o = credentialToUtxoAllKey c (some (eventSlot s)) o :=
  credentialToUtxoAllKey_inj.mpr ⟨rfl, rfl, rfl⟩

theorem acts_putEvents :
    Acts (TxProg.putCf (.events k) (credentialToUtxoAllKey c s o) none) o
      (fun x => { x with events := fun k' c' t =>
        (k' = k ∧ c' = c ∧ t = eventSlot s) ∨ x.events k' c' t }) (fun _ => False) where
  own db := by
    ext <;> simp [cellOf, Db.mem_put, Db.getElem?_put, credentialToUtxoAllKey_inj, eventSlot]
  frame db o' ho := by
    ext <;> simp [cellOf, Db.mem_put, Db.getElem?_put, credentialToUtxoAllKey_inj, ho]
  sentinel db pre := by simp [HasSentinel, Db.mem_put]
  shaped db hs := hs.put ⟨⟨c, _, o, allKey_eventSlot c s o⟩, rfl⟩

theorem acts_deleteEvents :
    Acts (TxProg.deleteCf (.events k) (credentialToUtxoAllKey c s o)) o
      (fun x => { x with events := fun k' c' t =>
        ¬ (k' = k ∧ c' = c ∧ t = eventSlot s) ∧ x.events k' c' t }) (fun _ => False) where
  own db := by
    ext <;> simp [cellOf, Db.mem_delete, Db.getElem?_delete, credentialToUtxoAllKey_inj, eventSlot]
  frame db o' ho := by
    ext <;> simp [cellOf, Db.mem_delete, Db.getElem?_delete, credentialToUtxoAllKey_inj, ho]
  sentinel db pre := by simp [HasSentinel, Db.mem_delete]
  shaped db hs := hs.delete _ _

theorem acts_putUnspent :
    Acts (TxProg.putCf (.unspent k) (credentialToUtxoUnspentKey c o) none) o
      (fun x => { x with unspent := fun k' c' => (k' = k ∧ c' = c) ∨ x.unspent k' c' })
      (fun _ => False) where
  own db := by
    ext <;> simp [cellOf, Db.mem_put, Db.getElem?_put, credentialToUtxoUnspentKey_inj]
  frame db o' ho := by
    ext <;> simp [cellOf, Db.mem_put, Db.getElem?_put, credentialToUtxoUnspentKey_inj, ho]
  sentinel db pre := by simp [HasSentinel, Db.mem_put]
  shaped db hs := hs.put ⟨⟨c, o, rfl⟩, rfl⟩

theorem acts_deleteUnspent :
    Acts (TxProg.deleteCf (.unspent k) (credentialToUtxoUnspentKey c o)) o
      (fun x => { x with unspent := fun k' c' => ¬ (k' = k ∧ c' = c) ∧ x.unspent k' c' })
      (fun _ => False) where
  own db := by
    ext <;> simp [cellOf, Db.mem_delete, Db.getElem?_delete, credentialToUtxoUnspentKey_inj]
  frame db o' ho := by
    ext <;> simp [cellOf, Db.mem_delete, Db.getElem?_delete, credentialToUtxoUnspentKey_inj, ho]
  sentinel db pre := by simp [HasSentinel, Db.mem_delete]
  shaped db hs := hs.delete _ _

theorem sentinelKey_ne_entryKey (pre u : Bytes) (o : OutputRef) :
    unitIndexSentinelKey pre ≠ unitIndexEntryKey u o :=
  fun h => not_isSentinelKey_entry u o ⟨pre, h.symm⟩

theorem acts_putUnit :
    Acts (TxProg.putCf .unitUnspent (unitIndexEntryKey u o) none) o
      (fun x => { x with units := fun v => v = u ∨ x.units v }) (fun _ => False) where
  own db := by
    ext <;> simp [cellOf, Db.mem_put, Db.getElem?_put, unitIndexEntryKey_inj]
  frame db o' ho := by
    ext <;> simp [cellOf, Db.mem_put, Db.getElem?_put, unitIndexEntryKey_inj, ho]
  sentinel db pre := by simp [HasSentinel, Db.mem_put, sentinelKey_ne_entryKey]
  shaped db hs := hs.put ⟨Or.inl ⟨u, o, rfl⟩, rfl⟩

theorem acts_deleteUnit :
    Acts (TxProg.deleteCf .unitUnspent (unitIndexEntryKey u o)) o
      (fun x => { x with units := fun v => ¬ v = u ∧ x.units v }) (fun _ => False) where
  own db := by
    ext <;> simp [cellOf, Db.mem_delete, Db.getElem?_delete, unitIndexEntryKey_inj]
  frame db o' ho := by
    ext <;> simp [cellOf, Db.mem_delete, Db.getElem?_delete, unitIndexEntryKey_inj, ho]
  sentinel db pre := by simp [HasSentinel, Db.mem_delete, sentinelKey_ne_entryKey]
  shaped db hs := hs.delete _ _

theorem acts_deleteSentinel :
    Acts (TxProg.deleteCf .unitUnspent (unitIndexSentinelKey u)) o id (fun pre => pre = u) where
  own db := by
    ext <;> simp [cellOf, Db.mem_delete, Db.getElem?_delete, (sentinelKey_ne_entryKey _ _ _).symm]
  frame db o' ho := by
    ext <;> simp [cellOf, Db.mem_delete, Db.getElem?_delete, (sentinelKey_ne_entryKey _ _ _).symm]
  sentinel db pre := by
    simp only [HasSentinel, TxProg.run_deleteCf, Db.mem_delete, true_and, unitIndexSentinelKey_inj]
    exact and_comm
  shaped db hs := hs.delete _ _

theorem acts_putTxo (r : TxoRecord) :
    Acts (TxProg.putCf .txo (utxoKey o) (some r)) o (fun x => { x with txo := some r })
      (fun _ => False) where
  own db := by
    refine Cell.ext ?_ ?_ ?_ ?_
    · simp only [cellOf, TxProg.run_putCf, Db.getElem?_put, and_self, if_true, Option.join_some]
    all_goals funext; simp [cellOf, Db.mem_put]
  frame db o' ho := by
    ext <;> simp [cellOf, Db.mem_put, Db.getElem?_put, ho]
  sentinel db pre := by simp [HasSentinel, Db.mem_put]
  shaped db hs := hs.put ⟨o, r, rfl, rfl⟩

theorem acts_deleteTxo :
    Acts (TxProg.deleteCf .txo (utxoKey o)) o (fun x => { x with txo := none })
      (fun _ => False) where
  own db := by
    ext <;> simp [cellOf, Db.mem_delete]
  frame db o' ho := by
    ext <;> simp [cellOf, Db.mem_delete, Db.getElem?_delete, ho]
  sentinel db pre := by simp [HasSentinel, Db.mem_delete]
  shaped db hs := hs.delete _ _

end Writes

/-! ### Loops over credentials and units -/

section Loops

variable (o : OutputRef)

abbrev Credentials := List (CredentialKind × Credential)

/-- The cell without the index entries of `creds` at `slot`. -/
def Cell.deleteIndexes (x : Cell) (creds : Credentials) (slot : Option Slot) : Cell :=
  { x with
    events := fun k c t => x.events k c t ∧ ¬ ((k, c) ∈ creds ∧ t = eventSlot slot)
    unspent := fun k c => x.unspent k c ∧ (k, c) ∉ creds }

/-- The cell with the index entries of `creds` at `slot`. -/
def Cell.writeSecondaryIndexes (x : Cell) (creds : Credentials) (slot : Option Slot)
    (spent : Bool) : Cell :=
  { x with
    events := fun k c t => x.events k c t ∨ ((k, c) ∈ creds ∧ t = eventSlot slot)
    unspent := fun k c => x.unspent k c ∨ ((k, c) ∈ creds ∧ spent = false) }

theorem acts_deleteIndexes_one (kc : CredentialKind × Credential) (slot : Option Slot) :
    Acts (deleteIndexes kc.1 kc.2 slot o) o (fun x => x.deleteIndexes [kc] slot)
      (fun _ => False) := by
  refine ((acts_deleteEvents o kc.1 kc.2 slot).seq (acts_deleteUnspent o kc.1 kc.2)).congr ?_
    (by simp)
  funext x
  ext k c t <;> simp [Cell.deleteIndexes, Prod.ext_iff] <;> grind

theorem acts_writeIndexes_one (kc : CredentialKind × Credential) (slot : Option Slot)
    (spent : Bool) :
    Acts (writeSecondaryIndexes kc.1 kc.2 o slot spent) o
      (fun x => x.writeSecondaryIndexes [kc] slot spent) (fun _ => False) := by
  cases spent with
  | false =>
    refine ((acts_putEvents o kc.1 kc.2 slot).seq (acts_putUnspent o kc.1 kc.2)).congr ?_ (by simp)
    funext x
    ext k c t <;> simp [Cell.writeSecondaryIndexes, Prod.ext_iff] <;> grind
  | true =>
    refine ((acts_putEvents o kc.1 kc.2 slot).seq Acts.done).congr ?_ (by simp)
    funext x
    ext k c t <;> simp [Cell.writeSecondaryIndexes, Prod.ext_iff]
    grind

theorem acts_deleteIndexes (creds : Credentials) (slot : Option Slot) :
    Acts (creds.forM fun (k, c) => deleteIndexes k c slot o) o
      (fun x => x.deleteIndexes creds slot) (fun _ => False) := by
  refine (Acts.forM fun kc => acts_deleteIndexes_one o kc slot).congr ?_ (by simp)
  funext x
  induction creds generalizing x with
  | nil => simp [Cell.deleteIndexes]
  | cons kc creds ih =>
    rw [List.foldl_cons, ih]
    ext k c t <;> simp [Cell.deleteIndexes] <;> grind

theorem acts_writeIndexes (creds : Credentials) (slot : Option Slot) (spent : Bool) :
    Acts (creds.forM fun (k, c) => writeSecondaryIndexes k c o slot spent) o
      (fun x => x.writeSecondaryIndexes creds slot spent) (fun _ => False) := by
  refine (Acts.forM fun kc => acts_writeIndexes_one o kc slot spent).congr ?_ (by simp)
  funext x
  induction creds generalizing x with
  | nil => simp [Cell.writeSecondaryIndexes]
  | cons kc creds ih =>
    rw [List.foldl_cons, ih]
    ext k c t <;> simp [Cell.writeSecondaryIndexes] <;> grind

/-- The loop of `updateTxoByRef`, which deletes and writes one credential at a time. -/
theorem acts_rewriteIndexes (creds : Credentials) (old new : Option Slot) (spent : Bool) :
    Acts (creds.forM fun (k, c) => do
        deleteIndexes k c old o
        writeSecondaryIndexes k c o new spent) o
      (fun x => (x.deleteIndexes creds old).writeSecondaryIndexes creds new spent)
      (fun _ => False) := by
  refine (Acts.forM fun kc => (acts_deleteIndexes_one o kc old).seq
    (acts_writeIndexes_one o kc new spent)).congr ?_ (by simp)
  funext x
  induction creds generalizing x with
  | nil => simp [Cell.writeSecondaryIndexes, Cell.deleteIndexes]
  | cons kc creds ih =>
    rw [List.foldl_cons, ih]
    ext k c t <;> simp [Cell.writeSecondaryIndexes, Cell.deleteIndexes] <;> grind

theorem acts_writeUnitIndexes (output : TransactionOutput) :
    Acts (writeUnitIndexes output o) o
      (fun x => { x with units := fun u => x.units u ∨ u ∈ outputUnits output })
      (fun pre => pre ∈ outputUnits output) := by
  refine (Acts.forM fun u => (acts_deleteSentinel o u).seq (acts_putUnit o u)).congr ?_ (by simp)
  funext x
  induction outputUnits output generalizing x with
  | nil => simp
  | cons u us ih =>
    rw [List.foldl_cons, ih]
    ext v <;> simp
    grind

theorem acts_deleteUnitIndexes (output : TransactionOutput) :
    Acts (deleteUnitIndexes output o) o
      (fun x => { x with units := fun u => x.units u ∧ u ∉ outputUnits output })
      (fun _ => False) := by
  refine (Acts.forM fun u => acts_deleteUnit o u).congr ?_ (by simp)
  funext x
  induction outputUnits output generalizing x with
  | nil => simp
  | cons u us ih =>
    rw [List.foldl_cons, ih]
    ext v <;> simp
    grind

end Loops

end UtxoMonitor
