import UtxoMonitor.Index.Unspent

/-! The records decide the txo table, the unspent tables and, its markers aside, the unit table. -/
namespace UtxoMonitor

open Lib

/-- The txo and unspent tables agree, and the unit tables agree on all keys but the markers. -/
structure SameTables (db db' : RocksDB) : Prop where
  txo : db .txo = db' .txo
  unspent : ∀ k, db (.unspent k) = db' (.unspent k)
  units : ∀ key, ¬ IsSentinelKey key → (db .unitUnspent)[key]? = (db' .unitUnspent)[key]?

theorem getElem?_txo_eq_some {db : RocksDB} {o : OutputRef} {r : TxoRecord} :
    (db .txo)[utxoKey o]? = some (some r) ↔ storedTxo db o = some r := by
  simp [storedTxo, cellOf, Option.join_eq_some_iff]

section Ext

variable {db db' : RocksDB}

theorem Shaped.table_ext (hs : Shaped db) (hs' : Shaped db') {cf : Cf}
    (h : ∀ key v, RowShape cf key v → ((db cf)[key]? = some v ↔ (db' cf)[key]? = some v)) :
    db cf = db' cf := by
  refine Std.ExtTreeMap.ext_getElem? fun {key} => Option.ext ?_
  intro v
  constructor
  · intro hv
    exact (h key v (hs _ _ _ hv)).mp hv
  · intro hv
    exact (h key v (hs' _ _ _ hv)).mpr hv

/-- A row without a value is there when its key is. -/
theorem Shaped.getElem?_eq_some (hs : Shaped db) {cf : Cf} (hcf : cf ≠ .txo) {key : Bytes}
    {v : Stored} (hv : v = none) : (db cf)[key]? = some v ↔ key ∈ db cf := by
  subst hv
  rw [Std.ExtTreeMap.mem_iff_isSome_getElem?, Option.isSome_iff_exists]
  constructor
  · intro h
    exact ⟨_, h⟩
  · rintro ⟨v, hv⟩
    have hshape := hs _ _ _ hv
    cases cf with
    | txo => exact absurd rfl hcf
    | _ => exact hshape.2 ▸ hv

theorem Shaped.txo_ext (hs : Shaped db) (hs' : Shaped db')
    (h : ∀ o, storedTxo db o = storedTxo db' o) : db .txo = db' .txo := by
  apply hs.table_ext hs'
  rintro key v ⟨o, r, rfl, rfl⟩
  rw [getElem?_txo_eq_some, getElem?_txo_eq_some, h]

theorem Shaped.events_ext (hs : Shaped db) (hs' : Shaped db') {k : CredentialKind}
    (h : ∀ o c s, (cellOf db o).events k c s ↔ (cellOf db' o).events k c s) :
    db (.events k) = db' (.events k) := by
  apply hs.table_ext hs'
  rintro key v ⟨⟨c, s, o, rfl⟩, rfl⟩
  rw [hs.getElem?_eq_some (by simp) rfl, hs'.getElem?_eq_some (by simp) rfl]
  exact h o c s

theorem Shaped.unspent_ext (hs : Shaped db) (hs' : Shaped db') {k : CredentialKind}
    (h : ∀ o c, (cellOf db o).unspent k c ↔ (cellOf db' o).unspent k c) :
    db (.unspent k) = db' (.unspent k) := by
  apply hs.table_ext hs'
  rintro key v ⟨⟨c, o, rfl⟩, rfl⟩
  rw [hs.getElem?_eq_some (by simp) rfl, hs'.getElem?_eq_some (by simp) rfl]
  exact h o c

theorem Shaped.units_agree (hs : Shaped db) (hs' : Shaped db')
    (h : ∀ o u, (cellOf db o).units u ↔ (cellOf db' o).units u) {key : Bytes}
    (hn : ¬ IsSentinelKey key) : (db .unitUnspent)[key]? = (db' .unitUnspent)[key]? := by
  have hmem : key ∈ db .unitUnspent ↔ key ∈ db' .unitUnspent := by
    constructor
    · intro hk
      obtain ⟨u, o, rfl⟩ := hs.unit_key hk hn
      exact (h o u).mp hk
    · intro hk
      obtain ⟨u, o, rfl⟩ := hs'.unit_key hk hn
      exact (h o u).mpr hk
  by_cases hk : key ∈ db .unitUnspent
  · rw [(hs.getElem?_eq_some (by simp) rfl).mpr hk,
      (hs'.getElem?_eq_some (by simp) rfl).mpr (hmem.mp hk)]
  · rw [Std.ExtTreeMap.getElem?_eq_none hk, Std.ExtTreeMap.getElem?_eq_none (hmem.not.mp hk)]

/-- Without markers the whole unit tables agree. -/
theorem SameTables.unitUnspent_eq (h : SameTables db db') (hn : ∀ pre, ¬ HasSentinel db pre)
    (hn' : ∀ pre, ¬ HasSentinel db' pre) : db .unitUnspent = db' .unitUnspent := by
  refine Std.ExtTreeMap.ext_getElem? fun {key} => ?_
  by_cases hk : IsSentinelKey key
  · obtain ⟨pre, rfl⟩ := hk
    rw [Std.ExtTreeMap.getElem?_eq_none (hn pre), Std.ExtTreeMap.getElem?_eq_none (hn' pre)]
  · exact h.units key hk

end Ext

/-! ### Cells that list the same -/

/-- An entry of the unspent tables or of the unit table, without the output it names. -/
inductive IndexEntry where
  | credential (kind : CredentialKind) (credential : Credential)
  | unit (unit : Bytes)

def Cell.lists (x : Cell) : IndexEntry → Prop
  | .credential k c => x.unspent k c
  | .unit u => x.units u

/-- The entries an unspent output is listed under. -/
def TransactionOutput.entries (out : TransactionOutput) : IndexEntry → Prop
  | .credential k c => (k, c) ∈ out.credentials
  | .unit u => u ∈ outputUnits out

/-- The record calls for the entry. -/
def ListedBy (r : Option TxoRecord) (e : IndexEntry) : Prop :=
  ∃ ρ, r = some ρ ∧ ρ.spent = false ∧ ρ.output.entries e

theorem Cell.exact_iff {x : Cell} : x.Exact ↔ ∀ e, x.lists e ↔ ListedBy x.txo e := by
  constructor
  · intro h e
    cases e with
    | credential k c => exact h.unspent k c
    | unit u => exact h.units u
  · intro h
    exact ⟨fun k c => h (.credential k c), fun u => h (.unit u)⟩

/-- The same record, listed in the same way. -/
structure Cell.Agrees (x y : Cell) : Prop where
  txo : x.txo = y.txo
  lists : ∀ e, x.lists e ↔ y.lists e

theorem Cell.Exact.agrees_iff {x y : Cell} (hy : y.Exact) : x.Agrees y ↔ x.txo = y.txo ∧ x.Exact := by
  rw [Cell.exact_iff] at hy ⊢
  constructor
  · intro h
    refine ⟨h.txo, ?_⟩
    intro e
    rw [h.lists, hy, h.txo]
  · rintro ⟨htxo, hx⟩
    refine ⟨htxo, ?_⟩
    intro e
    rw [hx, hy, htxo]

theorem Shaped.sameTables_iff {db db' : RocksDB} (hs : Shaped db) (hs' : Shaped db') :
    SameTables db db' ↔ ∀ o, (cellOf db o).Agrees (cellOf db' o) := by
  constructor
  · intro h o
    refine ⟨by simp only [cellOf, h.txo], ?_⟩
    intro e
    cases e with
    | credential k c => simp only [Cell.lists, cellOf, h.unspent]
    | unit u =>
      simp only [Cell.lists, cellOf, Std.ExtTreeMap.mem_iff_isSome_getElem?,
        h.units _ (not_isSentinelKey_entry u o)]
  · intro h
    exact {
      txo := hs.txo_ext hs' fun o => (h o).txo
      unspent := fun k => hs.unspent_ext hs' fun o c => (h o).lists (.credential k c)
      units := fun key => hs.units_agree hs' fun o u => (h o).lists (.unit u) }

/-- Consistent databases have the same tables exactly when they hold the same records. -/
theorem Consistent.sameTables_iff {db db' : RocksDB} (h : Consistent db) (h' : Consistent db') :
    SameTables db db' ↔ ∀ o, storedTxo db o = storedTxo db' o := by
  rw [h.shaped.sameTables_iff h'.shaped]
  constructor
  · intro hagree o
    exact (hagree o).txo
  · intro hr o
    exact (h'.exact o).agrees_iff.mpr ⟨hr o, h.exact o⟩

end UtxoMonitor
