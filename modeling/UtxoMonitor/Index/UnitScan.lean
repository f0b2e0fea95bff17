import UtxoMonitor.Index.Unspent

/-! The unit queries: the scan of the unit table and the filtered scan of a credential. -/
namespace UtxoMonitor

open Lib

/-- The order of a scan by output key. -/
def KeyOrder (txos : List Txo) : Prop :=
  txos.Pairwise fun a b => compare (utxoKey a.oref) (utxoKey b.oref) = .lt

theorem KeyOrder.unique {txos txos' : List Txo} (h : KeyOrder txos) (h' : KeyOrder txos')
    (hm : ∀ txo, txo ∈ txos ↔ txo ∈ txos') : txos = txos' :=
  Table.eq_of_sorted h h' hm

/-- Rows in key order, each read as an answer with its key, give answers in key order. -/
theorem keyOrder_filterMap {rows : List (Bytes × Stored)} {f : Bytes → Option Txo} {p : Bytes}
    (hs : rows.Pairwise fun a b => compare a.1 b.1 = .lt)
    (hf : ∀ row ∈ rows.map Prod.fst, ∀ txo, f row = some txo → row = p ++ utxoKey txo.oref) :
    KeyOrder ((rows.map Prod.fst).filterMap f) := by
  have hsorted : (rows.map Prod.fst).Pairwise fun a b => compare a b = .lt :=
    List.pairwise_map.mpr hs
  apply List.pairwise_filterMap.mpr
  apply hsorted.imp_of_mem
  intro a b ha hb hab x hx y hy
  rwa [hf a ha x hx, hf b hb y hy, compare_append_left] at hab

/-! ### The scan of the unit table -/

/-- What a row of the unit table answers with. -/
def unitMatch (db : RocksDB) (p key : Bytes) : Option Txo :=
  (selectByUnit db p key).join.bind finishByUnit

/-- All outputs the scan of the unit table gives. -/
def unitMatches (db : RocksDB) (p : Bytes) : List Txo :=
  ((getRangeIterator (db .unitUnspent) (unitIndexKeyPrefix p) none).map Prod.fst).filterMap
    (unitMatch db p)

theorem mem_unitRows {db : RocksDB} {p key : Bytes} :
    key ∈ (getRangeIterator (db .unitUnspent) (unitIndexKeyPrefix p) none).map Prod.fst ↔
      key ∈ db .unitUnspent ∧ ∃ rest, key = p ++ rest := by
  rw [Std.ExtTreeMap.mem_iff_isSome_getElem?, Option.isSome_iff_exists]
  constructor
  · intro h
    obtain ⟨⟨key, v⟩, hm, rfl⟩ := List.mem_map.mp h
    obtain ⟨hget, rest, hkey, -⟩ := Table.mem_range.mp hm
    exact ⟨⟨v, hget⟩, rest, hkey⟩
  · rintro ⟨⟨v, hget⟩, rest, rfl⟩
    exact List.mem_map.mpr ⟨(_, v), Table.mem_range.mpr ⟨hget, rest, rfl, compare_nil_isLE _⟩, rfl⟩

theorem isSentinelRow_entry (p : Bytes) (o : OutputRef) :
    isSentinelRow p (unitIndexEntryKey p o) = false := by
  have hlen : (unitIndexEntryKey p o).length ≠ p.length + 1 := by
    rw [unitIndexEntryKey, utxoKey_eq, List.length_append, List.length_cons, List.length_cons]
    omega
  simp [isSentinelRow, hlen]

theorem selectByUnit_entry (db : RocksDB) (p : Bytes) (o : OutputRef) :
    selectByUnit db p (unitIndexEntryKey p o) =
      some (((storedTxo db o).filter fun r => !r.spent).map fun r => (utxoKey o, r)) := by
  have hdrop : (unitIndexEntryKey p o).drop p.length = utxoKey o := List.drop_left
  have hread : readTxo db (utxoKey o) = storedTxo db o := rfl
  simp only [selectByUnit, isSentinelRow_entry, hdrop, hread, Bool.false_eq_true, if_false]
  cases storedTxo db o with
  | none => rfl
  | some r => cases hsp : r.spent <;> simp [hsp, Option.filter]

variable {db : RocksDB}

/-- A row that is selected is the entry of an output under the scanned prefix, whatever other
units share the prefix. -/
theorem OutputKeyed.selectByUnit_cases (hk : OutputKeyed db) (p rest : Bytes) :
    (∃ o, rest = utxoKey o) ∨ selectByUnit db p (p ++ rest) = some none := by
  unfold selectByUnit
  split
  · exact .inr rfl
  · rw [List.drop_left]
    cases hread : readTxo db rest with
    | none => exact .inr (by simp [hread])
    | some r => exact .inl (hk _ _ hread)

theorem OutputKeyed.unitMatch_eq_some (hk : OutputKeyed db) {p rest : Bytes} {txo : Txo} :
    unitMatch db p (p ++ rest) = some txo ↔ p ++ rest = unitIndexEntryKey p txo.oref ∧
      ∃ r, storedTxo db txo.oref = some r ∧ r.spent = false ∧ txo = .ofRecord txo.oref r := by
  have hentry : ∀ o, unitMatch db p (unitIndexEntryKey p o) = some txo ↔
      ∃ r, storedTxo db o = some r ∧ r.spent = false ∧ txo = .ofRecord o r := by
    intro o
    rw [unitMatch, selectByUnit_entry, Option.join_some]
    cases storedTxo db o with
    | none => simp
    | some r =>
      cases hsp : r.spent with
      | true => simp [hsp, Option.filter]
      | false => simp [hsp, Option.filter, finishByUnit, @eq_comm _ txo]
  constructor
  · intro h
    rcases hk.selectByUnit_cases p rest with ⟨o, rfl⟩ | hnone
    · obtain ⟨r, hr, hsp, rfl⟩ := (hentry o).mp h
      exact ⟨rfl, r, hr, hsp, rfl⟩
    · simp [unitMatch, hnone] at h
  · rintro ⟨hkey, hr⟩
    rw [hkey]
    exact (hentry txo.oref).mpr hr

/-- The answers of the scan are the stored unspent outputs with an entry. -/
theorem OutputKeyed.mem_unitMatches (hk : OutputKeyed db) {p : Bytes} {txo : Txo} :
    txo ∈ unitMatches db p ↔ unitIndexEntryKey p txo.oref ∈ db .unitUnspent ∧
      ∃ r, storedTxo db txo.oref = some r ∧ r.spent = false ∧ txo = .ofRecord txo.oref r := by
  rw [unitMatches, List.mem_filterMap]
  constructor
  · rintro ⟨key, hkey, hm⟩
    obtain ⟨hmem, rest, rfl⟩ := mem_unitRows.mp hkey
    obtain ⟨he, hr⟩ := hk.unitMatch_eq_some.mp hm
    rw [he] at hmem
    exact ⟨hmem, hr⟩
  · rintro ⟨hmem, hr⟩
    exact ⟨_, mem_unitRows.mpr ⟨hmem, _, rfl⟩, hk.unitMatch_eq_some.mpr ⟨rfl, hr⟩⟩

theorem OutputKeyed.keyOrder_unitMatches (hk : OutputKeyed db) (p : Bytes) :
    KeyOrder (unitMatches db p) := by
  apply keyOrder_filterMap (Table.range_sorted _ _ _)
  intro row hrow txo hm
  obtain ⟨-, rest, rfl⟩ := mem_unitRows.mp hrow
  exact (hk.unitMatch_eq_some.mp hm).1

instance : Nonempty Txo :=
  ⟨⟨⟨.replicate 0, 0⟩, .alonzoFormatTxOut .byron ⟨0, []⟩ none, none, false⟩⟩

theorem OutputKeyed.query_byUnit (hk : OutputKeyed db) (unit : Bytes) (offset : Nat) {limit : Nat}
    (hl : 0 < limit) :
    queryUtxos db none (.unspentByUnit unit) offset limit =
      some (((unitMatches db (toAsciiLowercase unit)).drop offset).take limit) := by
  apply page_eq_filterMap ?_ hl
  intro row hrow
  obtain ⟨-, rest, rfl⟩ := mem_unitRows.mp hrow
  rcases hk.selectByUnit_cases (toAsciiLowercase unit) rest with ⟨o, rfl⟩ | hnone
  · refine ⟨_, selectByUnit_entry db _ o, ?_⟩
    intro r hr
    obtain ⟨r', -, rfl⟩ := Option.map_eq_some_iff.mp hr
    simp [finishByUnit]
  · exact ⟨none, hnone, by simp⟩

/-! ### Consistent databases -/

theorem keyOrder_unspentMatches (hs : Shaped db) (k : CredentialKind) (c : Credential)
    (unitFilter : Option Bytes) : KeyOrder (unspentMatches db k c unitFilter) := by
  apply keyOrder_filterMap (Table.range_sorted _ _ _)
  intro row hrow txo hm
  obtain ⟨o, rfl, -⟩ := (mem_unspentRows hs).mp hrow
  obtain ⟨pre, hpre, hlen⟩ := unspentRow_split c o
  rw [hpre, rowOref_append hlen, Option.bind_some] at hm
  obtain ⟨r, -, -, rfl⟩ := mem_scopedMatch.mp hm
  rfl

/-- The unspent outputs stored with the unit `p`. -/
theorem Consistent.mem_unitMatches (h : Consistent db) {p : Bytes} {txo : Txo} :
    txo ∈ unitMatches db p ↔ ∃ r, storedTxo db txo.oref = some r ∧ r.spent = false ∧
      p ∈ outputUnits r.output ∧ txo = .ofRecord txo.oref r := by
  rw [h.shaped.outputKeyed.mem_unitMatches, h.mem_unitUnspent]
  constructor
  · rintro ⟨⟨r, hr, hsp, hu⟩, r', hr', -, heq⟩
    obtain rfl : r = r' := Option.some.inj (hr.symm.trans hr')
    exact ⟨r, hr, hsp, hu, heq⟩
  · rintro ⟨r, hr, hsp, hu, heq⟩
    exact ⟨⟨r, hr, hsp, hu⟩, r, hr, hsp, heq⟩

/-- The answer of a unit scan is decided by the stored records. -/
theorem Consistent.unitMatches_congr {db' : RocksDB} (h : Consistent db) (h' : Consistent db')
    (heq : ∀ o, storedTxo db' o = storedTxo db o) (p : Bytes) :
    unitMatches db' p = unitMatches db p := by
  apply (h'.shaped.outputKeyed.keyOrder_unitMatches p).unique
    (h.shaped.outputKeyed.keyOrder_unitMatches p)
  intro txo
  rw [h'.mem_unitMatches, h.mem_unitMatches, heq]

theorem storedTxo_prepareQuery (h : Consistent db)
    (scope : Option (Credential × CredentialKind)) (query : TxoQuery) (limit : Nat)
    (o : OutputRef) : storedTxo (prepareQuery db scope query limit) o = storedTxo db o :=
  congrArg Cell.txo (cellOf_prepareQuery h scope query limit o)

/-- A page of the global unit query, whether or not the call rebuilds the unit first. -/
theorem Consistent.getUtxos_byUnit (h : Consistent db) (unit : Bytes) (offset limit : Nat) :
    (getUtxos db none (.unspentByUnit unit) offset limit).2 =
      some (((unitMatches db (toAsciiLowercase unit)).drop offset).take limit) := by
  rcases Nat.eq_zero_or_pos limit with rfl | hl
  · simp [getUtxos]
  · have h' := h.prepareQuery none (.unspentByUnit unit) limit
    rw [getUtxos_snd _ _ _ _ hl, h'.shaped.outputKeyed.query_byUnit unit offset hl,
      h.unitMatches_congr h' (storedTxo_prepareQuery h _ _ _)]

theorem getUtxos_scopedByUnit (hs : Shaped db) (k : CredentialKind) (c : Credential)
    (unit : Bytes) (offset limit : Nat) :
    (getUtxos db (some (c, k)) (.unspentByUnit unit) offset limit).2 =
      some (((unspentMatches db k c (some unit)).drop offset).take limit) := by
  rcases Nat.eq_zero_or_pos limit with rfl | hl
  · simp [getUtxos]
  · have hprep : prepareQuery db (some (c, k)) (.unspentByUnit unit) limit = db := by
      simp [prepareQuery]
    rw [getUtxos_snd _ _ _ _ hl, hprep, query_unspentByUnit hs k c unit offset hl]

/-- The filtered scan of a credential and the scan of the unit table give the same outputs. -/
theorem Consistent.unspentMatches_eq_filter (h : Consistent db) (k : CredentialKind)
    (c : Credential) (unit : Bytes) :
    unspentMatches db k c (some unit) = (unitMatches db (toAsciiLowercase unit)).filter
      fun txo => (k, c) ∈ addressCredentials txo.output.address := by
  apply (keyOrder_unspentMatches h.shaped k c (some unit)).unique
  · exact (h.shaped.outputKeyed.keyOrder_unitMatches _).filter _
  intro txo
  rw [h.mem_unspentMatches_iff, List.mem_filter, h.mem_unitMatches, decide_eq_true_iff]
  constructor
  · rintro ⟨o, r, hr, ⟨hsp, hc, hu⟩, rfl⟩
    exact ⟨⟨r, hr, hsp, outputContainsUnit_iff.mp (hu unit rfl), rfl⟩, hc⟩
  · rintro ⟨⟨r, hr, hsp, hu, heq⟩, hc⟩
    rw [heq] at hc
    refine ⟨txo.oref, r, hr, ⟨hsp, hc, ?_⟩, heq⟩
    intro unit' hunit
    obtain rfl := Option.mem_some_iff.mp hunit
    exact outputContainsUnit_iff.mpr hu

/-- After any run the global query for a unit lists the stored unspent outputs with that unit,
once each and in key order, and the query of a credential lists those of them it belongs to. -/
theorem unspentByUnit_queries (calls : List Call) (unit : Bytes) :
    ∃ txos : List Txo,
      (∀ limit, txos.length ≤ limit →
        (getUtxos (runCalls calls) none (.unspentByUnit unit) 0 limit).2 = some txos) ∧
      KeyOrder txos ∧
      (∀ txo, txo ∈ txos ↔ ∃ r, storedTxo (runCalls calls) txo.oref = some r ∧ r.spent = false ∧
        toAsciiLowercase unit ∈ outputUnits r.output ∧ txo = .ofRecord txo.oref r) ∧
      ∀ k c limit, txos.length ≤ limit →
        (getUtxos (runCalls calls) (some (c, k)) (.unspentByUnit unit) 0 limit).2 =
          some (txos.filter fun txo => (k, c) ∈ addressCredentials txo.output.address) := by
  have h := consistent_runCalls calls
  refine ⟨unitMatches (runCalls calls) (toAsciiLowercase unit), ?_,
    h.shaped.outputKeyed.keyOrder_unitMatches _, fun txo => h.mem_unitMatches, ?_⟩
  · intro limit hl
    rw [h.getUtxos_byUnit, List.drop_zero, List.take_of_length_le hl]
  · intro k c limit hl
    rw [getUtxos_scopedByUnit h.shaped, h.unspentMatches_eq_filter, List.drop_zero,
      List.take_of_length_le (Nat.le_trans (List.length_filter_le _ _) hl)]

end UtxoMonitor
