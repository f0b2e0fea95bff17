import UtxoMonitor.Index.Exact

/-! What the scans of a credential's index return on a well-shaped database. -/
namespace UtxoMonitor

open Lib

/-- The output a row belongs to, once `n` bytes are cut off its key. -/
def rowOref (n : Nat) (row : Bytes) : Option OutputRef := readUtxoKey (row.drop n)

/-- The answer a scoped scan gives for one output. -/
def scopedMatch (db : RocksDB) (unitFilter : Option Bytes) (o : OutputRef) : Option Txo :=
  ((storedTxo db o).filter fun r => unitFilter.all fun unit => outputContainsUnit r.output unit).map
    (Txo.ofRecord o)

theorem rowOref_append {n : Nat} {pre : Bytes} (h : pre.length = n) (o : OutputRef) :
    rowOref n (pre ++ utxoKey o) = some o := by
  rw [rowOref, ← h, List.drop_left, readUtxoKey_utxoKey]

theorem selectScoped_append (db : RocksDB) {n : Nat} {pre : Bytes} (h : pre.length = n)
    (o : OutputRef) (unitFilter : Option Bytes) :
    selectScoped db n unitFilter (pre ++ utxoKey o) = some (scopedMatch db unitFilter o) := by
  have hlen : ¬ (pre ++ utxoKey o).length < n := by
    rw [List.length_append]
    omega
  have hread : readTxo db (utxoKey o) = storedTxo db o := rfl
  simp only [selectScoped, if_neg hlen]
  rw [← h, List.drop_left, readUtxoKey_utxoKey, hread]
  cases hr : storedTxo db o with
  | none => simp [scopedMatch, hr]
  | some r =>
    cases hf : unitFilter.all fun unit => outputContainsUnit r.output unit <;>
      simp [scopedMatch, hr, hf, Option.filter]

/-- A scoped scan returns one page of the answers its rows give. -/
theorem page_scoped {db : RocksDB} {n : Nat} {rows : List Bytes} (unitFilter : Option Bytes)
    (offset : Nat) {limit : Nat} (hl : 0 < limit)
    (hrows : ∀ row ∈ rows, ∃ pre o, row = pre ++ utxoKey o ∧ pre.length = n) :
    page (selectScoped db n unitFilter) some offset limit rows 0 [] =
      some (((rows.filterMap fun row => (rowOref n row).bind (scopedMatch db unitFilter)).drop
        offset).take limit) := by
  rw [page_eq (fun row => (rowOref n row).bind (scopedMatch db unitFilter)) id ?_ (by simp) hl,
    List.map_id]
  intro row hrow
  obtain ⟨pre, o, rfl, hpre⟩ := hrows row hrow
  rw [rowOref_append hpre, selectScoped_append db hpre]
  rfl

/-! ### The rows of the unspent and events tables -/

theorem mem_unspentRows {db : RocksDB} (hs : Shaped db) {k : CredentialKind} {c : Credential}
    {row : Bytes} :
    row ∈ (getRangeIterator (db (.unspent k)) (credentialKeyPrefix c) none).map Prod.fst ↔
      ∃ o, row = credentialToUtxoUnspentKey c o ∧ (cellOf db o).unspent k c := by
  constructor
  · intro h
    obtain ⟨⟨key, v⟩, hm, rfl⟩ := List.mem_map.mp h
    obtain ⟨hget, rest, hkey, -⟩ := Table.mem_range.mp hm
    obtain ⟨⟨c', o, hc'⟩, -⟩ := hs _ _ _ hget
    obtain ⟨hp, rfl⟩ := List.append_inj (hc'.symm.trans hkey) (by simp)
    obtain rfl := credentialKeyPrefix_injective hp
    refine ⟨o, hc', ?_⟩
    simp only [cellOf, ← hc']
    exact Std.ExtTreeMap.mem_iff_isSome_getElem?.mpr (by rw [hget]; rfl)
  · rintro ⟨o, rfl, ho⟩
    obtain ⟨v, hv⟩ := Option.isSome_iff_exists.mp (Std.ExtTreeMap.mem_iff_isSome_getElem?.mp ho)
    exact List.mem_map.mpr ⟨(_, v), Table.mem_range.mpr ⟨hv, utxoKey o, rfl, compare_nil_isLE _⟩, rfl⟩

theorem settledAtKey_isLE (s t : Option Slot) (rest : Bytes) :
    (compare (settledAtKey s) (settledAtKey t ++ rest)).isLE = true ↔
      eventSlot s ≤ eventSlot t := by
  have h := compare_bigEndian_append (slot_lt (eventSlot s)) (slot_lt (eventSlot t)) [] rest
  rw [List.append_nil] at h
  rw [settledAtKey, settledAtKey, h, UInt64.le_iff_toNat_le]
  rcases Nat.lt_trichotomy (eventSlot s).toNat (eventSlot t).toNat with hlt | heq | hgt
  · simp [Nat.compare_eq_lt.mpr hlt, Nat.le_of_lt hlt]
  · simp [heq, compare_nil_isLE]
  · simp [Nat.compare_eq_gt.mpr hgt, hgt]

theorem mem_eventsRows {db : RocksDB} (hs : Shaped db) {k : CredentialKind} {c : Credential}
    {least : Option Slot} {row : Bytes} :
    row ∈ (getRangeIterator (db (.events k)) (credentialKeyPrefix c)
        (some (settledAtKey least))).map Prod.fst ↔
      ∃ o s, row = credentialToUtxoAllKey c (some s) o ∧ (cellOf db o).events k c s ∧
        eventSlot least ≤ s := by
  constructor
  · intro h
    obtain ⟨⟨key, v⟩, hm, rfl⟩ := List.mem_map.mp h
    obtain ⟨hget, rest, hkey, hle⟩ := Table.mem_range.mp hm
    obtain ⟨⟨c', s, o, hc'⟩, -⟩ := hs _ _ _ hget
    have happ : credentialKeyPrefix c' ++ (settledAtKey (some s) ++ utxoKey o) =
        credentialKeyPrefix c ++ rest := by
      rw [← List.append_assoc]
      exact hc'.symm.trans hkey
    obtain ⟨hp, rfl⟩ := List.append_inj happ (by simp)
    obtain rfl := credentialKeyPrefix_injective hp
    refine ⟨o, s, hc', ?_, (settledAtKey_isLE least (some s) _).mp hle⟩
    simp only [cellOf, ← hc']
    exact Std.ExtTreeMap.mem_iff_isSome_getElem?.mpr (by rw [hget]; rfl)
  · rintro ⟨o, s, rfl, ho, hle⟩
    obtain ⟨v, hv⟩ := Option.isSome_iff_exists.mp (Std.ExtTreeMap.mem_iff_isSome_getElem?.mp ho)
    refine List.mem_map.mpr ⟨(_, v), Table.mem_range.mpr ⟨hv, settledAtKey (some s) ++ utxoKey o,
      List.append_assoc _ _ _, ?_⟩, rfl⟩
    exact (settledAtKey_isLE least (some s) _).mpr hle

theorem unspentRow_split (c : Credential) (o : OutputRef) :
    ∃ pre, credentialToUtxoUnspentKey c o = pre ++ utxoKey o ∧ pre.length = 29 :=
  ⟨_, rfl, by simp⟩

theorem eventsRow_split (c : Credential) (s : Option Slot) (o : OutputRef) :
    ∃ pre, credentialToUtxoAllKey c s o = pre ++ utxoKey o ∧ pre.length = 37 :=
  ⟨_, rfl, by simp⟩

/-! ### Answers -/

/-- All outputs the scan of an unspent table gives. -/
def unspentMatches (db : RocksDB) (k : CredentialKind) (c : Credential)
    (unitFilter : Option Bytes) : List Txo :=
  ((getRangeIterator (db (.unspent k)) (credentialKeyPrefix c) none).map Prod.fst).filterMap
    fun row => (rowOref 29 row).bind (scopedMatch db unitFilter)

/-- All outputs the scan of an events table gives. -/
def eventsMatches (db : RocksDB) (k : CredentialKind) (c : Credential) (least : Option Slot) :
    List Txo :=
  ((getRangeIterator (db (.events k)) (credentialKeyPrefix c)
      (some (settledAtKey least))).map Prod.fst).filterMap
    fun row => (rowOref 37 row).bind (scopedMatch db none)

theorem query_unspent {db : RocksDB} (hs : Shaped db) (k : CredentialKind) (c : Credential)
    (offset : Nat) {limit : Nat} (hl : 0 < limit) :
    queryUtxos db (some (c, k)) .unspent offset limit =
      some (((unspentMatches db k c none).drop offset).take limit) := by
  simp only [queryUtxos, scopedRows, indexCfs, length_credentialKeyPrefix]
  apply page_scoped none offset hl
  intro row hrow
  obtain ⟨o, rfl, -⟩ := (mem_unspentRows hs).mp hrow
  obtain ⟨pre, h⟩ := unspentRow_split c o
  exact ⟨pre, o, h⟩

theorem query_unspentByUnit {db : RocksDB} (hs : Shaped db) (k : CredentialKind) (c : Credential)
    (unit : Bytes) (offset : Nat) {limit : Nat} (hl : 0 < limit) :
    queryUtxos db (some (c, k)) (.unspentByUnit unit) offset limit =
      some (((unspentMatches db k c (some unit)).drop offset).take limit) := by
  simp only [queryUtxos, scopedRows, indexCfs, length_credentialKeyPrefix]
  apply page_scoped (some unit) offset hl
  intro row hrow
  obtain ⟨o, rfl, -⟩ := (mem_unspentRows hs).mp hrow
  obtain ⟨pre, h⟩ := unspentRow_split c o
  exact ⟨pre, o, h⟩

theorem query_all {db : RocksDB} (hs : Shaped db) (k : CredentialKind) (c : Credential)
    (least : Option Slot) (offset : Nat) {limit : Nat} (hl : 0 < limit) :
    queryUtxos db (some (c, k)) (.all least) offset limit =
      some (((eventsMatches db k c least).drop offset).take limit) := by
  simp only [queryUtxos, scopedRows, indexCfs, length_credentialKeyPrefix]
  apply page_scoped none offset hl
  intro row hrow
  obtain ⟨o, s, rfl, -⟩ := (mem_eventsRows hs).mp hrow
  obtain ⟨pre, h⟩ := eventsRow_split c (some s) o
  exact ⟨pre, o, h⟩

theorem mem_scopedMatch {db : RocksDB} {unitFilter : Option Bytes} {o : OutputRef} {txo : Txo} :
    txo ∈ scopedMatch db unitFilter o ↔
      ∃ r, storedTxo db o = some r ∧ (∀ unit ∈ unitFilter, outputContainsUnit r.output unit) ∧
        txo = .ofRecord o r := by
  simp only [scopedMatch, Option.mem_def, Option.map_eq_some_iff, Option.filter_eq_some_iff,
    Option.all_eq_true_iff_get, and_assoc]
  constructor
  · rintro ⟨r, hr, hf, rfl⟩
    refine ⟨r, hr, ?_, rfl⟩
    intro unit hu
    subst hu
    exact hf rfl
  · rintro ⟨r, hr, hf, rfl⟩
    refine ⟨r, hr, ?_, rfl⟩
    intro hu
    exact hf _ (Option.get_mem hu)

/-- An answer of an unspent scan is a stored output whose unspent entry exists. -/
theorem mem_unspentMatches {db : RocksDB} (hs : Shaped db) {k : CredentialKind} {c : Credential}
    {unitFilter : Option Bytes} {txo : Txo} :
    txo ∈ unspentMatches db k c unitFilter ↔
      (cellOf db txo.oref).unspent k c ∧ txo ∈ scopedMatch db unitFilter txo.oref := by
  simp only [unspentMatches, List.mem_filterMap]
  constructor
  · rintro ⟨row, hrow, hm⟩
    obtain ⟨o, rfl, ho⟩ := (mem_unspentRows hs).mp hrow
    obtain ⟨pre, hpre, hlen⟩ := unspentRow_split c o
    rw [hpre, rowOref_append hlen, Option.bind_some] at hm
    obtain ⟨r, hr, hf, rfl⟩ := mem_scopedMatch.mp hm
    exact ⟨ho, hm⟩
  · rintro ⟨ho, hm⟩
    obtain ⟨pre, hpre, hlen⟩ := unspentRow_split c txo.oref
    refine ⟨_, (mem_unspentRows hs).mpr ⟨txo.oref, rfl, ho⟩, ?_⟩
    rw [hpre, rowOref_append hlen, Option.bind_some]
    exact hm

theorem mem_eventsMatches {db : RocksDB} (hs : Shaped db) {k : CredentialKind} {c : Credential}
    {least : Option Slot} {txo : Txo} :
    txo ∈ eventsMatches db k c least ↔
      (∃ s, (cellOf db txo.oref).events k c s ∧ eventSlot least ≤ s) ∧
        txo ∈ scopedMatch db none txo.oref := by
  simp only [eventsMatches, List.mem_filterMap]
  constructor
  · rintro ⟨row, hrow, hm⟩
    obtain ⟨o, s, rfl, ho, hle⟩ := (mem_eventsRows hs).mp hrow
    obtain ⟨pre, hpre, hlen⟩ := eventsRow_split c (some s) o
    rw [hpre, rowOref_append hlen, Option.bind_some] at hm
    obtain ⟨r, hr, hf, rfl⟩ := mem_scopedMatch.mp hm
    exact ⟨⟨s, ho, hle⟩, hm⟩
  · rintro ⟨⟨s, ho, hle⟩, hm⟩
    obtain ⟨pre, hpre, hlen⟩ := eventsRow_split c (some s) txo.oref
    refine ⟨_, (mem_eventsRows hs).mpr ⟨txo.oref, s, rfl, ho, hle⟩, ?_⟩
    rw [hpre, rowOref_append hlen, Option.bind_some]
    exact hm

end UtxoMonitor
