import UtxoMonitor.Index.Scan

/-! The unspent queries of every reachable index, page by page. -/
namespace UtxoMonitor

open Lib

/-- All pages of a query come from one list, which names no output twice and holds the stored
outputs with the property `P`. -/
def Answers (db : RocksDB) (scope : Option (Credential × CredentialKind)) (query : TxoQuery)
    (P : OutputRef → TxoRecord → Prop) : Prop :=
  ∃ txos : List Txo, (txos.map Txo.oref).Nodup ∧
    (∀ txo, txo ∈ txos ↔ ∃ o r, storedTxo db o = some r ∧ P o r ∧ txo = .ofRecord o r) ∧
    ∀ offset limit, (getUtxos db scope query offset limit).2 = some ((txos.drop offset).take limit)

theorem nodup_map_filterMap {X Y Z : Type} {f : X → Option Y} {g : Y → Z} {xs : List X}
    (hx : xs.Nodup) (hf : ∀ x ∈ xs, ∀ x' ∈ xs, ∀ y y', f x = some y → f x' = some y' →
      g y = g y' → x = x') : ((xs.filterMap f).map g).Nodup := by
  induction xs with
  | nil => exact List.nodup_nil
  | cons x xs ih =>
    obtain ⟨hnot, hnd⟩ := List.nodup_cons.mp hx
    have hrest := ih hnd fun a ha b hb => hf a (.tail _ ha) b (.tail _ hb)
    cases hy : f x with
    | none => rwa [List.filterMap_cons_none hy]
    | some y =>
      rw [List.filterMap_cons_some hy, List.map_cons, List.nodup_cons]
      refine ⟨fun hm => hnot ?_, hrest⟩
      obtain ⟨y', hy', heq⟩ := List.mem_map.mp hm
      obtain ⟨x', hx', hfx⟩ := List.mem_filterMap.mp hy'
      rwa [hf x (.head _) x' (.tail _ hx') y y' hy hfx heq.symm]

theorem nodup_unspentMatches {db : RocksDB} (hs : Shaped db) (k : CredentialKind) (c : Credential)
    (unitFilter : Option Bytes) : ((unspentMatches db k c unitFilter).map Txo.oref).Nodup := by
  apply nodup_map_filterMap (Table.range_keys_nodup _ _ _)
  intro row hrow row' hrow' txo txo' h h' heq
  obtain ⟨o, rfl, -⟩ := (mem_unspentRows hs).mp hrow
  obtain ⟨o', rfl, -⟩ := (mem_unspentRows hs).mp hrow'
  obtain ⟨pre, hpre, hlen⟩ := unspentRow_split c o
  obtain ⟨pre', hpre', hlen'⟩ := unspentRow_split c o'
  rw [hpre, rowOref_append hlen] at h
  rw [hpre', rowOref_append hlen'] at h'
  obtain ⟨r, -, -, rfl⟩ := mem_scopedMatch.mp h
  obtain ⟨r', -, -, rfl⟩ := mem_scopedMatch.mp h'
  obtain rfl : o = o' := heq
  rfl

theorem getUtxos_snd (db : RocksDB) (scope : Option (Credential × CredentialKind))
    (query : TxoQuery) (offset : Nat) {limit : Nat} (hl : 0 < limit) :
    (getUtxos db scope query offset limit).2 =
      queryUtxos (prepareQuery db scope query limit) scope query offset limit := by
  rw [getUtxos, if_neg (Nat.pos_iff_ne_zero.mp hl)]

/-- A query answers from the list that its scan gives. -/
theorem Answers.of_query {db : RocksDB} {scope : Credential × CredentialKind} {query : TxoQuery}
    {P : OutputRef → TxoRecord → Prop} {txos : List Txo} (hn : (txos.map Txo.oref).Nodup)
    (hm : ∀ txo, txo ∈ txos ↔ ∃ o r, storedTxo db o = some r ∧ P o r ∧ txo = .ofRecord o r)
    (hq : ∀ offset limit, 0 < limit → queryUtxos db (some scope) query offset limit =
      some ((txos.drop offset).take limit)) : Answers db (some scope) query P := by
  refine ⟨txos, hn, hm, ?_⟩
  intro offset limit
  rcases Nat.eq_zero_or_pos limit with rfl | hl
  · simp [getUtxos]
  · have hprep : prepareQuery db (some scope) query limit = db := by
      simp [prepareQuery]
    rw [getUtxos_snd _ _ _ _ hl, hprep, hq offset limit hl]

variable {db : RocksDB}

theorem Consistent.mem_unspentMatches_iff (h : Consistent db) {k : CredentialKind}
    {c : Credential} {unitFilter : Option Bytes} {txo : Txo} :
    txo ∈ unspentMatches db k c unitFilter ↔ ∃ o r, storedTxo db o = some r ∧
      (r.spent = false ∧ (k, c) ∈ r.output.credentials ∧
        ∀ unit ∈ unitFilter, outputContainsUnit r.output unit) ∧ txo = .ofRecord o r := by
  rw [mem_unspentMatches h.shaped, mem_scopedMatch, (h.exact _).unspent]
  constructor
  · rintro ⟨⟨r, hr, hsp, hc⟩, r', hr', hu, heq⟩
    obtain rfl : r = r' := Option.some.inj (hr.symm.trans hr')
    exact ⟨txo.oref, r, hr, ⟨hsp, hc, hu⟩, heq⟩
  · rintro ⟨o, r, hr, ⟨hsp, hc, hu⟩, rfl⟩
    exact ⟨⟨r, hr, hsp, hc⟩, r, hr, hu, rfl⟩

theorem Consistent.answers_unspent (h : Consistent db) (k : CredentialKind) (c : Credential) :
    Answers db (some (c, k)) .unspent fun _ r =>
      r.spent = false ∧ (k, c) ∈ r.output.credentials := by
  refine .of_query (nodup_unspentMatches h.shaped k c none) ?_
    fun offset limit hl => query_unspent h.shaped k c offset hl
  intro txo
  simp [h.mem_unspentMatches_iff]

theorem Consistent.answers_unspentByUnit (h : Consistent db) (k : CredentialKind) (c : Credential)
    (unit : Bytes) :
    Answers db (some (c, k)) (.unspentByUnit unit) fun _ r =>
      r.spent = false ∧ (k, c) ∈ r.output.credentials ∧ outputContainsUnit r.output unit := by
  refine .of_query (nodup_unspentMatches h.shaped k c (some unit)) ?_
    fun offset limit hl => query_unspentByUnit h.shaped k c unit offset hl
  intro txo
  simp [h.mem_unspentMatches_iff]

theorem Shaped.readTxo_eq (hs : Shaped db) {key : Bytes} {r : TxoRecord}
    (h : readTxo db key = some r) : ∃ o, key = utxoKey o ∧ storedTxo db o = some r := by
  have hget := Option.join_eq_some_iff.mp h
  obtain ⟨o, r', rfl, -⟩ := hs .txo key _ hget
  exact ⟨o, rfl, h⟩

/-- A row of the unit index is returned for a stored unspent output. -/
theorem Shaped.selectByUnit_spec (hs : Shaped db) {unitPrefix key : Bytes}
    {row : Bytes × TxoRecord} {txo : Txo} (hsel : selectByUnit db unitPrefix key = some (some row))
    (hfin : finishByUnit row = some txo) :
    ∃ r, storedTxo db txo.oref = some r ∧ r.spent = false := by
  unfold selectByUnit at hsel
  split at hsel
  · simp at hsel
  cases hread : readTxo db (key.drop unitPrefix.length) with
  | none => simp [hread] at hsel
  | some r =>
    cases hsp : r.spent with
    | true => simp [hread, hsp] at hsel
    | false =>
      obtain ⟨o, ho, hr⟩ := hs.readTxo_eq hread
      simp only [hread, hsp, Bool.false_eq_true, if_false, Option.some.injEq] at hsel
      subst hsel
      obtain rfl : Txo.ofRecord o r = txo := by simpa [finishByUnit, ho] using hfin
      exact ⟨r, hr, hsp⟩

/-- The queries for unspent outputs. -/
def TxoQuery.ForUnspent : TxoQuery → Prop
  | .unspent | .unspentByUnit _ => True
  | _ => False

theorem Answers.of_mem {scope : Option (Credential × CredentialKind)} {query : TxoQuery}
    {P : OutputRef → TxoRecord → Prop} (h : Answers db scope query P) {offset limit : Nat}
    {txos : List Txo} (ht : (getUtxos db scope query offset limit).2 = some txos) {txo : Txo}
    (hm : txo ∈ txos) : ∃ r, storedTxo db txo.oref = some r ∧ P txo.oref r := by
  obtain ⟨all, -, hall, hpage⟩ := h
  obtain rfl := Option.some.inj ((hpage offset limit).symm.trans ht)
  obtain ⟨o, r, hr, hP, rfl⟩ := (hall txo).mp (List.mem_of_mem_drop (List.mem_of_mem_take hm))
  exact ⟨r, hr, hP⟩

/-- Whatever a query for unspent outputs returns is stored and unspent. -/
theorem Consistent.unspent_of_mem (h : Consistent db)
    {scope : Option (Credential × CredentialKind)} {query : TxoQuery} (hq : query.ForUnspent)
    {offset limit : Nat} {txos : List Txo}
    (ht : (getUtxos db scope query offset limit).2 = some txos) {txo : Txo} (hm : txo ∈ txos) :
    ∃ r, storedTxo db txo.oref = some r ∧ r.spent = false := by
  rcases Nat.eq_zero_or_pos limit with rfl | hl
  · obtain rfl : [] = txos := by simpa [getUtxos] using ht
    cases hm
  cases scope with
  | some scope =>
    obtain ⟨c, k⟩ := scope
    cases query with
    | unspent =>
      obtain ⟨r, hr, hsp, -⟩ := (h.answers_unspent k c).of_mem ht hm
      exact ⟨r, hr, hsp⟩
    | unspentByUnit unit =>
      obtain ⟨r, hr, hsp, -⟩ := (h.answers_unspentByUnit k c unit).of_mem ht hm
      exact ⟨r, hr, hsp⟩
    | _ => cases hq
  | none =>
    rw [getUtxos_snd _ _ _ _ hl] at ht
    cases query with
    | unspent =>
      obtain rfl : [] = txos := by simpa [queryUtxos] using ht
      cases hm
    | unspentByUnit unit =>
      have hc := h.prepareQuery none (.unspentByUnit unit) limit
      rcases mem_of_page ht hm with hacc | ⟨key, -, row, hsel, hfin⟩
      · cases hacc
      · obtain ⟨r, hr, hsp⟩ := hc.shaped.selectByUnit_spec hsel hfin
        rw [storedTxo, cellOf_prepareQuery h] at hr
        exact ⟨r, hr, hsp⟩
    | _ => cases hq

theorem Consistent.mem_unitUnspent (h : Consistent db) (u : Bytes) (o : OutputRef) :
    unitIndexEntryKey u o ∈ db .unitUnspent ↔
      ∃ r, storedTxo db o = some r ∧ r.spent = false ∧ u ∈ outputUnits r.output :=
  (h.exact o).units u

theorem Shaped.unit_key (hs : Shaped db) {key : Bytes} (hk : key ∈ db .unitUnspent)
    (hn : ¬ IsSentinelKey key) : ∃ u o, key = unitIndexEntryKey u o := by
  obtain ⟨v, hv⟩ := Option.isSome_iff_exists.mp (Std.ExtTreeMap.mem_iff_isSome_getElem?.mp hk)
  obtain ⟨hkey | hkey, -⟩ := hs _ _ _ hv
  · exact hkey
  · exact absurd hkey hn

/-- After any run the unspent query of a credential lists its unspent outputs, and the unit table
holds the units of the unspent outputs. -/
theorem unspent_tables_exact (calls : List Call) :
    (∀ k c, Answers (runCalls calls) (some (c, k)) .unspent fun _ r =>
      r.spent = false ∧ (k, c) ∈ r.output.credentials) ∧
    (∀ u o, unitIndexEntryKey u o ∈ runCalls calls .unitUnspent ↔
      ∃ r, storedTxo (runCalls calls) o = some r ∧ r.spent = false ∧ u ∈ outputUnits r.output) ∧
    ∀ key ∈ runCalls calls .unitUnspent, ¬ IsSentinelKey key →
      ∃ u o, key = unitIndexEntryKey u o := by
  have h := consistent_runCalls calls
  exact ⟨h.answers_unspent, h.mem_unitUnspent, fun _ => h.shaped.unit_key⟩

end UtxoMonitor
