import UtxoMonitor.Index.UnitScan

/-! Every query answers with pages of one list, which the queries in between leave as it is. -/
namespace UtxoMonitor

open Lib

/-- The whole answer of a query, before offset and limit. -/
def allMatches (db : RocksDB) : Option (Credential × CredentialKind) → TxoQuery → List Txo
  | none, .byOutputRef oref => (lookupOutputRef db oref).toList
  | none, .unspentByUnit unit => unitMatches db (toAsciiLowercase unit)
  | none, _ => []
  | some (credential, kind), .byOutputRef oref =>
    ((lookupOutputRef db oref).filter fun txo =>
      (addressCredentials txo.output.address).any (· == (kind, credential))).toList
  | some (credential, kind), .all leastSlot => eventsMatches db kind credential leastSlot
  | some (credential, kind), .unspent => unspentMatches db kind credential none
  | some (credential, kind), .unspentByUnit unit => unspentMatches db kind credential (some unit)

/-- A lookup of one record treats every offset but zero as past the end. -/
theorem page_toList {A : Type} (x : Option A) (offset : Nat) {limit : Nat} (hl : 0 < limit) :
    (if offset > 0 then some [] else some x.toList) =
      some ((x.toList.drop offset).take limit) := by
  obtain ⟨n, rfl⟩ : ∃ n, limit = n + 1 := ⟨limit - 1, by omega⟩
  cases offset with
  | zero => cases x <;> simp
  | succ m => cases x <;> simp

variable {db db' : RocksDB}

theorem Shaped.queryUtxos_eq (hs : Shaped db) (scope : Option (Credential × CredentialKind))
    (query : TxoQuery) (offset : Nat) {limit : Nat} (hl : 0 < limit) :
    queryUtxos db scope query offset limit =
      some (((allMatches db scope query).drop offset).take limit) := by
  cases scope with
  | none =>
    cases query with
    | byOutputRef oref => exact page_toList (lookupOutputRef db oref) offset hl
    | unspentByUnit unit => exact hs.outputKeyed.query_byUnit unit offset hl
    | all leastSlot => simp [queryUtxos, allMatches]
    | unspent => simp [queryUtxos, allMatches]
  | some scope =>
    obtain ⟨c, k⟩ := scope
    cases query with
    | byOutputRef oref => exact page_toList _ offset hl
    | unspentByUnit unit => exact query_unspentByUnit hs k c unit offset hl
    | all leastSlot => exact query_all hs k c leastSlot offset hl
    | unspent => exact query_unspent hs k c offset hl

/-! ### The write a query may make -/

theorem prepareQuery_other (db : RocksDB) (scope : Option (Credential × CredentialKind))
    (query : TxoQuery) (limit : Nat) {cf : Cf} (hcf : cf ≠ .unitUnspent) :
    prepareQuery db scope query limit cf = db cf := by
  unfold prepareQuery
  split
  · rfl
  split
  · simp only [ensureUnitIndex]
    split
    · rfl
    · exact backfill_other _ _ _ cf hcf
  · rfl

/-- The answers depend on the unit table only through its entries. -/
theorem Consistent.allMatches_congr (h : Consistent db) (h' : Consistent db')
    (heq : ∀ cf, cf ≠ .unitUnspent → db' cf = db cf)
    (scope : Option (Credential × CredentialKind)) (query : TxoQuery) :
    allMatches db' scope query = allMatches db scope query := by
  have htxo : ∀ o, storedTxo db' o = storedTxo db o := by
    intro o
    rw [storedTxo, cellOf, heq .txo (by simp)]
    rfl
  have hlookup : ∀ oref, lookupOutputRef db' oref = lookupOutputRef db oref := by
    intro oref
    exact congrArg (Option.map (Txo.ofRecord oref)) (htxo oref)
  have hmatch : scopedMatch db' = scopedMatch db := by
    funext unitFilter o
    rw [scopedMatch, htxo]
    rfl
  have hunspent : ∀ k, db' (.unspent k) = db (.unspent k) := fun k => heq _ (by simp)
  have hevents : ∀ k, db' (.events k) = db (.events k) := fun k => heq _ (by simp)
  cases scope with
  | none =>
    cases query with
    | unspentByUnit unit => exact h.unitMatches_congr h' htxo _
    | _ => simp [allMatches, hlookup]
  | some scope =>
    cases query <;> simp [allMatches, hlookup, unspentMatches, eventsMatches, hmatch, hunspent,
      hevents]

/-- A call answers with one page of the whole answer. -/
theorem Consistent.getUtxos_eq (h : Consistent db) (scope : Option (Credential × CredentialKind))
    (query : TxoQuery) (offset limit : Nat) :
    (getUtxos db scope query offset limit).2 =
      some (((allMatches db scope query).drop offset).take limit) := by
  rcases Nat.eq_zero_or_pos limit with rfl | hl
  · simp [getUtxos]
  · have h' := h.prepareQuery scope query limit
    rw [getUtxos_snd _ _ _ _ hl, h'.shaped.queryUtxos_eq scope query offset hl,
      h.allMatches_congr h' fun cf hcf => prepareQuery_other db scope query limit hcf]

/-- The query returns `txo` once the limit is large enough. -/
def Returns (db : RocksDB) (scope : Option (Credential × CredentialKind)) (query : TxoQuery)
    (txo : Txo) : Prop :=
  ∃ limit txos, (getUtxos db scope query 0 limit).2 = some txos ∧ txo ∈ txos

theorem Consistent.returns_iff (h : Consistent db)
    {scope : Option (Credential × CredentialKind)} {query : TxoQuery} {txo : Txo} :
    Returns db scope query txo ↔ txo ∈ allMatches db scope query := by
  constructor
  · rintro ⟨limit, txos, ht, hm⟩
    rw [h.getUtxos_eq, Option.some.injEq] at ht
    rw [← ht] at hm
    exact List.mem_of_mem_drop (List.mem_of_mem_take hm)
  · intro hm
    refine ⟨(allMatches db scope query).length, _, h.getUtxos_eq scope query 0 _, ?_⟩
    simpa using hm

theorem Consistent.returns_unspent_iff (h : Consistent db) {k : CredentialKind} {c : Credential}
    {txo : Txo} :
    Returns db (some (c, k)) .unspent txo ↔ ∃ o r, storedTxo db o = some r ∧
      (r.spent = false ∧ (k, c) ∈ r.output.credentials) ∧ txo = .ofRecord o r := by
  rw [h.returns_iff]
  apply h.mem_unspentMatches_iff.trans
  simp

/-! ### Pages -/

/-- A call that reads the index. -/
structure Request where
  scope : Option (Credential × CredentialKind)
  query : TxoQuery
  offset : Nat
  limit : Nat

def Request.call (r : Request) : Call := .getUtxos r.scope r.query r.offset r.limit

theorem runCalls_append (calls calls' : List Call) :
    runCalls (calls ++ calls') = calls'.foldl Call.run (runCalls calls) :=
  List.foldl_append

/-- Requests change nothing outside of the unit table. -/
theorem run_requests_other (db : RocksDB) (reads : List Request) {cf : Cf}
    (hcf : cf ≠ .unitUnspent) : (reads.map Request.call).foldl Call.run db cf = db cf := by
  induction reads generalizing db with
  | nil => rfl
  | cons r reads ih =>
    rw [List.map_cons, List.foldl_cons, ih, Request.call, Call.run, getUtxos_fst]
    exact prepareQuery_other db r.scope r.query r.limit hcf

theorem allMatches_requests (calls : List Call) (reads : List Request)
    (scope : Option (Credential × CredentialKind)) (query : TxoQuery) :
    allMatches (runCalls (calls ++ reads.map Request.call)) scope query =
      allMatches (runCalls calls) scope query := by
  apply (consistent_runCalls calls).allMatches_congr (consistent_runCalls _)
  intro cf hcf
  rw [runCalls_append]
  exact run_requests_other _ reads hcf

/-- The answer to a request after a run, `[]` where the request fails. -/
def answer (calls : List Call) (scope : Option (Credential × CredentialKind)) (query : TxoQuery)
    (offset limit : Nat) : List Txo :=
  (getUtxos (runCalls calls) scope query offset limit).2.getD []

/-- Every page of a query is a segment of its whole answer, and consecutive pages put together give
the whole answer, even with further requests between one page and the next. -/
theorem getUtxos_pages (calls : List Call) (scope : Option (Credential × CredentialKind))
    (query : TxoQuery) :
    ∃ txos : List Txo,
      (∀ limit, txos.length ≤ limit →
        (getUtxos (runCalls calls) scope query 0 limit).2 = some txos) ∧
      (∀ offset limit, (getUtxos (runCalls calls) scope query offset limit).2 =
        some ((txos.drop offset).take limit)) ∧
      ∀ (reads : Nat → List Request) (limit n : Nat), txos.length ≤ n * limit →
        ((List.range n).flatMap fun i =>
          answer (calls ++ (reads i).map Request.call) scope query (i * limit) limit) = txos := by
  refine ⟨allMatches (runCalls calls) scope query, ?_, ?_, ?_⟩
  · intro limit hl
    rw [(consistent_runCalls calls).getUtxos_eq, List.drop_zero, List.take_of_length_le hl]
  · intro offset limit
    exact (consistent_runCalls calls).getUtxos_eq scope query offset limit
  · intro reads limit n hn
    have hpage : ∀ i, answer (calls ++ (reads i).map Request.call) scope query (i * limit) limit =
        ((allMatches (runCalls calls) scope query).drop (i * limit)).take limit := by
      intro i
      rw [answer, (consistent_runCalls _).getUtxos_eq, allMatches_requests, Option.getD_some]
    simp only [hpage]
    rw [flatMap_pages, List.take_of_length_le hn]

end UtxoMonitor
