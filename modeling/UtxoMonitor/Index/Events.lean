import UtxoMonitor.Index.Tables

/-! The events tables against the latest event of every output. An update reads the creation slot
of an output from its record, but nothing tells it the slot its spend was filed under. -/
namespace UtxoMonitor

open Lib

/-- The credentials a stored output is filed under. -/
def storedCredentials (existing : Option TxoRecord) : Credentials :=
  existing.elim [] fun r => r.output.credentials

@[simp] theorem storedCredentials_none : storedCredentials none = [] := rfl

@[simp] theorem storedCredentials_some (r : TxoRecord) :
    storedCredentials (some r) = r.output.credentials := rfl

/-- The events entries of an output filed at `slot`. -/
def Filed (existing : Option TxoRecord) (slot : Option Slot) (k : CredentialKind) (c : Credential)
    (t : Slot) : Prop :=
  (k, c) ∈ storedCredentials existing ∧ t = eventSlot slot

/-- An update drops the entries filed at the creation slot and files what it writes. -/
theorem Update.cell_events (u : Update) (x : Cell) (k : CredentialKind) (c : Credential)
    (t : Slot) :
    (u.cell x.txo x).events k c t ↔
      (x.events k c t ∧ ¬ Filed x.txo (x.txo.bind TxoRecord.settledAt) k c t) ∨
        Filed (u.record x.txo) (u.filedAt x.txo) k c t := by
  have hremove : (x.removeFound x.txo).events k c t ↔
      x.events k c t ∧ ¬ Filed x.txo (x.txo.bind TxoRecord.settledAt) k c t := by
    cases hx : x.txo with
    | none => simp [Cell.removeFound, Filed]
    | some r => simp [Cell.removeFound, Cell.remove, Cell.deleteIndexes, Filed]
  unfold Update.cell
  cases hr : u.record x.txo with
  | none => simpa [Filed] using hremove
  | some r => simp [Cell.write, Cell.writeSecondaryIndexes, hremove, Filed]

/-! ### The latest event of an output -/

/-- The record of an output and the slot of its latest event: the creation of an unspent output,
the spend of a spent one. -/
structure Entry where
  record : Option TxoRecord
  latest : Option Slot
  unspent : ∀ r, record = some r → r.spent = false → latest = r.settledAt

def Entry.empty : Entry := ⟨none, none, by simp⟩

/-- The slot of the latest event once the update is made. -/
def Update.latest (u : Update) (e : Entry) : Option Slot :=
  match u with
  | mark slot spent => if spent then slot else e.record.bind TxoRecord.settledAt
  | create _ settledAt => if keptSpent e.record then e.latest else settledAt
  | delete => none

def Entry.step (e : Entry) (u : Update) : Entry where
  record := u.record e.record
  latest := u.latest e
  unspent := by
    intro r hr hsp
    cases u with
    | mark slot spent =>
      obtain ⟨r', hr', rfl⟩ := Option.map_eq_some_iff.mp hr
      obtain rfl : spent = false := hsp
      simp [Update.latest, hr']
    | create txo settledAt =>
      obtain rfl := Option.some.inj hr
      have hkept : keptSpent e.record = false := hsp
      simp [Update.latest, hkept]
    | delete => cases hr

/-- When an update that finds a spent output leaves exactly the entries of its latest event. -/
def Update.Clean (u : Update) (e : Entry) : Prop :=
  ∀ r ∈ e.record, r.spent = true →
    match u with
    | mark slot spent => r.output.credentials = [] ∨
        eventSlot e.latest = eventSlot r.settledAt ∨
        (spent = true ∧ eventSlot e.latest = eventSlot slot)
    | create txo settledAt =>
        (txo.credentials = [] ∨ eventSlot settledAt = eventSlot e.latest) ∧
        (eventSlot e.latest = eventSlot r.settledAt ∨
          r.output.credentials ⊆ txo.credentials)
    | delete => r.output.credentials = [] ∨ eventSlot e.latest = eventSlot r.settledAt

instance : (u : Update) → (e : Entry) → Decidable (u.Clean e)
  | .mark _ _, e => inferInstanceAs (Decidable (∀ r ∈ e.record, r.spent = true → _ ∨ _ ∨ _))
  | .create _ _, e => inferInstanceAs (Decidable (∀ r ∈ e.record, r.spent = true → _ ∧ _))
  | .delete, e => inferInstanceAs (Decidable (∀ r ∈ e.record, r.spent = true → _ ∨ _))

/-- The cell holds the record and files it under the latest event only. -/
structure Cell.FiledAt (x : Cell) (e : Entry) : Prop where
  txo : x.txo = e.record
  events : ∀ k c t, x.events k c t ↔ Filed e.record e.latest k c t

/-- What is left of entries at `b` once those at `a` go and new ones at `f` come is the set of new
entries at `l`. -/
theorem residue_iff (old new : Credentials) (a b f l : Slot) :
    (∀ k c t, (((k, c) ∈ old ∧ t = b) ∧ ¬ ((k, c) ∈ old ∧ t = a)) ∨ ((k, c) ∈ new ∧ t = f) ↔
        (k, c) ∈ new ∧ t = l) ↔
      (new = [] ∨ f = l) ∧ (b = a ∨ ∀ kc ∈ old, kc ∈ new ∧ b = l) := by
  constructor
  · intro h
    constructor
    · rcases List.eq_nil_or_concat new with hn | ⟨_, kc, hn⟩
      · exact .inl hn
      · have hmem : (kc.1, kc.2) ∈ new := by simp [hn]
        exact .inr ((h kc.1 kc.2 f).mp (.inr ⟨hmem, rfl⟩)).2
    · apply or_iff_not_imp_left.mpr
      intro hba kc hkc
      exact (h kc.1 kc.2 b).mp (.inl ⟨⟨hkc, rfl⟩, fun hn => hba hn.2⟩)
  · rintro ⟨hnew, hold⟩ k c t
    constructor
    · rintro (⟨⟨hm, rfl⟩, hn⟩ | ⟨hm, rfl⟩)
      · rcases hold with rfl | hold
        · exact absurd ⟨hm, rfl⟩ hn
        · exact hold _ hm
      · rcases hnew with rfl | rfl
        · cases hm
        · exact ⟨hm, rfl⟩
    · rintro ⟨hm, rfl⟩
      rcases hnew with rfl | rfl
      · cases hm
      · exact .inr ⟨hm, rfl⟩

theorem forall_mem_and_iff (creds : Credentials) (p : Prop) :
    (∀ kc ∈ creds, kc ∈ creds ∧ p) ↔ creds = [] ∨ p := by
  rcases List.eq_nil_or_concat creds with rfl | ⟨_, kc, rfl⟩
  · simp
  · constructor
    · intro h
      exact .inr (h kc (by simp)).2
    · rintro (h | h)
      · simp at h
      · intro kc hkc
        exact ⟨hkc, h⟩

theorem Update.clean_iff (u : Update) (e : Entry) :
    u.Clean e ↔
      (storedCredentials (u.record e.record) = [] ∨
        eventSlot (u.filedAt e.record) = eventSlot (u.latest e)) ∧
      (eventSlot e.latest = eventSlot (e.record.bind TxoRecord.settledAt) ∨
        ∀ kc ∈ storedCredentials e.record, kc ∈ storedCredentials (u.record e.record) ∧
          eventSlot e.latest = eventSlot (u.latest e)) := by
  cases hr : e.record with
  | none =>
    cases u <;> simp [Clean, record, filedAt, latest, hr, keptSpent]
  | some r =>
    cases hsp : r.spent with
    | false =>
      have hl := e.unspent r hr hsp
      cases u <;> simp [Clean, record, filedAt, latest, hr, keptSpent, hsp, hl]
    | true =>
      cases u with
      | mark slot spent =>
        simp only [Clean, record, filedAt, latest, hr, Option.map_some, Option.bind_some,
          storedCredentials_some, forall_mem_and_iff]
        cases spent <;> simp <;> tauto
      | create txo settledAt =>
        simp [Clean, record, filedAt, latest, hr, hsp, keptSpent, List.subset_def]
      | delete =>
        simp [Clean, record, hr, hsp, or_comm, List.eq_nil_iff_forall_not_mem]

/-- One update keeps the events entries exact precisely when it is clean. -/
theorem Cell.FiledAt.update_iff {x : Cell} {e : Entry} (h : x.FiledAt e) (u : Update) :
    (u.cell x.txo x).FiledAt (e.step u) ↔ u.Clean e := by
  have htxo : (u.cell x.txo x).txo = (e.step u).record := by
    rw [u.cell_txo, h.txo]
    rfl
  have hevents : ∀ k c t, (u.cell x.txo x).events k c t ↔
      (Filed e.record e.latest k c t ∧
          ¬ Filed e.record (e.record.bind TxoRecord.settledAt) k c t) ∨
        Filed (u.record e.record) (u.filedAt e.record) k c t := by
    intro k c t
    rw [u.cell_events, h.events, h.txo]
  rw [u.clean_iff, ← residue_iff]
  constructor
  · intro hf k c t
    exact (hevents k c t).symm.trans (hf.events k c t)
  · intro hf
    exact ⟨htxo, fun k c t => (hevents k c t).trans (hf k c t)⟩

/-! ### Runs -/

/-- The entry of every output, as the updates so far leave it. -/
abbrev Book := OutputRef → Entry

def Book.empty : Book := fun _ => Entry.empty

def Book.step (b : Book) (u : OutputRef × Update) : Book :=
  Function.update b u.1 ((b u.1).step u.2)

def Book.run (us : List (OutputRef × Update)) (b : Book) : Book := us.foldl Book.step b

/-- Every update is clean where the ones before it leave the book. -/
def CleanFrom : Book → List (OutputRef × Update) → Prop
  | _, [] => True
  | b, u :: us => u.2.Clean (b u.1) ∧ CleanFrom (b.step u) us

instance : (b : Book) → (us : List (OutputRef × Update)) → Decidable (CleanFrom b us)
  | _, [] => inferInstanceAs (Decidable True)
  | b, u :: us =>
    have := instDecidableCleanFrom (b.step u) us
    inferInstanceAs (Decidable (u.2.Clean (b u.1) ∧ CleanFrom (b.step u) us))

/-- The updates a call makes. -/
def Call.updates : Call → List (OutputRef × Update)
  | .apply txHash inputs outputs settledAt => applyUpdates txHash inputs outputs settledAt
  | .unapply txHash inputs outputs => unapplyUpdates txHash inputs outputs
  | .getUtxos _ _ _ _ => []

theorem cellOf_call {db : RocksDB} (h : Consistent db) (call : Call) (o : OutputRef) :
    cellOf (call.run db) o = cellOf (runUpdates call.updates db) o := by
  cases call with
  | apply txHash inputs outputs settledAt => rw [Call.run, run_apply, Call.updates]
  | unapply txHash inputs outputs => rw [Call.run, run_unapply, Call.updates]
  | getUtxos scope query offset limit =>
    rw [Call.run, getUtxos_fst]
    exact cellOf_prepareQuery h scope query limit o

/-- Every run acts on the cell of an output by the updates of that output. -/
theorem cellOf_runCalls (calls : List Call) (o : OutputRef) :
    cellOf (runCalls calls) o = cellOf (runUpdates (calls.flatMap Call.updates) RocksDB.empty) o := by
  have hrun : ∀ db, Consistent db → cellOf (calls.foldl Call.run db) o =
      cellOf (runUpdates (calls.flatMap Call.updates) db) o := by
    induction calls with
    | nil => exact fun _ _ => rfl
    | cons call calls ih =>
      intro db h
      rw [List.foldl_cons, ih _ (h.call call), List.flatMap_cons, cellOf_runUpdates, cellOf_call h,
        runUpdates_append, cellOf_runUpdates (calls.flatMap Call.updates)]
  exact hrun _ Consistent.empty

theorem filedAt_runUpdates {us : List (OutputRef × Update)} {db : RocksDB} {b : Book}
    (hb : ∀ o, (cellOf db o).FiledAt (b o)) (hc : CleanFrom b us) (o : OutputRef) :
    (cellOf (runUpdates us db) o).FiledAt (b.run us o) := by
  induction us generalizing db b with
  | nil => exact hb o
  | cons u us ih =>
    refine ih ?_ hc.2
    intro o
    rw [cellOf_run_prog]
    by_cases h : u.1 = o
    · subst h
      simpa [Book.step] using ((hb u.1).update_iff u.2).mpr hc.1
    · simpa [Book.step, h, Ne.symm h] using hb o

/-- The book after a run of calls. -/
def bookAfter (calls : List Call) : Book := Book.run (calls.flatMap Call.updates) Book.empty

theorem nodup_eventsMatches {db : RocksDB} (hs : Shaped db) {k : CredentialKind} {c : Credential}
    {least : Option Slot}
    (hu : ∀ o s t, (cellOf db o).events k c s → (cellOf db o).events k c t → s = t) :
    ((eventsMatches db k c least).map Txo.oref).Nodup := by
  apply nodup_map_filterMap (Table.range_keys_nodup _ _ _)
  intro row hrow row' hrow' txo txo' h h' heq
  obtain ⟨o, s, rfl, hs1, -⟩ := (mem_eventsRows hs).mp hrow
  obtain ⟨o', t, rfl, ht1, -⟩ := (mem_eventsRows hs).mp hrow'
  obtain ⟨pre, hpre, hlen⟩ := eventsRow_split c (some s) o
  obtain ⟨pre', hpre', hlen'⟩ := eventsRow_split c (some t) o'
  rw [hpre, rowOref_append hlen] at h
  rw [hpre', rowOref_append hlen'] at h'
  obtain ⟨r, -, -, rfl⟩ := mem_scopedMatch.mp h
  obtain ⟨r', -, -, rfl⟩ := mem_scopedMatch.mp h'
  obtain rfl : o = o' := heq
  rw [hu o s t hs1 ht1]

/-- A query over an exact events table. -/
theorem answers_all {db : RocksDB} (hs : Shaped db) {b : Book}
    (hb : ∀ o, (cellOf db o).FiledAt (b o)) (k : CredentialKind) (c : Credential)
    (least : Option Slot) :
    Answers db (some (c, k)) (.all least) fun o r =>
      (k, c) ∈ r.output.credentials ∧ eventSlot least ≤ eventSlot (b o).latest := by
  refine .of_query (nodup_eventsMatches hs ?_) ?_
    fun offset limit hl => query_all hs k c least offset hl
  · intro o s t h h'
    exact (((hb o).events k c s).mp h).2.trans (((hb o).events k c t).mp h').2.symm
  · intro txo
    rw [mem_eventsMatches hs, mem_scopedMatch]
    constructor
    · rintro ⟨⟨s, hev, hle⟩, r, hr, -, heq⟩
      obtain ⟨hk, rfl⟩ := ((hb txo.oref).events k c s).mp hev
      rw [← (hb txo.oref).txo, show (cellOf db txo.oref).txo = some r from hr] at hk
      exact ⟨txo.oref, r, hr, ⟨hk, hle⟩, heq⟩
    · rintro ⟨o, r, hr, ⟨hk, hle⟩, rfl⟩
      refine ⟨⟨_, ((hb o).events k c _).mpr ⟨?_, rfl⟩, hle⟩, r, hr, by simp, rfl⟩
      rw [← (hb o).txo, show (cellOf db o).txo = some r from hr]
      exact hk

/-- As long as every update is clean, the events tables file each output under its latest event,
and a query for the events since a slot returns each output once. -/
theorem events_exact (calls : List Call)
    (h : CleanFrom Book.empty (calls.flatMap Call.updates)) :
    (∀ o, storedTxo (runCalls calls) o = (bookAfter calls o).record) ∧
    (∀ k c t o, credentialToUtxoAllKey c (some t) o ∈ runCalls calls (.events k) ↔
      ∃ r, storedTxo (runCalls calls) o = some r ∧ (k, c) ∈ r.output.credentials ∧
        t = eventSlot (bookAfter calls o).latest) ∧
    ∀ k c s, Answers (runCalls calls) (some (c, k)) (.all (some s)) fun o r =>
      (k, c) ∈ r.output.credentials ∧ s ≤ eventSlot (bookAfter calls o).latest := by
  have hempty : ∀ o, (cellOf RocksDB.empty o).FiledAt (Book.empty o) := fun o =>
    ⟨rfl, by simp [cellOf, RocksDB.empty, Filed, Book.empty, Entry.empty]⟩
  have hb : ∀ o, (cellOf (runCalls calls) o).FiledAt (bookAfter calls o) := by
    intro o
    rw [cellOf_runCalls]
    exact filedAt_runUpdates hempty h o
  refine ⟨fun o => (hb o).txo, ?_, ?_⟩
  · intro k c t o
    rw [storedTxo, (hb o).txo]
    apply ((hb o).events k c t).trans
    simp only [Filed]
    cases (bookAfter calls o).record <;> simp
  · intro k c s
    exact answers_all (consistent_runCalls calls).shaped hb k c (some s)

/-- The calls the handlers make for a transaction. -/
def TxViewMut.applyCall (tx : TxViewMut) (settledAt : Option Slot) : Call :=
  .apply tx.hash tx.inputRefs tx.outputs settledAt

def TxViewMut.unapplyCall (tx : TxViewMut) : Call := .unapply tx.hash tx.inputRefs tx.outputs

theorem events_exact_txConsume :
    CleanFrom Book.empty ([txProduce.applyCall (some 1), txConsume.applyCall (some 2)].flatMap
      Call.updates) ∧
    ∀ k c s, Answers (runCalls [txProduce.applyCall (some 1), txConsume.applyCall (some 2)])
      (some (c, k)) (.all (some s)) fun o r => (k, c) ∈ r.output.credentials ∧
        s ≤ eventSlot (bookAfter [txProduce.applyCall (some 1), txConsume.applyCall (some 2)]
          o).latest := by
  have h : CleanFrom Book.empty ([txProduce.applyCall (some 1),
      txConsume.applyCall (some 2)].flatMap Call.updates) := by decide +kernel
  exact ⟨h, (events_exact _ h).2.2⟩

/-- After a spend at slot 2 is rolled back, the output is listed at its creation and at the spend. -/
theorem events_twice_after_unapply :
    (getUtxos (runCalls [txProduce.applyCall (some 1), txConsume.applyCall (some 2),
        txConsume.unapplyCall]) (some (.pubKey (.replicate 7), .payment)) (.all (some 0)) 0 10).2.map
      (fun txos => txos.map Txo.oref) =
    some [⟨txProduce.hash, 0⟩, ⟨txProduce.hash, 0⟩] := by
  decide +kernel

end UtxoMonitor
