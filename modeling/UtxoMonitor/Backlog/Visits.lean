import UtxoMonitor.Backlog.Persistent

/-! What the calls of the persistent backlog do to the orders that are queued. -/
namespace UtxoMonitor.Backlog

open Lib

namespace BacklogStore

variable {TOrd TOrderId : Type} [DecidableEq TOrderId] [UniqueOrder TOrd TOrderId]
  {store : BacklogStore TOrd} {oid oid' : TOrderId} {bo : BacklogOrder TOrd}

theorem getSelfRef_of_get (h : store.get oid = some bo) : getSelfRef bo.order = oid :=
  store.keyed _ (AList.mem_lookup_iff.mp h)

theorem contains_iff : store.contains oid ↔ ∃ bo, store.get oid = some bo := by
  rw [contains, decide_eq_true_iff, ← AList.lookup_isSome, Option.isSome_iff_exists]
  rfl

theorem get_remove : (store.remove oid).get oid' = if oid' = oid then none else store.get oid' :=
  lookup_erase_eq _ _ _

theorem get_put : (store.put bo).get oid' =
    if oid' = getSelfRef bo.order then some bo else store.get oid' :=
  lookup_insert_eq _ _ _ _

end BacklogStore

/-! ### One entry of a key is taken out of a list -/

section

variable {A B : Type} [DecidableEq B] {f : A → B} {b : B} {l l' : List A}

/-- One of the elements with the key is gone, if there was any. -/
structure TakesOne (f : A → B) (b : B) (l l' : List A) : Prop where
  mem : ∀ a ∈ l', a ∈ l
  count : (l'.map f).count b = (l.map f).count b - 1
  count_of_ne : ∀ b', b' ≠ b → (l'.map f).count b' = (l.map f).count b'

theorem TakesOne.of_perm {a : A} (ha : f a = b) (h : l.Perm (a :: l')) : TakesOne f b l l' where
  mem a' ha' := h.mem_iff.mpr (List.mem_cons_of_mem a ha')
  count := by
    rw [(h.map f).count_eq, List.map_cons, ha, List.count_cons_self]
    rfl
  count_of_ne b' hne := by
    rw [(h.map f).count_eq, List.map_cons, ha, List.count_cons_of_ne hne.symm]

theorem TakesOne.of_none (h : ∀ a ∈ l, f a ≠ b) : TakesOne f b l l where
  mem _ ha := ha
  count := by
    have hnone : b ∉ l.map f := by
      intro hmem
      obtain ⟨a, ha, heq⟩ := List.mem_map.mp hmem
      exact h a ha heq
    rw [List.count_eq_zero_of_not_mem hnone]
  count_of_ne _ _ := rfl

theorem TakesOne.eraseP (f : A → B) (b : B) (l : List A) :
    TakesOne f b l (l.eraseP fun a => f a = b) := by
  by_cases h : ∃ a ∈ l, f a = b
  · obtain ⟨a, ha, heq⟩ := h
    obtain ⟨a', l₁, l₂, -, ha', hl, herase⟩ :=
      List.exists_of_eraseP (p := fun a => f a = b) ha (by simpa using heq)
    rw [herase, hl]
    exact .of_perm (by simpa using ha') List.perm_middle
  · have hnone : ∀ a ∈ l, f a ≠ b := fun a ha heq => h ⟨a, ha, heq⟩
    rw [List.eraseP_of_forall_not (by simpa using hnone)]
    exact .of_none hnone

end

namespace PersistentPriorityBacklog

variable {Q TOrd TOrderId W : Type} [DecidableEq TOrderId] [LE W]
  [PriorityQueue Q (WeightedOrder TOrderId) W] [UniqueOrder TOrd TOrderId] [Weighted TOrd W]

/-- What is pending, suspended and to be revisited. -/
def entries (s : PersistentPriorityBacklog Q TOrd) : List (WeightedOrder TOrderId) :=
  PriorityQueue.items s.pendingPq ++ PriorityQueue.items s.suspendedPq ++ s.revisitQueue

/-! ### Visits of one entry -/

/-- An entry is visited: it is pending again as it is stored, or it is dropped as nothing is stored
of it, or it is too old and its order is removed. -/
inductive Visited (now : Int) (s s' : PersistentPriorityBacklog Q TOrd) : Prop where
  | requeued (e : WeightedOrder TOrderId) (bo : BacklogOrder TOrd)
      (rest : List (WeightedOrder TOrderId)) (before : s.entries.Perm (e :: rest))
      (stored : s.store.get e.order = some bo) (store : s'.store = s.store)
      (after : s'.entries.Perm rest ∧ bo.weighted ∈ rest ∨ s'.entries.Perm (bo.weighted :: rest))
      (conf : s'.conf = s.conf)
  | dropped (e : WeightedOrder TOrderId) (rest : List (WeightedOrder TOrderId))
      (before : s.entries.Perm (e :: rest)) (absent : s.store.get e.order = none)
      (store : s'.store = s.store) (after : s'.entries.Perm rest) (conf : s'.conf = s.conf)
  | expired (e : WeightedOrder TOrderId) (rest : List (WeightedOrder TOrderId))
      (before : s.entries.Perm (e :: rest)) (old : s.conf.orderLifespan < now - e.timestamp)
      (store : s'.store = s.store.remove e.order) (after : s'.entries.Perm rest)
      (conf : s'.conf = s.conf)

/-- An entry is taken out of the queues, and the order that is stored of it handed out. -/
structure HandsOut (s s' : PersistentPriorityBacklog Q TOrd) (ord : TOrd) : Prop where
  entry : ∃ e bo, s.entries.Perm (e :: s'.entries) ∧ s.store.get e.order = some bo ∧ bo.order = ord
  store : s'.store = s.store
  conf : s'.conf = s.conf

/-- Entries are visited one after the other. -/
abbrev Visits (now : Int) : PersistentPriorityBacklog Q TOrd → PersistentPriorityBacklog Q TOrd →
    Prop :=
  Relation.ReflTransGen (Visited now)

variable {s s' : PersistentPriorityBacklog Q TOrd} {now : Int} {rng : Nat}

omit [DecidableEq TOrderId] [Weighted TOrd W] in
theorem entries_revisit (s : PersistentPriorityBacklog Q TOrd) (ord : WeightedOrder TOrderId)
    (rest : List (WeightedOrder TOrderId)) :
    ({ s with revisitQueue := ord :: rest } : PersistentPriorityBacklog Q TOrd).entries.Perm
      (ord :: ({ s with revisitQueue := rest } : PersistentPriorityBacklog Q TOrd).entries) :=
  List.perm_middle

omit [Weighted TOrd W] in
theorem entries_push_pending (s : PersistentPriorityBacklog Q TOrd) (wo : WeightedOrder TOrderId)
    (w : W) :
    let s' : PersistentPriorityBacklog Q TOrd :=
      { s with pendingPq := PriorityQueue.push s.pendingPq wo w }
    s'.entries.Perm s.entries ∧ wo ∈ s.entries ∨ s'.entries.Perm (wo :: s.entries) := by
  by_cases h : wo ∈ PriorityQueue.items s.pendingPq
  · left
    exact ⟨((PriorityQueue.items_push_of_mem h).append_right _).append_right _, by
      simp [entries, h]⟩
  · right
    exact ((PriorityQueue.items_push h).append_right _).append_right _

theorem revisitOrders_visits (ords : List (WeightedOrder TOrderId))
    (s : PersistentPriorityBacklog Q TOrd) :
    Visits now { s with revisitQueue := ords } (revisitOrders now ords s) := by
  induction ords generalizing s with
  | nil => exact .refl
  | cons ord rest ih =>
    unfold revisitOrders
    split
    · split
      · split
        · rename_i bo hbo
          refine Relation.ReflTransGen.head ?_ (ih { s with
            pendingPq := PriorityQueue.push s.pendingPq bo.weighted (weight bo.order) })
          exact .requeued ord bo _ (entries_revisit s ord rest) hbo rfl
            (entries_push_pending { s with revisitQueue := rest } _ _) rfl
        · rename_i hnone
          refine Relation.ReflTransGen.head ?_ (ih s)
          exact .dropped ord _ (entries_revisit s ord rest) hnone rfl .rfl rfl
      · rename_i hold
        refine Relation.ReflTransGen.head ?_ (ih { s with store := s.store.remove ord.order })
        exact .expired ord _ (entries_revisit s ord rest) (not_le.mp hold) rfl .rfl rfl
    · exact .refl

omit [Weighted TOrd W] in
/-- The queue that is popped of is visited in a state of its own. -/
theorem tryPopMaxOrder_visits (now : Int)
    (state : Q → BacklogStore TOrd → PersistentPriorityBacklog Q TOrd)
    (others : List (WeightedOrder TOrderId)) (conf : BacklogConfig)
    (hentries : ∀ pq store, (state pq store).entries.Perm (PriorityQueue.items pq ++ others))
    (hstore : ∀ pq store, (state pq store).store = store)
    (hconf : ∀ pq store, (state pq store).conf = conf) (pq : Q) (store : BacklogStore TOrd) :
    ∃ s', Visits now (state pq store) s' ∧
      (((tryPopMaxOrder conf store pq now).1 = none ∧
        state (tryPopMaxOrder conf store pq now).2.1 (tryPopMaxOrder conf store pq now).2.2 = s') ∨
      ∃ ord, (tryPopMaxOrder conf store pq now).1 = some ord ∧
        HandsOut s' (state (tryPopMaxOrder conf store pq now).2.1
          (tryPopMaxOrder conf store pq now).2.2) ord) := by
  have hpop : ∀ {pq pq' : Q} {store store' : BacklogStore TOrd} {e : WeightedOrder TOrderId} {w : W},
      PriorityQueue.pop pq = some ((e, w), pq') →
      (state pq store).entries.Perm (e :: (state pq' store').entries) := by
    intro pq pq' store store' e w hpop
    refine (hentries _ _).trans (((PriorityQueue.items_pop hpop).append_right _).trans ?_)
    exact List.Perm.cons e (hentries pq' store').symm
  have hskip : ∀ (q : Q) (st : BacklogStore TOrd) (e : WeightedOrder TOrderId) (w : W) (q' : Q)
      (st' : BacklogStore TOrd), Visits now (state pq store) (state q st) →
      PriorityQueue.pop q = some ((e, w), q') → visit conf now st e = (st', none) →
      Visits now (state pq store) (state q' st') := by
    intro q st e w q' st' hvisits hpopped hvisit
    apply hvisits.tail
    unfold visit at hvisit
    split at hvisit
    · rename_i hold
      obtain ⟨rfl, -⟩ := Prod.mk.inj hvisit
      exact .expired e _ (hpop hpopped) (by rwa [hconf]) (by rw [hstore, hstore]) .rfl
        (by rw [hconf, hconf])
    · obtain ⟨rfl, hnone⟩ := Prod.mk.inj hvisit
      exact .dropped e _ (hpop hpopped) (by rw [hstore]; exact Option.map_eq_none_iff.mp hnone)
        (by rw [hstore, hstore]) .rfl (by rw [hconf, hconf])
  rcases PriorityQueue.popUntil_cases hskip .refl le_rfl with
    ⟨q', st', heq, hvisits, -⟩ | ⟨q, st, e, w, q', st', ord, heq, hvisits, hpopped, hvisit⟩
  · refine ⟨state q' st', hvisits, .inl ?_⟩
    rw [tryPopMaxOrder, heq]
    exact ⟨rfl, rfl⟩
  · refine ⟨state q st, hvisits, .inr ⟨ord, ?_⟩⟩
    rw [tryPopMaxOrder, heq]
    refine ⟨rfl, ?_⟩
    unfold visit at hvisit
    split at hvisit
    · cases hvisit
    · obtain ⟨rfl, hord⟩ := Prod.mk.inj hvisit
      obtain ⟨bo, hbo, rfl⟩ := Option.map_eq_some_iff.mp hord
      exact ⟨⟨e, bo, hpop hpopped, by rwa [hstore], rfl⟩, by rw [hstore, hstore],
        by rw [hconf, hconf]⟩

/-- A pop visits entries, and may then hand an order out. -/
theorem tryPop_visits (s : PersistentPriorityBacklog Q TOrd) (now : Int) (rng : Nat) :
    ∃ s', Visits now s s' ∧ (((s.tryPop now rng).1 = none ∧ (s.tryPop now rng).2 = s') ∨
      ∃ ord, (s.tryPop now rng).1 = some ord ∧ HandsOut s' (s.tryPop now rng).2 ord) := by
  have hrevisit : Visits now s (s.revisitProgressingOrders now) :=
    revisitOrders_visits s.revisitQueue s
  unfold tryPop
  generalize s.revisitProgressingOrders now = s₁ at hrevisit
  simp only
  split
  · obtain ⟨s', hvisits, h⟩ := tryPopMaxOrder_visits now
      (fun pq store => { s₁ with store := store, pendingPq := pq })
      (PriorityQueue.items s₁.suspendedPq ++ s₁.revisitQueue) s₁.conf
      (fun pq store => by simp [entries]) (fun _ _ => rfl) (fun _ _ => rfl) s₁.pendingPq s₁.store
    exact ⟨s', hrevisit.trans hvisits, h⟩
  · obtain ⟨s', hvisits, h⟩ := tryPopMaxOrder_visits now
      (fun pq store => { s₁ with store := store, suspendedPq := pq })
      (PriorityQueue.items s₁.pendingPq ++ s₁.revisitQueue) s₁.conf
      (fun pq store => by
        rw [entries, ← List.append_assoc]
        exact List.perm_append_comm.append_right _)
      (fun _ _ => rfl) (fun _ _ => rfl) s₁.suspendedPq s₁.store
    exact ⟨s', hrevisit.trans hvisits, h⟩

/-! ### Calls -/

/-- How many entries the queues have of an order. -/
def count (s : PersistentPriorityBacklog Q TOrd) (oid : TOrderId) : Nat :=
  (s.entries.map WeightedOrder.order).count oid

omit [Weighted TOrd W] in
theorem count_eq (s : PersistentPriorityBacklog Q TOrd) (oid : TOrderId) : s.count oid =
    ((PriorityQueue.items s.pendingPq).map WeightedOrder.order).count oid +
      ((PriorityQueue.items s.suspendedPq).map WeightedOrder.order).count oid +
      (s.revisitQueue.map WeightedOrder.order).count oid := by
  simp only [count, entries, List.map_append, List.count_append]

omit [Weighted TOrd W] in
theorem count_pos_iff {oid : TOrderId} : 0 < s.count oid ↔ ∃ e ∈ s.entries, e.order = oid := by
  rw [count, List.count_pos_iff, List.mem_map]

theorem items_takesOne (q : Q) (oid : TOrderId) :
    TakesOne WeightedOrder.order oid (PriorityQueue.items q) (PriorityQueue.items
      (match (PriorityQueue.items q).find? fun wo => wo.order = oid with
        | some element => PriorityQueue.remove q element
        | none => q)) := by
  split
  · rename_i element hfind
    have hmem := List.mem_of_find?_eq_some hfind
    have horder : element.order = oid := by simpa using List.find?_some hfind
    exact .of_perm horder (PriorityQueue.items_remove hmem)
  · rename_i hfind
    exact .of_none (by simpa using List.find?_eq_none.mp hfind)

/-- The order is pushed unless the queue has an entry of it. -/
structure Ensures (wo : WeightedOrder TOrderId) (q q' : Q) : Prop where
  mem : ∀ e ∈ PriorityQueue.items q', e = wo ∨ e ∈ PriorityQueue.items q
  count : ((PriorityQueue.items q').map WeightedOrder.order).count wo.order =
    max 1 (((PriorityQueue.items q).map WeightedOrder.order).count wo.order)
  count_of_ne : ∀ oid, oid ≠ wo.order →
    ((PriorityQueue.items q').map WeightedOrder.order).count oid =
      ((PriorityQueue.items q).map WeightedOrder.order).count oid

theorem items_ensures (q : Q) (wo : WeightedOrder TOrderId) (w : W) :
    Ensures wo q (if (PriorityQueue.items q).any fun wo' => wo'.order = wo.order then q
      else PriorityQueue.push q wo w) := by
  split
  · rename_i hany
    obtain ⟨e, he, horder⟩ := List.any_eq_true.mp hany
    have hmem : wo.order ∈ (PriorityQueue.items q).map WeightedOrder.order :=
      List.mem_map.mpr ⟨e, he, by simpa using horder⟩
    exact ⟨fun _ he => .inr he, (Nat.max_eq_right (List.count_pos_iff.mpr hmem)).symm,
      fun _ _ => rfl⟩
  · rename_i hany
    have hnone : ∀ e ∈ PriorityQueue.items q, e.order ≠ wo.order := by
      intro e he horder
      exact hany (List.any_eq_true.mpr ⟨e, he, by simpa using horder⟩)
    have hperm := PriorityQueue.items_push (w := w) (fun hmem => hnone wo hmem rfl)
    have hcount : wo.order ∉ (PriorityQueue.items q).map WeightedOrder.order := by
      intro hmem
      obtain ⟨e, he, horder⟩ := List.mem_map.mp hmem
      exact hnone e he horder
    refine ⟨fun e he => List.mem_cons.mp (hperm.mem_iff.mp he), ?_, ?_⟩
    · rw [(hperm.map _).count_eq, List.map_cons, List.count_cons_self,
        List.count_eq_zero_of_not_mem hcount]
      rfl
    · intro oid hne
      rw [(hperm.map _).count_eq, List.map_cons, List.count_cons_of_ne hne.symm]

/-- What a put leaves in the queues. -/
theorem mem_entries_put {ord : PendingOrder TOrd} {e : WeightedOrder TOrderId}
    (h : e ∈ (s.put ord).entries) : e = ord.weighted ∨ e ∈ s.entries := by
  simp only [entries, List.mem_append] at h ⊢
  rcases h with (h | h) | h
  · rcases (items_ensures s.pendingPq ord.weighted (weight ord.order)).mem e h with h | h
    · exact .inl h
    · exact .inr (.inl (.inl h))
  · exact .inr (.inl (.inr ((items_takesOne s.suspendedPq _).mem e h)))
  · exact .inr (.inr ((TakesOne.eraseP _ _ s.revisitQueue).mem e h))

theorem count_put (s : PersistentPriorityBacklog Q TOrd) (ord : PendingOrder TOrd) :
    (s.put ord).count (getSelfRef ord.order) =
    max 1 (((PriorityQueue.items s.pendingPq).map WeightedOrder.order).count
      (getSelfRef ord.order)) +
    (((PriorityQueue.items s.suspendedPq).map WeightedOrder.order).count
      (getSelfRef ord.order) - 1) +
    ((s.revisitQueue.map WeightedOrder.order).count (getSelfRef ord.order) - 1) := by
  rw [count_eq]
  exact congrArg₂ _ (congrArg₂ _
    (items_ensures s.pendingPq ord.weighted (weight ord.order)).count
    (items_takesOne s.suspendedPq (getSelfRef ord.order)).count)
    (TakesOne.eraseP _ _ s.revisitQueue).count

theorem count_put_of_ne {ord : PendingOrder TOrd} {oid : TOrderId}
    (hne : oid ≠ getSelfRef ord.order) : (s.put ord).count oid = s.count oid := by
  rw [count_eq, count_eq]
  exact congrArg₂ _ (congrArg₂ _
    ((items_ensures s.pendingPq ord.weighted (weight ord.order)).count_of_ne oid hne)
    ((items_takesOne s.suspendedPq (getSelfRef ord.order)).count_of_ne oid hne))
    ((TakesOne.eraseP _ _ s.revisitQueue).count_of_ne oid hne)

end PersistentPriorityBacklog

end UtxoMonitor.Backlog
