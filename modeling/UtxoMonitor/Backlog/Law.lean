import Mathlib.Data.List.Induction
import UtxoMonitor.Backlog.Visits

/-! The persistent backlog keeps every order until it is handed out or removed. It counts an order once,
and the age of an order from its latest put, as long as the calls are careful. -/
namespace UtxoMonitor.Backlog

open Lib

/-- The order that a call queues again. -/
def BacklogCall.queued {TOrd TOrderId : Type} [UniqueOrder TOrd TOrderId] :
    BacklogCall TOrd TOrderId → Option TOrderId
  | .suspend ord => some (getSelfRef ord)
  | .checkLater ord => some (getSelfRef ord.order)
  | .recharge ord => some (getSelfRef ord)
  | _ => none

def BacklogCall.time {TOrd TOrderId : Type} : BacklogCall TOrd TOrderId → Option Int
  | .put ord => some ord.timestamp
  | .tryPop now _ => some now
  | .checkLater ord => some ord.timestamp
  | _ => none

namespace PersistentPriorityBacklog

variable {Q TOrd TOrderId W : Type} [DecidableEq TOrderId] [LE W]
  [PriorityQueue Q (WeightedOrder TOrderId) W] [UniqueOrder TOrd TOrderId] [Weighted TOrd W]

variable {s s' : PersistentPriorityBacklog Q TOrd} {c : BacklogCall TOrd TOrderId}
  {now : Int} {rng : Nat} {oid : TOrderId} {ord : TOrd}

/-! ### An order is queued again -/

/-- An entry joins the queues, if it is not there. -/
structure Queues (s s' : PersistentPriorityBacklog Q TOrd) (e : WeightedOrder TOrderId) : Prop where
  after : s'.entries.Perm s.entries ∧ e ∈ s.entries ∨ s'.entries.Perm (e :: s.entries)
  store : s'.store = s.store
  conf : s'.conf = s.conf

omit [Weighted TOrd W] in
theorem entries_push_suspended (s : PersistentPriorityBacklog Q TOrd) (wo : WeightedOrder TOrderId)
    (w : W) :
    let s' : PersistentPriorityBacklog Q TOrd :=
      { s with suspendedPq := PriorityQueue.push s.suspendedPq wo w }
    s'.entries.Perm s.entries ∧ wo ∈ s.entries ∨ s'.entries.Perm (wo :: s.entries) := by
  by_cases h : wo ∈ PriorityQueue.items s.suspendedPq
  · left
    refine ⟨((PriorityQueue.items_push_of_mem h).append_left _).append_right _, ?_⟩
    simp [entries, h]
  · right
    refine (((PriorityQueue.items_push h).append_left _).append_right _).trans ?_
    exact List.perm_middle.append_right _

/-- A call that queues an order has no effect, or it queues it as of a time of the store or its own. -/
theorem queued_call (s : PersistentPriorityBacklog Q TOrd) (hc : c.queued = some oid) :
    s.call c = s ∨ ∃ bo e, s.store.get oid = some bo ∧ e.order = oid ∧
      (e.timestamp = bo.timestamp ∨ c.time = some e.timestamp) ∧ Queues s (s.call c) e := by
  cases c with
  | put ord => cases hc
  | tryPop now rng => cases hc
  | remove a => cases hc
  | suspend ord =>
    cases hc
    simp only [call, suspend]
    cases hget : s.store.get (getSelfRef ord) with
    | none => exact .inl rfl
    | some bo => exact .inr ⟨bo, _, rfl, rfl, .inl rfl, entries_push_suspended s _ _, rfl, rfl⟩
  | recharge ord =>
    cases hc
    simp only [call, recharge]
    cases hget : s.store.get (getSelfRef ord) with
    | none => exact .inl rfl
    | some bo => exact .inr ⟨bo, _, rfl, rfl, .inl rfl, entries_push_pending s _ _, rfl, rfl⟩
  | checkLater ord =>
    cases hc
    simp only [call, checkLater]
    split
    · rename_i hstored
      obtain ⟨bo, hbo⟩ := BacklogStore.contains_iff.mp hstored
      refine .inr ⟨bo, ord.weighted, hbo, rfl, .inr rfl, .inr ?_, rfl, rfl⟩
      rw [entries, ← List.append_assoc]
      exact List.perm_append_comm
    · exact .inl rfl

/-! ### The store -/

omit [Weighted TOrd W] in
theorem Visited.get (h : Visited now s s') (oid : TOrderId) :
    s'.store.get oid = s.store.get oid ∨ s'.store.get oid = none ∧
      ∃ e ∈ s.entries, e.order = oid ∧ s.conf.orderLifespan < now - e.timestamp := by
  cases h with
  | requeued e bo rest before stored store after conf => exact .inl (by rw [store])
  | dropped e rest before absent store after conf => exact .inl (by rw [store])
  | expired e rest before old store after conf =>
    rw [store, BacklogStore.get_remove]
    split
    · rename_i heq
      exact .inr ⟨rfl, e, before.mem_iff.mpr List.mem_cons_self, heq.symm, old⟩
    · exact .inl rfl

omit [Weighted TOrd W] in
theorem Visits.get_eq_none (h : Visits now s s') (hnone : s.store.get oid = none) :
    s'.store.get oid = none := by
  induction h with
  | refl => exact hnone
  | tail _ hstep ih =>
    rcases hstep.get oid with heq | ⟨heq, -⟩
    · rw [heq, ih]
    · exact heq

theorem get_put (s : PersistentPriorityBacklog Q TOrd) (ord : PendingOrder TOrd) (oid : TOrderId) :
    (s.put ord).store.get oid =
      if oid = getSelfRef ord.order ∧ s.store.get oid = none then some ⟨ord.order, ord.timestamp⟩
      else s.store.get oid := by
  simp only [put]
  split
  · rename_i hstored
    obtain ⟨bo, hbo⟩ := BacklogStore.contains_iff.mp hstored
    rw [if_neg]
    rintro ⟨rfl, hnone⟩
    rw [hbo] at hnone
    cases hnone
  · rename_i habsent
    rw [BacklogStore.get_put]
    split
    · rename_i heq
      subst heq
      rw [if_pos]
      refine ⟨rfl, ?_⟩
      cases hget : s.store.get (getSelfRef ord.order) with
      | none => rfl
      | some bo => exact absurd (BacklogStore.contains_iff.mpr ⟨bo, hget⟩) habsent
    · rename_i hne
      rw [if_neg (fun h => hne h.1)]

/-- What is handed out was stored. -/
theorem stored_of_handedOut (h : s.handedOut c = some ord) :
    ∃ bo, s.store.get (getSelfRef ord) = some bo := by
  cases c with
  | tryPop now rng =>
    obtain ⟨s₁, hvisits, ⟨hnone, -⟩ | ⟨ord', hord, hout⟩⟩ := s.tryPop_visits now rng
    · exact absurd (h.symm.trans hnone) (by simp)
    · cases h.symm.trans hord
      obtain ⟨e, bo, -, hbo, rfl⟩ := hout.entry
      rw [BacklogStore.getSelfRef_of_get hbo]
      cases hget : s.store.get e.order with
      | some bo' => exact ⟨bo', rfl⟩
      | none =>
        rw [hvisits.get_eq_none hget] at hbo
        cases hbo
  | put _ => cases h
  | suspend _ => cases h
  | checkLater _ => cases h
  | recharge _ => cases h
  | remove _ => cases h

/-- Nothing but a put stores an order. -/
theorem get_call_eq_none (hnone : s.store.get oid = none)
    (hput : ∀ ord, c = .put ord → getSelfRef ord.order ≠ oid) : (s.call c).store.get oid = none := by
  have hqueued : ∀ a, c.queued = some a → (s.call c).store.get oid = none := by
    intro a hc
    rcases queued_call s hc with heq | ⟨bo, e, -, -, -, hqueues⟩
    · rwa [heq]
    · rwa [hqueues.store]
  cases c with
  | put ord =>
    rw [call, get_put, if_neg (fun h => hput ord rfl h.1.symm), hnone]
  | tryPop now rng =>
    obtain ⟨s₁, hvisits, ⟨-, heq⟩ | ⟨ord, -, hout⟩⟩ := s.tryPop_visits now rng
    · rw [call, heq]
      exact hvisits.get_eq_none hnone
    · rw [call, hout.store]
      exact hvisits.get_eq_none hnone
  | suspend ord => exact hqueued _ rfl
  | checkLater ord => exact hqueued _ rfl
  | recharge ord => exact hqueued _ rfl
  | remove a =>
    rw [call, remove, BacklogStore.get_remove]
    split
    · rfl
    · exact hnone

/-! ### No order is lost -/

/-- The order is stored, and in a queue. -/
structure Tracked (s : PersistentPriorityBacklog Q TOrd) (oid : TOrderId) : Prop where
  stored : ∃ bo, s.store.get oid = some bo
  queued : 0 < s.count oid

/-- The call takes the order out of the store. -/
def Deletes (s : PersistentPriorityBacklog Q TOrd) (c : BacklogCall TOrd TOrderId)
    (oid : TOrderId) : Prop :=
  (∃ bo, s.store.get oid = some bo) ∧ (s.call c).store.get oid = none

omit [Weighted TOrd W] in
theorem count_of_perm {e : WeightedOrder TOrderId} (h : s.entries.Perm (e :: s'.entries))
    (oid : TOrderId) :
    s.count oid = s'.count oid + if e.order = oid then 1 else 0 := by
  rw [count, (h.map _).count_eq, List.map_cons, List.count_cons, count]
  simp

omit [Weighted TOrd W] in
theorem Visited.tracked (h : Visited now s s') (ht : s.Tracked oid) :
    s'.Tracked oid ∨ s'.store.get oid = none := by
  obtain ⟨⟨bo', hbo'⟩, hcount⟩ := ht
  obtain ⟨e', he', horder'⟩ := count_pos_iff.mp hcount
  cases h with
  | requeued e bo rest before stored store after conf =>
    left
    refine ⟨⟨bo', by rw [store, hbo']⟩, count_pos_iff.mpr ?_⟩
    have horder := BacklogStore.getSelfRef_of_get stored
    rcases List.mem_cons.mp (before.mem_iff.mp he') with rfl | hrest
    · refine ⟨bo.weighted, ?_, horder.trans horder'⟩
      rcases after with ⟨hperm, hmem⟩ | hperm
      · exact hperm.mem_iff.mpr hmem
      · exact hperm.mem_iff.mpr List.mem_cons_self
    · refine ⟨e', ?_, horder'⟩
      rcases after with ⟨hperm, -⟩ | hperm
      · exact hperm.mem_iff.mpr hrest
      · exact hperm.mem_iff.mpr (List.mem_cons_of_mem _ hrest)
  | dropped e rest before absent store after conf =>
    left
    refine ⟨⟨bo', by rw [store, hbo']⟩, count_pos_iff.mpr ⟨e', ?_, horder'⟩⟩
    rcases List.mem_cons.mp (before.mem_iff.mp he') with rfl | hrest
    · rw [horder', hbo'] at absent
      cases absent
    · exact after.mem_iff.mpr hrest
  | expired e rest before old store after conf =>
    by_cases heq : oid = e.order
    · right
      rw [store, BacklogStore.get_remove, if_pos heq]
    · left
      refine ⟨⟨bo', ?_⟩, count_pos_iff.mpr ⟨e', ?_, horder'⟩⟩
      · rw [store, BacklogStore.get_remove, if_neg heq, hbo']
      · rcases List.mem_cons.mp (before.mem_iff.mp he') with rfl | hrest
        · exact absurd horder'.symm heq
        · exact after.mem_iff.mpr hrest

omit [Weighted TOrd W] in
theorem Visits.tracked (h : Visits now s s') (ht : s.Tracked oid) :
    s'.Tracked oid ∨ s'.store.get oid = none := by
  induction h with
  | refl => exact .inl ht
  | tail _ hstep ih =>
    rcases ih with ht | hnone
    · exact hstep.tracked ht
    · exact .inr (Visits.get_eq_none (.single hstep) hnone)

theorem tracked_put (s : PersistentPriorityBacklog Q TOrd) (ord : PendingOrder TOrd) :
    (s.put ord).Tracked (getSelfRef ord.order) := by
  refine ⟨?_, ?_⟩
  · rw [get_put]
    cases s.store.get (getSelfRef ord.order) with
    | none => exact ⟨_, if_pos ⟨rfl, rfl⟩⟩
    | some bo => exact ⟨bo, if_neg (fun h => by cases h.2)⟩
  · rw [count_put]
    omega

/-- An order stays in the queues until it is handed out or deleted. -/
theorem Tracked.call (ht : s.Tracked oid) (c : BacklogCall TOrd TOrderId) :
    (s.call c).Tracked oid ∨ (∃ ord, s.handedOut c = some ord ∧ getSelfRef ord = oid) ∨
      s.Deletes c oid := by
  have hqueued : ∀ a, c.queued = some a → (s.call c).Tracked oid := by
    intro a hc
    rcases queued_call s hc with heq | ⟨bo, e, -, -, -, hqueues⟩
    · rwa [heq]
    · obtain ⟨⟨bo', hbo'⟩, hcount⟩ := ht
      obtain ⟨e', he', horder'⟩ := count_pos_iff.mp hcount
      refine ⟨⟨bo', by rw [hqueues.store, hbo']⟩, count_pos_iff.mpr ⟨e', ?_, horder'⟩⟩
      rcases hqueues.after with ⟨hperm, -⟩ | hperm
      · exact hperm.mem_iff.mpr he'
      · exact hperm.mem_iff.mpr (List.mem_cons_of_mem _ he')
  cases c with
  | put ord =>
    left
    by_cases heq : oid = getSelfRef ord.order
    · rw [heq]
      exact tracked_put s ord
    · refine ⟨?_, ?_⟩
      · rw [PersistentPriorityBacklog.call, get_put, if_neg (fun h => heq h.1)]
        exact ht.stored
      · rw [PersistentPriorityBacklog.call, count_put_of_ne heq]
        exact ht.queued
  | tryPop now rng =>
    obtain ⟨s₁, hvisits, ⟨-, heq⟩ | ⟨ord, hord, hout⟩⟩ := s.tryPop_visits now rng
    · rcases hvisits.tracked ht with ht' | hnone
      · left
        rwa [PersistentPriorityBacklog.call, heq]
      · right; right
        refine ⟨ht.stored, ?_⟩
        rwa [PersistentPriorityBacklog.call, heq]
    · rcases hvisits.tracked ht with ht' | hnone
      · obtain ⟨e, bo, hperm, hbo, rfl⟩ := hout.entry
        by_cases horder : e.order = oid
        · right; left
          exact ⟨_, hord, (BacklogStore.getSelfRef_of_get hbo).trans horder⟩
        · left
          refine ⟨?_, ?_⟩
          · rw [PersistentPriorityBacklog.call, hout.store]
            exact ht'.stored
          · have hcount := count_of_perm hperm oid
            rw [if_neg horder] at hcount
            have hqueued' := ht'.queued
            rw [PersistentPriorityBacklog.call]
            omega
      · right; right
        refine ⟨ht.stored, ?_⟩
        rwa [PersistentPriorityBacklog.call, hout.store]
  | suspend ord => exact .inl (hqueued _ rfl)
  | checkLater ord => exact .inl (hqueued _ rfl)
  | recharge ord => exact .inl (hqueued _ rfl)
  | remove a =>
    by_cases heq : oid = a
    · right; right
      refine ⟨ht.stored, ?_⟩
      rw [PersistentPriorityBacklog.call, remove, BacklogStore.get_remove, if_pos heq]
    · left
      refine ⟨?_, ht.queued⟩
      rw [PersistentPriorityBacklog.call, remove, BacklogStore.get_remove, if_neg heq]
      exact ht.stored

/-! ### An order is in the queues once -/

/-- An order is put no later than it is stored and pending as of. An order that is queued again is in
no other queue. -/
def Careful (s : PersistentPriorityBacklog Q TOrd) : BacklogCall TOrd TOrderId → Prop
  | .put ord =>
    (∀ bo ∈ s.store.get (getSelfRef ord.order), ord.timestamp ≤ bo.timestamp) ∧
    ∀ e ∈ PriorityQueue.items s.pendingPq, e.order = getSelfRef ord.order →
      ord.timestamp ≤ e.timestamp
  | .suspend ord => ∀ bo ∈ s.store.get (getSelfRef ord),
    s.count (getSelfRef ord) = 0 ∨
      ⟨getSelfRef ord, bo.timestamp⟩ ∈ PriorityQueue.items s.suspendedPq
  | .recharge ord => ∀ bo ∈ s.store.get (getSelfRef ord),
    s.count (getSelfRef ord) = 0 ∨
      ⟨getSelfRef ord, bo.timestamp⟩ ∈ PriorityQueue.items s.pendingPq
  | .checkLater ord => s.store.contains (getSelfRef ord.order) → s.count (getSelfRef ord.order) = 0
  | .tryPop _ _ => True
  | .remove _ => True

instance (s : PersistentPriorityBacklog Q TOrd) :
    (c : BacklogCall TOrd TOrderId) → Decidable (s.Careful c)
  | .put ord => inferInstanceAs (Decidable
      ((∀ bo ∈ s.store.get (getSelfRef ord.order), ord.timestamp ≤ bo.timestamp) ∧
        ∀ e ∈ PriorityQueue.items s.pendingPq, e.order = getSelfRef ord.order →
          ord.timestamp ≤ e.timestamp))
  | .suspend ord => inferInstanceAs (Decidable (∀ bo ∈ s.store.get (getSelfRef ord),
      s.count (getSelfRef ord) = 0 ∨ _ ∈ PriorityQueue.items s.suspendedPq))
  | .recharge ord => inferInstanceAs (Decidable (∀ bo ∈ s.store.get (getSelfRef ord),
      s.count (getSelfRef ord) = 0 ∨ _ ∈ PriorityQueue.items s.pendingPq))
  | .checkLater ord => inferInstanceAs (Decidable
      (s.store.contains (getSelfRef ord.order) → s.count (getSelfRef ord.order) = 0))
  | .tryPop _ _ => instDecidableTrue
  | .remove _ => instDecidableTrue

/-- No order is in the queues twice. -/
def Once (s : PersistentPriorityBacklog Q TOrd) : Prop := ∀ oid, s.count oid ≤ 1

omit [Weighted TOrd W] in
theorem Visited.count_le (h : Visited now s s') (oid : TOrderId) : s'.count oid ≤ s.count oid := by
  have hcount : ∀ {l : List (WeightedOrder TOrderId)} {e : WeightedOrder TOrderId},
      ((e :: l).map WeightedOrder.order).count oid =
        (l.map WeightedOrder.order).count oid + if e.order = oid then 1 else 0 := by
    intro l e
    simp [List.count_cons]
  cases h with
  | requeued e bo rest before stored store after conf =>
    have horder : (bo.weighted : WeightedOrder TOrderId).order = e.order :=
      BacklogStore.getSelfRef_of_get stored
    rw [count, count, (before.map _).count_eq, hcount]
    rcases after with ⟨hperm, -⟩ | hperm
    · rw [(hperm.map _).count_eq]
      omega
    · rw [(hperm.map _).count_eq, hcount, horder]
  | dropped e rest before absent store after conf =>
    rw [count, count, (before.map _).count_eq, (after.map _).count_eq, hcount]
    omega
  | expired e rest before old store after conf =>
    rw [count, count, (before.map _).count_eq, (after.map _).count_eq, hcount]
    omega

omit [Weighted TOrd W] in
theorem Visits.count_le (h : Visits now s s') (oid : TOrderId) : s'.count oid ≤ s.count oid := by
  induction h with
  | refl => exact le_rfl
  | tail _ hstep ih => exact (hstep.count_le oid).trans ih

theorem count_tryPop_le (s : PersistentPriorityBacklog Q TOrd) (now : Int) (rng : Nat)
    (oid : TOrderId) : (s.tryPop now rng).2.count oid ≤ s.count oid := by
  obtain ⟨s₁, hvisits, ⟨-, heq⟩ | ⟨ord, -, hout⟩⟩ := s.tryPop_visits now rng
  · rw [heq]
    exact hvisits.count_le oid
  · obtain ⟨e, -, hperm, -⟩ := hout.entry
    have hcount := count_of_perm hperm oid
    have hle := hvisits.count_le oid
    omega

omit [Weighted TOrd W] in
theorem Once.of_perm (h : s.Once) (hperm : s'.entries.Perm s.entries) : s'.Once := by
  intro oid
  rw [count, (hperm.map _).count_eq]
  exact h oid

omit [Weighted TOrd W] in
theorem Once.queued {e : WeightedOrder TOrderId} (h : s.Once) (hnew : s.count e.order = 0)
    (hafter : s'.entries.Perm s.entries ∧ e ∈ s.entries ∨ s'.entries.Perm (e :: s.entries)) :
    s'.Once := by
  rcases hafter with ⟨hperm, -⟩ | hperm
  · exact h.of_perm hperm
  · intro oid
    rw [count_of_perm hperm]
    split
    · rename_i heq
      rw [← heq, hnew]
    · exact h oid

theorem Once.call (h : s.Once) (hcareful : s.Careful c) : (s.call c).Once := by
  cases c with
  | put ord =>
    intro oid
    by_cases heq : oid = getSelfRef ord.order
    · have hle := h oid
      rw [heq, count_eq] at hle
      rw [heq, PersistentPriorityBacklog.call, count_put]
      omega
    · rw [PersistentPriorityBacklog.call, count_put_of_ne heq]
      exact h oid
  | tryPop now rng =>
    intro oid
    exact (count_tryPop_le s now rng oid).trans (h oid)
  | suspend ord =>
    simp only [PersistentPriorityBacklog.call, suspend]
    cases hget : s.store.get (getSelfRef ord) with
    | none => exact h
    | some bo =>
      rcases hcareful bo hget with hzero | hmem
      · exact h.queued hzero (entries_push_suspended s _ _)
      · apply h.of_perm
        exact ((PriorityQueue.items_push_of_mem hmem).append_left _).append_right _
  | recharge ord =>
    simp only [PersistentPriorityBacklog.call, recharge]
    cases hget : s.store.get (getSelfRef ord) with
    | none => exact h
    | some bo =>
      rcases hcareful bo hget with hzero | hmem
      · exact h.queued hzero (entries_push_pending s _ _)
      · apply h.of_perm
        exact ((PriorityQueue.items_push_of_mem hmem).append_right _).append_right _
  | checkLater ord =>
    simp only [PersistentPriorityBacklog.call, checkLater]
    split
    · rename_i hstored
      refine h.queued (e := ord.weighted) (hcareful hstored) (.inr ?_)
      rw [entries, ← List.append_assoc]
      exact List.perm_append_comm
    · exact h
  | remove a => exact h

/-! ### No order is deleted too early -/

/-- No entry, and no order of the store, is older than the latest put of the order. -/
structure Fresh (s : PersistentPriorityBacklog Q TOrd) (latest : TOrderId → Option Int) : Prop where
  entries : ∀ e ∈ s.entries, ∀ t ∈ latest e.order, t ≤ e.timestamp
  stored : ∀ oid bo, s.store.get oid = some bo → ∃ t, latest oid = some t ∧ t ≤ bo.timestamp

/-- The time of the latest put after the call. -/
def latestAfter (latest : TOrderId → Option Int) :
    BacklogCall TOrd TOrderId → TOrderId → Option Int
  | .put ord => fun oid => if getSelfRef ord.order = oid then some ord.timestamp else latest oid
  | _ => latest

variable {latest : TOrderId → Option Int}

omit [Weighted TOrd W] in
theorem Fresh.visited (h : s.Fresh latest) (hvisited : Visited now s s') : s'.Fresh latest := by
  have hstored : ∀ oid bo, s'.store.get oid = some bo → s.store.get oid = some bo := by
    intro oid bo hbo
    rcases hvisited.get oid with heq | ⟨hnone, -⟩
    · rwa [heq] at hbo
    · rw [hnone] at hbo
      cases hbo
  refine ⟨?_, fun oid bo hbo => h.stored oid bo (hstored oid bo hbo)⟩
  intro e' he' t ht
  have hrest : ∀ {e : WeightedOrder TOrderId} {rest : List (WeightedOrder TOrderId)},
      s.entries.Perm (e :: rest) → e' ∈ rest → t ≤ e'.timestamp := fun before hmem =>
    h.entries e' (before.mem_iff.mpr (List.mem_cons_of_mem _ hmem)) t ht
  cases hvisited with
  | requeued e bo rest before stored store after conf =>
    rcases after with ⟨hperm, -⟩ | hperm
    · exact hrest before (hperm.mem_iff.mp he')
    · rcases List.mem_cons.mp (hperm.mem_iff.mp he') with rfl | hmem
      · -- What is pending again is as old as the order of the store.
        obtain ⟨t', ht', hle⟩ := h.stored _ bo stored
        have horder : (bo.weighted : WeightedOrder TOrderId).order = e.order :=
          BacklogStore.getSelfRef_of_get stored
        rw [horder, ht'] at ht
        cases ht
        exact hle
      · exact hrest before hmem
  | dropped e rest before absent store after conf => exact hrest before (after.mem_iff.mp he')
  | expired e rest before old store after conf => exact hrest before (after.mem_iff.mp he')

omit [Weighted TOrd W] in
theorem Fresh.visits (h : s.Fresh latest) (hvisits : Visits now s s') : s'.Fresh latest := by
  induction hvisits with
  | refl => exact h
  | tail _ hstep ih => exact ih.visited hstep

omit [Weighted TOrd W] in
theorem Visits.conf (h : Visits now s s') : s'.conf = s.conf := by
  induction h with
  | refl => rfl
  | tail _ hstep ih =>
    cases hstep with
    | requeued _ _ _ _ _ _ _ conf => rw [conf, ih]
    | dropped _ _ _ _ _ _ conf => rw [conf, ih]
    | expired _ _ _ _ _ _ conf => rw [conf, ih]

omit [Weighted TOrd W] in
/-- Visits delete no order before its latest put is too old. -/
theorem Fresh.expired (h : s.Fresh latest) (hvisits : Visits now s s')
    (hstored : ∃ bo, s.store.get oid = some bo) (hnone : s'.store.get oid = none) :
    ∃ t, latest oid = some t ∧ s.conf.orderLifespan < now - t := by
  induction hvisits with
  | refl =>
    obtain ⟨bo, hbo⟩ := hstored
    rw [hbo] at hnone
    cases hnone
  | @tail s₁ s₂ hbefore hstep ih =>
    cases hget : s₁.store.get oid with
    | none => exact ih hget
    | some bo =>
      rcases hstep.get oid with heq | ⟨-, e, he, horder, hold⟩
      · rw [heq, hget] at hnone
        cases hnone
      · have hfresh := h.visits hbefore
        obtain ⟨t, ht, -⟩ := hfresh.stored oid bo hget
        have hle := hfresh.entries e he t (by rw [horder, ht]; rfl)
        rw [Visits.conf hbefore] at hold
        exact ⟨t, ht, by omega⟩

omit [Weighted TOrd W] in
theorem Fresh.queues {e : WeightedOrder TOrderId} (h : s.Fresh latest) (hqueues : Queues s s' e)
    (he : ∀ t, latest e.order = some t → t ≤ e.timestamp) : s'.Fresh latest := by
  refine ⟨?_, ?_⟩
  · intro e' he' t ht
    rcases hqueues.after with ⟨hperm, -⟩ | hperm
    · exact h.entries e' (hperm.mem_iff.mp he') t ht
    · rcases List.mem_cons.mp (hperm.mem_iff.mp he') with rfl | hmem
      · exact he t ht
      · exact h.entries e' hmem t ht
  · intro oid bo hbo
    rw [hqueues.store] at hbo
    exact h.stored oid bo hbo

/-- A careful put leaves no entry of the order that is older than it. -/
theorem Once.pending_of_put {ord : PendingOrder TOrd} {e : WeightedOrder TOrderId} (h : s.Once)
    (he : e ∈ (s.put ord).entries) (horder : e.order = getSelfRef ord.order) :
    e = ord.weighted ∨ e ∈ PriorityQueue.items s.pendingPq := by
  have hle := h (getSelfRef ord.order)
  rw [count_eq] at hle
  have hnone : ∀ {l : List (WeightedOrder TOrderId)}, e ∈ l →
      (l.map WeightedOrder.order).count (getSelfRef ord.order) ≠ 0 := by
    intro l hmem
    exact Nat.pos_iff_ne_zero.mp (List.count_pos_iff.mpr (List.mem_map.mpr ⟨e, hmem, horder⟩))
  simp only [entries, List.mem_append] at he
  rcases he with (he | he) | he
  · exact (items_ensures s.pendingPq ord.weighted (weight ord.order)).mem e he
  · refine absurd ((items_takesOne s.suspendedPq (getSelfRef ord.order)).count.trans ?_) (hnone he)
    omega
  · refine absurd ((TakesOne.eraseP _ _ s.revisitQueue).count.trans ?_) (hnone he)
    omega

theorem Fresh.put {ord : PendingOrder TOrd} (h : s.Fresh latest) (honce : s.Once)
    (hcareful : s.Careful (.put ord)) : (s.put ord).Fresh (latestAfter latest (.put ord)) := by
  refine ⟨?_, ?_⟩
  · intro e he t ht
    simp only [latestAfter] at ht
    split at ht
    · rename_i horder
      cases ht
      rcases honce.pending_of_put he horder.symm with rfl | hmem
      · exact le_rfl
      · exact hcareful.2 e hmem horder.symm
    · rename_i hne
      rcases mem_entries_put he with rfl | hmem
      · exact absurd rfl hne
      · exact h.entries e hmem t ht
  · intro oid bo hbo
    simp only [latestAfter]
    rw [get_put] at hbo
    split
    · rename_i horder
      subst horder
      refine ⟨_, rfl, ?_⟩
      split at hbo
      · cases hbo
        exact le_rfl
      · exact hcareful.1 bo hbo
    · rename_i hne
      rw [if_neg (fun h => hne h.1.symm)] at hbo
      exact h.stored oid bo hbo

/-- Nothing is queued as of a time before the latest put of the order. -/
theorem Fresh.call (h : s.Fresh latest) (honce : s.Once) (hcareful : s.Careful c)
    (htime : ∀ t, c.time = some t → ∀ oid t', latest oid = some t' → t' ≤ t) :
    (s.call c).Fresh (latestAfter latest c) := by
  have hqueued : ∀ a, c.queued = some a → (s.call c).Fresh latest := by
    intro a hc
    rcases queued_call s hc with heq | ⟨bo, e, hbo, horder, hts, hqueues⟩
    · rwa [heq]
    · apply h.queues hqueues
      intro t ht
      rw [horder] at ht
      rcases hts with hts | hts
      · obtain ⟨t', ht', hle⟩ := h.stored a bo hbo
        rw [ht] at ht'
        cases ht'
        rwa [hts]
      · exact htime _ hts a t ht
  cases c with
  | put ord => exact h.put honce hcareful
  | tryPop now rng =>
    simp only [latestAfter, PersistentPriorityBacklog.call]
    obtain ⟨s₁, hvisits, ⟨-, heq⟩ | ⟨ord, -, hout⟩⟩ := s.tryPop_visits now rng
    · rw [heq]
      exact h.visits hvisits
    · have hfresh := h.visits hvisits
      obtain ⟨e, -, hperm, -⟩ := hout.entry
      refine ⟨?_, ?_⟩
      · intro e' he' t ht
        exact hfresh.entries e' (hperm.mem_iff.mpr (List.mem_cons_of_mem _ he')) t ht
      · intro oid bo hbo
        rw [hout.store] at hbo
        exact hfresh.stored oid bo hbo
  | suspend ord => exact hqueued _ rfl
  | checkLater ord => exact hqueued _ rfl
  | recharge ord => exact hqueued _ rfl
  | remove a =>
    refine ⟨h.entries, ?_⟩
    intro oid bo hbo
    rw [PersistentPriorityBacklog.call, remove, BacklogStore.get_remove] at hbo
    split at hbo
    · cases hbo
    · exact h.stored oid bo hbo

/-! ### Runs -/

variable {store : BacklogStore TOrd} {conf : BacklogConfig} {calls pre : List (BacklogCall TOrd TOrderId)}

variable (Q) in
/-- The backlog after the calls. -/
def after (conf : BacklogConfig) (store : BacklogStore TOrd)
    (calls : List (BacklogCall TOrd TOrderId)) : PersistentPriorityBacklog Q TOrd :=
  calls.foldl call (new store conf)

/-- The time of the latest put, or the time that the store came with. -/
def latestPut (store : BacklogStore TOrd) (calls : List (BacklogCall TOrd TOrderId)) :
    TOrderId → Option Int :=
  calls.foldl latestAfter fun oid => (store.get oid).map BacklogOrder.timestamp

variable (Q) in
/-- Every call of the run is careful. -/
def CarefulRun (conf : BacklogConfig) (store : BacklogStore TOrd)
    (calls : List (BacklogCall TOrd TOrderId)) : Prop :=
  ∀ pre c, pre ++ [c] <+: calls → (after Q conf store pre).Careful c

/-- The calls are made at times that do not decrease, after those of the store. -/
def Chronological (store : BacklogStore TOrd) (calls : List (BacklogCall TOrd TOrderId)) : Prop :=
  (calls.filterMap BacklogCall.time).Pairwise (· ≤ ·) ∧
    ∀ e ∈ store.orders.entries, ∀ t ∈ calls.filterMap BacklogCall.time, e.2.timestamp ≤ t

variable (Q) in
/-- No order is in the queues twice, and none is deleted before its latest put is too old. -/
structure Exact (conf : BacklogConfig) (store : BacklogStore TOrd)
    (calls : List (BacklogCall TOrd TOrderId)) : Prop where
  once : ∀ pre, pre <+: calls → (after Q conf store pre).Once
  aged : ∀ pre c, pre ++ [c] <+: calls → ∀ oid, (after Q conf store pre).Deletes c oid →
    c = .remove oid ∨ ∃ now rng t, c = .tryPop now rng ∧ latestPut store pre oid = some t ∧
      conf.orderLifespan < now - t

variable (Q) in
/-- An order that is put stays queued until it is handed out or deleted, and an order that is removed
is not handed out until it is put. -/
structure Lossless (conf : BacklogConfig) (store : BacklogStore TOrd)
    (calls : List (BacklogCall TOrd TOrderId)) : Prop where
  kept : ∀ pre ord mid, pre ++ .put ord :: mid <+: calls →
    0 < (after Q conf store (pre ++ .put ord :: mid)).count (getSelfRef ord.order) ∨
    ∃ mid' c, mid' ++ [c] <+: mid ∧
      ((∃ ord', (after Q conf store (pre ++ .put ord :: mid')).handedOut c = some ord' ∧
        getSelfRef ord' = getSelfRef ord.order) ∨
      (after Q conf store (pre ++ .put ord :: mid')).Deletes c (getSelfRef ord.order))
  gone : ∀ pre oid mid, pre ++ .remove oid :: mid <+: calls →
    (∀ ord, .put ord ∈ mid → getSelfRef ord.order ≠ oid) → ∀ c ord,
    (after Q conf store (pre ++ .remove oid :: mid)).handedOut c = some ord → getSelfRef ord ≠ oid

theorem after_append (conf : BacklogConfig) (store : BacklogStore TOrd)
    (pre : List (BacklogCall TOrd TOrderId)) (c : BacklogCall TOrd TOrderId) :
    after Q conf store (pre ++ [c]) = (after Q conf store pre).call c := by
  simp [after, List.foldl_append]

theorem conf_after (conf : BacklogConfig) (store : BacklogStore TOrd)
    (calls : List (BacklogCall TOrd TOrderId)) : (after Q conf store calls).conf = conf := by
  induction calls using List.reverseRecOn with
  | nil => rfl
  | append_singleton calls c ih =>
    have hqueued : ∀ a, c.queued = some a → ((after Q conf store calls).call c).conf = conf := by
      intro a hc
      rcases queued_call (after Q conf store calls) hc with heq | ⟨bo, e, -, -, -, hqueues⟩
      · rw [heq, ih]
      · rw [hqueues.conf, ih]
    rw [after_append]
    cases c with
    | put ord => exact ih
    | tryPop now rng =>
      obtain ⟨s₁, hvisits, ⟨-, heq⟩ | ⟨ord, -, hout⟩⟩ :=
        (after Q conf store calls).tryPop_visits now rng
      · rw [call, heq, Visits.conf hvisits, ih]
      · rw [call, hout.conf, Visits.conf hvisits, ih]
    | suspend ord => exact hqueued _ rfl
    | checkLater ord => exact hqueued _ rfl
    | recharge ord => exact hqueued _ rfl
    | remove a => exact ih

/-- What is pending at first is what is stored. -/
theorem entries_new {e : WeightedOrder TOrderId}
    (he : e ∈ (new store conf : PersistentPriorityBacklog Q TOrd).entries) :
    ∃ bo, store.get e.order = some bo ∧ e = bo.weighted := by
  have hpushed : ∀ (l : List (Sigma fun _ : TOrderId => BacklogOrder TOrd)) (q : Q),
      e ∈ PriorityQueue.items (l.foldl
        (fun q e => PriorityQueue.push q e.2.weighted (weight e.2.order)) q) →
      e ∈ PriorityQueue.items q ∨ ∃ a ∈ l, e = a.2.weighted := by
    intro l
    induction l with
    | nil => exact fun q h => .inl h
    | cons a l ih =>
      intro q h
      rcases ih _ h with h | ⟨a', ha', heq⟩
      · rcases PriorityQueue.mem_items_push.mp h with heq | h
        · exact .inr ⟨a, List.mem_cons_self, heq⟩
        · exact .inl h
      · exact .inr ⟨a', List.mem_cons_of_mem _ ha', heq⟩
  simp only [entries, new, PriorityQueue.items_new, List.append_nil] at he
  rcases hpushed _ _ he with h | ⟨a, ha, rfl⟩
  · rw [PriorityQueue.items_new] at h
    cases h
  · refine ⟨a.2, ?_, rfl⟩
    have hkey : (a.2.weighted : WeightedOrder TOrderId).order = a.1 := store.keyed a ha
    rw [hkey]
    exact AList.mem_lookup_iff.mpr ha

theorem once_new : (new store conf : PersistentPriorityBacklog Q TOrd).Once := by
  intro oid
  apply List.nodup_iff_count_le_one.mp
  apply List.Nodup.map_on
  · intro e he e' he' heq
    obtain ⟨bo, hbo, rfl⟩ := entries_new he
    obtain ⟨bo', hbo', rfl⟩ := entries_new he'
    rw [heq, hbo'] at hbo
    cases hbo
    rfl
  · simp only [entries, new, PriorityQueue.items_new, List.append_nil]
    exact PriorityQueue.nodup_items _

theorem fresh_new :
    (new store conf : PersistentPriorityBacklog Q TOrd).Fresh (latestPut store []) := by
  refine ⟨?_, ?_⟩
  · intro e he t ht
    obtain ⟨bo, hbo, rfl⟩ := entries_new he
    simp only [latestPut, List.foldl_nil, hbo] at ht
    cases ht
    exact le_rfl
  · intro oid bo hbo
    have hget : store.get oid = some bo := hbo
    exact ⟨bo.timestamp, by simp [latestPut, hget], le_rfl⟩

theorem CarefulRun.append (h : CarefulRun Q conf store (pre ++ [c])) :
    CarefulRun Q conf store pre ∧ (after Q conf store pre).Careful c :=
  ⟨fun pre' c' hpre => h pre' c' (hpre.trans (List.prefix_append _ _)), h pre c List.prefix_rfl⟩

omit [DecidableEq TOrderId] in
theorem Chronological.of_prefix (h : Chronological store calls) (hpre : pre <+: calls) :
    Chronological store pre := by
  have hsub := hpre.sublist.filterMap BacklogCall.time
  exact ⟨h.1.sublist hsub, fun e he t ht => h.2 e he t (hsub.subset ht)⟩

theorem latestPut_append (store : BacklogStore TOrd) (pre : List (BacklogCall TOrd TOrderId))
    (c : BacklogCall TOrd TOrderId) :
    latestPut store (pre ++ [c]) = latestAfter (latestPut store pre) c := by
  simp [latestPut, List.foldl_append]

/-- The latest put was made by one of the calls, or before them. -/
theorem latestPut_cases {t : Int} (h : latestPut store calls oid = some t) :
    t ∈ calls.filterMap BacklogCall.time ∨ ∃ e ∈ store.orders.entries, e.2.timestamp = t := by
  induction calls using List.reverseRecOn with
  | nil =>
    obtain ⟨bo, hbo, rfl⟩ := Option.map_eq_some_iff.mp h
    exact .inr ⟨_, AList.mem_lookup_iff.mp hbo, rfl⟩
  | append_singleton calls c ih =>
    have hbefore : latestPut store calls oid = some t →
        t ∈ (calls ++ [c]).filterMap BacklogCall.time ∨
          ∃ e ∈ store.orders.entries, e.2.timestamp = t := by
      intro ht
      rcases ih ht with hmem | hstored
      · exact .inl (by rw [List.filterMap_append]; exact List.mem_append_left _ hmem)
      · exact .inr hstored
    rw [latestPut_append] at h
    cases c with
    | put ord =>
      simp only [latestAfter] at h
      split at h
      · cases h
        exact .inl (by simp [BacklogCall.time])
      · exact hbefore h
    | tryPop now rng => exact hbefore h
    | suspend ord => exact hbefore h
    | checkLater ord => exact hbefore h
    | recharge ord => exact hbefore h
    | remove a => exact hbefore h

theorem Chronological.latestPut_le (h : Chronological store (pre ++ [c])) {t t' : Int}
    (ht : c.time = some t) (ht' : latestPut store pre oid = some t') : t' ≤ t := by
  have hmem : t ∈ (pre ++ [c]).filterMap BacklogCall.time := by simp [ht]
  rcases latestPut_cases ht' with hpre | ⟨e, he, rfl⟩
  · have hpairs := h.1
    rw [List.filterMap_append, List.pairwise_append] at hpairs
    exact hpairs.2.2 t' hpre t (by simp [ht])
  · exact h.2 e he t hmem

theorem once_after (h : CarefulRun Q conf store calls) : (after Q conf store calls).Once := by
  induction calls using List.reverseRecOn with
  | nil => exact once_new
  | append_singleton calls c ih =>
    rw [after_append]
    exact (ih h.append.1).call h.append.2

theorem fresh_after (h : CarefulRun Q conf store calls) (htime : Chronological store calls) :
    (after Q conf store calls).Fresh (latestPut store calls) := by
  induction calls using List.reverseRecOn with
  | nil => exact fresh_new
  | append_singleton calls c ih =>
    rw [after_append, latestPut_append]
    have hfresh := ih h.append.1 (htime.of_prefix (List.prefix_append _ _))
    exact hfresh.call (once_after h.append.1) h.append.2 fun t ht oid t' ht' =>
      htime.latestPut_le ht ht'

/-- A call deletes an order that it removes, or one that is too old. -/
theorem aged_call (h : s.Fresh latest) (hdeletes : s.Deletes c oid) :
    c = .remove oid ∨ ∃ now rng t, c = .tryPop now rng ∧ latest oid = some t ∧
      s.conf.orderLifespan < now - t := by
  obtain ⟨⟨bo, hbo⟩, hnone⟩ := hdeletes
  have hqueued : ∀ a, c.queued = some a → (s.call c).store.get oid ≠ none := by
    intro a hc
    rcases queued_call s hc with heq | ⟨bo', e, -, -, -, hqueues⟩
    · rw [heq, hbo]
      simp
    · rw [hqueues.store, hbo]
      simp
  cases c with
  | put ord =>
    rw [call, get_put, hbo, if_neg (fun h => by cases h.2)] at hnone
    cases hnone
  | tryPop now rng =>
    right
    obtain ⟨s₁, hvisits, ⟨-, heq⟩ | ⟨ord, -, hout⟩⟩ := s.tryPop_visits now rng
    · rw [call, heq] at hnone
      obtain ⟨t, ht, hold⟩ := h.expired hvisits ⟨bo, hbo⟩ hnone
      exact ⟨now, rng, t, rfl, ht, hold⟩
    · rw [call, hout.store] at hnone
      obtain ⟨t, ht, hold⟩ := h.expired hvisits ⟨bo, hbo⟩ hnone
      exact ⟨now, rng, t, rfl, ht, hold⟩
  | suspend ord => exact absurd hnone (hqueued _ rfl)
  | checkLater ord => exact absurd hnone (hqueued _ rfl)
  | recharge ord => exact absurd hnone (hqueued _ rfl)
  | remove a =>
    left
    rw [call, remove, BacklogStore.get_remove] at hnone
    split at hnone
    · rename_i heq
      rw [heq]
    · rw [hbo] at hnone
      cases hnone

theorem exact_of_careful (h : CarefulRun Q conf store calls) (htime : Chronological store calls) :
    Exact Q conf store calls where
  once pre hpre := once_after fun pre' c hpre' => h pre' c (hpre'.trans hpre)
  aged pre c hpre oid hdeletes := by
    have hbefore : pre <+: calls := (List.prefix_append _ _).trans hpre
    have hfresh := fresh_after (fun pre' c' hpre' => h pre' c' (hpre'.trans hbefore))
      (htime.of_prefix hbefore)
    have haged := aged_call hfresh hdeletes
    rwa [conf_after] at haged

theorem tracked_after (pre mid : List (BacklogCall TOrd TOrderId)) (ord : PendingOrder TOrd) :
    (after Q conf store (pre ++ .put ord :: mid)).Tracked (getSelfRef ord.order) ∨
    ∃ mid' c, mid' ++ [c] <+: mid ∧
      ((∃ ord', (after Q conf store (pre ++ .put ord :: mid')).handedOut c = some ord' ∧
        getSelfRef ord' = getSelfRef ord.order) ∨
      (after Q conf store (pre ++ .put ord :: mid')).Deletes c (getSelfRef ord.order)) := by
  induction mid using List.reverseRecOn with
  | nil =>
    left
    rw [after_append]
    exact tracked_put _ ord
  | append_singleton mid c ih =>
    have hsplit : pre ++ .put ord :: (mid ++ [c]) = (pre ++ .put ord :: mid) ++ [c] := by simp
    rcases ih with htracked | ⟨mid', c', hmid, h⟩
    · rcases htracked.call c with htracked' | hout
      · left
        rwa [hsplit, after_append]
      · exact .inr ⟨mid, c, List.prefix_rfl, hout⟩
    · exact .inr ⟨mid', c', hmid.trans (List.prefix_append _ _), h⟩

theorem gone_after {pre mid : List (BacklogCall TOrd TOrderId)}
    (hput : ∀ ord, .put ord ∈ mid → getSelfRef ord.order ≠ oid) :
    (after Q conf store (pre ++ .remove oid :: mid)).store.get oid = none := by
  induction mid using List.reverseRecOn with
  | nil =>
    rw [after_append, call, remove, BacklogStore.get_remove, if_pos rfl]
  | append_singleton mid c ih =>
    have hsplit : pre ++ .remove oid :: (mid ++ [c]) = (pre ++ .remove oid :: mid) ++ [c] := by simp
    rw [hsplit, after_append]
    apply get_call_eq_none (ih fun ord hmem => hput ord (List.mem_append_left _ hmem))
    rintro ord rfl
    exact hput ord (by simp)

theorem lossless (conf : BacklogConfig) (store : BacklogStore TOrd)
    (calls : List (BacklogCall TOrd TOrderId)) : Lossless Q conf store calls where
  kept pre ord mid _ := (tracked_after pre mid ord).imp_left Tracked.queued
  gone pre oid mid _ hput c ord hout heq := by
    obtain ⟨bo, hbo⟩ := stored_of_handedOut hout
    rw [heq, gone_after hput] at hbo
    cases hbo

/-- No run loses an order, and in a careful run every order is counted once and aged from its latest
put. -/
theorem backlog_law (conf : BacklogConfig) (store : BacklogStore TOrd)
    (calls : List (BacklogCall TOrd TOrderId)) :
    Lossless Q conf store calls ∧
      (CarefulRun Q conf store calls → Chronological store calls → Exact Q conf store calls) :=
  ⟨lossless conf store calls, exact_of_careful⟩

/-! ### An order that is put again, and one that is suspended while it is pending -/

abbrev SampleWeightedQueue := AList fun _ : WeightedOrder Nat => Nat

def sampleStore : BacklogStore SampleOrder := ⟨∅, fun e he => by cases he⟩

def sampleConf : BacklogConfig := ⟨50, 10, 30⟩

def sampleOrder : SampleOrder := ⟨1, 5⟩

def retriedCalls : List (BacklogCall SampleOrder Nat) :=
  [.put ⟨sampleOrder, 0⟩, .tryPop 1 90, .suspend sampleOrder, .tryPop 2 10,
    .checkLater ⟨sampleOrder, 3⟩, .tryPop 20 90, .tryPop 60 90]

theorem backlog_law_sample : Lossless SampleWeightedQueue sampleConf sampleStore retriedCalls ∧
    Exact SampleWeightedQueue sampleConf sampleStore retriedCalls := by
  have hcareful : CarefulRun SampleWeightedQueue sampleConf sampleStore retriedCalls := by
    intro pre c hpre
    obtain ⟨k, rfl, rfl⟩ := exists_take_of_snoc hpre
    revert k
    decide +kernel
  have htime : Chronological sampleStore retriedCalls := ⟨by decide, by decide⟩
  have hlaw := backlog_law (Q := SampleWeightedQueue) sampleConf sampleStore retriedCalls
  exact ⟨hlaw.1, hlaw.2 hcareful htime⟩

def suspendedCalls : List (BacklogCall SampleOrder Nat) :=
  [.put ⟨sampleOrder, 0⟩, .suspend sampleOrder]

def renewedCalls : List (BacklogCall SampleOrder Nat) :=
  [.put ⟨sampleOrder, 0⟩, .put ⟨sampleOrder, 100⟩, .tryPop 101 90]

def returnedCalls : List (BacklogCall SampleOrder Nat) :=
  [.put ⟨sampleOrder, 0⟩, .remove 1, .put ⟨sampleOrder, 100⟩, .tryPop 101 90]

/-- An order that a pop deletes within its lifespan after its latest put. -/
theorem not_exact_of_deletes {t : Int} (hrun : pre ++ [.tryPop now rng] <+: calls)
    (hdeletes : (after Q conf store pre).Deletes (.tryPop now rng) oid)
    (hlatest : latestPut store pre oid = some t) (hrecent : now - t ≤ conf.orderLifespan) :
    ¬ Exact Q conf store calls := by
  intro h
  rcases h.aged pre (.tryPop now rng) hrun oid hdeletes with hremove | ⟨now', rng', t', hcall, ht', hold⟩
  · cases hremove
  · cases hcall
    rw [hlatest] at ht'
    cases ht'
    omega

/-- The order is in the queues twice in the first, and deleted one second after its latest put in the
others. -/
theorem suspends_pending_and_forgets_put :
    (Chronological sampleStore suspendedCalls ∧
      ¬ Exact SampleWeightedQueue sampleConf sampleStore suspendedCalls) ∧
    (Chronological sampleStore renewedCalls ∧
      ¬ Exact SampleWeightedQueue sampleConf sampleStore renewedCalls) ∧
    (Chronological sampleStore returnedCalls ∧
      ¬ Exact SampleWeightedQueue sampleConf sampleStore returnedCalls) := by
  refine ⟨⟨⟨by decide, by decide⟩, ?_⟩, ⟨⟨by decide, by decide⟩, ?_⟩, ⟨by decide, by decide⟩, ?_⟩
  · intro h
    have honce := h.once suspendedCalls List.prefix_rfl 1
    revert honce
    decide +kernel
  · have hdeletes : (after SampleWeightedQueue sampleConf sampleStore
        (renewedCalls.take 2)).Deletes (.tryPop 101 90) 1 :=
      ⟨⟨⟨sampleOrder, 0⟩, by decide +kernel⟩, by decide +kernel⟩
    exact not_exact_of_deletes (t := 100) List.prefix_rfl hdeletes (by decide +kernel) (by decide)
  · have hdeletes : (after SampleWeightedQueue sampleConf sampleStore
        (returnedCalls.take 3)).Deletes (.tryPop 101 90) 1 :=
      ⟨⟨⟨sampleOrder, 100⟩, by decide +kernel⟩, by decide +kernel⟩
    exact not_exact_of_deletes (t := 100) List.prefix_rfl hdeletes (by decide +kernel) (by decide)

end PersistentPriorityBacklog

end UtxoMonitor.Backlog
