import Mathlib.Data.Finset.Card
import UtxoMonitor.Lib.Assoc
import UtxoMonitor.Lib.PriorityQueue
import UtxoMonitor.Lib.Runs
import UtxoMonitor.Tracker.CircularFilter

/-! The backlog of hot orders: a queue of weighted orders, the orders themselves, and a filter of the
orders that are to be checked later. -/
namespace UtxoMonitor.Backlog

open Lib

/-! ### Orders -/

class UniqueOrder (TOrd : Type) (TOrderId : outParam Type) where
  getSelfRef : TOrd → TOrderId

class Weighted (TOrd : Type) (W : outParam Type) where
  weight : TOrd → W

export UniqueOrder (getSelfRef)
export Weighted (weight)

/-! ### The backlog -/

structure HotPriorityBacklog (Q TOrd TOrderId : Type) where
  queue : Q
  store : AList fun _ : TOrderId => TOrd
  softEvictedOrders : CircularFilter 256 TOrderId
  capacity : Nat

namespace HotPriorityBacklog

section

variable {Q TOrd TOrderId W : Type} [DecidableEq TOrderId] [LE W] [PriorityQueue Q TOrderId W]
  [UniqueOrder TOrd TOrderId] [Weighted TOrd W]

def new (capacity : Nat) : HotPriorityBacklog Q TOrd TOrderId where
  queue := PriorityQueue.new
  store := ∅
  softEvictedOrders := .new
  capacity := capacity

/-- The order is taken in: there is room, it is not stored, and it is not to be checked later. -/
def Accepts (s : HotPriorityBacklog Q TOrd TOrderId) (ord : TOrd) : Prop :=
  0 < s.capacity ∧ getSelfRef ord ∉ s.store ∧
    ¬ s.softEvictedOrders.contains (getSelfRef ord)

instance (s : HotPriorityBacklog Q TOrd TOrderId) (ord : TOrd) : Decidable (s.Accepts ord) :=
  inferInstanceAs (Decidable (_ ∧ _))

def put (s : HotPriorityBacklog Q TOrd TOrderId) (ord : TOrd) :
    HotPriorityBacklog Q TOrd TOrderId :=
  if s.Accepts ord then
    { s with
      queue := PriorityQueue.push s.queue (getSelfRef ord) (weight ord)
      store := s.store.insert (getSelfRef ord) ord
      capacity := s.capacity - 1 }
  else s

/-- `HashMap::remove` -/
def takeOut (store : AList fun _ : TOrderId => TOrd) (oid : TOrderId) :
    (AList fun _ : TOrderId => TOrd) × Option TOrd :=
  (store.erase oid, store.lookup oid)

def tryPop (s : HotPriorityBacklog Q TOrd TOrderId) :
    Option TOrd × HotPriorityBacklog Q TOrd TOrderId :=
  match PriorityQueue.popUntil takeOut (PriorityQueue.items s.queue).length s.queue s.store with
  | (some ord, queue, store) =>
    (some ord, { s with queue := queue, store := store, capacity := s.capacity + 1 })
  | (none, queue, store) => (none, { s with queue := queue, store := store })

def remove (s : HotPriorityBacklog Q TOrd TOrderId) (oid : TOrderId) :
    HotPriorityBacklog Q TOrd TOrderId :=
  if oid ∈ s.store then
    { s with
      softEvictedOrders := s.softEvictedOrders.remove oid
      store := s.store.erase oid
      capacity := s.capacity + 1 }
  else { s with softEvictedOrders := s.softEvictedOrders.remove oid }

def softEvict (s : HotPriorityBacklog Q TOrd TOrderId) (oid : TOrderId) :
    HotPriorityBacklog Q TOrd TOrderId :=
  { s with softEvictedOrders := (s.softEvictedOrders.add oid).1 }

end

end HotPriorityBacklog

/-! ### Calls -/

inductive HotCall (TOrd TOrderId : Type) where
  | put (ord : TOrd)
  | tryPop
  | softEvict (oid : TOrderId)
  | remove (oid : TOrderId)
deriving DecidableEq

namespace HotPriorityBacklog

variable {Q TOrd TOrderId W : Type} [DecidableEq TOrderId] [LE W] [PriorityQueue Q TOrderId W]
  [UniqueOrder TOrd TOrderId] [Weighted TOrd W]

def call (s : HotPriorityBacklog Q TOrd TOrderId) :
    HotCall TOrd TOrderId → HotPriorityBacklog Q TOrd TOrderId
  | .put ord => s.put ord
  | .tryPop => s.tryPop.2
  | .softEvict oid => s.softEvict oid
  | .remove oid => s.remove oid

variable (Q) in
def after (capacity : Nat) (calls : List (HotCall TOrd TOrderId)) :
    HotPriorityBacklog Q TOrd TOrderId :=
  calls.foldl call (new capacity)

/-! ### What one call does -/

/-- Every stored order is queued under its id with its weight. -/
def Backs (queue : Q) (store : AList fun _ : TOrderId => TOrd) : Prop :=
  ∀ oid ord, store.lookup oid = some ord →
    getSelfRef ord = oid ∧ PriorityQueue.priority queue oid = some (weight ord)

variable {queue : Q} {store : AList fun _ : TOrderId => TOrd}
  {s : HotPriorityBacklog Q TOrd TOrderId} {oid : TOrderId} {ord : TOrd} {capacity : Nat}
  {calls : List (HotCall TOrd TOrderId)} {c : HotCall TOrd TOrderId}

theorem Backs.erase_pop {queue' : Q} {w : W} (h : Backs queue store)
    (hpop : PriorityQueue.pop queue = some ((oid, w), queue')) :
    Backs queue' (store.erase oid) := by
  intro oid' ord hord
  rw [lookup_erase_eq] at hord
  split at hord
  · cases hord
  · rename_i hne
    obtain ⟨hid, hpriority⟩ := h oid' ord hord
    exact ⟨hid, (PriorityQueue.priority_pop_of_ne _ _ _ _ hpop oid' hne).trans hpriority⟩

/-- What is popped weighs the most of what is stored, and is taken out. -/
structure Popped (s : HotPriorityBacklog Q TOrd TOrderId) (ord : TOrd) : Prop where
  stored : s.store.lookup (getSelfRef ord) = some ord
  heaviest : ∀ oid ord', s.store.lookup oid = some ord' → weight ord' ≤ weight ord
  popped : s.tryPop.1 = some ord
  store : s.tryPop.2.store = s.store.erase (getSelfRef ord)
  capacity : s.tryPop.2.capacity = s.capacity + 1

/-- Nothing is popped of an empty store. -/
structure Exhausted (s : HotPriorityBacklog Q TOrd TOrderId) : Prop where
  empty : ∀ oid, s.store.lookup oid = none
  popped : s.tryPop.1 = none
  store : s.tryPop.2.store = s.store
  capacity : s.tryPop.2.capacity = s.capacity

omit [UniqueOrder TOrd TOrderId] [Weighted TOrd W] in
theorem softEvictedOrders_tryPop : s.tryPop.2.softEvictedOrders = s.softEvictedOrders := by
  unfold tryPop
  split <;> rfl

theorem tryPop_cases (h : Backs s.queue s.store) :
    Backs s.tryPop.2.queue s.tryPop.2.store ∧ (s.Exhausted ∨ ∃ ord, s.Popped ord) := by
  have hskip : ∀ (queue : Q) (store : AList fun _ : TOrderId => TOrd) (oid : TOrderId) (w : W)
      (queue' : Q) (store' : AList fun _ : TOrderId => TOrd),
      (store = s.store ∧ Backs queue store) → PriorityQueue.pop queue = some ((oid, w), queue') →
      takeOut store oid = (store', none) → store' = s.store ∧ Backs queue' store' := by
    rintro queue _ oid w queue' store' ⟨rfl, hbacks⟩ hpop htake
    obtain ⟨rfl, hnone⟩ := Prod.mk.inj htake
    exact ⟨erase_of_lookup hnone, hbacks.erase_pop hpop⟩
  rcases PriorityQueue.popUntil_cases hskip ⟨rfl, h⟩ le_rfl with
    ⟨queue', store', heq, ⟨rfl, hbacks⟩, hempty⟩ |
    ⟨queue, store, oid, w, queue', store', ord, heq, ⟨rfl, hbacks⟩, hpop, htake⟩
  · have htry : s.tryPop = (none, { s with queue := queue', store := s.store }) := by
      rw [tryPop, heq]
    refine ⟨by rwa [htry], .inl ⟨?_, by rw [htry], by rw [htry], by rw [htry]⟩⟩
    intro oid
    cases hord : s.store.lookup oid with
    | none => rfl
    | some ord =>
      have hnone := PriorityQueue.priority_eq_none hempty oid
      rw [(hbacks oid ord hord).2] at hnone
      cases hnone
  · have htry : s.tryPop = (some ord, { s with
        queue := queue'
        store := store'
        capacity := s.capacity + 1 }) := by
      rw [tryPop, heq]
    obtain ⟨rfl, hord⟩ := Prod.mk.inj htake
    obtain ⟨rfl, hpriority⟩ := hbacks oid ord hord
    have hw := PriorityQueue.priority_of_pop _ _ _ _ hpop
    rw [hpriority] at hw
    cases hw
    refine ⟨by rw [htry]; exact hbacks.erase_pop hpop, .inr ⟨ord, hord, ?_, by rw [htry],
      by rw [htry], by rw [htry]⟩⟩
    intro oid' ord' hord'
    exact PriorityQueue.le_of_pop _ _ _ _ hpop oid' _ (hbacks oid' ord' hord').2

/-- The queue backs the store, and what is stored takes its room. -/
structure Sound (capacity : Nat) (s : HotPriorityBacklog Q TOrd TOrderId) : Prop where
  backs : Backs s.queue s.store
  room : s.capacity + s.store.keys.length = capacity

theorem Sound.put (h : s.Sound capacity) (ord : TOrd) : (s.put ord).Sound capacity := by
  unfold HotPriorityBacklog.put
  split
  · rename_i haccepts
    obtain ⟨hpos, hnew, -⟩ := haccepts
    refine ⟨?_, ?_⟩
    · intro oid ord' hord'
      simp only [lookup_insert_eq] at hord'
      split at hord'
      · rename_i heq
        cases hord'
        exact ⟨heq.symm, heq ▸ PriorityQueue.priority_push_self _ _ _⟩
      · rename_i hne
        obtain ⟨hid, hpriority⟩ := h.backs oid ord' hord'
        exact ⟨hid, (PriorityQueue.priority_push_of_ne _ _ _ _ hne).trans hpriority⟩
    · have hroom := h.room
      simp only [AList.keys_insert, List.length_cons]
      rw [List.erase_of_not_mem (fun hmem => hnew (AList.mem_keys.mpr hmem))]
      omega
  · exact h

theorem Sound.tryPop (h : s.Sound capacity) : s.tryPop.2.Sound capacity := by
  obtain ⟨hbacks, hempty | ⟨ord, hpopped⟩⟩ := tryPop_cases h.backs
  · exact ⟨hbacks, by rw [hempty.capacity, hempty.store, h.room]⟩
  · refine ⟨hbacks, ?_⟩
    have hlength := length_keys_erase hpopped.stored
    have hroom := h.room
    rw [hpopped.capacity, hpopped.store]
    omega

theorem Sound.remove (h : s.Sound capacity) (oid : TOrderId) : (s.remove oid).Sound capacity := by
  have hbacks : Backs s.queue (s.store.erase oid) := by
    intro oid' ord hord
    rw [lookup_erase_eq] at hord
    split at hord
    · cases hord
    · exact h.backs oid' ord hord
  unfold HotPriorityBacklog.remove
  split
  · rename_i hmem
    obtain ⟨ord, hord⟩ := Option.isSome_iff_exists.mp (AList.lookup_isSome.mpr hmem)
    have hlength := length_keys_erase hord
    have hroom := h.room
    refine ⟨hbacks, ?_⟩
    show s.capacity + 1 + (s.store.erase oid).keys.length = capacity
    omega
  · exact ⟨h.backs, h.room⟩

theorem Sound.call (h : s.Sound capacity) (c : HotCall TOrd TOrderId) :
    (s.call c).Sound capacity := by
  cases c with
  | put ord => exact h.put ord
  | tryPop => exact h.tryPop
  | softEvict oid => exact ⟨h.backs, h.room⟩
  | remove oid => exact h.remove oid

theorem Sound.run (h : s.Sound capacity) (calls : List (HotCall TOrd TOrderId)) :
    (calls.foldl HotPriorityBacklog.call s).Sound capacity := by
  induction calls generalizing s with
  | nil => exact h
  | cons c calls ih => exact ih (h.call c)

theorem Sound.new (capacity : Nat) :
    (new capacity : HotPriorityBacklog Q TOrd TOrderId).Sound capacity where
  backs oid ord hord := by cases hord
  room := Nat.add_zero capacity

/-! ### What a run does -/

/-- The call takes the order out of the store. -/
def Ends (s : HotPriorityBacklog Q TOrd TOrderId) (oid : TOrderId) :
    HotCall TOrd TOrderId → Prop
  | .put _ => False
  | .tryPop => ∃ ord, s.tryPop.1 = some ord ∧ getSelfRef ord = oid
  | .softEvict _ => False
  | .remove oid' => oid' = oid

/-- An order is put, and taken in, in a run from `s`. -/
def PutIn (s : HotPriorityBacklog Q TOrd TOrderId) (calls : List (HotCall TOrd TOrderId))
    (ord : TOrd) : Prop :=
  ∃ pre post, calls = pre ++ .put ord :: post ∧ (pre.foldl call s).Accepts ord

theorem lookup_call (h : s.Sound capacity) (hord : (s.call c).store.lookup oid = some ord) :
    (c = .put ord ∧ s.Accepts ord ∧ getSelfRef ord = oid) ∨
      (s.store.lookup oid = some ord ∧ ¬ s.Ends oid c) := by
  cases c with
  | put ord' =>
    simp only [call, put] at hord
    split at hord
    · rename_i haccepts
      simp only [lookup_insert_eq] at hord
      split at hord
      · rename_i heq
        cases hord
        exact .inl ⟨rfl, haccepts, heq.symm⟩
      · exact .inr ⟨hord, id⟩
    · exact .inr ⟨hord, id⟩
  | tryPop =>
    right
    simp only [call] at hord
    obtain ⟨-, hempty | ⟨popped, hpopped⟩⟩ := tryPop_cases h.backs
    · rw [hempty.store, hempty.empty] at hord
      cases hord
    · rw [hpopped.store, lookup_erase_eq] at hord
      split at hord
      · cases hord
      · rename_i hne
        refine ⟨hord, ?_⟩
        rintro ⟨ord', htry, hid⟩
        cases htry.symm.trans hpopped.popped
        exact hne hid.symm
  | softEvict oid' => exact .inr ⟨hord, id⟩
  | remove oid' =>
    right
    have herase : (s.store.erase oid').lookup oid = some ord := by
      simp only [call, remove] at hord
      split at hord
      · exact hord
      · rename_i hmem
        rwa [erase_of_lookup (AList.lookup_eq_none.mpr hmem)]
    rw [lookup_erase_eq] at herase
    split at herase
    · cases herase
    · rename_i hne
      exact ⟨herase, fun heq => hne heq.symm⟩

/-- The call leaves nothing of what it takes out. -/
theorem Ends.lookup (h : s.Sound capacity) (hends : s.Ends oid c) :
    (s.call c).store.lookup oid = none := by
  cases hord : (s.call c).store.lookup oid with
  | none => rfl
  | some ord =>
    rcases lookup_call h hord with ⟨rfl, -, -⟩ | ⟨-, hnot⟩
    · cases hends
    · exact absurd hends hnot

/-- What is stored at the end of a run was put in the run, or was stored before it. -/
theorem lookup_run (h : s.Sound capacity) (hnone : s.store.lookup oid = none)
    (hord : (calls.foldl call s).store.lookup oid = some ord) :
    s.PutIn calls ord ∧ getSelfRef ord = oid := by
  induction calls using List.reverseRecOn with
  | nil =>
    rw [List.foldl_nil, hnone] at hord
    cases hord
  | append_singleton calls c ih =>
    rw [List.foldl_append] at hord
    rcases lookup_call (h.run calls) hord with ⟨rfl, haccepts, hid⟩ | ⟨hord, -⟩
    · exact ⟨⟨calls, [], rfl, haccepts⟩, hid⟩
    · obtain ⟨⟨pre, post, rfl, haccepts⟩, hid⟩ := ih hord
      exact ⟨⟨pre, post ++ [c], by simp, haccepts⟩, hid⟩

/-! ### Orders that are to be checked later -/

/-- An order is to be checked later only once it is out of the store, and once the filter has no
place of it any more. -/
def Careful (s : HotPriorityBacklog Q TOrd TOrderId) : HotCall TOrd TOrderId → Prop
  | .softEvict oid => oid ∉ s.store ∧ oid ∉ s.softEvictedOrders.buffer
  | _ => True

instance (s : HotPriorityBacklog Q TOrd TOrderId) (c : HotCall TOrd TOrderId) :
    Decidable (s.Careful c) := by
  cases c with
  | put _ => exact inferInstanceAs (Decidable True)
  | tryPop => exact inferInstanceAs (Decidable True)
  | softEvict _ => exact inferInstanceAs (Decidable (_ ∧ _))
  | remove _ => exact inferInstanceAs (Decidable True)

def evicts : HotCall TOrd TOrderId → Option TOrderId
  | .softEvict oid => some oid
  | _ => none

/-- The other orders that are to be checked later. -/
def othersEvicted (calls : List (HotCall TOrd TOrderId)) (oid : TOrderId) : Finset TOrderId :=
  (calls.filterMap evicts).toFinset.erase oid

theorem tidy_call (h : s.softEvictedOrders.Tidy) (hcareful : s.Careful c) :
    (s.call c).softEvictedOrders.Tidy := by
  cases c with
  | put ord =>
    simp only [call, put]
    split <;> exact h
  | tryPop => rwa [call, softEvictedOrders_tryPop]
  | softEvict oid => exact h.add hcareful.2 (by decide)
  | remove oid =>
    simp only [call, remove]
    split <;> exact h.remove oid

/-- The order is neither stored nor let in, and what was to be checked later after it is listed after
it. -/
structure Away (s : HotPriorityBacklog Q TOrd TOrderId) (oid : TOrderId)
    (others : Finset TOrderId) : Prop where
  filtered : oid ∈ s.softEvictedOrders.filter
  absent : s.store.lookup oid = none
  listed : ∃ front back, s.softEvictedOrders.buffer = front ++ oid :: back ∧ ∀ a ∈ back, a ∈ others

theorem Away.call {others : Finset TOrderId} (h : s.Away oid others) (hsound : s.Sound capacity)
    (htidy : s.softEvictedOrders.Tidy) (hcareful : s.Careful c) (hkept : c ≠ .remove oid)
    {others' : Finset TOrderId} (hsub : others ⊆ others')
    (hnew : ∀ a, c = .softEvict a → a ≠ oid → a ∈ others') :
    (s.call c).Away oid others' ∨ 256 ≤ others'.card := by
  obtain ⟨hfiltered, habsent, front, back, hbuffer, hback⟩ := h
  have habsent' : (s.call c).store.lookup oid = none := by
    cases hord : (s.call c).store.lookup oid with
    | none => rfl
    | some ord =>
      rcases lookup_call hsound hord with ⟨rfl, haccepts, rfl⟩ | ⟨hord, -⟩
      · exact absurd (by simpa [CircularFilter.contains] using hfiltered) haccepts.2.2
      · rw [habsent] at hord
        cases hord
  have hback' : ∀ a ∈ back, a ∈ others' := fun a ha => hsub (hback a ha)
  cases c with
  | put ord =>
    have hsame : (s.put ord).softEvictedOrders = s.softEvictedOrders := by
      unfold HotPriorityBacklog.put
      split <;> rfl
    exact .inl ⟨hsame ▸ hfiltered, habsent', front, back, hsame ▸ hbuffer, hback'⟩
  | tryPop =>
    have hsame : s.tryPop.2.softEvictedOrders = s.softEvictedOrders := softEvictedOrders_tryPop
    exact .inl ⟨hsame ▸ hfiltered, habsent', front, back, hsame ▸ hbuffer, hback'⟩
  | softEvict a =>
    have hne : a ≠ oid := by
      rintro rfl
      exact hcareful.2 (by rw [hbuffer]; simp)
    have ha := hnew a rfl hne
    rcases htidy.add_keeps hcareful.2 hbuffer hfiltered with ⟨hfiltered', front', hbuffer'⟩ | hfull
    · refine .inl ⟨hfiltered', habsent', front', back ++ [a], hbuffer', ?_⟩
      intro b hb
      rcases List.mem_append.mp hb with hb | hb
      · exact hback' b hb
      · rwa [List.mem_singleton.mp hb]
    · -- The place goes to the last of 256 others.
      right
      have hnodup : (a :: back).Nodup := by
        have hnodup := htidy.nodup
        rw [hbuffer] at hnodup
        have hfresh := hcareful.2
        rw [hbuffer] at hfresh
        refine List.nodup_cons.mpr ⟨fun hmem => hfresh (by simp [hmem]), ?_⟩
        exact (List.nodup_cons.mp (List.nodup_append.mp hnodup).2.1).2
      calc 256 = (a :: back).length := by rw [List.length_cons, hfull]
        _ = (a :: back).toFinset.card := (List.toFinset_card_of_nodup hnodup).symm
        _ ≤ others'.card := by
          apply Finset.card_le_card
          intro b hb
          rcases List.mem_cons.mp (List.mem_toFinset.mp hb) with rfl | hb
          · exact ha
          · exact hback' b hb
  | remove a =>
    have hne : oid ≠ a := fun heq => hkept (by rw [heq])
    have hsame : (s.remove a).softEvictedOrders = s.softEvictedOrders.remove a := by
      unfold HotPriorityBacklog.remove
      split <;> rfl
    refine .inl ⟨?_, habsent', front, back, ?_, hback'⟩
    · show oid ∈ (s.remove a).softEvictedOrders.filter
      rw [hsame]
      exact Finset.mem_erase.mpr ⟨hne, hfiltered⟩
    · show (s.remove a).softEvictedOrders.buffer = _
      rw [hsame]
      exact hbuffer

/-! ### The law -/

variable (Q) in
/-- Every call of a run that is to check an order later is careful. -/
def CarefulRun (capacity : Nat) (calls : List (HotCall TOrd TOrderId)) : Prop :=
  ∀ pre c, pre ++ [c] <+: calls → (after Q capacity pre).Careful c

theorem after_append (capacity : Nat) (pre calls : List (HotCall TOrd TOrderId)) :
    after Q capacity (pre ++ calls) = calls.foldl call (after Q capacity pre) :=
  List.foldl_append

theorem sound_after (capacity : Nat) (calls : List (HotCall TOrd TOrderId)) :
    (after Q capacity calls).Sound capacity :=
  (Sound.new capacity).run calls

theorem tidy_after (h : CarefulRun Q capacity calls) :
    (after Q capacity calls).softEvictedOrders.Tidy := by
  induction calls using List.reverseRecOn with
  | nil => exact CircularFilter.Tidy.new
  | append_singleton calls c ih =>
    rw [after_append]
    exact tidy_call (ih fun pre c' hpre => h pre c' (hpre.trans (List.prefix_append _ _)))
      (h calls c List.prefix_rfl)

/-- From the call that is to check the order later on. -/
theorem away_after {pre mid : List (HotCall TOrd TOrderId)}
    (h : CarefulRun Q capacity (pre ++ .softEvict oid :: mid)) (hkept : .remove oid ∉ mid) :
    (after Q capacity (pre ++ .softEvict oid :: mid)).Away oid (othersEvicted mid oid) ∨
      256 ≤ (othersEvicted mid oid).card := by
  induction mid using List.reverseRecOn with
  | nil =>
    left
    have hpre : CarefulRun Q capacity pre :=
      fun pre' c hpre' => h pre' c (hpre'.trans (List.prefix_append _ _))
    obtain ⟨habsent, hfresh⟩ := h pre (.softEvict oid) List.prefix_rfl
    obtain ⟨hfiltered, front, hbuffer⟩ := (tidy_after hpre).add_last hfresh (by decide)
    rw [after_append]
    exact ⟨hfiltered, AList.lookup_eq_none.mpr habsent, front, [], hbuffer,
      fun a ha => by cases ha⟩
  | append_singleton mid c ih =>
    have hpre : CarefulRun Q capacity (pre ++ .softEvict oid :: mid) := by
      intro pre' c' hpre'
      refine h pre' c' (hpre'.trans ?_)
      rw [← List.cons_append, ← List.append_assoc]
      exact List.prefix_append _ _
    have hcareful : (after Q capacity (pre ++ .softEvict oid :: mid)).Careful c := by
      apply h
      rw [List.append_assoc, List.cons_append]
    have hsub : othersEvicted mid oid ⊆ othersEvicted (mid ++ [c]) oid := by
      intro a ha
      simp only [othersEvicted, Finset.mem_erase, List.mem_toFinset, List.filterMap_append,
        List.mem_append] at ha ⊢
      exact ⟨ha.1, .inl ha.2⟩
    rcases ih hpre (fun hmem => hkept (List.mem_append_left _ hmem)) with haway | hfull
    · have hsplit : pre ++ .softEvict oid :: (mid ++ [c]) = (pre ++ .softEvict oid :: mid) ++ [c] := by
        simp
      rw [hsplit, after_append]
      refine haway.call (sound_after capacity _) (tidy_after hpre) hcareful ?_ hsub ?_
      · rintro rfl
        exact hkept (List.mem_append_right _ List.mem_cons_self)
      · rintro a rfl hne
        simp [othersEvicted, evicts, hne]
    · exact .inr (hfull.trans (Finset.card_le_card hsub))

variable (Q) in
/-- What a run of calls answers. -/
structure Lawful (capacity : Nat) (calls : List (HotCall TOrd TOrderId)) : Prop where
  best : ∀ pre, pre ++ [.tryPop] <+: calls → ∀ ord, (after Q capacity pre).tryPop.1 = some ord →
    (after Q capacity pre).store.lookup (getSelfRef ord) = some ord ∧
    ∀ oid ord', (after Q capacity pre).store.lookup oid = some ord' → weight ord' ≤ weight ord
  none : ∀ pre, pre ++ [.tryPop] <+: calls → (after Q capacity pre).tryPop.1 = none →
    ∀ oid, (after Q capacity pre).store.lookup oid = none
  put : ∀ pre, pre ++ [.tryPop] <+: calls → ∀ ord, (after Q capacity pre).tryPop.1 = some ord →
    (new capacity : HotPriorityBacklog Q TOrd TOrderId).PutIn pre ord
  once : ∀ pre mid oid c, pre ++ c :: mid ++ [.tryPop] <+: calls →
    (after Q capacity pre).Ends oid c → ∀ ord,
    (after Q capacity (pre ++ c :: mid)).tryPop.1 = some ord → getSelfRef ord = oid →
    (after Q capacity (pre ++ [c])).PutIn mid ord
  queued : ∀ pre, pre <+: calls → ∀ oid ord, (after Q capacity pre).store.lookup oid = some ord →
    PriorityQueue.priority (after Q capacity pre).queue oid = some (weight ord)
  room : ∀ pre, pre <+: calls →
    (after Q capacity pre).capacity + (after Q capacity pre).store.keys.length = capacity

variable (Q) in
/-- What is to be checked later is not handed out before 256 others are to be checked later. -/
def KeepsAway (capacity : Nat) (calls : List (HotCall TOrd TOrderId)) : Prop :=
  ∀ pre oid mid, pre ++ .softEvict oid :: mid ++ [.tryPop] <+: calls → .remove oid ∉ mid →
    ∀ ord, (after Q capacity (pre ++ .softEvict oid :: mid)).tryPop.1 = some ord →
      getSelfRef ord = oid → 256 ≤ (othersEvicted mid oid).card

theorem popped_of_tryPop (h : s.Sound capacity) (htry : s.tryPop.1 = some ord) : s.Popped ord := by
  obtain ⟨-, hempty | ⟨ord', hpopped⟩⟩ := tryPop_cases h.backs
  · rw [hempty.popped] at htry
    cases htry
  · cases htry.symm.trans hpopped.popped
    exact hpopped

theorem lawful (capacity : Nat) (calls : List (HotCall TOrd TOrderId)) :
    Lawful Q capacity calls where
  best pre _ ord htry := by
    have hpopped := popped_of_tryPop (sound_after capacity pre) htry
    exact ⟨hpopped.stored, hpopped.heaviest⟩
  none pre _ htry := by
    obtain ⟨-, hempty | ⟨ord, hpopped⟩⟩ := tryPop_cases
      (sound_after (Q := Q) capacity pre).backs
    · exact hempty.empty
    · cases htry.symm.trans hpopped.popped
  put pre _ ord htry := by
    have hpopped := popped_of_tryPop (sound_after capacity pre) htry
    exact (lookup_run (Sound.new capacity) (show (new capacity :
      HotPriorityBacklog Q TOrd TOrderId).store.lookup _ = none from rfl) hpopped.stored).1
  once pre mid oid c _ hends ord htry hid := by
    have hsound : (after Q capacity pre).Sound capacity := sound_after capacity pre
    have hpopped := popped_of_tryPop (sound_after capacity _) htry
    have hstored := hpopped.stored
    rw [hid, after_append] at hstored
    rw [after_append]
    exact (lookup_run (hsound.call c) (hends.lookup hsound) hstored).1
  queued pre _ oid ord hord := ((sound_after capacity pre).backs oid ord hord).2
  room pre _ := (sound_after capacity pre).room

/-- Every run is lawful, and a careful run keeps away what is to be checked later. -/
theorem hot_backlog_law (capacity : Nat) (calls : List (HotCall TOrd TOrderId)) :
    Lawful Q capacity calls ∧ (CarefulRun Q capacity calls → KeepsAway Q capacity calls) := by
  refine ⟨lawful capacity calls, ?_⟩
  intro hcareful pre oid mid hpre hkept ord htry hid
  have hrun : CarefulRun Q capacity (pre ++ .softEvict oid :: mid) :=
    fun pre' c hpre' => hcareful pre' c (hpre'.trans ((List.prefix_append _ _).trans hpre))
  rcases away_after hrun hkept with haway | hfull
  · have hpopped := popped_of_tryPop (sound_after capacity _) htry
    have hstored := hpopped.stored
    rw [hid, haway.absent] at hstored
    cases hstored
  · exact hfull

end HotPriorityBacklog

/-! ### An order that is stored when it is to be checked later -/

structure SampleOrder where
  id : Nat
  fee : Nat
deriving DecidableEq

instance : UniqueOrder SampleOrder Nat := ⟨SampleOrder.id⟩

instance : Weighted SampleOrder Nat := ⟨SampleOrder.fee⟩

abbrev SampleQueue := AList fun _ : Nat => Nat

namespace HotPriorityBacklog

def sampleCalls : List (HotCall SampleOrder Nat) :=
  [.put ⟨1, 5⟩, .put ⟨2, 7⟩, .tryPop, .softEvict 2, .put ⟨2, 7⟩, .tryPop]

theorem hot_backlog_law_sample : Lawful SampleQueue 10 sampleCalls ∧
    KeepsAway SampleQueue 10 sampleCalls := by
  have hcareful : CarefulRun SampleQueue 10 sampleCalls := by
    intro pre c hpre
    obtain ⟨k, rfl, rfl⟩ := exists_take_of_snoc hpre
    revert k
    decide +kernel
  exact ⟨(hot_backlog_law 10 sampleCalls).1, (hot_backlog_law 10 sampleCalls).2 hcareful⟩

/-- It is handed out all the same. -/
theorem hands_out_evicted :
    ¬ KeepsAway SampleQueue 10 ([.put ⟨1, 5⟩, .softEvict 1, .tryPop] :
      List (HotCall SampleOrder Nat)) := by
  intro h
  have hcard := h [.put ⟨1, 5⟩] 1 [] List.prefix_rfl (by simp) ⟨1, 5⟩ (by decide +kernel) rfl
  revert hcard
  decide

end HotPriorityBacklog

end UtxoMonitor.Backlog
