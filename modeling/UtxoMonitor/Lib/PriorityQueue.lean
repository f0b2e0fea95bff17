import Mathlib.Data.List.AList
import Mathlib.Data.List.MinMax

/-! Priority queues of items that are in the queue once each, and what is popped of them. -/
namespace Lib

/-- A queue of items with a priority each, of which one of the greatest priority is popped. Which of
several, and the order of the items, is the queue's own. -/
class PriorityQueue (Q : Type) (I W : outParam Type) [LE W] where
  new : Q
  items : Q → List I
  priority : Q → I → Option W
  push : Q → I → W → Q
  remove : Q → I → Q
  pop : Q → Option ((I × W) × Q)
  nodup_items : ∀ q, (items q).Nodup
  mem_items : ∀ q i, i ∈ items q ↔ (priority q i).isSome
  priority_new : ∀ i, priority new i = none
  priority_push_self : ∀ q i w, priority (push q i w) i = some w
  priority_push_of_ne : ∀ q i j w, j ≠ i → priority (push q i w) j = priority q j
  priority_remove_self : ∀ q i, priority (remove q i) i = none
  priority_remove_of_ne : ∀ q i j, j ≠ i → priority (remove q i) j = priority q j
  pop_eq_none : ∀ q, pop q = none → items q = []
  priority_of_pop : ∀ q q' i w, pop q = some ((i, w), q') → priority q i = some w
  le_of_pop : ∀ q q' i w, pop q = some ((i, w), q') → ∀ j v, priority q j = some v → v ≤ w
  priority_pop_self : ∀ q q' i w, pop q = some ((i, w), q') → priority q' i = none
  priority_pop_of_ne : ∀ q q' i w, pop q = some ((i, w), q') → ∀ j, j ≠ i →
    priority q' j = priority q j

namespace PriorityQueue

section

variable {Q I W : Type} [LE W] [PriorityQueue Q I W] {q q' : Q} {i j : I} {v w : W}

theorem priority_eq_none (h : items q = []) (i : I) : priority q i = none := by
  have hmem := mem_items q i
  rw [h] at hmem
  simpa using hmem.symm

/-! What is in a queue after each operation, in the order of the queue. -/

theorem items_new : items (new : Q) = [] := by
  rw [List.eq_nil_iff_forall_not_mem]
  intro i hi
  rw [mem_items, priority_new] at hi
  cases hi

theorem mem_items_push : j ∈ items (push q i w) ↔ j = i ∨ j ∈ items q := by
  by_cases h : j = i
  · subst h
    simp [mem_items, priority_push_self]
  · simp [mem_items, priority_push_of_ne q i j w h, h]

theorem items_push (h : i ∉ items q) : (items (push q i w)).Perm (i :: items q) := by
  rw [List.perm_ext_iff_of_nodup (nodup_items _) (List.nodup_cons.mpr ⟨h, nodup_items q⟩)]
  intro j
  rw [mem_items_push, List.mem_cons]

theorem items_push_of_mem (h : i ∈ items q) : (items (push q i w)).Perm (items q) := by
  rw [List.perm_ext_iff_of_nodup (nodup_items _) (nodup_items q)]
  intro j
  rw [mem_items_push]
  exact ⟨fun hj => hj.elim (fun heq => heq ▸ h) id, .inr⟩

theorem mem_items_remove : j ∈ items (remove q i) ↔ j ≠ i ∧ j ∈ items q := by
  by_cases h : j = i
  · subst h
    simp [mem_items, priority_remove_self]
  · simp [mem_items, priority_remove_of_ne q i j h, h]

theorem items_remove (h : i ∈ items q) : (items q).Perm (i :: items (remove q i)) := by
  have hi : i ∉ items (remove q i) := fun h => (mem_items_remove.mp h).1 rfl
  rw [List.perm_ext_iff_of_nodup (nodup_items q) (List.nodup_cons.mpr ⟨hi, nodup_items _⟩)]
  intro j
  rw [List.mem_cons, mem_items_remove]
  by_cases hj : j = i
  · subst hj
    simp [h]
  · simp [hj]

theorem mem_items_pop (hpop : pop q = some ((i, w), q')) :
    j ∈ items q' ↔ j ≠ i ∧ j ∈ items q := by
  by_cases h : j = i
  · subst h
    simp [mem_items, priority_pop_self q q' j w hpop]
  · simp [mem_items, priority_pop_of_ne q q' i w hpop j h, h]

theorem items_pop (hpop : pop q = some ((i, w), q')) : (items q).Perm (i :: items q') := by
  have hi : i ∉ items q' := fun h => ((mem_items_pop hpop).mp h).1 rfl
  rw [List.perm_ext_iff_of_nodup (nodup_items q) (List.nodup_cons.mpr ⟨hi, nodup_items q'⟩)]
  intro j
  rw [List.mem_cons, mem_items_pop hpop]
  by_cases h : j = i
  · subst h
    simp [mem_items, priority_of_pop q q' j w hpop]
  · simp [h]

theorem length_items_pop (hpop : pop q = some ((i, w), q')) :
    (items q').length < (items q).length := by
  rw [(items_pop hpop).length_eq]
  exact Nat.lt_succ_self _

/-! ### Items are popped until one of them is taken -/

variable {S A : Type} {visit : S → I → S × Option A}

/-- The items are visited, the heaviest first, until a visit has an outcome. -/
def popUntil (visit : S → I → S × Option A) : (turns : Nat) → Q → S → Option A × Q × S
  | 0, q, s => (none, q, s)
  | turns + 1, q, s =>
    match pop q with
    | none => (none, q, s)
    | some ((i, _), q') =>
      match visit s i with
      | (s', some a) => (some a, q', s')
      | (s', none) => popUntil visit turns q' s'

/-- What the visits without an outcome keep holds when one has an outcome, or of the empty queue. -/
theorem popUntil_cases {P : Q → S → Prop}
    (hskip : ∀ q s i w q' s', P q s → pop q = some ((i, w), q') → visit s i = (s', none) → P q' s')
    {turns : Nat} {s : S} (h : P q s) (hturns : (items q).length ≤ turns) :
    (∃ q' s', popUntil visit turns q s = (none, q', s') ∧ P q' s' ∧ items q' = []) ∨
    ∃ q₀ s₀ i w q' s' a, popUntil visit turns q s = (some a, q', s') ∧ P q₀ s₀ ∧
      pop q₀ = some ((i, w), q') ∧ visit s₀ i = (s', some a) := by
  induction turns generalizing q s with
  | zero => exact .inl ⟨q, s, rfl, h, List.eq_nil_of_length_eq_zero (Nat.le_zero.mp hturns)⟩
  | succ turns ih =>
    cases hpop : pop q with
    | none => exact .inl ⟨q, s, by simp only [popUntil, hpop], h, pop_eq_none q hpop⟩
    | some popped =>
      obtain ⟨⟨i, w⟩, q'⟩ := popped
      cases hvisit : visit s i with
      | mk s' outcome =>
        cases outcome with
        | some a =>
          refine .inr ⟨q, s, i, w, q', s', a, ?_, h, hpop, hvisit⟩
          simp only [popUntil, hpop, hvisit]
        | none =>
          simp only [popUntil, hpop, hvisit]
          have hlt := length_items_pop hpop
          exact ih (hskip q s i w q' s' h hpop hvisit) (by omega)

end

/-! ### Queues as lists of associations -/

section

variable {I W : Type} [DecidableEq I] [LinearOrder W]

theorem priority_of_argmax {q : AList fun _ : I => W} {e : Sigma fun _ : I => W}
    (h : q.entries.argmax (fun e => e.2) = some e) : q.lookup e.1 = some e.2 :=
  AList.mem_lookup_iff.mpr (List.argmax_mem h)

instance : PriorityQueue (AList fun _ : I => W) I W where
  new := ∅
  items q := q.keys
  priority q i := q.lookup i
  push q i w := q.insert i w
  remove q i := q.erase i
  pop q := (q.entries.argmax fun e => e.2).map fun e => ((e.1, e.2), q.erase e.1)
  nodup_items q := q.keys_nodup
  mem_items q i := AList.lookup_isSome.symm
  priority_new i := AList.lookup_empty i
  priority_push_self q _ _ := AList.lookup_insert q
  priority_push_of_ne _ _ _ _ h := AList.lookup_insert_ne h
  priority_remove_self q i := AList.lookup_erase i q
  priority_remove_of_ne _ _ _ h := AList.lookup_erase_ne h
  pop_eq_none q h := by
    rw [Option.map_eq_none_iff, List.argmax_eq_none] at h
    rw [AList.keys, h]
    rfl
  priority_of_pop q q' i w h := by
    obtain ⟨e, he, heq⟩ := Option.map_eq_some_iff.mp h
    cases heq
    exact priority_of_argmax he
  le_of_pop q q' i w h j v hj := by
    obtain ⟨e, he, heq⟩ := Option.map_eq_some_iff.mp h
    cases heq
    exact List.le_of_mem_argmax (AList.mem_lookup_iff.mp hj) he
  priority_pop_self q q' i w h := by
    obtain ⟨e, he, heq⟩ := Option.map_eq_some_iff.mp h
    cases heq
    exact AList.lookup_erase _ _
  priority_pop_of_ne q q' i w h j hj := by
    obtain ⟨e, he, heq⟩ := Option.map_eq_some_iff.mp h
    cases heq
    exact AList.lookup_erase_ne hj

end

end PriorityQueue

end Lib
