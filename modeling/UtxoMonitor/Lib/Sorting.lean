import Mathlib.Data.List.Basic
import Mathlib.Data.List.Perm.Basic

/-! Sorting by a comparison that is an order between the items of a list only, and the ranks of what
is sorted. -/
namespace Lib

open List List.MergeSort.Internal

variable {A : Type} {r s : A → A → Bool}

theorem merge_congr {xs ys : List A} (h : ∀ a ∈ xs, ∀ b ∈ ys, r a b = s a b) :
    merge xs ys r = merge xs ys s := by
  induction xs generalizing ys with
  | nil => simp
  | cons a xs ihx =>
    induction ys with
    | nil => simp
    | cons b ys ihy =>
      have hhead := h a List.mem_cons_self b List.mem_cons_self
      rw [cons_merge_cons, cons_merge_cons, hhead,
        ihx fun a' ha' => h a' (List.mem_cons_of_mem _ ha'),
        ihy fun a' ha' b' hb' => h a' ha' b' (List.mem_cons_of_mem _ hb')]

/-- A sort compares items of the list in different places only. -/
theorem mergeSort_congr {xs : List A}
    (h : xs.Pairwise fun a b => r a b = s a b ∧ r b a = s b a) :
    xs.mergeSort r = xs.mergeSort s := by
  match xs with
  | [] => simp
  | [a] => simp
  | a :: b :: xs =>
    have hfst : (splitInTwo ⟨a :: b :: xs, rfl⟩).1.1.length < (a :: b :: xs).length := by
      rw [(splitInTwo ⟨a :: b :: xs, rfl⟩).1.2]
      simp only [List.length_cons]
      omega
    have hsnd : (splitInTwo ⟨a :: b :: xs, rfl⟩).2.1.length < (a :: b :: xs).length := by
      rw [(splitInTwo ⟨a :: b :: xs, rfl⟩).2.2]
      simp only [List.length_cons]
      omega
    have hsplit : (splitInTwo ⟨a :: b :: xs, rfl⟩).1.1 ++ (splitInTwo ⟨a :: b :: xs, rfl⟩).2.1 =
        a :: b :: xs := splitInTwo_fst_append_splitInTwo_snd _
    rw [← hsplit, List.pairwise_append] at h
    obtain ⟨hleft, hright, hcross⟩ := h
    rw [mergeSort, mergeSort, mergeSort_congr hleft, mergeSort_congr hright]
    apply merge_congr
    intro a' ha' b' hb'
    exact (hcross a' ((mergeSort_perm _ _).mem_iff.mp ha') b'
      ((mergeSort_perm _ _).mem_iff.mp hb')).1
termination_by xs.length

/-- In a list that is sorted strictly, everything stands at its rank. -/
theorem countP_before {before after : List A} {a : A} {p : A → Bool}
    (hbefore : ∀ b ∈ before, p b) (ha : ¬ p a) (hafter : ∀ b ∈ after, ¬ p b) :
    (before ++ a :: after).countP p = before.length := by
  have hnone : (a :: after).countP p = 0 := by
    rw [List.countP_eq_zero]
    intro b hb
    rcases List.mem_cons.mp hb with rfl | hb
    · exact ha
    · exact hafter b hb
  rw [List.countP_append, List.countP_eq_length.mpr hbefore, hnone, Nat.add_zero]

end Lib
