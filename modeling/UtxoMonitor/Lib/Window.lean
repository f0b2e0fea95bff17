import Mathlib.Data.Finset.Card
import Mathlib.Data.List.Nodup

/-! Histories, newest first, in which nothing comes again before enough others came. -/
namespace Lib

variable {A : Type} {n : Nat} {a : A} {l older newer between : List A}

/-- Each element is none of the `n` before it. -/
inductive Fresh (n : Nat) : List A → Prop
  | nil : Fresh n []
  | cons {a : A} {l : List A} (hnew : a ∉ l.take n) (hold : Fresh n l) : Fresh n (a :: l)

theorem Fresh.of_append (h : Fresh n (newer ++ older)) : Fresh n older := by
  induction newer with
  | nil => exact h
  | cons a newer ih =>
    cases h with
    | cons _ hold => exact ih hold

theorem Fresh.nodup_take (h : Fresh n l) : (l.take n).Nodup := by
  induction h with
  | nil => simp
  | @cons a l hnew _ ih =>
    cases n with
    | zero => simp
    | succ n =>
      have hsub := List.take_sublist_take_left (l := l) (Nat.le_succ n)
      rw [List.take_succ_cons, List.nodup_cons]
      exact ⟨fun hmem => hnew (hsub.subset hmem), ih.sublist hsub⟩

theorem mem_take_append_cons (hne : a ∉ between) :
    a ∈ (between ++ a :: older).take n ↔ between.length < n := by
  constructor
  · intro hmem
    by_contra hle
    rw [List.take_append_of_le_length (Nat.le_of_not_lt hle)] at hmem
    exact hne (List.mem_of_mem_take hmem)
  · intro hlt
    obtain ⟨k, rfl⟩ := Nat.exists_eq_add_of_lt hlt
    simp [List.take_append, Nat.add_assoc]

variable [DecidableEq A]

theorem Fresh.le_card (h : Fresh n (between ++ older)) (hle : n ≤ between.length) :
    n ≤ between.toFinset.card := by
  have hnodup := h.nodup_take
  rw [List.take_append_of_le_length hle] at hnodup
  have hsub : (between.take n).toFinset ⊆ between.toFinset := by
    intro x hx
    rw [List.mem_toFinset] at hx ⊢
    exact List.mem_of_mem_take hx
  calc n = (between.take n).length := (List.length_take_of_le hle).symm
    _ = (between.take n).toFinset.card := (List.toFinset_card_of_nodup hnodup).symm
    _ ≤ between.toFinset.card := Finset.card_le_card hsub

/-- What is in the window has fewer than `n` distinct elements after it. -/
theorem Fresh.mem_take_iff (h : Fresh n (between ++ a :: older)) (hne : a ∉ between) :
    a ∈ (between ++ a :: older).take n ↔ between.toFinset.card < n := by
  rw [mem_take_append_cons hne]
  constructor
  · exact (List.toFinset_card_le between).trans_lt
  · intro hlt
    by_contra hle
    exact absurd (h.le_card (Nat.le_of_not_lt hle)) (Nat.not_le_of_lt hlt)

/-- What comes again does so after at least `n` distinct others. -/
theorem Fresh.again (h : Fresh n (newer ++ a :: (between ++ a :: older))) (hne : a ∉ between) :
    n ≤ between.toFinset.card := by
  cases h.of_append with
  | cons hnew hold =>
    by_contra hlt
    exact hnew ((hold.mem_take_iff hne).mpr (Nat.lt_of_not_le hlt))

end Lib
