import Mathlib.Data.List.Basic

/-! Strings padded to a fixed length: what is lost is how much of the end is padding. -/
namespace Lib

variable {α : Type} {n : Nat} {z : α} {xs ys : List α}

/-- As long as `n`, with `z` in the places that are free. -/
def padTo (n : Nat) (z : α) (xs : List α) : List α := xs ++ List.replicate (n - xs.length) z

/-- One string goes on where the other ends, with padding only. -/
def DifferInPadding (z : α) (xs ys : List α) : Prop :=
  ∃ k, 0 < k ∧ (xs = ys ++ List.replicate k z ∨ ys = xs ++ List.replicate k z)

theorem DifferInPadding.symm (h : DifferInPadding z xs ys) : DifferInPadding z ys xs := by
  obtain ⟨k, hk, h | h⟩ := h
  · exact ⟨k, hk, .inr h⟩
  · exact ⟨k, hk, .inl h⟩

theorem length_padTo (h : xs.length ≤ n) : (padTo n z xs).length = n := by
  rw [padTo, List.length_append, List.length_replicate]
  omega

theorem padTo_of_length (h : xs.length = n) : padTo n z xs = xs := by
  rw [padTo, h, Nat.sub_self, List.replicate_zero, List.append_nil]

/-- Padding in a string is padding of it. -/
theorem padTo_append_replicate {k : Nat} (h : (xs ++ List.replicate k z).length ≤ n) :
    padTo n z (xs ++ List.replicate k z) = padTo n z xs := by
  rw [List.length_append, List.length_replicate] at h
  rw [padTo, padTo, List.append_assoc, List.replicate_append_replicate, List.length_append,
    List.length_replicate]
  congr 2
  omega

theorem eq_or_differInPadding_of_append {c : List α} {k l : Nat}
    (h : List.replicate k z = c ++ List.replicate l z) (heq : ys = xs ++ c) :
    xs = ys ∨ DifferInPadding z xs ys := by
  have hc : c = List.replicate c.length z := (List.append_eq_replicate_iff.mp h.symm).2.1
  rcases Nat.eq_zero_or_pos c.length with hzero | hpos
  · left
    rw [heq, List.length_eq_zero_iff.mp hzero, List.append_nil]
  · right
    refine ⟨c.length, hpos, .inr ?_⟩
    rw [← hc]
    exact heq

/-- Padded strings are the same exactly if the strings are, or differ in padding. -/
theorem padTo_eq_padTo (hx : xs.length ≤ n) (hy : ys.length ≤ n) :
    padTo n z xs = padTo n z ys ↔ xs = ys ∨ DifferInPadding z xs ys := by
  constructor
  · intro h
    rcases List.append_eq_append_iff.mp h with ⟨c, hys, hpad⟩ | ⟨c, hxs, hpad⟩
    · exact eq_or_differInPadding_of_append hpad hys
    · rcases eq_or_differInPadding_of_append hpad hxs with heq | hdiffer
      · exact .inl heq.symm
      · exact .inr hdiffer.symm
  · rintro (rfl | ⟨k, _, rfl | rfl⟩)
    · rfl
    · exact padTo_append_replicate hx
    · exact (padTo_append_replicate hy).symm

theorem DifferInPadding.ne (h : DifferInPadding z xs ys) : xs ≠ ys := by
  rintro rfl
  obtain ⟨k, hk, h | h⟩ := h <;>
  · have hlength := congrArg List.length h
    rw [List.length_append, List.length_replicate] at hlength
    omega

end Lib
