import Mathlib.Order.Basic

/-! Marks that are born of something used once, and handed on from holder to holder. -/
namespace Lib

variable {O B : Type}

/-- Among what is not used up, at most one holds each mark; every mark was born of something used
up. -/
structure Custody (Born Holds : O → B → Prop) (Used : O → Prop) : Prop where
  born : ∀ {o b}, Holds o b → ∃ o', Used o' ∧ Born o' b
  alone : ∀ {o o' b}, Holds o b → Holds o' b → ¬ Used o → ¬ Used o' → o = o'

theorem Custody.initial (Born : O → B → Prop) :
    Custody Born (fun _ _ => False) (fun _ => False) where
  born h := h.elim
  alone h := h.elim

variable {Born Holds Holds' Adds : O → B → Prop} {Used Used' Uses : O → Prop}

/-- Some things are used for the first time, and others get the marks that are born of them or that
they held, each mark one of them. -/
theorem Custody.step (h : Custody Born Holds Used)
    (hborn : ∀ {o o' b}, Born o b → Born o' b → o = o') (huses : ∀ {o}, Uses o → ¬ Used o)
    (hadds : ∀ {o b}, Adds o b → ∃ i, Uses i ∧ (Born i b ∨ Holds i b))
    (halone : ∀ {o o' b}, Adds o b → Adds o' b → o = o')
    (hholds : ∀ {o b}, Holds' o b → Holds o b ∨ Adds o b)
    (hused : ∀ {o}, Used' o ↔ Used o ∨ Uses o) : Custody Born Holds' Used' where
  born := by
    intro o b ho
    rcases hholds ho with ho | ho
    · obtain ⟨i, hi, hb⟩ := h.born ho
      exact ⟨i, hused.mpr (Or.inl hi), hb⟩
    · obtain ⟨i, hi, hb | hb⟩ := hadds ho
      · exact ⟨i, hused.mpr (Or.inr hi), hb⟩
      · obtain ⟨j, hj, hb⟩ := h.born hb
        exact ⟨j, hused.mpr (Or.inl hj), hb⟩
  alone := by
    -- Whoever held a mark that is added elsewhere is used up by now.
    have hgone : ∀ {o o' b}, Holds o b → Adds o' b → Used' o := by
      intro o o' b ho ho'
      rw [hused]
      by_contra hnot
      rw [not_or] at hnot
      obtain ⟨i, hi, hb | hb⟩ := hadds ho'
      · obtain ⟨j, hj, hb'⟩ := h.born ho
        obtain rfl := hborn hb hb'
        exact huses hi hj
      · obtain rfl := h.alone ho hb hnot.1 (huses hi)
        exact hnot.2 hi
    intro o o' b ho ho' hunused hunused'
    rcases hholds ho with ho | ho
    · rcases hholds ho' with ho' | ho'
      · rw [hused, not_or] at hunused hunused'
        exact h.alone ho ho' hunused.1 hunused'.1
      · exact absurd (hgone ho ho') hunused
    · rcases hholds ho' with ho' | ho'
      · exact absurd (hgone ho' ho) hunused'
      · exact halone ho ho'

end Lib
