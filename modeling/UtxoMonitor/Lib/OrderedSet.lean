import Mathlib.Algebra.BigOperators.Group.List.Basic
import Mathlib.Algebra.Order.Ring.Nat
import Std.Data.ExtTreeSet

/-! Ordered sets whose order may hold two different values equivalent: which of them a set has. -/
namespace Lib

open Std

variable {α : Type} {cmp : α → α → Ordering} [TransCmp cmp] {s t : ExtTreeSet α cmp} {a b : α}

/-- The set has `a` itself, not only an element that its order holds equivalent. -/
def Elem (s : ExtTreeSet α cmp) (a : α) : Prop := s.get? a = some a

theorem Elem.get? (h : Elem s a) : s.get? a = some a := h

theorem Elem.mem (h : Elem s a) : a ∈ s := by
  rw [ExtTreeSet.mem_iff_isSome_get?, h.get?, Option.isSome_some]

theorem elem_of_get? (h : s.get? a = some b) : Elem s b ∧ cmp a b = .eq := by
  have hall := ExtTreeSet.compare_get?_self (t := s) (k := a)
  rw [h, Option.all_some, decide_eq_true_eq] at hall
  exact ⟨(ExtTreeSet.get?_congr hall).trans h, OrientedCmp.eq_symm hall⟩

/-- No two elements of a set are equivalent. -/
theorem Elem.unique (ha : Elem s a) (hb : Elem s b) (h : cmp a b = .eq) : a = b := by
  have hget := ExtTreeSet.get?_congr (t := s) h
  rw [ha.get?, hb.get?] at hget
  exact Option.some.inj hget

theorem mem_iff_elem : a ∈ s ↔ ∃ b, Elem s b ∧ cmp a b = .eq := by
  constructor
  · intro h
    obtain ⟨b, hb⟩ := Option.isSome_iff_exists.mp (ExtTreeSet.mem_iff_isSome_get?.mp h)
    exact ⟨b, elem_of_get? hb⟩
  · rintro ⟨b, hb, hab⟩
    exact (ExtTreeSet.mem_congr hab).mpr hb.mem

theorem ext_elem (h : ∀ a, Elem s a ↔ Elem t a) : s = t := by
  apply ExtTreeSet.ext_get?
  intro k
  ext a
  constructor
  · intro ha
    obtain ⟨hs, hcmp⟩ := elem_of_get? ha
    exact (ExtTreeSet.get?_congr hcmp).trans ((h a).mp hs)
  · intro ha
    obtain ⟨ht, hcmp⟩ := elem_of_get? ha
    exact (ExtTreeSet.get?_congr hcmp).trans ((h a).mpr ht)

@[simp] theorem not_elem_empty : ¬ Elem (∅ : ExtTreeSet α cmp) a := by
  intro h
  exact ExtTreeSet.not_mem_empty h.mem

/-- An element is kept out by one equivalent to it. -/
theorem elem_insert : Elem (s.insert a) b ↔ Elem s b ∨ (b = a ∧ a ∉ s) := by
  rw [Elem, ExtTreeSet.get?_insert]
  split
  · rename_i h
    rw [Option.some.injEq]
    constructor
    · rintro rfl
      exact .inr ⟨rfl, h.2⟩
    · rintro (hb | ⟨rfl, -⟩)
      · exact absurd ((ExtTreeSet.mem_congr h.1).mpr hb.mem) h.2
      · rfl
  · rename_i h
    constructor
    · exact .inl
    · rintro (hb | ⟨rfl, hs⟩)
      · exact hb
      · exact absurd ⟨ReflCmp.compare_self, hs⟩ h

theorem elem_erase : Elem (s.erase a) b ↔ Elem s b ∧ cmp a b ≠ .eq := by
  rw [Elem, ExtTreeSet.get?_erase]
  split
  · rename_i h
    simp [h]
  · rename_i h
    exact ⟨fun hb => ⟨hb, h⟩, And.left⟩

theorem elem_of_head? (h : s.toList.head? = some a) : Elem s a :=
  ExtTreeSet.get?_min? (ExtTreeSet.min?_eq_head?_toList.trans h)

/-- A set that is not empty has a first element, which no other precedes. -/
theorem exists_head? (hb : Elem s b) : ∃ a, s.toList.head? = some a := by
  rw [← Option.isSome_iff_exists, ← ExtTreeSet.min?_eq_head?_toList]
  exact ExtTreeSet.isSome_min?_of_mem hb.mem

theorem isLE_of_head? (h : s.toList.head? = some a) (hb : Elem s b) : (cmp a b).isLE := by
  rw [← ExtTreeSet.min?_eq_head?_toList] at h
  have hmin : ∀ k, s.min? = some k → (cmp a k).isLE := by
    intro k hk
    obtain rfl := Option.some.inj (h.symm.trans hk)
    exact ReflCmp.isLE_rfl
  exact ExtTreeSet.le_min?.mp hmin b hb.mem

/-! ### Totals -/

theorem mem_toList_iff_elem : a ∈ s.toList ↔ Elem s a := by
  have hkeys : s.toList = s.inner.toList.map Prod.fst := ExtTreeMap.map_fst_toList_eq_keys.symm
  rw [hkeys, List.mem_map]
  constructor
  · rintro ⟨⟨k, v⟩, hmem, rfl⟩
    exact (ExtTreeMap.mem_toList_iff_getKey?_eq_some_and_getElem?_eq_some.mp hmem).1
  · intro h
    have hin : a ∈ s.inner := h.mem
    refine ⟨(a, ()), ?_, rfl⟩
    exact ExtTreeMap.mem_toList_iff_getKey?_eq_some_and_getElem?_eq_some.mpr
      ⟨h, ExtTreeMap.getElem?_eq_some_getElem hin⟩

theorem nodup_toList : s.toList.Nodup := by
  apply ExtTreeSet.distinct_toList.imp
  rintro a b hne rfl
  exact hne ReflCmp.compare_self

/-- What the elements of a set add up to. -/
def total (f : α → Nat) (s : ExtTreeSet α cmp) : Nat := (s.toList.map f).sum

variable {f : α → Nat}

theorem total_erase (h : Elem s a) : total f (s.erase a) + f a = total f s := by
  have hnot : a ∉ (s.erase a).toList := by
    rw [mem_toList_iff_elem, elem_erase]
    exact fun hmem => hmem.2 ReflCmp.compare_self
  have hperm : (a :: (s.erase a).toList).Perm s.toList := by
    rw [List.perm_ext_iff_of_nodup (List.nodup_cons.mpr ⟨hnot, nodup_toList⟩) nodup_toList]
    intro b
    rw [List.mem_cons, mem_toList_iff_elem, mem_toList_iff_elem, elem_erase]
    constructor
    · rintro (rfl | hb)
      · exact h
      · exact hb.1
    · intro hb
      by_cases hcmp : cmp a b = .eq
      · exact .inl (h.unique hb hcmp).symm
      · exact .inr ⟨hb, hcmp⟩
  have hsum := (hperm.map f).sum_eq
  rw [List.map_cons, List.sum_cons] at hsum
  rw [total, total, ← hsum, Nat.add_comm]

theorem total_erase_le : total f (s.erase a) ≤ total f s := by
  by_cases hmem : a ∈ s
  · obtain ⟨b, hb, hcmp⟩ := mem_iff_elem.mp hmem
    have hsame : s.erase a = s.erase b := ext_elem fun c => by
      rw [elem_erase, elem_erase, TransCmp.congr_left hcmp]
    rw [hsame, ← total_erase hb]
    exact Nat.le_add_right _ _
  · have hsame : s.erase a = s := ext_elem fun b => by
      rw [elem_erase]
      exact ⟨And.left, fun hb => ⟨hb, fun hcmp => hmem (mem_iff_elem.mpr ⟨b, hb, hcmp⟩)⟩⟩
    exact Nat.le_of_eq (congrArg (total f) hsame)

theorem total_insert_le : total f (s.insert a) ≤ total f s + f a := by
  by_cases hmem : a ∈ s
  · have hsame : s.insert a = s := ext_elem fun b => by simp [elem_insert, hmem]
    rw [hsame]
    exact Nat.le_add_right _ _
  · have hnew : Elem (s.insert a) a := elem_insert.mpr (.inr ⟨rfl, hmem⟩)
    have hback : (s.insert a).erase a = s := by
      apply ext_elem
      intro b
      rw [elem_erase, elem_insert]
      constructor
      · rintro ⟨hb | ⟨rfl, -⟩, hcmp⟩
        · exact hb
        · exact absurd ReflCmp.compare_self hcmp
      · intro hb
        exact ⟨.inl hb, fun hcmp => hmem (mem_iff_elem.mpr ⟨b, hb, hcmp⟩)⟩
    have htotal := total_erase (f := f) hnew
    rw [hback] at htotal
    exact Nat.le_of_eq htotal.symm

end Lib
