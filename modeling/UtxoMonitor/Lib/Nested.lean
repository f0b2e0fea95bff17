import UtxoMonitor.Lib.Assoc

/-! Maps of maps: a value is filed under two keys, and an inner map that becomes empty goes. -/
namespace Lib

variable {K L V : Type} [DecidableEq K] [DecidableEq L]

abbrev Nested (K L V : Type) [DecidableEq K] [DecidableEq L] := AList fun _ : K => AList fun _ : L => V

namespace Nested

def value (m : Nested K L V) (k : K) (l : L) : Option V :=
  (m.lookup k).bind fun inner => inner.lookup l

/-- An inner map is put back, or taken out if it is empty. -/
def putOrDrop (m : Nested K L V) (k : K) (inner : AList fun _ : L => V) : Nested K L V :=
  if inner.entries.isEmpty then m.erase k else m.insert k inner

def NoEmpty (m : Nested K L V) : Prop := ∀ k inner, m.lookup k = some inner → inner.entries ≠ []

variable {m : Nested K L V} {inner : AList fun _ : L => V} {k k' : K} {l l' : L} {o : Option V}

theorem value_of_lookup (h : m.lookup k = some inner) : m.value k l = inner.lookup l := by
  rw [value, h, Option.bind_some]

theorem value_of_lookup_none (h : m.lookup k = none) : m.value k l = none := by
  rw [value, h, Option.bind_none]

theorem value_eq (m : Nested K L V) (k : K) (l : L) :
    m.value k l = ((m.lookup k).getD ∅).lookup l := by
  rw [value]
  cases m.lookup k <;> rfl

theorem value_insert : value (m.insert k inner) k' l' =
    if k' = k then inner.lookup l' else m.value k' l' := by
  rw [value, lookup_insert_eq]
  split <;> rfl

theorem value_putOrDrop : (m.putOrDrop k inner).value k' l' =
    if k' = k then inner.lookup l' else m.value k' l' := by
  rw [putOrDrop]
  split
  · rename_i hempty
    have hnone : inner.lookup l' = none := by
      rw [AList.lookup_eq_none]
      intro hmem
      have hkeys : l' ∈ inner.entries.keys := AList.mem_keys.mpr hmem
      rw [List.isEmpty_iff.mp hempty] at hkeys
      cases hkeys
    rw [value, lookup_erase_eq]
    split
    · rw [hnone, Option.bind_none]
    · rfl
  · exact value_insert

/-- What is read after the change of one value of an inner map. -/
theorem value_of_change (hchange : ∀ l', inner.lookup l' = if l' = l then o else m.value k l') :
    (if k' = k then inner.lookup l' else m.value k' l') =
      if k' = k ∧ l' = l then o else m.value k' l' := by
  by_cases hk : k' = k
  · subst hk
    rw [if_pos rfl, hchange]
    by_cases hl : l' = l
    · rw [if_pos hl, if_pos ⟨rfl, hl⟩]
    · rw [if_neg hl, if_neg fun h => hl h.2]
  · rw [if_neg hk, if_neg fun h => hk h.1]

theorem noEmpty_empty : (∅ : Nested K L V).NoEmpty := by
  intro k inner h
  cases h

theorem NoEmpty.insert (h : m.NoEmpty) (hinner : inner.entries ≠ []) :
    NoEmpty (m.insert k inner) := by
  intro k' inner' hlookup
  rw [lookup_insert_eq] at hlookup
  split at hlookup
  · cases hlookup
    exact hinner
  · exact h k' inner' hlookup

theorem NoEmpty.putOrDrop (h : m.NoEmpty) : NoEmpty (m.putOrDrop k inner) := by
  rw [Nested.putOrDrop]
  split
  · intro k' inner' hlookup
    rw [lookup_erase_eq] at hlookup
    split at hlookup
    · cases hlookup
    · exact h k' inner' hlookup
  · rename_i hinner
    apply h.insert
    intro hnil
    exact hinner (List.isEmpty_iff.mpr hnil)

end Nested

end Lib
