import Mathlib.Algebra.BigOperators.Group.List.Basic
import Mathlib.Data.List.AList
import Mathlib.Data.List.Basic
import Mathlib.Data.List.Induction
import Mathlib.Data.List.Nodup
import Mathlib.Tactic.Abel

/-! Maps as lists of associations: what a lookup finds after a change of the map, and in a map that
values were put into one after the other. -/
namespace Lib

section

variable {K V : Type} [DecidableEq K]

theorem lookup_insert_eq (m : AList fun _ : K => V) (a b : K) (v : V) :
    (m.insert a v).lookup b = if b = a then some v else m.lookup b := by
  split
  · rename_i h
    subst h
    exact AList.lookup_insert m
  · rename_i h
    exact AList.lookup_insert_ne h

theorem lookup_erase_eq (m : AList fun _ : K => V) (a b : K) :
    (m.erase a).lookup b = if b = a then none else m.lookup b := by
  split
  · rename_i h
    subst h
    exact AList.lookup_erase b m
  · rename_i h
    exact AList.lookup_erase_ne h

theorem erase_of_lookup {m : AList fun _ : K => V} {a : K} (h : m.lookup a = none) :
    m.erase a = m :=
  AList.ext (List.kerase_of_notMem_keys (AList.lookup_eq_none.mp h))

theorem length_keys_erase {m : AList fun _ : K => V} {a : K} {v : V} (h : m.lookup a = some v) :
    (m.erase a).keys.length + 1 = m.keys.length := by
  have hmem : a ∈ m.keys := AList.mem_keys.mp (AList.lookup_isSome.mp (by rw [h]; rfl))
  have hpos := List.length_pos_of_mem hmem
  rw [AList.keys_erase, List.length_erase_of_mem hmem]
  omega

/-! ### Values put in one after the other -/

/-- Values by key, where later ones replace earlier ones. -/
def collect (key : V → K) (values : List V) : AList fun _ : K => V :=
  values.foldl (fun collected v => collected.insert (key v) v) ∅

variable {key : V → K} {values : List V} {k : K} {v : V}

theorem collect_snoc (key : V → K) (values : List V) (v : V) :
    collect key (values ++ [v]) = (collect key values).insert (key v) v := by
  rw [collect, List.foldl_append]
  rfl

theorem of_lookup_collect (h : (collect key values).lookup k = some v) :
    v ∈ values ∧ key v = k := by
  induction values using List.reverseRecOn with
  | nil => cases h
  | append_singleton values last ih =>
    rw [collect_snoc, lookup_insert_eq] at h
    split at h
    · rename_i hk
      cases h
      exact ⟨List.mem_append_right _ List.mem_cons_self, hk.symm⟩
    · obtain ⟨hmem, hkey⟩ := ih h
      exact ⟨List.mem_append_left _ hmem, hkey⟩

theorem lookup_collect_of_mem (key : V → K) (h : v ∈ values) :
    ∃ last, (collect key values).lookup (key v) = some last := by
  induction values using List.reverseRecOn with
  | nil => cases h
  | append_singleton values last ih =>
    rw [collect_snoc, lookup_insert_eq]
    split
    · exact ⟨last, rfl⟩
    · rename_i hne
      rcases List.mem_append.mp h with h | h
      · exact ih h
      · rw [List.mem_singleton.mp h] at hne
        exact absurd rfl hne

theorem key_of_lookups (ks : List K) :
    (ks.filterMap fun k => (collect key values).lookup k).map key = ks.filter (· ∈ collect key values) := by
  induction ks with
  | nil => rfl
  | cons k ks ih =>
    cases hlookup : (collect key values).lookup k with
    | none =>
      have hnot : k ∉ collect key values := AList.lookup_eq_none.mp hlookup
      simp only [List.filterMap_cons, hlookup, ih]
      rw [List.filter_cons_of_neg (by simpa using hnot)]
    | some v =>
      have hmem : k ∈ collect key values :=
        AList.lookup_isSome.mp (Option.isSome_of_eq_some hlookup)
      simp only [List.filterMap_cons, hlookup, List.map_cons, ih]
      rw [List.filter_cons_of_pos (by simpa using hmem), (of_lookup_collect hlookup).2]

/-- Nothing is replaced exactly if no two values share a key. -/
theorem perm_lookups_iff {ks : List K} (hks : ks.Nodup) (hall : ∀ k ∈ collect key values, k ∈ ks) :
    (ks.filterMap fun k => (collect key values).lookup k).Perm values ↔ (values.map key).Nodup := by
  have hkeys : ((ks.filterMap fun k => (collect key values).lookup k).map key).Nodup := by
    rw [key_of_lookups]
    exact hks.filter _
  constructor
  · intro hperm
    exact (hperm.map key).nodup_iff.mp hkeys
  · intro hnodup
    rw [List.perm_ext_iff_of_nodup hkeys.of_map hnodup.of_map]
    intro v
    rw [List.mem_filterMap]
    constructor
    · rintro ⟨k, _, hlookup⟩
      exact (of_lookup_collect hlookup).1
    · intro hv
      obtain ⟨last, hlast⟩ := lookup_collect_of_mem key hv
      obtain ⟨hmem, hkey⟩ := of_lookup_collect hlast
      obtain rfl := List.inj_on_of_nodup_map hnodup hmem hv hkey
      have hin : key last ∈ collect key values :=
        AList.lookup_isSome.mp (Option.isSome_of_eq_some hlast)
      exact ⟨key last, hall _ hin, hlast⟩

theorem lookup_foldl_insert {pairs : List (K × V)} (m : AList fun _ : K => V)
    (hnodup : (pairs.map Prod.fst).Nodup) (hmem : (k, v) ∈ pairs) :
    (pairs.foldl (fun m pair => m.insert pair.1 pair.2) m).lookup k = some v := by
  induction pairs using List.reverseRecOn with
  | nil => cases hmem
  | append_singleton pairs pair ih =>
    rw [List.map_append, List.nodup_append] at hnodup
    obtain ⟨hnodup, _, hne⟩ := hnodup
    rw [List.foldl_concat]
    rcases List.mem_append.mp hmem with hmem | hmem
    · have hkey : k ≠ pair.1 := hne k (List.mem_map_of_mem hmem) pair.1 (by simp)
      rw [AList.lookup_insert_ne hkey]
      exact ih hnodup hmem
    · cases List.mem_singleton.mp hmem
      exact AList.lookup_insert _

end

/-! ### Keys that may occur more than once -/

section

variable {K V : Type} {l : List (K × V)} {k : K} {v : V}

/-- A key has one value, wherever it occurs. -/
def Agree (l : List (K × V)) : Prop := ∀ e ∈ l, ∀ e' ∈ l, e.1 = e'.1 → e.2 = e'.2

/-- The entries of a list agree when they are the values of one function. -/
theorem agree_of_values {f : K → V} (h : ∀ e ∈ l, f e.1 = e.2) : Agree l := by
  intro e he e' he' heq
  rw [← h e he, ← h e' he', heq]

variable [BEq K] [LawfulBEq K]

theorem mem_of_lookup (h : l.lookup k = some v) : (k, v) ∈ l := by
  obtain ⟨before, after, rfl, -⟩ := List.lookup_eq_some_iff.mp h
  exact List.mem_append_right _ List.mem_cons_self

theorem Agree.lookup_eq_some_iff (h : Agree l) : l.lookup k = some v ↔ (k, v) ∈ l := by
  constructor
  · exact mem_of_lookup
  · intro hmem
    cases hlookup : l.lookup k with
    | some v' => exact congrArg some (h _ (mem_of_lookup hlookup) _ hmem rfl)
    | none =>
      have hne := List.lookup_eq_none_iff.mp hlookup (k, v) hmem
      simp at hne

end

/-! ### Totals of a quantity over the values -/

section

variable {A B G : Type} [DecidableEq A] [AddCommGroup G] {f : B → G} {s : AList fun _ : A => B}
  {a : A} {b c : B}

def mapTotal (f : B → G) (s : AList fun _ : A => B) : G := (s.entries.map fun entry => f entry.2).sum

omit [DecidableEq A] in
@[simp] theorem mapTotal_empty : mapTotal f (∅ : AList fun _ : A => B) = 0 := rfl

/-- A new value is added, and the one that it replaces is taken away. -/
theorem mapTotal_insert :
    mapTotal f (s.insert a b) = mapTotal f s + f b - ((s.lookup a).map f).getD 0 := by
  have hrest : ((s.entries.kerase a).map fun entry => f entry.2).sum =
      mapTotal f s - ((s.lookup a).map f).getD 0 := by
    by_cases ha : a ∈ s
    · obtain ⟨c, l₁, l₂, -, hentries, hrest⟩ := List.exists_of_kerase ha
      have hlookup : s.lookup a = some c := AList.mem_lookup_iff.mpr (by simp [hentries])
      rw [hrest, mapTotal, hentries, hlookup]
      simp only [List.map_append, List.sum_append, List.map_cons, List.sum_cons, Option.map_some,
        Option.getD_some]
      abel
    · rw [List.kerase_of_notMem_keys ha, AList.lookup_eq_none.mpr ha]
      simp only [Option.map_none, Option.getD_none, sub_zero, mapTotal]
  rw [mapTotal, AList.entries_insert, List.map_cons, List.sum_cons, hrest]
  abel

theorem mapTotal_insert_of_none (h : s.lookup a = none) :
    mapTotal f (s.insert a b) = mapTotal f s + f b := by
  rw [mapTotal_insert, h, Option.map_none, Option.getD_none, sub_zero]

theorem mapTotal_insert_of_some (h : s.lookup a = some c) :
    mapTotal f (s.insert a b) = mapTotal f s + (f b - f c) := by
  rw [mapTotal_insert, h, Option.map_some, Option.getD_some, add_sub_assoc]

omit [DecidableEq A] in
/-- The values may be walked in any order. -/
theorem mapTotal_eq_of_perm {l : List B} (h : l.Perm (s.entries.map Sigma.snd)) :
    mapTotal f s = (l.map f).sum := by
  rw [mapTotal, (h.map f).sum_eq, List.map_map]
  rfl

end

end Lib
