import Mathlib.Data.List.Induction
import UtxoMonitor.ExecutionEngine.Storage
import UtxoMonitor.Lib.Assoc

/-! The index of states refers to what was put last and has not been dropped since. -/
namespace UtxoMonitor.ExecutionEngine

open LiquidityBook Domain Lib

inductive StateIndexCall (T : Type) [EntitySnapshot T] where
  | put (key : StateKey) (entity : T)
  | invalidateVersion (ver : Version T)
  | eliminate (sid : StableId T)

section References

variable {T : Type} [EntitySnapshot T] [RawStableId T]

namespace InMemoryStateIndex

def apply (self : InMemoryStateIndex T) : StateIndexCall T → InMemoryStateIndex T
  | .put .lastConfirmed entity => self.putConfirmed entity
  | .put .lastUnconfirmed entity => self.putUnconfirmed entity
  | .put .lastPredicted entity => self.putPredicted entity
  | .put .fallback entity => self.putFallback entity
  | .invalidateVersion ver => (self.invalidateVersion ver).2
  | .eliminate sid => self.eliminate sid

theorem apply_put (self : InMemoryStateIndex T) (key : StateKey) (entity : T) :
    self.apply (.put key entity) = self.put key (stableId entity) entity := by
  cases key <;> rfl

/-- The index after some calls, the earliest first. -/
def run (calls : List (StateIndexCall T)) : InMemoryStateIndex T := calls.foldl apply new

end InMemoryStateIndex

open InMemoryStateIndex

/-! ### What is referred to -/

/-- What each key refers to: the purpose of the index. -/
abbrev Refs (T : Type) [EntitySnapshot T] := StateKey → StableId T → Option T

/-- Dropping a version leaves confirmed states of quasi permanent entities where they are. -/
def Kept (key : StateKey) (entity : T) : Prop := key = .lastConfirmed ∧ isQuasiPermanent entity

instance (key : StateKey) (entity : T) : Decidable (Kept key entity) :=
  inferInstanceAs (Decidable (_ ∧ _))

def Refs.apply (refs : Refs T) : StateIndexCall T → Refs T
  | .put key entity => fun key' sid =>
    if key' = key ∧ sid = stableId entity then some entity else refs key' sid
  | .invalidateVersion ver => fun key sid =>
    (refs key sid).filter fun e => version e ≠ ver ∨ Kept key e
  | .eliminate sid => fun key sid' => if sid' = sid then none else refs key sid'

def Refs.run (calls : List (StateIndexCall T)) : Refs T :=
  calls.foldl Refs.apply fun _ _ => none

/-- A version determines its entity. -/
def Versioned (entities : T → Prop) : Prop :=
  ∀ e e', entities e → entities e' → version e = version e' → e = e'

/-- The index holds the references, and the store the versions referred to. -/
structure Represents (entities : T → Prop) (st : InMemoryStateIndex T) (refs : Refs T) :
    Prop where
  index_lookup : ∀ key sid, st.index.lookup (indexKey key sid) = (refs key sid).map version
  index_keys : ∀ k ver, st.index.lookup k = some ver →
    ∃ (key : StateKey) (sid : StableId T), k = indexKey key sid
  store_lookup : ∀ ver e, st.store.lookup ver = some e ↔
    version e = ver ∧ ∃ key sid, refs key sid = some e
  filed : ∀ key sid e, refs key sid = some e → stableId e = sid ∧ entities e

theorem indexKey_inj (hid : Function.Injective (rawId : StableId T → RawBytes 60)) {key key' : StateKey}
    {sid sid' : StableId T} : indexKey key sid = indexKey key' sid' ↔ key = key' ∧ sid = sid' := by
  constructor
  · intro h
    have hbytes := congrArg Subtype.val h
    simp only [indexKey, List.cons.injEq] at hbytes
    refine ⟨?_, hid (Subtype.ext hbytes.2)⟩
    revert hbytes
    cases key <;> cases key' <;> simp [StateKey.byte]
  · rintro ⟨rfl, rfl⟩
    rfl

theorem represents_new (entities : T → Prop) :
    Represents entities (new : InMemoryStateIndex T) fun _ _ => none where
  index_lookup key sid := AList.lookup_empty _
  index_keys k ver h := by cases h
  store_lookup ver e := by
    constructor
    · intro h
      cases h
    · rintro ⟨_, _, _, h⟩
      cases h
  filed key sid e h := by cases h

/-! ### Putting -/

theorem mem_allStateKeys (key : StateKey) : key ∈ allStateKeys := by
  cases key <;> decide

theorem mem_ephemeralStateKeys {key : StateKey} : key ∈ ephemeralStateKeys ↔ key ≠ .lastConfirmed := by
  cases key <;> decide

/-- The version that a put drops: only the key that is overwritten refers to it. -/
def Overwritten (self : InMemoryStateIndex T) (key : StateKey) (sid : StableId T)
    (ver : Version T) : Prop :=
  self.index.lookup (indexKey key sid) = some ver ∧
    ∀ key', key' ≠ key → self.index.lookup (indexKey key' sid) ≠ some ver

theorem lookup_index_put (self : InMemoryStateIndex T) (key : StateKey) (sid : StableId T)
    (value : T) (k : InMemoryIndexKey) : (self.put key sid value).index.lookup k =
      if k = indexKey key sid then some (version value) else self.index.lookup k :=
  lookup_insert_eq self.index _ _ _

theorem lookup_store_put_self (self : InMemoryStateIndex T) (key : StateKey) (sid : StableId T)
    (value : T) : (self.put key sid value).store.lookup (version value) = some value :=
  AList.lookup_insert _

theorem mem_boundVersions {self : InMemoryStateIndex T} {key : StateKey} {sid : StableId T}
    {ver : Version T} :
    (ver ∈ allStateKeys.filterMap fun p =>
      if p ≠ key then self.index.lookup (indexKey p sid) else none) ↔
    ∃ key', key' ≠ key ∧ self.index.lookup (indexKey key' sid) = some ver := by
  rw [List.mem_filterMap]
  constructor
  · rintro ⟨p, _, hp⟩
    by_cases hkey : p = key
    · simp [hkey] at hp
    · exact ⟨p, hkey, by simpa [hkey] using hp⟩
  · rintro ⟨p, hkey, hp⟩
    exact ⟨p, mem_allStateKeys p, by simpa [hkey] using hp⟩

theorem lookup_store_put {self : InMemoryStateIndex T} {key : StateKey} {sid : StableId T}
    {value : T} {ver : Version T} {e : T} (hver : ver ≠ version value) :
    (self.put key sid value).store.lookup ver = some e ↔
      self.store.lookup ver = some e ∧ ¬ Overwritten self key sid ver := by
  simp only [put, AList.lookup_insert_ne hver, Overwritten]
  cases hold : self.index.lookup (indexKey key sid) with
  | none => simp
  | some oldVer =>
    simp only [Option.some.injEq]
    by_cases hbound : ∃ key', key' ≠ key ∧ self.index.lookup (indexKey key' sid) = some oldVer
    · rw [if_pos (mem_boundVersions.mpr hbound)]
      obtain ⟨key', hkey, hlookup⟩ := hbound
      constructor
      · intro h
        refine ⟨h, ?_⟩
        rintro ⟨rfl, hother⟩
        exact hother key' hkey hlookup
      · exact fun h => h.1
    · rw [if_neg fun h => hbound (mem_boundVersions.mp h), lookup_erase_eq]
      by_cases hv : ver = oldVer
      · subst hv
        simp only [if_true, reduceCtorEq, false_iff, not_and, not_not, true_and]
        intro _ key' hkey hlookup
        exact hbound ⟨key', hkey, hlookup⟩
      · simp [hv, Ne.symm hv]

variable {entities : T → Prop} {self : InMemoryStateIndex T} {refs : Refs T}

/-- Two references to one version are to one entity. -/
theorem Represents.eq_of_version (h : Represents entities self refs) (hver : Versioned entities)
    {key key' : StateKey} {sid sid' : StableId T} {e e' : T} (he : refs key sid = some e)
    (he' : refs key' sid' = some e') (hv : version e = version e') : e = e' ∧ sid = sid' := by
  obtain ⟨hsid, hent⟩ := h.filed key sid e he
  obtain ⟨hsid', hent'⟩ := h.filed key' sid' e' he'
  have heq := hver e e' hent hent' hv
  exact ⟨heq, by rw [← hsid, ← hsid', heq]⟩

theorem represents_put (hid : Function.Injective (rawId : StableId T → RawBytes 60)) (hver : Versioned entities)
    (h : Represents entities self refs) (key : StateKey) {value : T} (hvalue : entities value) :
    Represents entities (self.put key (stableId value) value) (refs.apply (.put key value)) where
  index_lookup key' sid := by
    simp only [lookup_index_put, indexKey_inj hid, Refs.apply]
    split
    · rfl
    · exact h.index_lookup key' sid
  index_keys k ver hk := by
    rw [lookup_index_put] at hk
    by_cases hkey : k = indexKey key (stableId value)
    · exact ⟨key, stableId value, hkey⟩
    · rw [if_neg hkey] at hk
      exact h.index_keys k ver hk
  filed key' sid e he := by
    simp only [Refs.apply] at he
    split at he
    · rename_i hslot
      cases he
      exact ⟨hslot.2.symm, hvalue⟩
    · exact h.filed key' sid e he
  store_lookup ver e := by
    by_cases hv : ver = version value
    · subst hv
      rw [lookup_store_put_self, Option.some.injEq]
      constructor
      · rintro rfl
        exact ⟨rfl, key, stableId value, by simp [Refs.apply]⟩
      · rintro ⟨hversion, key', sid, he⟩
        simp only [Refs.apply] at he
        split at he
        · exact Option.some.inj he
        · exact hver value e hvalue (h.filed key' sid e he).2 hversion.symm
    · rw [lookup_store_put hv, h.store_lookup]
      constructor
      · rintro ⟨⟨rfl, key', sid, he⟩, hkept⟩
        refine ⟨rfl, ?_⟩
        by_cases hslot : key' = key ∧ sid = stableId value
        · -- The reference is overwritten: another key refers to the version.
          obtain ⟨rfl, rfl⟩ := hslot
          simp only [Overwritten, h.index_lookup, he, Option.map_some, true_and, not_forall,
            not_not] at hkept
          obtain ⟨other, hne, hother⟩ := hkept
          obtain ⟨e', he', hversion⟩ := Option.map_eq_some_iff.mp hother
          obtain ⟨rfl, _⟩ := h.eq_of_version hver he' he hversion
          exact ⟨other, stableId value, by simpa [Refs.apply, hne] using he'⟩
        · exact ⟨key', sid, by simpa [Refs.apply, hslot] using he⟩
      · rintro ⟨rfl, key', sid, he⟩
        simp only [Refs.apply] at he
        split at he
        · cases he
          exact absurd rfl hv
        · rename_i hslot
          refine ⟨⟨rfl, key', sid, he⟩, ?_⟩
          rintro ⟨hold, hother⟩
          rw [h.index_lookup] at hold
          obtain ⟨e', he', hversion⟩ := Option.map_eq_some_iff.mp hold
          obtain ⟨rfl, rfl⟩ := h.eq_of_version hver he' he hversion
          refine hother key' (fun hkey => hslot ⟨hkey, rfl⟩) ?_
          rw [h.index_lookup, he]
          rfl

/-! ### Dropping -/

omit [RawStableId T] in
theorem lookup_removeRef {index : AList fun _ : InMemoryIndexKey => Version T}
    {key k : InMemoryIndexKey} {ver v : Version T} : (removeRef index key ver).lookup k = some v ↔
      index.lookup k = some v ∧ ¬ (v = ver ∧ k = key) := by
  by_cases hkey : k = key
  · subst hkey
    by_cases hver : index.lookup k = some ver
    · simp only [removeRef, hver, if_true, AList.lookup_erase, reduceCtorEq, Option.some.injEq,
        and_true, false_iff, not_and, not_not]
      exact Eq.symm
    · simp only [removeRef, hver, if_false, and_true, iff_self_and]
      rintro h rfl
      exact hver h
  · have hsame : (removeRef index key ver).lookup k = index.lookup k := by
      simp only [removeRef]
      split
      · exact AList.lookup_erase_ne hkey
      · rfl
    simp [hsame, hkey]

theorem lookup_foldl_removeRef {keys : List StateKey} {sid : StableId T} {ver v : Version T}
    {index : AList fun _ : InMemoryIndexKey => Version T} {k : InMemoryIndexKey} :
    (keys.foldl (fun index p => removeRef index (indexKey p sid) ver) index).lookup k = some v ↔
      index.lookup k = some v ∧ ¬ (v = ver ∧ ∃ p ∈ keys, k = indexKey p sid) := by
  induction keys generalizing index with
  | nil => simp
  | cons p keys ih =>
    rw [List.foldl_cons, ih, lookup_removeRef, and_assoc, ← not_or, ← and_or_left,
      List.exists_mem_cons_iff]

theorem lookup_index_invalidate {ver v : Version T} {entity : T} {k : InMemoryIndexKey}
    (hentity : self.store.lookup ver = some entity) :
    (self.invalidateVersion ver).2.index.lookup k = some v ↔ self.index.lookup k = some v ∧
      ¬ (v = ver ∧ ∃ key, k = indexKey key (stableId entity) ∧ ¬ Kept key entity) := by
  have hkeys : (∃ key, k = indexKey key (stableId entity) ∧ ¬ Kept key entity) ↔
      (k = indexKey .lastConfirmed (stableId entity) ∧ ¬ isQuasiPermanent entity) ∨
      ∃ p ∈ ephemeralStateKeys, k = indexKey p (stableId entity) := by
    constructor
    · rintro ⟨key, rfl, hkept⟩
      by_cases hkey : key = .lastConfirmed
      · subst hkey
        exact Or.inl ⟨rfl, fun h => hkept ⟨rfl, h⟩⟩
      · exact Or.inr ⟨key, mem_ephemeralStateKeys.mpr hkey, rfl⟩
    · rintro (⟨rfl, hq⟩ | ⟨p, hp, rfl⟩)
      · exact ⟨.lastConfirmed, rfl, fun h => hq h.2⟩
      · exact ⟨p, rfl, fun h => mem_ephemeralStateKeys.mp hp h.1⟩
  rw [hkeys]
  simp only [invalidateVersion, hentity, lookup_foldl_removeRef]
  by_cases hdrop : self.index.lookup (indexKey .lastConfirmed (stableId entity)) = some ver ∧
      ¬ isQuasiPermanent entity
  · rw [if_pos hdrop, lookup_erase_eq]
    split
    · rename_i hk
      subst hk
      constructor
      · rintro ⟨h, _⟩
        cases h
      · rintro ⟨hlookup, h⟩
        refine absurd ?_ h
        rw [hdrop.1] at hlookup
        exact ⟨(Option.some.inj hlookup).symm, Or.inl ⟨rfl, hdrop.2⟩⟩
    · rename_i hk
      simp [hk]
  · rw [if_neg hdrop]
    constructor
    · rintro ⟨hk, hv⟩
      refine ⟨hk, ?_⟩
      rintro ⟨rfl, ⟨rfl, hq⟩ | h⟩
      · exact hdrop ⟨hk, hq⟩
      · exact hv ⟨rfl, h⟩
    · rintro ⟨hk, hv⟩
      exact ⟨hk, fun h => hv ⟨h.1, Or.inr h.2⟩⟩

theorem lookup_store_invalidate {ver v : Version T} {entity e : T}
    (hentity : self.store.lookup ver = some entity) :
    (self.invalidateVersion ver).2.store.lookup v = some e ↔ self.store.lookup v = some e ∧
      ¬ (v = ver ∧ ¬ (self.index.lookup (indexKey .lastConfirmed (stableId entity)) = some ver ∧
        isQuasiPermanent entity)) := by
  simp only [invalidateVersion, hentity]
  by_cases hkept : self.index.lookup (indexKey .lastConfirmed (stableId entity)) = some ver ∧
      isQuasiPermanent entity
  · rw [if_pos hkept, lookup_insert_eq, lookup_erase_eq]
    by_cases hv : v = ver
    · subst hv
      simp [hentity, hkept]
    · simp [hv]
  · rw [if_neg hkept, lookup_erase_eq]
    by_cases hv : v = ver
    · simp [hv, hkept]
    · simp [hv]

theorem Represents.lookup_iff (h : Represents entities self refs) {key : StateKey}
    {sid : StableId T} {ver : Version T} : self.index.lookup (indexKey key sid) = some ver ↔
      ∃ e, refs key sid = some e ∧ version e = ver := by
  rw [h.index_lookup, Option.map_eq_some_iff]

omit [RawStableId T] in
theorem refs_invalidate_eq_some {refs : Refs T} {key : StateKey} {sid : StableId T} {e : T}
    {ver : Version T} : refs.apply (.invalidateVersion ver) key sid = some e ↔
      refs key sid = some e ∧ (version e = ver → Kept key e) := by
  simp only [Refs.apply, Option.filter_eq_some_iff, decide_eq_true_eq]
  tauto

/-- Nothing refers to a version that is not in the store. -/
theorem Represents.refs_invalidate_unknown (h : Represents entities self refs) {ver : Version T}
    (hunknown : self.store.lookup ver = none) : refs.apply (.invalidateVersion ver) = refs := by
  funext key sid
  apply Option.ext
  intro e
  rw [refs_invalidate_eq_some]
  constructor
  · exact And.left
  · intro he
    refine ⟨he, fun hv => ?_⟩
    rw [(h.store_lookup ver e).mpr ⟨hv, key, sid, he⟩] at hunknown
    cases hunknown

theorem represents_invalidate (hid : Function.Injective (rawId : StableId T → RawBytes 60))
    (hver : Versioned entities) (h : Represents entities self refs) (ver : Version T) :
    Represents entities (self.invalidateVersion ver).2 (refs.apply (.invalidateVersion ver)) := by
  cases hentity : self.store.lookup ver with
  | none =>
    rw [h.refs_invalidate_unknown hentity]
    simpa only [invalidateVersion, hentity] using h
  | some entity =>
    obtain ⟨hversion, key₀, sid₀, href⟩ := (h.store_lookup ver entity).mp hentity
    have hsid₀ := (h.filed key₀ sid₀ entity href).1
    subst hsid₀
    -- Whatever refers to the version refers to this entity.
    have honly : ∀ key sid e, refs key sid = some e → version e = ver →
        e = entity ∧ sid = stableId entity := by
      intro key sid e he hv
      exact h.eq_of_version hver he href (hv.trans hversion.symm)
    refine ⟨?_, ?_, ?_, ?_⟩
    · intro key sid
      apply Option.ext
      intro v
      rw [lookup_index_invalidate hentity, h.lookup_iff, Option.map_eq_some_iff]
      constructor
      · rintro ⟨⟨e, he, rfl⟩, hkept⟩
        refine ⟨e, refs_invalidate_eq_some.mpr ⟨he, fun hv => ?_⟩, rfl⟩
        obtain ⟨rfl, rfl⟩ := honly key sid e he hv
        by_contra hk
        exact hkept ⟨hv, key, rfl, hk⟩
      · rintro ⟨e, he, rfl⟩
        obtain ⟨he, hkept⟩ := refs_invalidate_eq_some.mp he
        refine ⟨⟨e, he, rfl⟩, ?_⟩
        rintro ⟨hv, key', hkey, hk⟩
        obtain ⟨rfl, _⟩ := (indexKey_inj hid).mp hkey
        obtain ⟨rfl, _⟩ := honly key sid e he hv
        exact hk (hkept hv)
    · intro k v hk
      exact h.index_keys k v ((lookup_index_invalidate hentity).mp hk).1
    · intro v e
      rw [lookup_store_invalidate hentity, h.store_lookup, h.lookup_iff]
      constructor
      · rintro ⟨⟨rfl, key, sid, he⟩, hkept⟩
        refine ⟨rfl, ?_⟩
        by_cases hv : version e = ver
        · obtain ⟨rfl, rfl⟩ := honly key sid e he hv
          have hconf := not_not.mp (not_and.mp hkept hv)
          obtain ⟨⟨e', he', hv'⟩, hq⟩ := hconf
          obtain ⟨rfl, _⟩ := honly _ _ e' he' hv'
          exact ⟨.lastConfirmed, stableId e', refs_invalidate_eq_some.mpr ⟨he', fun _ => ⟨rfl, hq⟩⟩⟩
        · exact ⟨key, sid, refs_invalidate_eq_some.mpr ⟨he, fun h => absurd h hv⟩⟩
      · rintro ⟨rfl, key, sid, he⟩
        obtain ⟨he, hkept⟩ := refs_invalidate_eq_some.mp he
        refine ⟨⟨rfl, key, sid, he⟩, ?_⟩
        rintro ⟨hv, hk⟩
        obtain ⟨rfl, rfl⟩ := honly key sid e he hv
        obtain ⟨rfl, hq⟩ := hkept hv
        exact hk ⟨⟨e, he, hv⟩, hq⟩
    · intro key sid e he
      exact h.filed key sid e (refs_invalidate_eq_some.mp he).1

/-! ### Eliminating -/

theorem lookup_eliminate (keys : List StateKey) (sid : StableId T) (self : InMemoryStateIndex T) :
    (∀ k v, (keys.foldl (eliminateKey sid) self).index.lookup k = some v ↔
      self.index.lookup k = some v ∧ ¬ ∃ p ∈ keys, k = indexKey p sid) ∧
    ∀ v e, (keys.foldl (eliminateKey sid) self).store.lookup v = some e ↔
      self.store.lookup v = some e ∧ ¬ ∃ p ∈ keys, self.index.lookup (indexKey p sid) = some v := by
  induction keys generalizing self with
  | nil => simp
  | cons p keys ih =>
    simp only [List.foldl_cons, List.exists_mem_cons_iff, eliminateKey]
    cases hlookup : self.index.lookup (indexKey p sid) with
    | none =>
      obtain ⟨hindex, hstore⟩ := ih self
      refine ⟨fun k v => ?_, fun v e => ?_⟩
      · rw [hindex]
        constructor
        · rintro ⟨hk, hkeys⟩
          refine ⟨hk, ?_⟩
          rintro (rfl | h)
          · rw [hlookup] at hk
            cases hk
          · exact hkeys h
        · rintro ⟨hk, hkeys⟩
          exact ⟨hk, fun h => hkeys (Or.inr h)⟩
      · rw [hstore]
        simp
    | some ver =>
      obtain ⟨hindex, hstore⟩ := ih
        { store := self.store.erase ver, index := self.index.erase (indexKey p sid) }
      refine ⟨fun k v => ?_, fun v e => ?_⟩
      · rw [hindex, lookup_erase_eq]
        by_cases hk : k = indexKey p sid
        · simp [hk]
        · simp [hk]
      · rw [hstore, lookup_erase_eq]
        by_cases hv : v = ver
        · simp [hv]
        · have hkeys : (∃ q ∈ keys, (self.index.erase (indexKey p sid)).lookup (indexKey q sid) =
              some v) ↔ ∃ q ∈ keys, self.index.lookup (indexKey q sid) = some v := by
            constructor
            · rintro ⟨q, hq, h⟩
              rw [lookup_erase_eq] at h
              split at h
              · cases h
              · exact ⟨q, hq, h⟩
            · rintro ⟨q, hq, h⟩
              refine ⟨q, hq, ?_⟩
              rw [lookup_erase_eq, if_neg, h]
              intro heq
              rw [heq, hlookup] at h
              exact hv (Option.some.inj h).symm
          simp only [hkeys, hv, if_false, Option.some.injEq, Ne.symm hv, false_or]

omit [RawStableId T] in
theorem refs_eliminate_eq_some {refs : Refs T} {key : StateKey} {sid sid' : StableId T} {e : T} :
    refs.apply (.eliminate sid) key sid' = some e ↔ refs key sid' = some e ∧ sid' ≠ sid := by
  simp only [Refs.apply]
  split
  · rename_i heq
    simp [heq]
  · rename_i hne
    simp [hne]

theorem represents_eliminate (hid : Function.Injective (rawId : StableId T → RawBytes 60))
    (hver : Versioned entities) (h : Represents entities self refs) (sid : StableId T) :
    Represents entities (self.eliminate sid) (refs.apply (.eliminate sid)) := by
  have hrefs : ∀ key sid' e, refs.apply (.eliminate sid) key sid' = some e ↔
      refs key sid' = some e ∧ sid' ≠ sid := by
    intro key sid' e
    exact refs_eliminate_eq_some
  obtain ⟨hindex, hstore⟩ := lookup_eliminate allStateKeys sid self
  refine ⟨?_, ?_, ?_, ?_⟩
  · intro key sid'
    apply Option.ext
    intro v
    simp only [eliminate, hindex, h.lookup_iff, Option.map_eq_some_iff, hrefs]
    constructor
    · rintro ⟨⟨e, he, rfl⟩, hother⟩
      refine ⟨e, ⟨he, ?_⟩, rfl⟩
      rintro rfl
      exact hother ⟨key, mem_allStateKeys key, rfl⟩
    · rintro ⟨e, ⟨he, hne⟩, rfl⟩
      refine ⟨⟨e, he, rfl⟩, ?_⟩
      rintro ⟨p, _, heq⟩
      exact hne ((indexKey_inj hid).mp heq).2
  · intro k v hk
    exact h.index_keys k v ((hindex k v).mp hk).1
  · intro v e
    simp only [eliminate, hstore, h.store_lookup, h.lookup_iff, hrefs]
    constructor
    · rintro ⟨⟨rfl, key, sid', he⟩, hother⟩
      refine ⟨rfl, key, sid', he, ?_⟩
      rintro rfl
      exact hother ⟨key, mem_allStateKeys key, e, he, rfl⟩
    · rintro ⟨rfl, key, sid', he, hne⟩
      refine ⟨⟨rfl, key, sid', he⟩, ?_⟩
      rintro ⟨p, _, e', he', hv⟩
      exact hne (h.eq_of_version hver he he' hv.symm).2
  · intro key sid' e he
    exact h.filed key sid' e ((hrefs key sid' e).mp he).1

/-! ### Runs -/

/-- What ends a reference. -/
def StateIndexCall.Drops (key : StateKey) (sid : StableId T) (e : T) : StateIndexCall T → Prop
  | .put key' e' => key' = key ∧ stableId e' = sid
  | .invalidateVersion ver => ver = version e ∧ ¬ Kept key e
  | .eliminate sid' => sid' = sid

/-- The reference was made by a call, and no later call has ended it. -/
def Held (calls : List (StateIndexCall T)) (key : StateKey) (sid : StableId T) (e : T) : Prop :=
  ∃ before after, calls = before ++ .put key e :: after ∧ stableId e = sid ∧
    ∀ call ∈ after, ¬ call.Drops key sid e

variable {calls : List (StateIndexCall T)} {call : StateIndexCall T} {key : StateKey}
  {sid : StableId T} {e : T}

omit [RawStableId T] in
theorem held_snoc : Held (calls ++ [call]) key sid e ↔
    (call = .put key e ∧ stableId e = sid) ∨ (Held calls key sid e ∧ ¬ call.Drops key sid e) := by
  constructor
  · rintro ⟨before, after, heq, hsid, hafter⟩
    obtain rfl | ⟨after, last, rfl⟩ := List.eq_nil_or_concat after
    · have hlast := (List.append_inj' heq rfl).2
      simp only [List.cons.injEq, and_true] at hlast
      exact Or.inl ⟨hlast, hsid⟩
    · rw [List.concat_eq_append] at heq hafter
      rw [← List.cons_append, ← List.append_assoc] at heq
      obtain ⟨rfl, hlast⟩ := List.append_inj' heq rfl
      simp only [List.cons.injEq, and_true] at hlast
      subst hlast
      refine Or.inr ⟨⟨before, after, rfl, hsid, ?_⟩, hafter call (by simp)⟩
      intro call' hmem
      exact hafter call' (List.mem_append_left _ hmem)
  · rintro (⟨rfl, hsid⟩ | ⟨⟨before, after, rfl, hsid, hafter⟩, hdrop⟩)
    · exact ⟨calls, [], rfl, hsid, by simp⟩
    · refine ⟨before, after ++ [call], by simp, hsid, ?_⟩
      intro call' hmem
      rcases List.mem_append.mp hmem with hmem | hmem
      · exact hafter call' hmem
      · rw [List.mem_singleton.mp hmem]
        exact hdrop

omit [RawStableId T] in
theorem Refs.apply_eq_some {refs : Refs T} : refs.apply call key sid = some e ↔
    (call = .put key e ∧ stableId e = sid) ∨ (refs key sid = some e ∧ ¬ call.Drops key sid e) := by
  cases call with
  | put key' e' =>
    simp only [Refs.apply, StateIndexCall.Drops, StateIndexCall.put.injEq]
    split
    · rename_i h
      obtain ⟨rfl, rfl⟩ := h
      simp only [Option.some.injEq, true_and, and_true, not_true_eq_false, and_false, or_false]
      constructor
      · rintro rfl
        exact ⟨rfl, rfl⟩
      · exact And.left
    · rename_i h
      constructor
      · exact fun he => Or.inr ⟨he, fun hslot => h ⟨hslot.1.symm, hslot.2.symm⟩⟩
      · rintro (⟨⟨rfl, rfl⟩, rfl⟩ | ⟨he, _⟩)
        · exact absurd ⟨rfl, rfl⟩ h
        · exact he
  | invalidateVersion ver =>
    simp only [refs_invalidate_eq_some, StateIndexCall.Drops, reduceCtorEq, false_and, false_or,
      not_and, not_not, @eq_comm _ ver]
  | eliminate sid' =>
    simp only [refs_eliminate_eq_some, StateIndexCall.Drops, reduceCtorEq, false_and, false_or,
      @eq_comm _ sid', ne_eq]

omit [RawStableId T] in
theorem refs_run_eq_some : Refs.run calls key sid = some e ↔ Held calls key sid e := by
  induction calls using List.reverseRecOn generalizing e with
  | nil =>
    constructor
    · intro h
      cases h
    · rintro ⟨before, after, h, _⟩
      exact absurd h.symm (by simp)
  | append_singleton calls call ih =>
    rw [held_snoc, ← ih, Refs.run, List.foldl_append]
    exact Refs.apply_eq_some

theorem represents_run (hid : Function.Injective (rawId : StableId T → RawBytes 60)) (hver : Versioned entities)
    (hputs : ∀ key e, .put key e ∈ calls → entities e) :
    Represents entities (run calls) (Refs.run calls) := by
  induction calls using List.reverseRecOn with
  | nil => exact represents_new entities
  | append_singleton calls call ih =>
    have h := ih fun key e hmem => hputs key e (List.mem_append_left _ hmem)
    rw [run, Refs.run, List.foldl_append, List.foldl_append]
    cases call with
    | put key value =>
      have hvalue := hputs key value (by simp)
      simp only [List.foldl_cons, List.foldl_nil, apply_put]
      exact represents_put hid hver h key hvalue
    | invalidateVersion ver => exact represents_invalidate hid hver h ver
    | eliminate sid => exact represents_eliminate hid hver h sid

theorem Represents.get_eq (h : Represents entities self refs) (key : StateKey) (sid : StableId T) :
    self.get key sid = refs key sid := by
  rw [InMemoryStateIndex.get, h.index_lookup]
  cases href : refs key sid with
  | none => rfl
  | some e => exact (h.store_lookup (version e) e).mpr ⟨rfl, key, sid, href⟩

theorem Represents.mem_store (h : Represents entities self refs) (ver : Version T) :
    ver ∈ self.store ↔ ∃ k, self.index.lookup k = some ver := by
  rw [← AList.lookup_isSome, Option.isSome_iff_exists]
  constructor
  · rintro ⟨e, he⟩
    obtain ⟨hv, key, sid, href⟩ := (h.store_lookup ver e).mp he
    exact ⟨indexKey key sid, h.lookup_iff.mpr ⟨e, href, hv⟩⟩
  · rintro ⟨k, hk⟩
    obtain ⟨key, sid, rfl⟩ := h.index_keys k ver hk
    obtain ⟨e, href, hv⟩ := h.lookup_iff.mp hk
    exact ⟨e, (h.store_lookup ver e).mpr ⟨hv, key, sid, href⟩⟩

omit [RawStableId T] in
/-- A confirmed state of a quasi permanent entity stays, or a later one takes its place. -/
theorem held_confirmed {before after : List (StateIndexCall T)}
    (hcalls : calls = before ++ .put .lastConfirmed e :: after)
    (hquasi : ∀ e', .put .lastConfirmed e' ∈ calls → stableId e' = stableId e →
      isQuasiPermanent e')
    (hafter : .eliminate (stableId e) ∉ after) :
    ∃ e', Held calls .lastConfirmed (stableId e) e' := by
  subst hcalls
  induction after using List.reverseRecOn with
  | nil => exact ⟨e, before, [], rfl, rfl, by simp⟩
  | append_singleton after call ih =>
    rw [← List.cons_append, ← List.append_assoc] at hquasi ⊢
    obtain ⟨e', hheld⟩ := ih (fun hmem => hafter (List.mem_append_left _ hmem))
      fun e' hmem => hquasi e' (List.mem_append_left _ hmem)
    by_cases hdrop : call.Drops .lastConfirmed (stableId e) e'
    · cases call with
      | put key e'' =>
        obtain ⟨rfl, hsid⟩ := hdrop
        exact ⟨e'', held_snoc.mpr (Or.inl ⟨rfl, hsid⟩)⟩
      | invalidateVersion ver =>
        obtain ⟨before', after', heq, hsid, _⟩ := hheld
        refine absurd ⟨rfl, hquasi e' ?_ hsid⟩ hdrop.2
        rw [heq]
        simp
      | eliminate sid =>
        obtain rfl := hdrop
        exact absurd (by simp) hafter
    · exact ⟨e', held_snoc.mpr (Or.inr ⟨hheld, hdrop⟩)⟩

/-- The store holds the versions referred to, and each getter returns what was put last under its
key and not dropped since, where confirmed states of quasi permanent entities are never dropped,
only replaced or eliminated. -/
theorem state_index_references (hid : Function.Injective (rawId : StableId T → RawBytes 60))
    (hver : Versioned fun e => ∃ key, .put key e ∈ calls) :
    (∀ ver, ver ∈ (run calls).store ↔ ∃ k, (run calls).index.lookup k = some ver) ∧
    (∀ key sid ver, (run calls).index.lookup (indexKey key sid) = some ver →
      ∃ e, (run calls).get key sid = some e ∧ version e = ver) ∧
    (∀ key sid e, (run calls).get key sid = some e ↔ Held calls key sid e) ∧
    ∀ before e after, calls = before ++ .put .lastConfirmed e :: after →
      (∀ e', .put .lastConfirmed e' ∈ calls → stableId e' = stableId e → isQuasiPermanent e') →
      (run calls).getLastConfirmed (stableId e) = none → .eliminate (stableId e) ∈ after := by
  have hrep : Represents _ (run calls) (Refs.run calls) :=
    represents_run hid hver fun key e hmem => ⟨key, hmem⟩
  have hget : ∀ key sid e, (run calls).get key sid = some e ↔ Held calls key sid e := by
    intro key sid e
    rw [hrep.get_eq, refs_run_eq_some]
  refine ⟨hrep.mem_store, ?_, hget, ?_⟩
  · intro key sid ver hlookup
    obtain ⟨e, href, hv⟩ := hrep.lookup_iff.mp hlookup
    exact ⟨e, by rw [hrep.get_eq, href], hv⟩
  · intro before e after hcalls hquasi hnone
    by_contra hafter
    obtain ⟨e', hheld⟩ := held_confirmed hcalls hquasi hafter
    have hsome := (hget .lastConfirmed (stableId e) e').mpr hheld
    rw [getLastConfirmed] at hnone
    rw [hnone] at hsome
    cases hsome

end References

structure SampleState where
  id : RawBytes 60
  ver : Nat
  permanent : Bool
deriving DecidableEq

instance : EntitySnapshot SampleState where
  StableId := RawBytes 60
  decEqId := inferInstance
  stableId := SampleState.id
  Version := Nat
  decEqVersion := inferInstance
  version := SampleState.ver
  isQuasiPermanent := SampleState.permanent

instance : RawStableId SampleState := ⟨id⟩

def sampleState (ver : Nat) : SampleState := ⟨⟨List.replicate 60 0, rfl⟩, ver, true⟩

theorem state_index_references_invalidated :
    (InMemoryStateIndex.run [.put .lastConfirmed (sampleState 1), .invalidateVersion (1 : Nat)]).get .lastConfirmed
        (sampleState 1).id = some (sampleState 1) ↔
      Held [.put .lastConfirmed (sampleState 1), .invalidateVersion (1 : Nat)] .lastConfirmed
        (sampleState 1).id (sampleState 1) := by
  refine (state_index_references Function.injective_id ?_).2.2.1 _ _ _
  rintro e e' ⟨key, hmem⟩ ⟨key', hmem'⟩ _
  simp only [List.mem_cons, StateIndexCall.put.injEq, reduceCtorEq, List.not_mem_nil,
    or_false] at hmem hmem'
  rw [hmem.2, hmem'.2]

/-- Getters also return values that have been invalidated. -/
theorem getter_returns_invalidated :
    ¬ ∀ (calls : List (StateIndexCall SampleState)) sid e,
      (InMemoryStateIndex.run calls).getLastConfirmed sid = some e →
        ∃ before after, calls = before ++ .put .lastConfirmed e :: after ∧
          .invalidateVersion (version e) ∉ after := by
  intro h
  obtain ⟨before, after, hcalls, hafter⟩ :=
    h [.put .lastConfirmed (sampleState 1), .invalidateVersion (1 : Nat)] (sampleState 1).id
      (sampleState 1) rfl
  cases before with
  | nil =>
    simp only [List.nil_append, List.cons.injEq] at hcalls
    rw [← hcalls.2] at hafter
    exact hafter (List.mem_singleton_self _)
  | cons call before =>
    cases before with
    | nil => simp at hcalls
    | cons call' before => simp at hcalls

end UtxoMonitor.ExecutionEngine
