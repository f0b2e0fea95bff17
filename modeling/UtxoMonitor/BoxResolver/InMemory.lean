import Mathlib.Data.Set.Function
import UtxoMonitor.BoxResolver.View

/-! The store in memory keeps of the entities what is in use. -/
namespace UtxoMonitor.BoxResolver

open Lib LiquidityBook Domain ExecutionEngine

namespace InMemoryEntityRepo

variable {T : Type} [EntitySnapshot T] [RawStableId T] {ids : Set (StableId T)}

/-- The prefix of a reference. -/
def prefixOf : Last → UInt8
  | .predicted => lastPredictedPrefix
  | .confirmed => lastConfirmedPrefix
  | .unconfirmed => lastUnconfirmedPrefix

theorem prefixOf_inj {k j : Last} : prefixOf k = prefixOf j ↔ k = j := by
  cases k <;> cases j <;> decide

/-- Nothing is kept of what is not in use. -/
structure Shows (ids : Set (StableId T)) (repo : InMemoryEntityRepo T) (view : View T) : Prop where
  store : ∀ sid, repo.store.lookup sid = view.live sid
  links : ∀ sid, repo.links.lookup sid = view.links sid
  index : ∀ k, ∀ id ∈ ids, repo.index.lookup (indexKey (prefixOf k) id) = view.held k id

theorem shows_new : Shows ids (new : InMemoryEntityRepo T) View.new := by
  refine ⟨fun _ => rfl, fun _ => rfl, ?_⟩
  intro k id hid
  cases k <;> rfl

variable {repo : InMemoryEntityRepo T} {view : View T}

theorem Shows.getLast (h : Shows ids repo view) (k : Last) {id : StableId T} (hid : id ∈ ids) :
    repo.getLast (prefixOf k) id = (view.held k id).bind view.live := by
  rw [InMemoryEntityRepo.getLast, h.index k id hid]
  exact congrArg _ (funext h.store)

theorem Shows.store_put (h : Shows ids repo view) (entity : T) (sid : Version T) :
    (repo.store.insert (version entity) entity).lookup sid = (view.put entity).live sid := by
  rw [lookup_insert_eq, View.live, View.states_put, h.store]
  split <;> rfl

theorem Shows.store_retire (h : Shows ids repo view) (sid sid' : Version T) :
    (repo.store.erase sid).lookup sid' = (view.retire sid).live sid' := by
  rw [lookup_erase_eq, View.live, View.states_retire, h.store]
  split
  · cases view.states sid <;> rfl
  · rfl

theorem Shows.links_retire (h : Shows ids repo view) (sid sid' : Version T) :
    (repo.links.erase sid).lookup sid' = (view.retire sid).links sid' := by
  rw [lookup_erase_eq, View.links_retire, h.links]

section

variable (hids : Set.InjOn (rawId : StableId T → RawBytes 60) ids)
  {index : AList fun _ : InMemoryIndexKey => Version T} {k j : Last} {id eid : StableId T}

include hids

theorem indexKey_inj (hid : id ∈ ids) (heid : eid ∈ ids) :
    indexKey (prefixOf k) id = indexKey (prefixOf j) eid ↔ k = j ∧ id = eid := by
  constructor
  · intro h
    have hbytes := congrArg Subtype.val h
    simp only [indexKey, List.cons.injEq] at hbytes
    exact ⟨prefixOf_inj.mp hbytes.1, hids hid heid (Subtype.ext hbytes.2)⟩
  · rintro ⟨rfl, rfl⟩
    rfl

theorem lookup_insert_indexKey (j : Last) (hid : id ∈ ids) (heid : eid ∈ ids) (sid : Version T) :
    (index.insert (indexKey (prefixOf j) eid) sid).lookup (indexKey (prefixOf k) id) =
      if k = j ∧ id = eid then some sid else index.lookup (indexKey (prefixOf k) id) := by
  rw [lookup_insert_eq]
  simp only [indexKey_inj hids hid heid]

theorem lookup_erase_indexKey (j : Last) (hid : id ∈ ids) (heid : eid ∈ ids) :
    (index.erase (indexKey (prefixOf j) eid)).lookup (indexKey (prefixOf k) id) =
      if k = j ∧ id = eid then none else index.lookup (indexKey (prefixOf k) id) := by
  rw [lookup_erase_eq]
  simp only [indexKey_inj hids hid heid]

/-- A put refers to the version that is put. -/
theorem Shows.putLast (h : Shows ids repo view) (j : Last) (entity : T)
    (heid : stableId entity ∈ ids) {view' : View T}
    (hstates : view'.states = (view.put entity).states) (hlinks : view'.links = view.links)
    (hheld : ∀ k id, view'.held k id =
      if k = j ∧ id = stableId entity then some (version entity) else view.held k id) :
    Shows ids (repo.putLast (prefixOf j) entity) view' where
  store sid := by
    rw [View.live, hstates]
    exact h.store_put entity sid
  links sid := by
    rw [hlinks]
    exact h.links sid
  index k id hid := by
    refine (lookup_insert_indexKey hids j hid heid _).trans ?_
    rw [hheld, h.index k id hid]

theorem Shows.putPredicted (h : Shows ids repo view) (entity : T) (prev : Option (Version T))
    (heid : stableId entity ∈ ids) :
    Shows ids (EntityRepo.putPredicted repo entity prev) (view.call (.putPredicted entity prev)) := by
  refine ⟨h.store_put entity, ?_, ?_⟩
  · intro sid
    cases prev with
    | none => exact h.links sid
    | some prevSid =>
      refine (lookup_insert_eq _ _ _ _).trans ?_
      rw [h.links]
      exact (Function.update_apply _ _ _ _).symm
  · intro k id hid
    refine (lookup_insert_indexKey hids .predicted hid heid _).trans ?_
    rw [View.held, View.refer_putPredicted _ _ _ _ _ rfl, h.index k id hid]
    rfl

theorem Shows.invalidate (h : Shows ids repo view) (sid : Version T) (heid : eid ∈ ids) :
    Shows ids (EntityRepo.invalidate (T := T) repo sid eid) (view.call (.invalidate sid eid)) := by
  refine ⟨h.store_retire sid, h.links_retire sid, ?_⟩
  intro k id hid
  refine (lookup_erase_indexKey hids .unconfirmed hid heid).trans ?_
  rw [View.held_invalidate, ← h.index k id hid, ← h.links sid]
  rw [show lastPredictedPrefix = prefixOf .predicted from rfl,
    lookup_erase_indexKey hids .predicted hid heid]
  cases repo.links.lookup sid with
  | some predecessor =>
    simp only
    rw [show lastConfirmedPrefix = prefixOf .confirmed from rfl,
      lookup_insert_indexKey hids .confirmed hid heid]
    cases k <;> simp
  | none =>
    simp only
    rw [show lastConfirmedPrefix = prefixOf .confirmed from rfl,
      lookup_erase_indexKey hids .confirmed hid heid]
    cases k <;> simp

theorem Shows.eliminate (h : Shows ids repo view) (entity : T) (heid : stableId entity ∈ ids) :
    Shows ids (EntityRepo.eliminate repo entity) (view.call (.eliminate entity)) := by
  refine ⟨h.store_retire (version entity), h.links_retire (version entity), ?_⟩
  intro k id hid
  refine (lookup_erase_indexKey hids .unconfirmed hid heid).trans ?_
  rw [View.held, View.refer_eliminate, ← View.held, ← h.index k id hid]
  rw [show lastConfirmedPrefix = prefixOf .confirmed from rfl,
    lookup_erase_indexKey hids .confirmed hid heid,
    show lastPredictedPrefix = prefixOf .predicted from rfl,
    lookup_erase_indexKey hids .predicted hid heid]
  cases k <;> simp

theorem Shows.call (h : Shows ids repo view) (c : RepoCall T) (hc : ∀ id ∈ c.names, id ∈ ids) :
    Shows ids (EntityRepo.call repo c) (view.call c) := by
  cases c with
  | putPredicted entity prev => exact h.putPredicted hids entity prev (hc _ List.mem_cons_self)
  | putConfirmed entity =>
    exact h.putLast hids .confirmed entity (hc _ List.mem_cons_self) rfl rfl
      (View.refer_putConfirmed _ entity)
  | putUnconfirmed entity =>
    exact h.putLast hids .unconfirmed entity (hc _ List.mem_cons_self) rfl rfl
      (View.refer_putUnconfirmed _ entity)
  | invalidate sid eid => exact h.invalidate hids sid (hc _ List.mem_cons_self)
  | eliminate entity => exact h.eliminate hids entity (hc _ List.mem_cons_self)
  | getPredictionPredecessor _ => exact h
  | getLastPredicted _ => exact h
  | getLastConfirmed _ => exact h
  | getLastUnconfirmed _ => exact h
  | mayExist _ => exact h
  | getState _ => exact h

end

end InMemoryEntityRepo

end UtxoMonitor.BoxResolver
