import Mathlib.Data.List.Induction
import UtxoMonitor.BoxResolver.Persistence

/-! What a sequence of calls says of the entities, whatever store they are made to. -/
namespace UtxoMonitor.BoxResolver

open LiquidityBook Domain

/-- A state that was put, and whether it was invalidated or eliminated since. -/
structure Record (T : Type) where
  entity : T
  retired : Bool

/-- A version that was predicted, and whether a state of the entity was invalidated since. -/
structure Prediction (T : Type) [EntitySnapshot T] where
  version : Version T
  dropped : Bool

/-- The three versions of an entity that a store refers to. -/
inductive Last where
  | predicted
  | confirmed
  | unconfirmed
deriving DecidableEq

/-- What the calls say of every version and every entity. -/
structure View (T : Type) [EntitySnapshot T] where
  states : Version T → Option (Record T)
  links : Version T → Option (Version T)
  predicted : StableId T → Option (Prediction T)
  confirmed : StableId T → Option (Version T)
  unconfirmed : StableId T → Option (Version T)

namespace View

variable {T : Type} [EntitySnapshot T]

def new : View T := ⟨fun _ => none, fun _ => none, fun _ => none, fun _ => none, fun _ => none⟩

def put (view : View T) (entity : T) : View T :=
  { view with states := Function.update view.states (version entity) (some ⟨entity, false⟩) }

/-- The version is not to be used again. -/
def retire (view : View T) (sid : Version T) : View T :=
  { view with
    states := Function.update view.states sid ((view.states sid).map fun r => ⟨r.entity, true⟩)
    links := Function.update view.links sid none }

def call (view : View T) : RepoCall T → View T
  | .putPredicted entity prevStateId =>
    { view.put entity with
      predicted := Function.update view.predicted (stableId entity) (some ⟨version entity, false⟩)
      links :=
        match prevStateId with
        | some prevSid => Function.update view.links (version entity) (some prevSid)
        | none => view.links }
  | .putConfirmed entity =>
    { view.put entity with
      confirmed := Function.update view.confirmed (stableId entity) (some (version entity)) }
  | .putUnconfirmed entity =>
    { view.put entity with
      unconfirmed := Function.update view.unconfirmed (stableId entity) (some (version entity)) }
  | .invalidate sid eid =>
    { view.retire sid with
      predicted := Function.update view.predicted eid
        ((view.predicted eid).map fun p => ⟨p.version, true⟩)
      confirmed := Function.update view.confirmed eid (view.links sid)
      unconfirmed := Function.update view.unconfirmed eid none }
  | .eliminate entity =>
    { view.retire (version entity) with
      predicted := Function.update view.predicted (stableId entity) none
      confirmed := Function.update view.confirmed (stableId entity) none
      unconfirmed := Function.update view.unconfirmed (stableId entity) none }
  | _ => view

def run (calls : List (RepoCall T)) : View T := calls.foldl call new

/-- The version that was put last, where a prediction counts as it is told. -/
def refer (predicted : Prediction T → Option (Version T)) (view : View T) :
    Last → StableId T → Option (Version T)
  | .predicted, id => (view.predicted id).bind predicted
  | .confirmed, id => view.confirmed id
  | .unconfirmed, id => view.unconfirmed id

def named : View T → Last → StableId T → Option (Version T) :=
  refer fun p => some p.version

/-- A prediction that was dropped does not count. -/
def held : View T → Last → StableId T → Option (Version T) :=
  refer fun p => if p.dropped then none else some p.version

/-- The state of a version that is in use. -/
def live (view : View T) (sid : Version T) : Option T :=
  (view.states sid).bind fun r => if r.retired then none else some r.entity

/-- The state of a version, in use or not. -/
def kept (view : View T) (sid : Version T) : Option T := (view.states sid).map Record.entity

/-- What is read of a version is in use, and a prediction is linked unless it was dropped. -/
def Current (view : View T) : RepoCall T → Prop
  | .getLastPredicted id => ∀ p ∈ view.predicted id, ∀ r ∈ view.states p.version,
    r.retired = false → ((view.links p.version).isSome ↔ p.dropped = false)
  | .getLastConfirmed id => ∀ sid ∈ view.confirmed id, ∀ r ∈ view.states sid, r.retired = false
  | .getLastUnconfirmed id => ∀ sid ∈ view.unconfirmed id, ∀ r ∈ view.states sid, r.retired = false
  | .mayExist sid => ∀ r ∈ view.states sid, r.retired = false
  | .getState sid => ∀ r ∈ view.states sid, r.retired = false
  | _ => True

/-! ### What holds of every view -/

/-- A version that is predicted was put, and one that is not in use has no link. -/
structure Wf (view : View T) : Prop where
  predicted : ∀ id p, view.predicted id = some p → ∃ r, view.states p.version = some r
  retired : ∀ sid r, view.states sid = some r → r.retired = true → view.links sid = none

variable {view : View T}

theorem wf_new : (new : View T).Wf := ⟨fun _ _ h => (by cases h), fun _ _ h => (by cases h)⟩

theorem states_put (entity : T) (sid : Version T) : (view.put entity).states sid =
    if sid = version entity then some ⟨entity, false⟩ else view.states sid :=
  Function.update_apply _ _ _ _

theorem states_retire (sid sid' : Version T) : (view.retire sid).states sid' =
    if sid' = sid then (view.states sid).map fun r => ⟨r.entity, true⟩ else view.states sid' :=
  Function.update_apply _ _ _ _

theorem links_retire (sid sid' : Version T) : (view.retire sid).links sid' =
    if sid' = sid then none else view.links sid' :=
  Function.update_apply _ _ _ _

/-- A state that was put is there ever after. -/
theorem exists_states_call {sid : Version T} (h : ∃ r, view.states sid = some r)
    (c : RepoCall T) : ∃ r, (view.call c).states sid = some r := by
  have hput : ∀ entity, ∃ r, (view.put entity).states sid = some r := by
    intro entity
    rw [states_put]
    split
    · exact ⟨_, rfl⟩
    · exact h
  have hretire : ∀ sid', ∃ r, (view.retire sid').states sid = some r := by
    intro sid'
    rw [states_retire]
    split
    · rename_i heq
      obtain ⟨r, hr⟩ := h
      exact ⟨_, by rw [← heq, hr]; rfl⟩
    · exact h
  cases c with
  | putPredicted entity prev => exact hput entity
  | putConfirmed entity => exact hput entity
  | putUnconfirmed entity => exact hput entity
  | invalidate sid' eid => exact hretire sid'
  | eliminate entity => exact hretire (version entity)
  | getPredictionPredecessor _ => exact h
  | getLastPredicted _ => exact h
  | getLastConfirmed _ => exact h
  | getLastUnconfirmed _ => exact h
  | mayExist _ => exact h
  | getState _ => exact h

theorem Wf.predicted_call (h : view.Wf) (c : RepoCall T) {id : StableId T} {p : Prediction T}
    (hp : (view.call c).predicted id = some p) : ∃ r, (view.call c).states p.version = some r := by
  have hold : ∀ p', view.predicted id = some p' → p'.version = p.version →
      ∃ r, (view.call c).states p.version = some r := by
    intro p' hp' hversion
    rw [← hversion]
    exact exists_states_call (h.predicted id p' hp') c
  cases c with
  | putPredicted entity prev =>
    simp only [call, Function.update_apply] at hp
    split at hp
    · cases hp
      exact ⟨_, (states_put entity _).trans (if_pos rfl)⟩
    · exact hold p hp rfl
  | invalidate sid eid =>
    simp only [call, Function.update_apply] at hp
    split at hp
    · rename_i heq
      obtain ⟨p', hp', rfl⟩ := Option.map_eq_some_iff.mp hp
      exact hold p' (heq ▸ hp') rfl
    · exact hold p hp rfl
  | eliminate entity =>
    simp only [call, Function.update_apply] at hp
    split at hp
    · cases hp
    · exact hold p hp rfl
  | putConfirmed entity => exact hold p hp rfl
  | putUnconfirmed entity => exact hold p hp rfl
  | getPredictionPredecessor _ => exact hold p hp rfl
  | getLastPredicted _ => exact hold p hp rfl
  | getLastConfirmed _ => exact hold p hp rfl
  | getLastUnconfirmed _ => exact hold p hp rfl
  | mayExist _ => exact hold p hp rfl
  | getState _ => exact hold p hp rfl

theorem Wf.retired_call (h : view.Wf) (c : RepoCall T) {sid : Version T} {r : Record T}
    (hr : (view.call c).states sid = some r) (hretired : r.retired = true) :
    (view.call c).links sid = none := by
  have hput : ∀ entity, (view.put entity).states sid = some r →
      sid ≠ version entity ∧ view.links sid = none := by
    intro entity hstate
    rw [states_put] at hstate
    split at hstate
    · cases hstate
      cases hretired
    · rename_i hne
      exact ⟨hne, h.retired sid r hstate hretired⟩
  have hretire : ∀ sid', (view.retire sid').states sid = some r →
      (view.retire sid').links sid = none := by
    intro sid' hstate
    rw [states_retire] at hstate
    rw [links_retire]
    split
    · rfl
    · rename_i hne
      rw [if_neg hne] at hstate
      exact h.retired sid r hstate hretired
  cases c with
  | putPredicted entity prev =>
    obtain ⟨hne, hlinks⟩ := hput entity hr
    cases prev with
    | none => exact hlinks
    | some prevSid => exact (Function.update_of_ne hne _ _).trans hlinks
  | putConfirmed entity => exact (hput entity hr).2
  | putUnconfirmed entity => exact (hput entity hr).2
  | invalidate sid' eid => exact hretire sid' hr
  | eliminate entity => exact hretire (version entity) hr
  | getPredictionPredecessor _ => exact h.retired sid r hr hretired
  | getLastPredicted _ => exact h.retired sid r hr hretired
  | getLastConfirmed _ => exact h.retired sid r hr hretired
  | getLastUnconfirmed _ => exact h.retired sid r hr hretired
  | mayExist _ => exact h.retired sid r hr hretired
  | getState _ => exact h.retired sid r hr hretired

section

variable (predicted : Prediction T → Option (Version T)) (entity : T) (k : Last) (id : StableId T)

theorem refer_putPredicted (prev : Option (Version T))
    (hput : predicted ⟨version entity, false⟩ = some (version entity)) :
    (view.call (.putPredicted entity prev)).refer predicted k id =
      if k = .predicted ∧ id = stableId entity then some (version entity)
      else view.refer predicted k id := by
  cases k with
  | predicted =>
    simp only [call, refer, Function.update_apply, true_and]
    split
    · exact hput
    · rfl
  | confirmed => rfl
  | unconfirmed => rfl

theorem refer_putConfirmed : (view.call (.putConfirmed entity)).refer predicted k id =
    if k = .confirmed ∧ id = stableId entity then some (version entity)
    else view.refer predicted k id := by
  cases k with
  | predicted => rfl
  | confirmed => simp only [call, refer, Function.update_apply, true_and]
  | unconfirmed => rfl

theorem refer_putUnconfirmed : (view.call (.putUnconfirmed entity)).refer predicted k id =
    if k = .unconfirmed ∧ id = stableId entity then some (version entity)
    else view.refer predicted k id := by
  cases k with
  | predicted => rfl
  | confirmed => rfl
  | unconfirmed => simp only [call, refer, Function.update_apply, true_and]

theorem refer_eliminate : (view.call (.eliminate entity)).refer predicted k id =
    if id = stableId entity then none else view.refer predicted k id := by
  cases k with
  | predicted =>
    simp only [call, refer, Function.update_apply]
    split <;> rfl
  | confirmed => simp only [call, refer, Function.update_apply]
  | unconfirmed => simp only [call, refer, Function.update_apply]

end

theorem held_invalidate (sid : Version T) (eid : StableId T) (k : Last) (id : StableId T) :
    (view.call (.invalidate sid eid)).held k id =
      if id = eid then (if k = .confirmed then view.links sid else none) else view.held k id := by
  cases k with
  | predicted =>
    simp only [call, held, refer, Function.update_apply]
    split
    · rename_i heq
      cases view.predicted eid <;> rfl
    · rfl
  | confirmed => simp only [call, held, refer, Function.update_apply, if_pos]
  | unconfirmed =>
    simp only [call, held, refer, Function.update_apply]
    split <;> rfl

theorem named_invalidate (sid : Version T) (eid : StableId T) (k : Last) (id : StableId T) :
    (view.call (.invalidate sid eid)).named k id =
      if k ≠ .predicted ∧ id = eid then (if k = .confirmed then view.links sid else none)
      else view.named k id := by
  cases k with
  | predicted =>
    simp only [call, named, refer, Function.update_apply]
    split
    · rename_i heq
      subst heq
      cases view.predicted id <;> rfl
    · rfl
  | confirmed => simp [call, named, refer, Function.update_apply]
  | unconfirmed => simp [call, named, refer, Function.update_apply]

theorem Wf.call (h : view.Wf) (c : RepoCall T) : (view.call c).Wf :=
  ⟨fun _ _ => h.predicted_call c, fun _ _ => h.retired_call c⟩

theorem run_append (calls : List (RepoCall T)) (c : RepoCall T) :
    run (calls ++ [c]) = (run calls).call c := by
  simp [run, List.foldl_append]

theorem wf_run (calls : List (RepoCall T)) : (run calls).Wf := by
  induction calls using List.reverseRecOn with
  | nil => exact wf_new
  | append_singleton calls c ih =>
    rw [run_append]
    exact ih.call c

end View

/-- The entities that a call names. -/
def RepoCall.names {T : Type} [EntitySnapshot T] : RepoCall T → List (StableId T)
  | .putPredicted entity _ => [stableId entity]
  | .putConfirmed entity => [stableId entity]
  | .putUnconfirmed entity => [stableId entity]
  | .invalidate _ eid => [eid]
  | .eliminate entity => [stableId entity]
  | .getLastPredicted id => [id]
  | .getLastConfirmed id => [id]
  | .getLastUnconfirmed id => [id]
  | _ => []

end UtxoMonitor.BoxResolver
