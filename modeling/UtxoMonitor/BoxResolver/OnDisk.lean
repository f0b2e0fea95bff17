import UtxoMonitor.BoxResolver.View

/-! The store on disk keeps every state of the entities. -/
namespace UtxoMonitor.BoxResolver

open Lib LiquidityBook Domain

namespace EntityRepoRocksDB

variable {T : Type} [EntitySnapshot T] [Serial (Version T)] [Serial (StableId T)]

/-- The prefix of a reference. -/
def prefixOf : Last → Bytes
  | .predicted => lastPredictedPrefix
  | .confirmed => lastConfirmedPrefix
  | .unconfirmed => lastUnconfirmedPrefix

/-- What a row of the database is about. -/
inductive Row (T : Type) [EntitySnapshot T] where
  | state (sid : Version T)
  | link (sid : Version T)
  | last (k : Last) (id : StableId T)

def Row.key : Row T → Bytes
  | .state sid => prefixedKey statePrefix sid
  | .link sid => prefixedKey predictionLinkPrefix sid
  | .last k id => prefixedKey (prefixOf k) id

def Row.pre : Row T → Bytes
  | .state _ => statePrefix
  | .link _ => predictionLinkPrefix
  | .last k _ => prefixOf k

theorem prefixOf_inj {k j : Last} : prefixOf k = prefixOf j ↔ k = j := by
  cases k <;> cases j <;> decide +kernel

theorem statePrefix_ne_predictionLinkPrefix : statePrefix ≠ predictionLinkPrefix := by
  decide +kernel

theorem statePrefix_ne (k : Last) : statePrefix ≠ prefixOf k := by
  cases k <;> decide +kernel

theorem predictionLinkPrefix_ne (k : Last) : predictionLinkPrefix ≠ prefixOf k := by
  cases k <;> decide +kernel

omit [Serial (Version T)] [Serial (StableId T)] in
theorem length_pre (row : Row T) : row.pre.length < 256 ^ 8 := by
  cases row with
  | state sid =>
    exact Nat.lt_of_le_of_lt (show statePrefix.length ≤ 16 by decide +kernel) (by decide)
  | link sid =>
    exact Nat.lt_of_le_of_lt (show predictionLinkPrefix.length ≤ 16 by decide +kernel) (by decide)
  | last k id =>
    have hle : (prefixOf k).length ≤ 16 := by cases k <;> decide +kernel
    exact Nat.lt_of_le_of_lt hle (by decide)

/-- A key tells what the row is about. -/
theorem key_injective : Function.Injective (Row.key : Row T → Bytes) := by
  intro row row' h
  have hparts : row.pre = row'.pre ∧ row.key.drop (serializeStr row.pre).length =
      row'.key.drop (serializeStr row'.pre).length := by
    have hsplit : ∀ row : Row T, ∃ rest, row.key = serializeStr row.pre ++ rest := by
      intro row
      cases row <;> exact ⟨_, rfl⟩
    obtain ⟨rest, hrest⟩ := hsplit row
    obtain ⟨rest', hrest'⟩ := hsplit row'
    have heq := h
    rw [hrest, hrest', serializeStr_append_inj (length_pre row) (length_pre row')] at heq
    exact ⟨heq.1, by rw [h, heq.1]⟩
  obtain ⟨hpre, hrest⟩ := hparts
  cases row with
  | state sid =>
    cases row' with
    | state sid' =>
      simp only [Row.key, Row.pre, prefixedKey, List.drop_left] at hrest
      rw [serialize_injective hrest]
    | link sid' => exact absurd hpre statePrefix_ne_predictionLinkPrefix
    | last k id => exact absurd hpre (statePrefix_ne k)
  | link sid =>
    cases row' with
    | state sid' => exact absurd hpre.symm statePrefix_ne_predictionLinkPrefix
    | link sid' =>
      simp only [Row.key, Row.pre, prefixedKey, List.drop_left] at hrest
      rw [serialize_injective hrest]
    | last k id => exact absurd hpre (predictionLinkPrefix_ne k)
  | last k id =>
    cases row' with
    | state sid' => exact absurd hpre.symm (statePrefix_ne k)
    | link sid' => exact absurd hpre.symm (predictionLinkPrefix_ne k)
    | last j eid =>
      simp only [Row.key, Row.pre, prefixedKey, List.drop_left] at hrest
      rw [serialize_injective hrest, prefixOf_inj.mp hpre]

instance : DecidableEq (Row T) := fun _ _ => decidable_of_iff _ key_injective.eq_iff

theorem lookup_insert_key (db : RocksDB) (row row' : Row T) (value : Bytes) :
    (db.insert row'.key value).lookup row.key =
      if row = row' then some value else db.lookup row.key := by
  rw [lookup_insert_eq]
  exact if_congr key_injective.eq_iff rfl rfl

theorem lookup_erase_key (db : RocksDB) (row row' : Row T) :
    (db.erase row'.key).lookup row.key = if row = row' then none else db.lookup row.key := by
  rw [lookup_erase_eq]
  exact if_congr key_injective.eq_iff rfl rfl

variable [Serial T]

/-- Every state that was put is kept, and every prediction. -/
structure Shows (repo : EntityRepoRocksDB) (view : View T) : Prop where
  states : ∀ sid, repo.db.lookup (Row.key (.state sid : Row T)) =
    (view.kept sid).map serialize
  links : ∀ sid, repo.db.lookup (Row.key (.link sid : Row T)) = (view.links sid).map serialize
  last : ∀ k id, repo.db.lookup (Row.key (.last k id : Row T)) = (view.named k id).map serialize

theorem shows_new : Shows new (View.new : View T) := by
  refine ⟨fun _ => rfl, fun _ => rfl, ?_⟩
  intro k id
  cases k <;> rfl

variable {repo : EntityRepoRocksDB} {view : View T}

/-- A put keeps the state, and refers to its version. -/
theorem Shows.putLast (h : Shows repo view) (j : Last) (entity : T) {view' : View T}
    (hstates : view'.states = (view.put entity).states) (hlinks : view'.links = view.links)
    (hnamed : ∀ k id, view'.named k id =
      if k = j ∧ id = stableId entity then some (version entity) else view.named k id) :
    Shows (repo.putLast (prefixOf j) entity) view' := by
  have hlookup : ∀ row : Row T, (repo.putLast (prefixOf j) entity).db.lookup row.key =
      if row = .last j (stableId entity) then some (serialize (version entity))
      else if row = .state (version entity) then some (serialize entity)
      else repo.db.lookup row.key := by
    intro row
    refine (lookup_insert_key _ row (.last j (stableId entity)) _).trans ?_
    rw [← lookup_insert_key repo.db row (.state (version entity))]
    rfl
  refine ⟨?_, ?_, ?_⟩
  · intro sid
    rw [hlookup, h.states, View.kept, View.kept, hstates, View.states_put]
    simp only [reduceCtorEq, if_false, Row.state.injEq]
    split <;> rfl
  · intro sid
    rw [hlookup, hlinks, h.links]
    simp
  · intro k id
    rw [hlookup, hnamed, h.last]
    simp only [reduceCtorEq, if_false, Row.last.injEq]
    split <;> rfl

theorem Shows.putPredicted (h : Shows repo view) (entity : T) (prev : Option (Version T)) :
    Shows (EntityRepo.putPredicted repo entity prev) (view.call (.putPredicted entity prev)) := by
  have hput : Shows (repo.putLast (prefixOf .predicted) entity)
      { view.call (.putPredicted entity prev) with links := view.links } := by
    refine h.putLast .predicted entity rfl rfl ?_
    intro k id
    rw [View.named, ← View.refer_putPredicted _ entity k id prev rfl]
    cases k <;> rfl
  cases prev with
  | none => exact hput
  | some prevSid =>
    refine ⟨?_, ?_, ?_⟩
    · intro sid
      refine (lookup_insert_key _ (.state sid) (.link (version entity)) _).trans ?_
      rw [if_neg (by simp)]
      exact hput.states sid
    · intro sid
      refine (lookup_insert_key _ (.link sid) (.link (version entity)) _).trans ?_
      simp only [View.call, Function.update_apply, Row.link.injEq]
      split
      · rfl
      · exact hput.links sid
    · intro k id
      refine (lookup_insert_key _ (.last k id) (.link (version entity)) _).trans ?_
      rw [if_neg (by simp)]
      refine (hput.last k id).trans ?_
      cases k <;> rfl

theorem Shows.predecessor (h : Shows repo view) (sid : Version T) :
    (repo.db.lookup (prefixedKey predictionLinkPrefix sid)).bind deserialize = view.links sid := by
  rw [show prefixedKey predictionLinkPrefix sid = Row.key (.link sid : Row T) from rfl, h.links]
  exact bind_deserialize_map _

/-- What a reference names is read back. -/
theorem Shows.sid (h : Shows repo view) (k : Last) (id : StableId T) :
    (repo.db.lookup (prefixedKey (prefixOf k) id)).bind (deserialize (A := Version T)) =
      view.named k id := by
  rw [show prefixedKey (prefixOf k) id = Row.key (.last k id : Row T) from rfl, h.last]
  exact bind_deserialize_map _

theorem Shows.state (h : Shows repo view) (sid : Version T) :
    (repo.db.lookup (prefixedKey statePrefix sid)).bind deserialize = view.kept sid := by
  rw [show prefixedKey statePrefix sid = Row.key (.state sid : Row T) from rfl, h.states]
  exact bind_deserialize_map _

theorem Shows.getLast (h : Shows repo view) (k : Last) (id : StableId T) :
    repo.getLast (prefixOf k) id = (view.named k id).bind view.kept := by
  rw [EntityRepoRocksDB.getLast, h.sid, Option.bind_assoc]
  exact congrArg _ (funext h.state)

theorem Shows.getLastPredicted (h : Shows repo view) (id : StableId T) :
    EntityRepo.getLastPredicted repo id = (view.named .predicted id).bind fun sid =>
      if (view.links sid).isSome then view.kept sid else none := by
  refine Eq.trans (congrArg (fun o => Option.bind (Option.bind o _) _) (h.sid .predicted id)) ?_
  rw [Option.bind_assoc]
  refine congrArg _ (funext fun sid => ?_)
  have hlink : (repo.db.lookup (prefixedKey predictionLinkPrefix sid)).isSome =
      (view.links sid).isSome := by
    rw [show prefixedKey predictionLinkPrefix sid = Row.key (.link sid : Row T) from rfl, h.links,
      Option.isSome_map]
  rw [hlink]
  split
  · exact h.state sid
  · rfl

theorem Shows.states_retire (h : Shows repo view) (sid sid' : Version T) :
    repo.db.lookup (Row.key (.state sid' : Row T)) =
      ((view.retire sid).kept sid').map serialize := by
  rw [h.states, View.kept, View.kept, View.states_retire]
  split
  · rename_i heq
    subst heq
    cases view.states sid' <;> rfl
  · rfl

theorem Shows.invalidate (h : Shows repo view) (sid : Version T) (eid : StableId T) :
    Shows (EntityRepo.invalidate (T := T) repo sid eid) (view.call (.invalidate sid eid)) := by
  have hlookup : ∀ row : Row T,
      (EntityRepo.invalidate (T := T) repo sid eid : EntityRepoRocksDB).db.lookup row.key =
        if row = .last .unconfirmed eid then none
        else if row = .link sid then none
        else if row = .last .confirmed eid then (view.links sid).map serialize
        else repo.db.lookup row.key := by
    intro row
    refine (lookup_erase_key _ row (.last .unconfirmed eid)).trans ?_
    refine if_congr .rfl rfl ?_
    refine (lookup_erase_key _ row (.link sid)).trans ?_
    refine if_congr .rfl rfl ?_
    rw [h.predecessor]
    cases view.links sid with
    | none => exact lookup_erase_key _ row (.last .confirmed eid)
    | some predecessor => exact lookup_insert_key _ row (.last .confirmed eid) _
  refine ⟨?_, ?_, ?_⟩
  · intro sid'
    rw [hlookup]
    simp only [reduceCtorEq, if_false]
    exact h.states_retire sid sid'
  · intro sid'
    rw [hlookup, h.links]
    simp only [reduceCtorEq, if_false, Row.link.injEq]
    refine Eq.trans ?_ (congrArg _ (View.links_retire sid sid').symm)
    split <;> rfl
  · intro k id
    rw [hlookup, h.last, View.named_invalidate]
    cases k with
    | predicted => simp
    | confirmed =>
      simp only [reduceCtorEq, if_false, Row.last.injEq, true_and, false_and, ne_eq, not_false_eq_true,
        if_true]
      split <;> rfl
    | unconfirmed =>
      simp only [reduceCtorEq, if_false, Row.last.injEq, true_and, false_and, ne_eq, not_false_eq_true]
      split <;> rfl

theorem Shows.eliminate (h : Shows repo view) (entity : T) :
    Shows (EntityRepo.eliminate repo entity) (view.call (.eliminate entity)) := by
  have hlookup : ∀ row : Row T, (EntityRepo.eliminate repo entity : EntityRepoRocksDB).db.lookup row.key =
      if row = .last .unconfirmed (stableId entity) then none
      else if row = .last .confirmed (stableId entity) then none
      else if row = .last .predicted (stableId entity) then none
      else if row = .link (version entity) then none
      else repo.db.lookup row.key := by
    intro row
    refine (lookup_erase_key _ row (.last .unconfirmed (stableId entity))).trans ?_
    refine if_congr .rfl rfl ?_
    refine (lookup_erase_key _ row (.last .confirmed (stableId entity))).trans ?_
    refine if_congr .rfl rfl ?_
    refine (lookup_erase_key _ row (.last .predicted (stableId entity))).trans ?_
    exact if_congr .rfl rfl (lookup_erase_key _ row (.link (version entity)))
  refine ⟨?_, ?_, ?_⟩
  · intro sid
    rw [hlookup]
    simp only [reduceCtorEq, if_false]
    exact h.states_retire (version entity) sid
  · intro sid
    rw [hlookup, h.links]
    simp only [reduceCtorEq, if_false, Row.link.injEq]
    refine Eq.trans ?_ (congrArg _ (View.links_retire (version entity) sid).symm)
    split <;> rfl
  · intro k id
    rw [hlookup, h.last, View.named, View.refer_eliminate]
    cases k with
    | predicted =>
      simp only [reduceCtorEq, if_false, Row.last.injEq, true_and, false_and]
      split <;> rfl
    | confirmed =>
      simp only [reduceCtorEq, if_false, Row.last.injEq, true_and, false_and]
      split <;> rfl
    | unconfirmed =>
      simp only [reduceCtorEq, if_false, Row.last.injEq, true_and, false_and]
      split <;> rfl

theorem Shows.call (h : Shows repo view) (c : RepoCall T) :
    Shows (EntityRepo.call repo c) (view.call c) := by
  cases c with
  | putPredicted entity prev => exact h.putPredicted entity prev
  | putConfirmed entity => exact h.putLast .confirmed entity rfl rfl (View.refer_putConfirmed _ entity)
  | putUnconfirmed entity =>
    exact h.putLast .unconfirmed entity rfl rfl (View.refer_putUnconfirmed _ entity)
  | invalidate sid eid => exact h.invalidate sid eid
  | eliminate entity => exact h.eliminate entity
  | getPredictionPredecessor _ => exact h
  | getLastPredicted _ => exact h
  | getLastConfirmed _ => exact h
  | getLastUnconfirmed _ => exact h
  | mayExist _ => exact h
  | getState _ => exact h

end EntityRepoRocksDB

end UtxoMonitor.BoxResolver
