import UtxoMonitor.BoxResolver.Backends
import UtxoMonitor.Lib.Links

/-! The latest state of an entity: a prediction if it is linked to what the ledger or the mempool last
said, or else that. -/
namespace UtxoMonitor.BoxResolver

open Lib LiquidityBook Domain ExecutionEngine Relation

section Resolution

variable {T R : Type} [EntitySnapshot T] [EntityRepo T R]

/-- `is_linking`, for as many turns of its loop as there is fuel -/
def isLinking (repo : R) (fuel : Nat) (sid anchoringSid : Version T) : Option Bool :=
  seek (EntityRepo.getPredictionPredecessor (T := T) repo) anchoringSid fuel sid

/-- Get latest state of an on-chain entity, unless the fuel is used up before. -/
def resolveEntityState (repo : R) (id : StableId T) (fuel : Nat) : Option (Option T) :=
  match EntityRepo.getLastConfirmed repo id, EntityRepo.getLastUnconfirmed repo id,
    EntityRepo.getLastPredicted repo id with
  | some conf, unconf, some pred =>
    let anchoringPoint : T := unconf.getD conf
    let safePoint (predictionIsValid : Bool) := if predictionIsValid then pred else anchoringPoint
    if version pred = version anchoringPoint then some (some pred)
    else (isLinking repo fuel (version pred) (version anchoringPoint)).map fun predictionIsValid =>
      some (safePoint predictionIsValid)
  | _, some unconf, none => some (some unconf)
  | some conf, _, _ => some (some conf)
  | _, _, _ => some none

def Returns (repo : R) (id : StableId T) (result : Option T) : Prop :=
  ∃ fuel, resolveEntityState repo id fuel = some result

/-- The last unconfirmed state, or the last confirmed one. -/
def anchor (repo : R) (id : StableId T) : Option T :=
  (EntityRepo.getLastUnconfirmed repo id).or (EntityRepo.getLastConfirmed repo id)

/-- The prediction is the anchor, or its links lead there. -/
def Anchored (repo : R) (pred anchoringPoint : T) : Prop :=
  version pred = version anchoringPoint ∨
    TransGen (Linked (EntityRepo.getPredictionPredecessor (T := T) repo)) (version pred)
      (version anchoringPoint)

/-- The prediction is chosen exactly if it is anchored, or else the anchor, and nothing only if there
is none. -/
structure Right (repo : R) (id : StableId T) (result : Option T) : Prop where
  predicted (a p : T) : anchor repo id = some a → EntityRepo.getLastPredicted repo id = some p →
    Anchored repo p a → result = some p
  anchored (a : T) : anchor repo id = some a →
    (∀ p, EntityRepo.getLastPredicted repo id = some p → ¬ Anchored repo p a) → result = some a
  unknown : result = none ↔ EntityRepo.getLastConfirmed repo id = none ∧
    EntityRepo.getLastUnconfirmed repo id = none

structure ResolvesRight (repo : R) (id : StableId T) : Prop where
  ends : ∃ result, Returns repo id result
  right (result : Option T) : Returns repo id result → Right repo id result

/-- No prediction comes before the first confirmed state, and none leads into a circle that leaves
the anchor out. -/
structure Resolvable (repo : R) (id : StableId T) : Prop where
  confirmed : EntityRepo.getLastConfirmed (T := T) repo id = none →
    EntityRepo.getLastUnconfirmed (T := T) repo id ≠ none →
      EntityRepo.getLastPredicted (T := T) repo id = none
  straight (a p : T) : anchor repo id = some a → EntityRepo.getLastPredicted repo id = some p →
    Anchored repo p a ∨ ¬ Circles (EntityRepo.getPredictionPredecessor (T := T) repo) (version p)

/-! ### When the right state is found -/

variable {repo : R} {id : StableId T}

/-- With a confirmed state and a prediction, the walk decides. -/
theorem resolve_of_predicted {conf p : T} (hconf : EntityRepo.getLastConfirmed repo id = some conf)
    (hpred : EntityRepo.getLastPredicted repo id = some p) : ∃ a, anchor repo id = some a ∧
      ∀ fuel, resolveEntityState repo id fuel =
        if version p = version a then some (some p)
        else (isLinking repo fuel (version p) (version a)).map fun valid =>
          some (if valid then p else a) := by
  refine ⟨(EntityRepo.getLastUnconfirmed repo id).getD conf, ?_, fun fuel => ?_⟩
  · rw [anchor, hconf]
    cases EntityRepo.getLastUnconfirmed (T := T) repo id <;> rfl
  · rw [resolveEntityState, hconf, hpred]

/-- Without a prediction the anchor is returned at once. -/
theorem resolve_of_none (hpred : EntityRepo.getLastPredicted (T := T) repo id = none) (fuel : Nat) :
    resolveEntityState (T := T) repo id fuel = some (anchor repo id) := by
  rw [resolveEntityState, hpred, anchor]
  cases EntityRepo.getLastConfirmed (T := T) repo id <;>
    cases EntityRepo.getLastUnconfirmed (T := T) repo id <;> rfl

theorem anchor_eq_none : anchor (T := T) repo id = none ↔
    EntityRepo.getLastConfirmed (T := T) repo id = none ∧
      EntityRepo.getLastUnconfirmed (T := T) repo id = none := by
  rw [anchor, Option.or_eq_none_iff, and_comm]

theorem right_of_walk {a p : T} (ha : anchor repo id = some a)
    (hpred : EntityRepo.getLastPredicted repo id = some p) {valid : Bool}
    (hvalid : valid = true ↔ Anchored repo p a) :
    Right repo id (some (if valid then p else a)) := by
  have hsome : ¬ (EntityRepo.getLastConfirmed (T := T) repo id = none ∧
      EntityRepo.getLastUnconfirmed (T := T) repo id = none) := by
    rw [← anchor_eq_none, ha]
    exact Option.some_ne_none a
  refine ⟨?_, ?_, iff_of_false (Option.some_ne_none _) hsome⟩
  · intro a' p' ha' hp' hanchored
    cases ha.symm.trans ha'
    cases hpred.symm.trans hp'
    rw [if_pos (hvalid.mpr hanchored)]
  · intro a' ha' hnot
    cases ha.symm.trans ha'
    rw [if_neg (mt hvalid.mp (hnot p hpred))]

theorem resolvesRight_of_none (hpred : EntityRepo.getLastPredicted (T := T) repo id = none) :
    ResolvesRight (T := T) repo id := by
  refine ⟨⟨_, 0, resolve_of_none hpred 0⟩, ?_⟩
  rintro result ⟨fuel, hresult⟩
  cases (resolve_of_none hpred fuel).symm.trans hresult
  refine ⟨?_, fun a ha _ => ha, anchor_eq_none⟩
  intro a p _ hp
  cases hpred.symm.trans hp

/-- A prediction before the first confirmed state hides the state in the mempool. -/
theorem resolve_of_unconfirmed {p : T} (hconf : EntityRepo.getLastConfirmed (T := T) repo id = none)
    (hpred : EntityRepo.getLastPredicted repo id = some p) (fuel : Nat) :
    resolveEntityState (T := T) repo id fuel = some none := by
  rw [resolveEntityState, hconf, hpred]
  cases EntityRepo.getLastUnconfirmed (T := T) repo id <;> rfl

theorem resolvesRight_of_unconfirmed {p : T}
    (hconf : EntityRepo.getLastConfirmed (T := T) repo id = none)
    (hpred : EntityRepo.getLastPredicted repo id = some p) :
    ResolvesRight (T := T) repo id ↔ EntityRepo.getLastUnconfirmed (T := T) repo id = none := by
  constructor
  · intro h
    exact ((h.right none ⟨0, resolve_of_unconfirmed hconf hpred 0⟩).unknown.mp rfl).2
  · intro hunconf
    have hnone : anchor (T := T) repo id = none := anchor_eq_none.mpr ⟨hconf, hunconf⟩
    refine ⟨⟨none, 0, resolve_of_unconfirmed hconf hpred 0⟩, ?_⟩
    rintro result ⟨fuel, hresult⟩
    cases (resolve_of_unconfirmed hconf hpred fuel).symm.trans hresult
    refine ⟨?_, ?_, iff_of_true rfl ⟨hconf, hunconf⟩⟩
    · intro a p' ha
      cases hnone.symm.trans ha
    · intro a ha
      cases hnone.symm.trans ha

theorem resolvesRight_of_predicted {conf p a : T}
    (hfinite : {sid | EntityRepo.getPredictionPredecessor (T := T) repo sid ≠ none}.Finite)
    (hconf : EntityRepo.getLastConfirmed repo id = some conf)
    (hpred : EntityRepo.getLastPredicted repo id = some p) (ha : anchor repo id = some a) :
    ResolvesRight (T := T) repo id ↔ Anchored repo p a ∨
      ¬ Circles (EntityRepo.getPredictionPredecessor (T := T) repo) (version p) := by
  obtain ⟨a', ha', hres⟩ := resolve_of_predicted hconf hpred
  cases ha.symm.trans ha'
  by_cases hself : version p = version a
  · have hreturn (fuel : Nat) : resolveEntityState repo id fuel = some (some p) :=
      (hres fuel).trans (if_pos hself)
    refine iff_of_true ⟨⟨_, 0, hreturn 0⟩, ?_⟩ (.inl (.inl hself))
    rintro result ⟨fuel, hresult⟩
    cases (hreturn fuel).symm.trans hresult
    have hright : Right repo id (some (if true then p else a)) :=
      right_of_walk ha hpred (iff_of_true rfl (.inl hself))
    exact hright
  · have hanchored : Anchored repo p a ↔ TransGen (Linked
        (EntityRepo.getPredictionPredecessor (T := T) repo)) (version p) (version a) :=
      or_iff_right hself
    have hreturn (fuel : Nat) (result : Option T) :
        resolveEntityState repo id fuel = some result ↔ ∃ valid,
          isLinking repo fuel (version p) (version a) = some valid ∧
            some (if valid then p else a) = result := by
      rw [hres, if_neg hself, Option.map_eq_some_iff]
    rw [hanchored, ← seek_ends_iff hfinite]
    constructor
    · rintro ⟨⟨result, fuel, hresult⟩, _⟩
      obtain ⟨valid, hvalid, _⟩ := (hreturn fuel result).mp hresult
      exact ⟨fuel, valid, hvalid⟩
    · rintro ⟨fuel, valid, hvalid⟩
      refine ⟨⟨_, fuel, (hreturn fuel _).mpr ⟨valid, hvalid, rfl⟩⟩, ?_⟩
      rintro result ⟨fuel', hresult⟩
      obtain ⟨found, hfound, rfl⟩ := (hreturn fuel' result).mp hresult
      apply right_of_walk ha hpred
      rw [hanchored]
      cases found with
      | true => exact iff_of_true rfl (of_seek_true hfound)
      | false => exact iff_of_false Bool.false_ne_true (of_seek_false hfound).1

/-- Where links are finitely many, the right state is found exactly if they do not run in a circle
and predictions come after a confirmed state. -/
theorem resolvesRight_iff
    (hfinite : {sid | EntityRepo.getPredictionPredecessor (T := T) repo sid ≠ none}.Finite) :
    ResolvesRight (T := T) repo id ↔ Resolvable (T := T) repo id := by
  cases hpred : EntityRepo.getLastPredicted (T := T) repo id with
  | none =>
    refine iff_of_true (resolvesRight_of_none hpred) ⟨fun _ _ => hpred, ?_⟩
    intro a p _ hp
    cases hpred.symm.trans hp
  | some p =>
    cases hconf : EntityRepo.getLastConfirmed (T := T) repo id with
    | none =>
      rw [resolvesRight_of_unconfirmed hconf hpred]
      constructor
      · intro hunconf
        refine ⟨fun _ h => absurd hunconf h, ?_⟩
        intro a p' ha
        cases (anchor_eq_none.mpr ⟨hconf, hunconf⟩).symm.trans ha
      · intro h
        by_contra hunconf
        cases hpred.symm.trans (h.confirmed hconf hunconf)
    | some conf =>
      obtain ⟨a, ha, _⟩ := resolve_of_predicted hconf hpred
      rw [resolvesRight_of_predicted hfinite hconf hpred ha]
      constructor
      · intro h
        refine ⟨fun hnone => (by cases hconf.symm.trans hnone), ?_⟩
        intro a' p' ha' hp'
        cases ha.symm.trans ha'
        cases hpred.symm.trans hp'
        exact h
      · intro h
        exact h.straight a p ha hpred

end Resolution

/-! ### The two stores -/

section Stores

variable {T : Type} [EntitySnapshot T]

theorem finite_lookup {K V : Type} [DecidableEq K] (m : AList fun _ : K => V) :
    {k | m.lookup k ≠ none}.Finite := by
  apply m.keys.toFinset.finite_toSet.subset
  intro k hk
  have hmem : k ∈ m := AList.lookup_isSome.mp (Option.isSome_iff_ne_none.mpr hk)
  simpa using AList.mem_keys.mp hmem

theorem finite_links_on_disk [Serial T] [Serial (Version T)] [Serial (StableId T)]
    (disk : EntityRepoRocksDB) :
    {sid | EntityRepo.getPredictionPredecessor (T := T) disk sid ≠ none}.Finite := by
  have hinj : Function.Injective (prefixedKey (A := Version T)
      EntityRepoRocksDB.predictionLinkPrefix) := by
    intro sid sid' h
    exact serialize_injective (List.append_cancel_left h)
  apply ((finite_lookup disk.db).preimage hinj.injOn).subset
  intro sid hsid hnone
  apply hsid
  show (disk.db.lookup _).bind _ = none
  rw [hnone, Option.bind_none]

/-- Neither store finds the right state in any other case. -/
theorem latest_state_resolved_iff [RawStableId T] [Serial T] [Serial (Version T)]
    [Serial (StableId T)] (repo : InMemoryEntityRepo T) (disk : EntityRepoRocksDB)
    (id : StableId T) :
    (ResolvesRight (T := T) repo id ↔ Resolvable (T := T) repo id) ∧
      (ResolvesRight (T := T) disk id ↔ Resolvable (T := T) disk id) :=
  ⟨resolvesRight_iff (finite_lookup repo.links), resolvesRight_iff (finite_links_on_disk disk)⟩

end Stores

/-! ### Predictions that are not resolved -/

/-- An entity that is new in the mempool, and a prediction of what becomes of it. -/
def newInMempool : List (RepoCall TestEntity) :=
  [.putUnconfirmed sampleBox, .putPredicted sampleSuccessor (some (5 : UInt8))]

/-- A prediction that is linked to itself. -/
def linkedToItself : List (RepoCall TestEntity) :=
  [.putConfirmed sampleBox, .putPredicted sampleSuccessor (some (6 : UInt8))]

abbrev repoAfter (calls : List (RepoCall TestEntity)) : InMemoryEntityRepo TestEntity :=
  EntityRepo.run .new calls

/-- The state in the mempool is hidden, and the walk along the circle does not end. -/
theorem state_not_resolved :
    ¬ ResolvesRight (T := TestEntity) (repoAfter newInMempool) (1 : UInt8) ∧
      ¬ ResolvesRight (T := TestEntity) (repoAfter linkedToItself) (1 : UInt8) := by
  constructor
  · intro h
    have hnone := (h.right none ⟨0, by decide +kernel⟩).unknown.mp rfl
    revert hnone
    decide +kernel
  · intro h
    have hself : EntityRepo.getPredictionPredecessor (T := TestEntity) (repoAfter linkedToItself)
        (version sampleSuccessor) = some (version sampleSuccessor) := by
      decide +kernel
    have hstraight := ((resolvesRight_iff (finite_lookup _)).mp h).straight sampleBox
      sampleSuccessor (by decide +kernel) (by decide +kernel)
    rcases hstraight with (heq | htrans) | hcircle
    · revert heq
      decide +kernel
    · have heq := eq_of_linked_self hself htrans
      revert heq
      decide +kernel
    · exact hcircle ⟨version sampleSuccessor, .refl, .single hself⟩

end UtxoMonitor.BoxResolver
