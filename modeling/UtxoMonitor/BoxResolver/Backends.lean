import UtxoMonitor.BoxResolver.InMemory
import UtxoMonitor.BoxResolver.OnDisk
import UtxoMonitor.Lib.Runs

/-! When the two stores of entities answer alike. -/
namespace UtxoMonitor.BoxResolver

open Lib LiquidityBook Domain ExecutionEngine

section

variable {T : Type} [EntitySnapshot T] {view : View T} {sid : Version T} {id : StableId T}

theorem View.live_eq_kept_iff : view.live sid = view.kept sid ↔
    ∀ r ∈ view.states sid, r.retired = false := by
  cases hstate : view.states sid with
  | none => simp [View.live, View.kept, hstate]
  | some r => cases hretired : r.retired <;> simp [View.live, View.kept, hstate, hretired]

/-- What one store gives of a reference is what the other gives if the state referred to is in use. -/
theorem View.bind_live_eq_kept_iff (ref : Option (Version T)) :
    ref.bind view.live = ref.bind view.kept ↔
      ∀ sid ∈ ref, ∀ r ∈ view.states sid, r.retired = false := by
  cases ref with
  | none => simp
  | some sid => simp [View.live_eq_kept_iff]

theorem View.isSome_live_eq_kept_iff : (view.live sid).isSome = (view.kept sid).isSome ↔
    ∀ r ∈ view.states sid, r.retired = false := by
  cases hstate : view.states sid with
  | none => simp [View.live, View.kept, hstate]
  | some r => cases hretired : r.retired <;> simp [View.live, View.kept, hstate, hretired]

/-- A prediction that is in use is given by both stores exactly if it is linked unless it was
dropped. -/
theorem View.Wf.predicted_eq_iff (h : view.Wf) : (view.held .predicted id).bind view.live =
    ((view.named .predicted id).bind fun sid =>
      if (view.links sid).isSome then view.kept sid else none) ↔
    view.Current (.getLastPredicted id) := by
  simp only [View.Current, View.held, View.named, View.refer]
  cases hp : view.predicted id with
  | none => simp
  | some p =>
    obtain ⟨r, hr⟩ := h.predicted id p hp
    cases hretired : r.retired with
    | true =>
      have hlink := h.retired p.version r hr hretired
      cases hdropped : p.dropped <;> simp [View.live, hr, hretired, hlink, hdropped]
    | false =>
      cases hlink : view.links p.version <;> cases hdropped : p.dropped <;>
        simp [View.live, View.kept, hr, hretired, hlink, hdropped]

variable [RawStableId T] [Serial T] [Serial (Version T)] [Serial (StableId T)]
  {ids : Set (StableId T)} {memory : InMemoryEntityRepo T} {disk : EntityRepoRocksDB}

/-- The two stores answer a call alike exactly if what it reads is in use. -/
theorem answer_eq_iff (hmemory : memory.Shows ids view) (hdisk : disk.Shows view) (hwf : view.Wf)
    (c : RepoCall T) (hc : ∀ id ∈ c.names, id ∈ ids) :
    EntityRepo.answer memory c = EntityRepo.answer disk c ↔ view.Current c := by
  cases c with
  | putPredicted entity prev => exact ⟨fun _ => trivial, fun _ => rfl⟩
  | putConfirmed entity => exact ⟨fun _ => trivial, fun _ => rfl⟩
  | putUnconfirmed entity => exact ⟨fun _ => trivial, fun _ => rfl⟩
  | invalidate sid eid => exact ⟨fun _ => trivial, fun _ => rfl⟩
  | eliminate entity => exact ⟨fun _ => trivial, fun _ => rfl⟩
  | getPredictionPredecessor sid =>
    refine ⟨fun _ => trivial, fun _ => ?_⟩
    exact congrArg RepoAnswer.version ((hmemory.links sid).trans (hdisk.predecessor sid).symm)
  | getLastPredicted id =>
    have hmem : EntityRepo.getLastPredicted memory id = (view.held .predicted id).bind view.live :=
      hmemory.getLast .predicted (hc id List.mem_cons_self)
    rw [EntityRepo.answer, EntityRepo.answer, RepoAnswer.entity.injEq, hmem,
      hdisk.getLastPredicted id]
    exact hwf.predicted_eq_iff
  | getLastConfirmed id =>
    have hmem : EntityRepo.getLastConfirmed memory id = (view.confirmed id).bind view.live :=
      hmemory.getLast .confirmed (hc id List.mem_cons_self)
    have hrocks : EntityRepo.getLastConfirmed disk id = (view.confirmed id).bind view.kept :=
      hdisk.getLast .confirmed id
    rw [EntityRepo.answer, EntityRepo.answer, RepoAnswer.entity.injEq, hmem, hrocks]
    exact View.bind_live_eq_kept_iff _
  | getLastUnconfirmed id =>
    have hmem : EntityRepo.getLastUnconfirmed memory id = (view.unconfirmed id).bind view.live :=
      hmemory.getLast .unconfirmed (hc id List.mem_cons_self)
    have hrocks : EntityRepo.getLastUnconfirmed disk id = (view.unconfirmed id).bind view.kept :=
      hdisk.getLast .unconfirmed id
    rw [EntityRepo.answer, EntityRepo.answer, RepoAnswer.entity.injEq, hmem, hrocks]
    exact View.bind_live_eq_kept_iff _
  | mayExist sid =>
    have hmem : EntityRepo.mayExist (T := T) memory sid = (view.live sid).isSome :=
      congrArg Option.isSome (hmemory.store sid)
    have hrocks : EntityRepo.mayExist (T := T) disk sid = (view.kept sid).isSome :=
      (congrArg Option.isSome (hdisk.states sid)).trans Option.isSome_map
    rw [EntityRepo.answer, EntityRepo.answer, RepoAnswer.mayExist.injEq, hmem, hrocks]
    exact View.isSome_live_eq_kept_iff
  | getState sid =>
    have hmem : EntityRepo.getState memory sid = view.live sid := hmemory.store sid
    have hrocks : EntityRepo.getState disk sid = view.kept sid := hdisk.state sid
    rw [EntityRepo.answer, EntityRepo.answer, RepoAnswer.entity.injEq, hmem, hrocks]
    exact View.live_eq_kept_iff

/-- Entities that the calls name have different ids in memory. -/
def DistinctIds (calls : List (RepoCall T)) : Prop :=
  Set.InjOn (rawId : StableId T → RawBytes 60) {id | ∃ c ∈ calls, id ∈ c.names}

omit [Serial T] [Serial (Version T)] [Serial (StableId T)] in
theorem InMemoryEntityRepo.shows_run (hids : Set.InjOn (rawId : StableId T → RawBytes 60) ids)
    (calls : List (RepoCall T)) (hcalls : ∀ c ∈ calls, ∀ id ∈ c.names, id ∈ ids) :
    (EntityRepo.run (InMemoryEntityRepo.new : InMemoryEntityRepo T) calls).Shows ids
      (View.run calls) := by
  induction calls using List.reverseRecOn with
  | nil => exact InMemoryEntityRepo.shows_new
  | append_singleton calls c ih =>
    have hbefore := ih fun c' hc' => hcalls c' (List.mem_append_left _ hc')
    rw [View.run_append, EntityRepo.run, List.foldl_append]
    exact hbefore.call hids c (hcalls c (by simp))

omit [RawStableId T] in
theorem EntityRepoRocksDB.shows_run (calls : List (RepoCall T)) :
    (EntityRepo.run EntityRepoRocksDB.new calls : EntityRepoRocksDB).Shows (View.run calls) := by
  induction calls using List.reverseRecOn with
  | nil => exact EntityRepoRocksDB.shows_new
  | append_singleton calls c ih =>
    rw [View.run_append, EntityRepo.run, List.foldl_append]
    exact ih.call c

/-- The two stores give the same answers. -/
def AnswerAlike (calls : List (RepoCall T)) : Prop :=
  ∀ pre c, pre ++ [c] <+: calls →
    EntityRepo.answer (EntityRepo.run (InMemoryEntityRepo.new : InMemoryEntityRepo T) pre) c =
      EntityRepo.answer (EntityRepo.run EntityRepoRocksDB.new pre) c

/-- The two stores give the same answers exactly if all that is read is in use. -/
theorem answer_alike_iff (calls : List (RepoCall T)) (hids : DistinctIds calls) :
    AnswerAlike calls ↔ ∀ pre c, pre ++ [c] <+: calls → (View.run pre).Current c := by
  have hstep : ∀ pre c, pre ++ [c] <+: calls →
      (EntityRepo.answer (EntityRepo.run (InMemoryEntityRepo.new : InMemoryEntityRepo T) pre) c =
        EntityRepo.answer (EntityRepo.run EntityRepoRocksDB.new pre) c ↔
        (View.run pre).Current c) := by
    intro pre c hpre
    refine answer_eq_iff (InMemoryEntityRepo.shows_run hids pre ?_)
      (EntityRepoRocksDB.shows_run pre) (View.wf_run pre) c ?_
    · intro c' hc' id hid
      exact ⟨c', hpre.subset (List.mem_append_left _ hc'), hid⟩
    · intro id hid
      exact ⟨c, hpre.subset (by simp), hid⟩
  constructor
  · intro h pre c hpre
    exact (hstep pre c hpre).mp (h pre c hpre)
  · intro h pre c hpre
    exact (hstep pre c hpre).mpr (h pre c hpre)

end

/-! ### Entities of which one store keeps more than the other -/

structure TestEntity where
  tokenId : UInt8
  boxId : UInt8
deriving DecidableEq

instance : EntitySnapshot TestEntity where
  StableId := UInt8
  decEqId := inferInstance
  stableId := TestEntity.tokenId
  Version := UInt8
  decEqVersion := inferInstance
  version := TestEntity.boxId
  isQuasiPermanent _ := true

instance : RawStableId TestEntity :=
  ⟨fun id => ⟨0 :: (show UInt8 from id) :: List.replicate 58 0, rfl⟩⟩

instance : Serial UInt8 where
  serialize b := [b]
  deserialize bs := bs.head?
  deserialize_serialize _ := rfl

instance : Serial (Version TestEntity) := inferInstanceAs (Serial UInt8)

instance : Serial (StableId TestEntity) := inferInstanceAs (Serial UInt8)

instance : Serial TestEntity where
  serialize e := [e.tokenId, e.boxId]
  deserialize
    | [tokenId, boxId] => some ⟨tokenId, boxId⟩
    | _ => none
  deserialize_serialize _ := rfl

theorem TestEntity.distinctIds (calls : List (RepoCall TestEntity)) : DistinctIds calls := by
  intro id _ id' _ h
  have hbytes := congrArg Subtype.val h
  exact (List.cons.inj (List.cons.inj hbytes).2).1

def sampleBox : TestEntity := ⟨1, 5⟩

def sampleSuccessor : TestEntity := ⟨1, 6⟩

def sampleCalls : List (RepoCall TestEntity) :=
  [.putConfirmed sampleBox, .putPredicted sampleSuccessor (some (5 : UInt8)),
    .getLastPredicted (1 : UInt8), .invalidate (6 : UInt8) (1 : UInt8),
    .getLastPredicted (1 : UInt8), .getLastConfirmed (1 : UInt8)]

instance (view : View TestEntity) (c : RepoCall TestEntity) : Decidable (view.Current c) := by
  cases c <;> unfold View.Current <;> infer_instance

theorem answer_alike_sample : AnswerAlike sampleCalls := by
  refine (answer_alike_iff sampleCalls (TestEntity.distinctIds sampleCalls)).mpr ?_
  intro pre c hpre
  obtain ⟨k, rfl, rfl⟩ := exists_take_of_snoc hpre
  clear hpre
  revert k
  decide +kernel

/-- A prediction without a predecessor, one that was dropped, and a state that was eliminated. -/
theorem answers_differ :
    ¬ AnswerAlike ([.putPredicted sampleBox none, .getLastPredicted (1 : UInt8)] :
      List (RepoCall TestEntity)) ∧
    ¬ AnswerAlike ([.putPredicted sampleBox (some (4 : UInt8)), .invalidate (9 : UInt8) (1 : UInt8),
      .getLastPredicted (1 : UInt8)] : List (RepoCall TestEntity)) ∧
    ¬ AnswerAlike ([.putConfirmed sampleBox, .eliminate sampleBox, .getState (5 : UInt8)] :
      List (RepoCall TestEntity)) := by
  refine ⟨?_, ?_, ?_⟩
  · intro h
    have heq := RepoAnswer.entity.inj (h [.putPredicted sampleBox none] _ List.prefix_rfl)
    revert heq
    decide +kernel
  · intro h
    have heq := RepoAnswer.entity.inj (h [.putPredicted sampleBox (some (4 : UInt8)),
      .invalidate (9 : UInt8) (1 : UInt8)] _ List.prefix_rfl)
    revert heq
    decide +kernel
  · intro h
    have heq := RepoAnswer.entity.inj
      (h [.putConfirmed sampleBox, .eliminate sampleBox] _ List.prefix_rfl)
    revert heq
    decide +kernel

end UtxoMonitor.BoxResolver
