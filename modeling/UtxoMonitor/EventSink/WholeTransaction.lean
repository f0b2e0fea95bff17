import UtxoMonitor.EventSink.Beacons

/-! Whether the state of an order is decided on the whole transaction. -/
namespace UtxoMonitor.EventSink

open Lib LiquidityBook Domain Orders

theorem countP_eq_one_iff {A : Type} {xs : List A} (hnodup : xs.Nodup) (p : A → Prop)
    [DecidablePred p] : xs.countP (fun a => p a) = 1 ↔ ∃! a, a ∈ xs ∧ p a := by
  have hmem (a : A) : a ∈ xs.filter (fun a => p a) ↔ a ∈ xs ∧ p a := by
    rw [List.mem_filter, decide_eq_true_eq]
  rw [List.countP_eq_length_filter, List.length_eq_one_iff]
  constructor
  · rintro ⟨a, ha⟩
    simp only [ha, List.mem_singleton] at hmem
    exact ⟨a, (hmem a).mp rfl, fun b hb => (hmem b).mpr hb⟩
  · rintro ⟨a, ha, hunique⟩
    refine ⟨a, List.perm_singleton.mp ?_⟩
    apply (List.perm_ext_iff_of_nodup (hnodup.filter _) (List.nodup_singleton a)).mpr
    intro b
    rw [hmem, List.mem_singleton]
    constructor
    · exact hunique b
    · rintro rfl
      exact ha

section Decision

variable {T : Type} [LedgerEntity T]

/-- What the reading of an order looks at, of entities that are identified by tokens. -/
def orderContextOf (token : StableId T → Token) (ctx : EventContext (StableId T)) :
    OrderContext where
  outputRef := ctx.outputRef
  consumedInputs := ctx.consumedUtxos
  consumedIdentifiers := ⟨ctx.consumedIdentifiers.val.map token, by
    rw [List.length_map]
    exact ctx.consumedIdentifiers.property⟩

/-- An output of a transaction, as the handler comes to it. -/
structure Visit (T : Type) [LedgerEntity T] where
  token : StableId T → Token
  moment : Moment (StableId T) (PairId T)
  index : InMemoryEntityIndex T
  tx : TxViewMut
  out : UInt64 × Pools.TransactionOutput
  /-- The entities read from the outputs behind it. -/
  produced : AList fun _ : StableId T => T

variable [Serialization] (v : Visit T) (beacon : PolicyId) (datum : PlutusData)

def Visit.decision : Option OrderState :=
  orderState beacon datum DatumMapping.beacon
    (orderContextOf v.token (eventContext v.moment v.index v.tx v.out v.produced))

/-- The identifiers of all entities that the transaction consumes. -/
def Visit.identifiers : List (StableId T) :=
  v.moment.consumed.order (consumedEntities v.index v.tx.inputs).keys

/-- The beacon is made of the output reference and the place of the order. -/
def Visit.Fresh (o : OutputRef) : Prop :=
  beaconFromOref o (datumHash datum DatumMapping.beacon) v.out.1 = beacon

/-- One entity with the beacon is spent, and no other. -/
def Visit.OneConsumed : Prop :=
  ∃! id : StableId T, (∃ entity ∈ spent v.index v.tx.inputs, stableId entity = id) ∧
    (v.token id).policyId = beacon

/-- The order goes on if one entity with its beacon is spent, and is new if none is spent and its
beacon is made of one of the inputs. -/
structure Visit.SeesAll : Prop where
  subsequent : v.decision beacon datum = some .subsequent ↔ v.OneConsumed beacon
  new : v.decision beacon datum = some .new ↔
    ¬ v.OneConsumed beacon ∧ spent v.index v.tx.inputs = [] ∧
      ∃ o ∈ v.tx.consumedUtxos, v.Fresh beacon datum o

/-- Nothing depends on what comes after the first 32 identifiers and inputs. -/
structure Visit.WithinBounds : Prop where
  identifiers : (v.identifiers.take 32).countP (fun id => (v.token id).policyId = beacon) = 1 ↔
    v.identifiers.countP (fun id => (v.token id).policyId = beacon) = 1
  inputs : spent v.index v.tx.inputs = [] → (∃ o ∈ v.tx.consumedUtxos, v.Fresh beacon datum o) →
    ∃ o ∈ v.tx.consumedUtxos.take 32, v.Fresh beacon datum o

/-! ### What is counted, and what is spent -/

variable {v beacon datum}

omit [Serialization] in
theorem Visit.mem_identifiers {id : StableId T} :
    id ∈ v.identifiers ↔ ∃ entity ∈ spent v.index v.tx.inputs, stableId entity = id := by
  rw [Visit.identifiers, (v.moment.consumed.perm _).mem_iff, ← AList.mem_keys,
    consumedEntities_eq]
  constructor
  · intro hmem
    obtain ⟨entity, hentity⟩ := Option.isSome_iff_exists.mp (AList.lookup_isSome.mpr hmem)
    exact ⟨entity, of_lookup_collect hentity⟩
  · rintro ⟨entity, hentity, rfl⟩
    obtain ⟨last, hlast⟩ := lookup_collect_of_mem stableId hentity
    exact AList.lookup_isSome.mp (by rw [hlast]; rfl)

omit [Serialization] in
theorem Visit.identifiers_eq_nil : v.identifiers = [] ↔ spent v.index v.tx.inputs = [] := by
  simp only [List.eq_nil_iff_forall_not_mem, Visit.mem_identifiers]
  constructor
  · intro h entity hentity
    exact h (stableId entity) ⟨entity, hentity, rfl⟩
  · rintro h id ⟨entity, hentity, _⟩
    exact h entity hentity

omit [Serialization] in
theorem Visit.nodup_identifiers : v.identifiers.Nodup :=
  (v.moment.consumed.perm _).nodup_iff.mpr (AList.keys_nodup _)

omit [Serialization] in
theorem Visit.oneConsumed_iff : v.OneConsumed beacon ↔
    v.identifiers.countP (fun id => (v.token id).policyId = beacon) = 1 := by
  rw [Visit.OneConsumed, countP_eq_one_iff v.nodup_identifiers fun id => (v.token id).policyId = beacon]
  simp only [Visit.mem_identifiers]

/-! ### What is decided -/

theorem orderState_new {index : Nat} {ctx : OrderContext} :
    orderState beacon datum index ctx = some .new ↔
      ctx.consumedIdentifiers.count (fun b => b.policyId = beacon) ≠ 1 ∧
        ctx.consumedIdentifiers.isEmpty ∧ ctx.consumedInputs.exists_ fun o =>
          beaconFromOref o (datumHash datum index) ctx.outputRef.index = beacon := by
  rw [orderState]
  split
  · rename_i hcount
    simpa using fun h => absurd hcount h
  · rename_i hcount
    split
    · rename_i hfresh
      simpa using ⟨hcount, hfresh.2, hfresh.1⟩
    · rename_i hfresh
      simpa using fun _ hempty hbeacon => hfresh ⟨hbeacon, hempty⟩

theorem Visit.decision_subsequent : v.decision beacon datum = some .subsequent ↔
    (v.identifiers.take 32).countP (fun id => (v.token id).policyId = beacon) = 1 := by
  rw [Visit.decision, orderState_subsequent, SmallVec.count, orderContextOf, List.countP_map]
  rfl

theorem Visit.decision_new : v.decision beacon datum = some .new ↔
    (v.identifiers.take 32).countP (fun id => (v.token id).policyId = beacon) ≠ 1 ∧
      v.identifiers = [] ∧ ∃ o ∈ v.tx.consumedUtxos.take 32, v.Fresh beacon datum o := by
  have hcount : (orderContextOf v.token (eventContext v.moment v.index v.tx v.out
      v.produced)).consumedIdentifiers.count (fun b => b.policyId = beacon) =
        (v.identifiers.take 32).countP fun id => (v.token id).policyId = beacon :=
    List.countP_map
  have hempty : (orderContextOf v.token (eventContext v.moment v.index v.tx v.out
      v.produced)).consumedIdentifiers.isEmpty ↔ v.identifiers = [] := by
    have htake : ((v.identifiers.take 32).map v.token).isEmpty ↔ v.identifiers = [] := by
      simp [List.isEmpty_iff]
    exact htake
  have hfresh : ((orderContextOf v.token (eventContext v.moment v.index v.tx v.out
      v.produced)).consumedInputs.exists_ fun o => beaconFromOref o
        (datumHash datum DatumMapping.beacon) v.out.1 = beacon) ↔
          ∃ o ∈ v.tx.consumedUtxos.take 32, v.Fresh beacon datum o := by
    have hany : ((v.tx.consumedUtxos.take 32).any fun o => decide (beaconFromOref o
        (datumHash datum DatumMapping.beacon) v.out.1 = beacon)) ↔
          ∃ o ∈ v.tx.consumedUtxos.take 32, v.Fresh beacon datum o := by
      simp only [List.any_eq_true, decide_eq_true_eq, Visit.Fresh]
    exact hany
  rw [Visit.decision, orderState_new, hcount, hempty]
  exact and_congr_right fun _ => and_congr_right fun _ => hfresh

/-- The whole transaction is seen exactly if what the bounds cut off says nothing else. -/
theorem sees_all_iff (v : Visit T) (beacon : PolicyId) (datum : PlutusData) :
    v.SeesAll beacon datum ↔ v.WithinBounds beacon datum := by
  constructor
  · intro h
    have hone := v.decision_subsequent.symm.trans (h.subsequent.trans v.oneConsumed_iff)
    refine ⟨hone, ?_⟩
    intro hspent hfresh
    have hnone : ¬ v.OneConsumed beacon := by
      rw [v.oneConsumed_iff, v.identifiers_eq_nil.mpr hspent]
      simp
    exact (v.decision_new.mp (h.new.mpr ⟨hnone, hspent, hfresh⟩)).2.2
  · intro h
    refine ⟨v.decision_subsequent.trans (h.identifiers.trans v.oneConsumed_iff.symm), ?_⟩
    rw [v.decision_new, v.oneConsumed_iff, v.identifiers_eq_nil, ← h.identifiers]
    constructor
    · rintro ⟨hcount, hspent, o, ho, hfresh⟩
      exact ⟨hcount, hspent, o, List.mem_of_mem_take ho, hfresh⟩
    · rintro ⟨hcount, hspent, hfresh⟩
      exact ⟨hcount, hspent, h.inputs hspent hfresh⟩

omit [Serialization] in
theorem Visit.length_identifiers_le : v.identifiers.length ≤ v.tx.inputs.length := by
  have hsub : v.identifiers ⊆ (spent v.index v.tx.inputs).map stableId := by
    intro id hid
    obtain ⟨entity, hentity, rfl⟩ := Visit.mem_identifiers.mp hid
    exact List.mem_map_of_mem hentity
  have hle := (List.subperm_of_subset v.nodup_identifiers hsub).length_le
  rw [List.length_map] at hle
  exact hle.trans (List.length_filterMap_le _ _)

/-- The bounds cut nothing off a transaction with up to 32 inputs. -/
theorem Visit.withinBounds (h : v.tx.inputs.length ≤ 32) : v.WithinBounds beacon datum := by
  have hinputs : v.tx.consumedUtxos.take 32 = v.tx.consumedUtxos := by
    apply List.take_of_length_le
    rw [TxViewMut.consumedUtxos, List.length_map]
    exact h
  constructor
  · rw [List.take_of_length_le (v.length_identifiers_le.trans h)]
  · rw [hinputs]
    exact fun _ hfresh => hfresh

end Decision

/-! ### A transaction with more inputs -/

/-- A transaction that makes an order, with the beacon of its last input. -/
def manyInputs (others : Nat) : TxViewMut :=
  { (sampleOrderTx 2 1 [0]).tx with
    inputs := (List.range others).map (fun ix => ⟨.replicate 3, .ofNat ix⟩) ++ [⟨.replicate 1, 0⟩] }

def manyInputsVisit (others : Nat) : Visit OrderAt where
  token := id
  moment := ⟨0, default, default, default, default⟩
  index := .new 300
  tx := manyInputs others
  out := (sampleOrderTx 2 1 [0]).tx.outputs.get ⟨0, by decide⟩
  produced := ∅

/-- A new order is not seen to be one when the input of its beacon is the 33rd. -/
theorem last_input_unseen :
    ¬ @Visit.SeesAll OrderAt _ sampleReading.toSerialization (manyInputsVisit 32) sampleBeacon
      (sampleOrderDatum sampleBeacon) := by
  intro h
  have hspent : spent (manyInputsVisit 32).index (manyInputsVisit 32).tx.inputs = [] :=
    List.filterMap_eq_nil_iff.mpr fun i _ => rfl
  have hone : ¬ (manyInputsVisit 32).OneConsumed sampleBeacon := by
    rintro ⟨id, ⟨⟨entity, hentity, _⟩, _⟩, _⟩
    rw [hspent] at hentity
    exact absurd hentity List.not_mem_nil
  have hfresh : ∃ o ∈ (manyInputsVisit 32).tx.consumedUtxos,
      @Visit.Fresh OrderAt _ sampleReading.toSerialization (manyInputsVisit 32) sampleBeacon
        (sampleOrderDatum sampleBeacon) o :=
    ⟨⟨.replicate 1, 0⟩, by decide +kernel, by unfold Visit.Fresh; decide +kernel⟩
  have hnew := (@Visit.SeesAll.new OrderAt _ sampleReading.toSerialization _ _ _ h).mpr
    ⟨hone, hspent, hfresh⟩
  revert hnew
  decide +kernel

end UtxoMonitor.EventSink
