import UtxoMonitor.EventSink.Transitions
import UtxoMonitor.Lib.Custody
import UtxoMonitor.Lib.Runs
import UtxoMonitor.Orders.Limit

/-! Limit orders followed by the handler: whether one beacon can be carried by two unspent outputs. -/
namespace UtxoMonitor.EventSink

open Lib LiquidityBook Domain Orders

/-! ### Orders as entities -/

/-- An entity with the version it was read at. -/
structure Baked (T V : Type) where
  entity : T
  version : V
deriving DecidableEq

instance : LedgerEntity (Baked Orders.LimitOrder OutputRef) where
  StableId := Token
  decEqId := inferInstance
  stableId order := order.entity.stableId
  Version := OutputRef
  decEqVersion := inferInstance
  version := Baked.version
  isQuasiPermanent _ := false
  PairId := Orders.PairId
  decEqPairId := inferInstance
  pairId order := order.entity.pairId
  versionOf := id

/-- `LimitOrder` with the reference of its output -/
abbrev OrderAt := Baked Orders.LimitOrder OutputRef

def EventContext.orderContext (ctx : EventContext Token) : OrderContext :=
  ⟨ctx.outputRef, ctx.consumedUtxos, ctx.consumedIdentifiers⟩

/-- How orders are serialized, and the configuration they are read with. -/
class OrderReading extends Serialization where
  config : LimitOrderConfig

/-- A reading that panics reads nothing. -/
instance [OrderReading] : TryFromLedger OrderAt (StableId OrderAt) where
  tryFromLedger repr ctx :=
    match LimitOrder.tryFromLedger OrderReading.config repr
      (EventContext.orderContext (ctx : EventContext Token)) with
    | .ok (some order) => some ⟨order, ctx.outputRef⟩
    | _ => none

/-! ### Transactions applied one after the other -/

section Beacons

variable [OrderReading]

/-- A transaction of a block, and how the handler goes about it. -/
structure Application where
  moment : Moment Token Orders.PairId
  tx : TxViewMut
  slot : Slot
  blockNumber : UInt64
  blockHash : BlockHeaderHash

/-- The index beside all outputs accepted as orders, with their beacons, and all outputs spent. -/
structure BeaconHistory where
  index : InMemoryEntityIndex OrderAt
  accepted : List (OutputRef × PolicyId)
  spent : List OutputRef

namespace BeaconHistory

def new (evictionDelay : Nat) : BeaconHistory := ⟨.new evictionDelay, [], []⟩

def apply (s : BeaconHistory) (a : Application) : BeaconHistory where
  index := (PairUpdateHandler.tryHandleLedger a.moment s.index
    (.txApplied a.tx a.slot a.blockNumber a.blockHash)).index
  accepted := s.accepted ++ (recognised (T := OrderAt) a.moment s.index a.tx).map fun order =>
    (order.version, order.entity.beacon)
  spent := s.spent ++ a.tx.consumedUtxos

def run (evictionDelay : Nat) (txs : List Application) : BeaconHistory :=
  txs.foldl apply (new evictionDelay)

def Accepted (s : BeaconHistory) (o : OutputRef) (beacon : PolicyId) : Prop :=
  (o, beacon) ∈ s.accepted

/-- The order is in the index. -/
def Indexed (s : BeaconHistory) (o : OutputRef) (beacon : PolicyId) : Prop :=
  ∃ order : OrderAt, s.index.getState o = some order ∧ order.entity.beacon = beacon

/-- Of the outputs that hold a beacon at most one is unspent. -/
def Unique (s : BeaconHistory) (Holds : OutputRef → PolicyId → Prop) : Prop :=
  ∀ o o' beacon, Holds o beacon → Holds o' beacon → o ∉ s.spent → o' ∉ s.spent → o = o'

/-- A transaction spends what was not spent before, and makes what is not spent yet. -/
def Valid (s : BeaconHistory) (a : Application) : Prop :=
  (∀ o ∈ a.tx.consumedUtxos, o ∉ s.spent) ∧
    ∀ out ∈ a.tx.outputs, a.tx.refOf out ∉ s.spent ++ a.tx.consumedUtxos

instance (s : BeaconHistory) (a : Application) : Decidable (s.Valid a) :=
  inferInstanceAs (Decidable (_ ∧ _))

instance (s : BeaconHistory) (o : OutputRef) (beacon : PolicyId) :
    Decidable (s.Accepted o beacon) :=
  inferInstanceAs (Decidable (_ ∈ _))

end BeaconHistory

/-! ### Orders that are carried on -/

/-- The identifiers of the entities that a transaction consumes, as its outputs are read. -/
def Application.consumedIdentifiers (a : Application) (index : InMemoryEntityIndex OrderAt) :
    SmallVec Token :=
  .new (a.moment.consumed.order (consumedEntities index a.tx.inputs).keys)

/-- The output stands at the address of orders with a datum that an order can be made of, and its
beacon is the one of exactly one consumed order. -/
def Continues (a : Application) (index : InMemoryEntityIndex OrderAt)
    (out : UInt64 × Pools.TransactionOutput) (beacon : PolicyId) : Prop :=
  ((a.consumedIdentifiers index).count fun b => b.policyId = beacon) = 1 ∧
  Pools.testAddress out.2.address OrderReading.config.limitOrder ∧
  ∃ conf, out.2.intoPd.bind Datum.tryFromPd = some conf ∧ conf.beacon = beacon ∧
    LimitOrder.WellFormed OrderReading.config out.2 conf .subsequent

/-- No two outputs of the transaction carry on one beacon. -/
def OneHeir (s : BeaconHistory) (a : Application) : Prop :=
  ∀ out ∈ a.tx.outputs, ∀ out' ∈ a.tx.outputs, ∀ beacon,
    Continues a s.index out beacon → Continues a s.index out' beacon → out.1 = out'.1

/-- What the beacons of the outputs of some transactions may be digests of. -/
def hashed (txs : List Application) : List Bytes :=
  txs.flatMap fun a => a.tx.consumedUtxos.flatMap fun o => a.tx.outputs.filterMap fun out =>
    out.2.intoPd.map fun datum =>
      beaconPreimage o (datumHash datum DatumMapping.beacon) out.1

/-- No two of the messages have one digest. -/
def CollisionFree (messages : List Bytes) : Prop :=
  ∀ message ∈ messages, ∀ message' ∈ messages,
    Serialization.blake2b224 message = Serialization.blake2b224 message' → message = message'

instance (messages : List Bytes) : Decidable (CollisionFree messages) :=
  inferInstanceAs (Decidable (∀ message ∈ messages, _))

/-! ### What is read of an output -/

variable {index : InMemoryEntityIndex OrderAt} {a : Application} {s : BeaconHistory}
  {out : UInt64 × Pools.TransactionOutput} {order : OrderAt} {beacon : PolicyId}
  {txs : List Application}

/-- What the output is read with, whatever was read before. -/
def Application.orderContext (a : Application) (index : InMemoryEntityIndex OrderAt)
    (out : UInt64 × Pools.TransactionOutput) : OrderContext :=
  ⟨a.tx.refOf out, .new a.tx.consumedUtxos, a.consumedIdentifiers index⟩

theorem readEntity_eq_some {produced : AList fun _ : StableId OrderAt => OrderAt} :
    readEntity a.moment index a.tx out produced = some order ↔
      LimitOrder.tryFromLedger OrderReading.config out.2 (a.orderContext index out) =
        .ok (some order.entity) ∧ a.tx.refOf out = order.version := by
  have hread : readEntity a.moment index a.tx out produced =
      match LimitOrder.tryFromLedger OrderReading.config out.2 (a.orderContext index out) with
      | .ok (some order) => some ⟨order, a.tx.refOf out⟩
      | _ => none := rfl
  rw [hread]
  cases hledger : LimitOrder.tryFromLedger OrderReading.config out.2 (a.orderContext index out) with
  | error e => simp
  | ok outcome =>
    cases outcome with
    | none => simp
    | some entity =>
      obtain ⟨entity', version⟩ := order
      simp

/-- The beacon is the digest of an output that the transaction spends. -/
def FreshBeacon (a : Application) (out : UInt64 × Pools.TransactionOutput) (beacon : PolicyId) :
    Prop :=
  ∃ o ∈ a.tx.consumedUtxos, ∃ datum, out.2.intoPd = some datum ∧
    beaconFromOref o (datumHash datum DatumMapping.beacon) out.1 = beacon

/-- An order is carried on, or it is new and carries on none. -/
theorem of_recognised (h : order ∈ recognised a.moment index a.tx) :
    ∃ out ∈ a.tx.outputs, a.tx.refOf out = order.version ∧
      (Continues a index out order.entity.beacon ∨
        FreshBeacon a out order.entity.beacon ∧
          ((a.consumedIdentifiers index).count fun b => b.policyId = order.entity.beacon) ≠ 1) := by
  obtain ⟨out, hout, produced, hread⟩ := read_of_mem_recognised h
  obtain ⟨hledger, hversion⟩ := readEntity_eq_some.mp hread
  obtain ⟨haddr, datum, conf, hdatum, hconf, hmade⟩ := tryFromLedger_eq_ok_some.mp hledger
  obtain ⟨hstate, hbeacon⟩ := ofDatum_spec hmade
  refine ⟨out, hout, hversion, ?_⟩
  rw [hbeacon]
  obtain ⟨state, hstate⟩ := Option.isSome_iff_exists.mp hstate
  rw [hstate] at hmade
  cases state with
  | subsequent =>
    refine Or.inl ⟨orderState_subsequent.mp hstate, haddr, conf, ?_, rfl, ?_⟩
    · rw [hdatum]
      exact hconf
    · exact exists_ofDatum.mp ⟨_, hmade⟩
  | new =>
    obtain ⟨⟨o, ho, hdigest⟩, hcount⟩ := of_orderState_new hstate
    exact Or.inr ⟨⟨o, List.mem_of_mem_take ho, datum, hdatum, hdigest⟩, hcount⟩

/-- What continues an order is recognised. -/
theorem recognised_of_continues (hout : out ∈ a.tx.outputs) (h : Continues a index out beacon) :
    ∃ order ∈ recognised a.moment index a.tx,
      order.version = a.tx.refOf out ∧ order.entity.beacon = beacon := by
  obtain ⟨hcount, haddr, conf, hconf, rfl, hmade⟩ := h
  obtain ⟨datum, hdatum, hconf⟩ := Option.bind_eq_some_iff.mp hconf
  obtain ⟨order, horder⟩ := exists_ofDatum.mpr hmade
  have hstate : orderState conf.beacon datum DatumMapping.beacon (a.orderContext index out) =
      some .subsequent := orderState_subsequent.mpr hcount
  refine ⟨⟨order, a.tx.refOf out⟩, ?_, rfl, (ofDatum_spec horder).2⟩
  apply mem_recognised_of_read hout
  intro produced
  rw [readEntity_eq_some, tryFromLedger_eq_ok_some]
  exact ⟨⟨haddr, datum, conf, hdatum, hconf, by rw [hstate]; exact horder⟩, rfl⟩

omit [OrderReading] in
/-- A beacon that is consumed is the one of an indexed order that is spent. -/
theorem spent_of_count
    (h : ((a.consumedIdentifiers index).count fun b => b.policyId = beacon) = 1) :
    ∃ o ∈ a.tx.consumedUtxos, ∃ order : OrderAt,
      index.getState o = some order ∧ order.entity.beacon = beacon := by
  have hpos : 0 < (a.consumedIdentifiers index).val.countP fun b => b.policyId = beacon := by
    rw [SmallVec.count] at h
    omega
  obtain ⟨token, htoken, hbeacon⟩ := List.countP_pos_iff.mp hpos
  have hkey : token ∈ consumedEntities index a.tx.inputs := by
    rw [AList.mem_keys]
    exact (a.moment.consumed.perm _).mem_iff.mp (List.mem_of_mem_take htoken)
  obtain ⟨order, horder⟩ := Option.isSome_iff_exists.mp (AList.lookup_isSome.mpr hkey)
  rw [consumedEntities_eq] at horder
  obtain ⟨hspent, rfl⟩ := of_lookup_collect horder
  obtain ⟨i, hi, hstate⟩ := List.mem_filterMap.mp hspent
  exact ⟨OutputRef.ofInput i, List.mem_map_of_mem hi, order, hstate, of_decide_eq_true hbeacon⟩

/-! ### Runs -/

/-- The beacon is a digest of the output, of those that are taken. -/
def Born (txs : List Application) (o : OutputRef) (beacon : PolicyId) : Prop :=
  ∃ hash ix, beaconPreimage o hash ix ∈ hashed txs ∧ beaconFromOref o hash ix = beacon

theorem hashed_of_output {o : OutputRef} {datum : PlutusData} (ha : a ∈ txs)
    (ho : o ∈ a.tx.consumedUtxos) (hout : out ∈ a.tx.outputs) (hdatum : out.2.intoPd = some datum) :
    beaconPreimage o (datumHash datum DatumMapping.beacon) out.1 ∈ hashed txs :=
  List.mem_flatMap.mpr ⟨a, ha, List.mem_flatMap.mpr ⟨o, ho, List.mem_filterMap.mpr
    ⟨out, hout, by rw [hdatum, Option.map_some]⟩⟩⟩

/-- Without collisions a beacon says of which output it is a digest, and where the order stood. -/
theorem born_inj (hfree : CollisionFree (hashed txs)) {o o' : OutputRef}
    {hash hash' : RawBytes 28} {ix ix' : UInt64} (h : beaconPreimage o hash ix ∈ hashed txs)
    (h' : beaconPreimage o' hash' ix' ∈ hashed txs)
    (heq : beaconFromOref o hash ix = beaconFromOref o' hash' ix') : o = o' ∧ ix = ix' :=
  beaconPreimage_inj (hfree _ h _ h' heq)

/-- Beacons come from what the transaction spends. -/
theorem source_of_recognised (ha : a ∈ txs) (h : order ∈ recognised a.moment s.index a.tx) :
    ∃ o ∈ a.tx.consumedUtxos,
      Born txs o order.entity.beacon ∨ s.Indexed o order.entity.beacon := by
  obtain ⟨out, hout, _, hcontinues | ⟨⟨o, ho, datum, hdatum, hdigest⟩, _⟩⟩ := of_recognised h
  · obtain ⟨o, ho, hindexed⟩ := spent_of_count hcontinues.1
    exact ⟨o, ho, Or.inr hindexed⟩
  · exact ⟨o, ho, Or.inl ⟨_, _, hashed_of_output ha ho hout hdatum, hdigest⟩⟩

/-- Two outputs get one beacon only if both carry it on. -/
theorem eq_of_recognised (hfree : CollisionFree (hashed txs)) (ha : a ∈ txs)
    (hheir : OneHeir s a) {order' : OrderAt} (h : order ∈ recognised a.moment s.index a.tx)
    (h' : order' ∈ recognised a.moment s.index a.tx)
    (heq : order.entity.beacon = order'.entity.beacon) : order.version = order'.version := by
  obtain ⟨out, hout, hversion, hcase⟩ := of_recognised h
  obtain ⟨out', hout', hversion', hcase'⟩ := of_recognised h'
  have hix : out.1 = out'.1 := by
    rw [← heq] at hcase'
    rcases hcase with hcontinues | ⟨⟨o, ho, datum, hdatum, hdigest⟩, hcount⟩
    · rcases hcase' with hcontinues' | ⟨_, hcount'⟩
      · exact hheir out hout out' hout' _ hcontinues hcontinues'
      · exact absurd hcontinues.1 hcount'
    · rcases hcase' with hcontinues' | ⟨⟨o', ho', datum', hdatum', hdigest'⟩, _⟩
      · exact absurd hcontinues'.1 hcount
      · exact (born_inj hfree (hashed_of_output ha ho hout hdatum)
          (hashed_of_output ha ho' hout' hdatum') (hdigest.trans hdigest'.symm)).2
  rw [← hversion, ← hversion', TxViewMut.refOf, TxViewMut.refOf, hix]

namespace BeaconHistory

theorem accepted_apply {o : OutputRef} : (s.apply a).Accepted o beacon ↔ s.Accepted o beacon ∨
    ∃ order ∈ recognised a.moment s.index a.tx, order.version = o ∧ order.entity.beacon = beacon := by
  simp [Accepted, apply]

theorem spent_apply {o : OutputRef} : o ∈ (s.apply a).spent ↔ o ∈ s.spent ∨ o ∈ a.tx.consumedUtxos :=
  List.mem_append

theorem indexed_apply {o : OutputRef} (h : (s.apply a).Indexed o beacon) : s.Indexed o beacon ∨
    ∃ order, (collect stableId (recognised a.moment s.index a.tx)).lookup (stableId order) =
      some order ∧ order.version = o ∧ order.entity.beacon = beacon := by
  obtain ⟨order, horder, hbeacon⟩ := h
  rcases of_getState_applied horder with hold | hnew
  · exact Or.inl ⟨order, hold, hbeacon⟩
  · exact Or.inr ⟨order, hnew, InMemoryEntityIndex.version_of_getState horder, hbeacon⟩

/-- What a run keeps whatever the transactions are. -/
structure Tracked (txs : List Application) (s : BeaconHistory) : Prop where
  custody : Custody (Born txs) s.Indexed (· ∈ s.spent)
  accepted : ∀ {o beacon}, s.Indexed o beacon → s.Accepted o beacon

theorem tracked_apply (hfree : CollisionFree (hashed txs)) (ha : a ∈ txs)
    (hvalid : s.Valid a) (h : s.Tracked txs) : (s.apply a).Tracked txs where
  custody := by
    refine h.custody.step ?_ (fun ho => hvalid.1 _ ho) ?_ ?_ indexed_apply spent_apply
    · rintro o o' b ⟨hash, ix, hmem, rfl⟩ ⟨hash', ix', hmem', heq⟩
      exact (born_inj hfree hmem hmem' heq.symm).1
    · rintro o b ⟨order, horder, rfl, rfl⟩
      exact source_of_recognised ha (of_lookup_collect horder).1
    · -- The index takes one order for each stable id.
      rintro o o' b ⟨order, horder, rfl, rfl⟩ ⟨order', horder', rfl, hbeacon⟩
      have hid : stableId order' = stableId order := congrArg (Token.mk · .zero) hbeacon
      rw [hid, horder] at horder'
      cases horder'
      rfl
  accepted := by
    intro o beacon hindexed
    rw [accepted_apply]
    rcases indexed_apply hindexed with hold | ⟨order, horder, hversion, hbeacon⟩
    · exact Or.inl (h.accepted hold)
    · exact Or.inr ⟨order, (of_lookup_collect horder).1, hversion, hbeacon⟩

theorem custody_apply (hfree : CollisionFree (hashed txs)) (ha : a ∈ txs)
    (hvalid : s.Valid a) (htracked : s.Tracked txs) (hheir : OneHeir s a)
    (h : Custody (Born txs) s.Accepted (· ∈ s.spent)) :
    Custody (Born txs) (s.apply a).Accepted (· ∈ (s.apply a).spent) := by
  refine h.step ?_ (fun ho => hvalid.1 _ ho) ?_ ?_ accepted_apply.mp spent_apply
  · rintro o o' b ⟨hash, ix, hmem, rfl⟩ ⟨hash', ix', hmem', heq⟩
    exact (born_inj hfree hmem hmem' heq.symm).1
  · rintro o b ⟨order, horder, rfl, rfl⟩
    obtain ⟨o, ho, hborn | hindexed⟩ := source_of_recognised ha horder
    · exact ⟨o, ho, Or.inl hborn⟩
    · exact ⟨o, ho, Or.inr (htracked.accepted hindexed)⟩
  · rintro o o' b ⟨order, horder, rfl, rfl⟩ ⟨order', horder', rfl, hbeacon⟩
    exact eq_of_recognised hfree ha hheir horder horder' hbeacon.symm

/-- Two outputs that carry on one beacon are both accepted. -/
theorem oneHeir_of_unique (hvalid : s.Valid a) (h : (s.apply a).Unique (s.apply a).Accepted) :
    OneHeir s a := by
  intro out hout out' hout' beacon hcontinues hcontinues'
  have hheld : ∀ out ∈ a.tx.outputs, Continues a s.index out beacon →
      (s.apply a).Accepted (a.tx.refOf out) beacon ∧ a.tx.refOf out ∉ (s.apply a).spent := by
    intro out hout hcontinues
    obtain ⟨order, horder, hversion, hbeacon⟩ := recognised_of_continues hout hcontinues
    exact ⟨accepted_apply.mpr (Or.inr ⟨order, horder, hversion, hbeacon⟩), hvalid.2 out hout⟩
  obtain ⟨haccepted, hunspent⟩ := hheld out hout hcontinues
  obtain ⟨haccepted', hunspent'⟩ := hheld out' hout' hcontinues'
  exact congrArg OutputRef.index (h _ _ beacon haccepted haccepted' hunspent hunspent')

/-- What comes before a run of valid transactions keeps what is kept. -/
theorem tracked_run {evictionDelay : Nat} (hfree : CollisionFree (hashed txs))
    (hvalid : ∀ pre a, pre ++ [a] <+: txs → (run evictionDelay pre).Valid a) :
    ∀ pre, pre <+: txs → (run evictionDelay pre).Tracked txs := by
  intro pre
  induction pre using List.reverseRecOn with
  | nil =>
    intro _
    have hnone : ∀ o beacon, ¬ (run evictionDelay []).Indexed o beacon := by
      rintro o beacon ⟨order, horder, _⟩
      cases horder
    exact ⟨⟨fun h => absurd h (hnone _ _), fun h => absurd h (hnone _ _)⟩,
      fun h => absurd h (hnone _ _)⟩
  | append_singleton pre a ih =>
    intro hpre
    have hbefore := ih ((List.prefix_append pre [a]).trans hpre)
    have ha : a ∈ txs := hpre.subset (List.mem_append_right _ List.mem_cons_self)
    rw [run, List.foldl_append]
    exact tracked_apply hfree ha (hvalid pre a hpre) hbefore

theorem custody_run {evictionDelay : Nat} (hfree : CollisionFree (hashed txs))
    (hvalid : ∀ pre a, pre ++ [a] <+: txs → (run evictionDelay pre).Valid a)
    (hheir : ∀ pre a, pre ++ [a] <+: txs → OneHeir (run evictionDelay pre) a) :
    ∀ pre, pre <+: txs → Custody (Born txs) (run evictionDelay pre).Accepted
      (· ∈ (run evictionDelay pre).spent) := by
  intro pre
  induction pre using List.reverseRecOn with
  | nil =>
    intro _
    exact ⟨fun h => (by cases h), fun h => (by cases h)⟩
  | append_singleton pre a ih =>
    intro hpre
    have hbefore := (List.prefix_append pre [a]).trans hpre
    have ha : a ∈ txs := hpre.subset (List.mem_append_right _ List.mem_cons_self)
    have htracked := tracked_run hfree hvalid pre hbefore
    have hcustody := ih hbefore
    rw [run, List.foldl_append]
    exact custody_apply hfree ha (hvalid pre a hpre) htracked (hheir pre a hpre) hcustody

end BeaconHistory

open BeaconHistory in
/-- The index never holds a beacon twice. Outputs are accepted with one beacon at a time exactly if
no transaction has two outputs that carry on one beacon. -/
theorem beacons_unique {evictionDelay : Nat} {txs : List Application}
    (hvalid : ∀ pre a, pre ++ [a] <+: txs → (run evictionDelay pre).Valid a)
    (hfree : CollisionFree (hashed txs)) :
    (∀ pre, pre <+: txs → (run evictionDelay pre).Unique (run evictionDelay pre).Indexed) ∧
    ((∀ pre, pre <+: txs → (run evictionDelay pre).Unique (run evictionDelay pre).Accepted) ↔
      ∀ pre a, pre ++ [a] <+: txs → OneHeir (run evictionDelay pre) a) := by
  refine ⟨?_, ?_, ?_⟩
  · intro pre hpre o o' beacon ho ho'
    exact (tracked_run hfree hvalid pre hpre).custody.alone ho ho'
  · intro hunique pre a hpre
    have hafter := hunique (pre ++ [a]) hpre
    rw [run, List.foldl_append] at hafter
    exact oneHeir_of_unique (hvalid pre a hpre) hafter
  · intro hheir pre hpre o o' beacon ho ho'
    exact (custody_run hfree hvalid hheir pre hpre).alone ho ho'

end Beacons

/-! ### Orders with their digests -/

def sampleOrderDatum (beacon : PolicyId) : PlutusData :=
  .constr 0 [
    .bytes [0],
    .bytes beacon.toRawBytes,
    .constr 0 [.bytes [], .bytes []],
    .integer 10000000,
    .integer 500000,
    .integer 10000000,
    (Pools.sampleToken 2).intoPd,
    .constr 0 [.integer 1, .integer 1],
    .integer 500000,
    PlutusAddress.intoPd ⟨.pubKey (.replicate 7), some ⟨.pubKey (.replicate 8)⟩⟩,
    .bytes (List.replicate 28 7),
    .list [.bytes (List.replicate 28 9)]]

def sampleErased : RawBytes 28 :=
  ⟨[108, 72, 92, 220, 30, 205, 252, 251, 2, 205, 203, 8, 192, 154, 155, 26, 82, 8, 25, 131, 27,
    19, 92, 222, 23, 59, 174, 28], rfl⟩

def sampleBeacon : PolicyId :=
  ⟨[109, 26, 105, 179, 88, 110, 34, 81, 166, 158, 100, 42, 218, 131, 149, 107, 250, 203, 176, 163,
    169, 142, 160, 133, 55, 81, 247, 189], rfl⟩

def sampleBeaconDigest (message : Bytes) : RawBytes 28 :=
  if message = beaconPreimage ⟨.replicate 1, 0⟩ sampleErased 0 then sampleBeacon
  else if message = beaconPreimage ⟨.replicate 2, 0⟩ sampleErased 0 then
    ⟨[152, 62, 7, 48, 187, 255, 131, 245, 224, 205, 9, 173, 6, 20, 133, 58, 68, 71, 121, 35, 137,
      42, 62, 3, 124, 34, 142, 194], rfl⟩
  else if message = beaconPreimage ⟨.replicate 2, 0⟩ sampleErased 1 then
    ⟨[80, 233, 53, 25, 14, 236, 53, 72, 7, 221, 201, 44, 209, 93, 66, 244, 247, 49, 177, 93, 215,
      58, 47, 30, 72, 114, 161, 230], rfl⟩
  else sampleErased

@[reducible] def sampleReading : OrderReading where
  toCborBytes := indefiniteCbor
  blake2b224 := sampleBeaconDigest
  config := ⟨.replicate 9, ⟨.replicate 100, ⟨0, 0⟩⟩, ⟨300000, 500000⟩⟩

/-- A transaction that spends the first output of another and has some outputs with one order. -/
def sampleOrderTx (hash spends : UInt8) (outputs : List UInt64) : Application where
  moment := ⟨0, default, default, default, default⟩
  tx := {
    hash := .replicate hash
    inputs := [⟨.replicate spends, 0⟩]
    outputs := outputs.map fun ix => (ix, {
      address := .enterprise (.script (.replicate 100))
      value := .ofTokens 12500000 []
      datum := some (.datum (sampleOrderDatum sampleBeacon)) })
    mints := none
    signers := [] }
  slot := 1
  blockNumber := 1
  blockHash := .replicate 0

/-- An order is made, and carried on by each of the given outputs. -/
def carriedOn (outputs : List UInt64) : List Application :=
  [sampleOrderTx 2 1 [0], sampleOrderTx 3 2 outputs]

theorem valid_carried_on (outputs : List UInt64) (houtputs : outputs ∈ [[0], [0, 1]]) :
    ∀ pre a, pre ++ [a] <+: carriedOn outputs →
      (@BeaconHistory.run sampleReading 300 pre).Valid a := by
  intro pre a hpre
  obtain ⟨k, rfl, rfl⟩ := exists_take_of_snoc hpre
  have hvalid : ∀ outputs ∈ [[0], [0, 1]], ∀ k : Fin (carriedOn outputs).length,
      (@BeaconHistory.run sampleReading 300 ((carriedOn outputs).take k)).Valid
        (carriedOn outputs)[k] := by
    decide +kernel
  exact hvalid outputs houtputs k

theorem collision_free_carried_on (outputs : List UInt64) (houtputs : outputs ∈ [[0], [0, 1]]) :
    @CollisionFree sampleReading
      (@hashed sampleReading (carriedOn outputs)) := by
  have hfree : ∀ outputs ∈ [[0], [0, 1]], @CollisionFree sampleReading
      (@hashed sampleReading (carriedOn outputs)) := by
    decide +kernel
  exact hfree outputs houtputs

theorem beacons_unique_carried_on :
    (@BeaconHistory.run sampleReading 300 (carriedOn [0])).Unique
      (@BeaconHistory.run sampleReading 300 (carriedOn [0])).Accepted := by
  have hvalid := valid_carried_on [0] (by decide)
  have hfree := collision_free_carried_on [0] (by decide)
  refine (@beacons_unique sampleReading 300 (carriedOn [0]) hvalid hfree).2.mpr ?_ _
    List.prefix_rfl
  intro pre a hpre out hout out' hout' beacon _ _
  have hfirst : ∀ a ∈ carriedOn [0], ∀ out ∈ a.tx.outputs, out.1 = 0 := by
    intro a ha out hout
    rcases List.mem_cons.mp ha with rfl | ha
    · cases List.mem_singleton.mp hout
      rfl
    · cases List.mem_singleton.mp ha
      cases List.mem_singleton.mp hout
      rfl
  have ha : a ∈ carriedOn [0] := hpre.subset (List.mem_append_right _ List.mem_cons_self)
  rw [hfirst a ha out hout, hfirst a ha out' hout']

/-- Nothing is said against a second output that carries on a beacon. -/
theorem two_orders_with_one_beacon :
    ¬ ∀ [OrderReading] (evictionDelay : Nat) (txs : List Application),
      (∀ pre a, pre ++ [a] <+: txs → (BeaconHistory.run evictionDelay pre).Valid a) →
      CollisionFree (hashed txs) → ∀ pre, pre <+: txs →
        (BeaconHistory.run evictionDelay pre).Unique
          (BeaconHistory.run evictionDelay pre).Accepted := by
  intro h
  have hvalid := valid_carried_on [0, 1] (by decide)
  have hfree := collision_free_carried_on [0, 1] (by decide)
  have hunique := @h sampleReading 300 (carriedOn [0, 1]) hvalid hfree _ List.prefix_rfl
  have heq := hunique ⟨.replicate 3, 0⟩ ⟨.replicate 3, 1⟩ sampleBeacon (by decide +kernel)
    (by decide +kernel) (by decide +kernel) (by decide +kernel)
  exact absurd (congrArg OutputRef.index heq) (by decide)

end UtxoMonitor.EventSink
