import UtxoMonitor.EventSink.Chain

/-! Whether a chain of handlers reports everything that a transaction spends. -/
namespace UtxoMonitor.EventSink

open Lib LiquidityBook Domain

/-! ### What is reported -/

/-- What a transition says was spent, or brought back. -/
def consumedBy {T : Type} : Transition T → Option T
  | .forward xa => xa.fst
  | .backward xa => xa.snd

def eliminatedBy {O : Type} : Bool → OrderUpdate O → Option O
  | false, .eliminated o => some o
  | true, .created o => some o
  | _, _ => none

def boxConsumedBy : Bool → Nat × FundingEvent → Option (Nat × FinalizedTxOut)
  | false, (part, .consumed utxo) => some (part, utxo)
  | true, (part, .produced utxo) => some (part, utxo)
  | _, _ => none

namespace Turn

/-- What the handler indexes. -/
def Item : Turn → Type
  | pairUpdate T _ _ => T
  | specialized O _ _ _ _ _ => O
  | funding _ _ _ _ _ => Nat × FinalizedTxOut
  | forwardWith => Empty

/-- What is indexed of the outputs that inputs refer to. -/
def spent (t : Turn) (inputs : List TransactionInput) : List t.Item :=
  match t with
  | pairUpdate T _ index => (EventSink.spent index inputs : List T)
  | specialized O Pool _ _ _ index => (spentOrders Pool index inputs : List O)
  | funding _ _ _ _ index => spentBoxes index inputs
  | forwardWith => []

/-- What a message says was spent, or brought back if the event undoes a transaction. -/
def reports (t : Turn) (undoes : Bool) (msg : t.Message) : Option t.Item :=
  match t with
  | pairUpdate _ _ _ => consumedBy msg.2.erased
  | specialized _ _ _ _ _ _ => eliminatedBy undoes msg.2.erased
  | funding _ _ _ _ _ => boxConsumedBy undoes msg
  | forwardWith => none

/-- What the messages sent say was spent, one by one. -/
def reported (t : Turn) : Option SinkEvent → List t.Item
  | none => []
  | some ev => (t.tryHandle ev).1.filterMap (t.reports ev.undoes)

/-- What is spent has ids of its own, and pools whose pair is known. -/
def Apart (t : Turn) (inputs : List TransactionInput) : Prop :=
  match t with
  | pairUpdate _ _ index => ((EventSink.spent index inputs).map stableId).Nodup
  | specialized _ Pool _ _ poolIndex index =>
    ((spentOrders Pool index inputs).map (getSelfRef Pool)).Nodup ∧
      ∀ o ∈ spentOrders Pool index inputs, (poolIndex.pairOf (getPoolRef Pool o)).isSome
  | funding _ _ _ _ _ => True
  | forwardWith => True

/-- Nothing is spent; or the event gets to the handler with an output left, and what is spent is
apart. -/
def Able (t : Turn) (inputs : List TransactionInput) (given : Option SinkEvent) : Prop :=
  t.spent inputs = [] ∨ ∃ ev, given = some ev ∧ ev.tx.outputs ≠ [] ∧ t.Apart inputs

end Turn

/-! ### One handler -/

section Continuous

variable {T : Type} [LedgerEntity T] [TryFromLedger T (StableId T)]
  {m : Moment (StableId T) (PairId T)} {index : InMemoryEntityIndex T} {tx : TxViewMut}

theorem filterMap_fst_found (hout : tx.outputs ≠ []) :
    ((found m index tx).filterMap Ior.fst).Perm (spent index tx.inputs) ↔
      ((spent index tx.inputs).map stableId).Nodup := by
  rw [found, if_neg (by simpa using hout), List.filterMap_filterMap]
  have hfst : ∀ k, ((Ior.tryFrom ((collect stableId (spent index tx.inputs)).lookup k)
      ((collect stableId (recognised m index tx)).lookup k)).bind Ior.fst) =
        (collect stableId (spent index tx.inputs)).lookup k := by
    intro k
    cases (collect stableId (spent index tx.inputs)).lookup k <;>
      cases (collect stableId (recognised m index tx)).lookup k <;> rfl
  simp only [hfst]
  apply perm_lookups_iff
  · exact (m.recognised.perm _).nodup_iff.mpr (List.nodup_dedup _)
  · intro k hk
    rw [(m.recognised.perm _).mem_iff, List.mem_dedup]
    exact List.mem_append_left _ (AList.mem_keys.mp hk)

/-- Messages about transitions report the entities on their left. -/
theorem reported_sent {upd : Ior T T → PairUpdate T}
    (h : ∀ tr, consumedBy (upd tr).2.erased = tr.fst) :
    ((batchSend m.pairs ((found m index tx).map upd)).filterMap
      fun msg => consumedBy msg.2.erased).Perm ((found m index tx).filterMap Ior.fst) := by
  have hperm := (perm_batchSend m.pairs ((found m index tx).map upd)).filterMap
    fun msg => consumedBy msg.2.erased
  rw [List.filterMap_map] at hperm
  simpa only [Function.comp_def, h] using hperm

end Continuous

theorem pairUpdate_reported (T : Type) [LedgerEntity T] [TryFromLedger T (StableId T)]
    (m : Moment (StableId T) (PairId T)) (index : InMemoryEntityIndex T) (ev : SinkEvent) :
    ((Turn.pairUpdate T m index).reported (some ev)).Perm
      ((found m index ev.tx).filterMap Ior.fst) := by
  cases ev with
  | ledger ev =>
    cases ev with
    | txApplied tx slot blockNumber blockHash =>
      simp only [Turn.reported, Turn.tryHandle, PairUpdateHandler.tryHandleLedger, commit_extract]
      exact reported_sent (T := T) fun tr => rfl
    | txUnapplied tx slot blockNumber blockHash =>
      simp only [Turn.reported, Turn.tryHandle, PairUpdateHandler.tryHandleLedger, commit_extract]
      exact reported_sent (T := T) fun tr => tr.snd_swap
  | mempool ev =>
    cases ev with
    | txAccepted tx =>
      simp only [Turn.reported, Turn.tryHandle, PairUpdateHandler.tryHandleMempool, commit_extract]
      exact reported_sent (T := T) fun tr => rfl
    | txDropped tx =>
      simp only [Turn.reported, Turn.tryHandle, PairUpdateHandler.tryHandleMempool, commit_extract]
      exact reported_sent (T := T) fun tr => tr.snd_swap

section Specialized

variable {O : Type} (Pool : Type) {K : Type} [LedgerEntity Pool] [SpecializedOrder O Pool]
  [TryFromLedger O K] {m : OrderMoment (TOrderId O Pool) (PairId Pool)}
  {poolIndex : InMemoryEntityIndex Pool} {index : InMemoryKvIndex (TOrderId O Pool) O}
  {tx : TxViewMut}

variable (K m index tx) in
/-- The transitions of orders found. -/
def foundOrders : List (O ⊕ O) :=
  match extractAtomicTransitions Pool K m index tx with
  | .ok (transitions, _) => transitions
  | .error _ => []

theorem filterMap_foundOrders (hout : tx.outputs ≠ []) :
    ∃ ks : List (TOrderId O Pool), ks.Nodup ∧
      (∀ k ∈ collect (getSelfRef Pool) (spentOrders Pool index tx.inputs), k ∈ ks) ∧
      (foundOrders Pool K m index tx).filterMap Sum.getLeft? = ks.filterMap fun k =>
        (collect (getSelfRef Pool) (spentOrders Pool index tx.inputs)).lookup k := by
  rw [foundOrders, extractAtomicTransitions, if_neg (by simpa using hout)]
  dsimp only
  generalize popOutputs _ _ tx.outputs = popped
  generalize hks : m.recognised.order ((collect (getSelfRef Pool)
    (spentOrders Pool index tx.inputs)).keys ++ popped.1.keys).dedup = ks
  have hmem : ∀ k, k ∈ ks ↔
      k ∈ (collect (getSelfRef Pool) (spentOrders Pool index tx.inputs)).keys ∨
        k ∈ popped.1.keys := by
    intro k
    rw [← hks, (m.recognised.perm _).mem_iff, List.mem_dedup, List.mem_append]
  refine ⟨ks, ?_, fun k hk => (hmem k).mpr (Or.inl (AList.mem_keys.mp hk)), ?_⟩
  · rw [← hks]
    exact (m.recognised.perm _).nodup_iff.mpr (List.nodup_dedup _)
  · split
    · rename_i heq
      split at heq
      · cases heq
      · cases heq
        rw [List.filterMap_filterMap]
        apply List.filterMap_congr
        intro k _
        cases (collect (getSelfRef Pool) (spentOrders Pool index tx.inputs)).lookup k <;>
          cases popped.1.lookup k <;> rfl
    · rename_i heq
      split at heq
      · rename_i hnone
        rw [List.isEmpty_iff] at hnone
        have hbind := congrArg (List.filterMap Sum.getLeft?) hnone
        rw [List.filterMap_filterMap] at hbind
        refine hbind.symm.trans (List.filterMap_congr ?_)
        intro k _
        cases (collect (getSelfRef Pool) (spentOrders Pool index tx.inputs)).lookup k <;>
          cases popped.1.lookup k <;> rfl
      · cases heq

/-- Of the orders spent, those whose pool has a known pair. -/
theorem reported_atomic {E : Type} {inverse : O ⊕ O → O ⊕ O}
    {upd : OrderUpdate O → Channel (OrderUpdate O) LedgerCx} {back : TxViewMut → E} {undoes : Bool}
    (h : ∀ tr, eliminatedBy undoes (upd (.from (inverse tr))).erased = tr.getLeft?) :
    ((commitAtomic Pool m poolIndex index inverse upd back
        (extractAtomicTransitions Pool K m index tx)).sent.filterMap
      fun msg => eliminatedBy undoes msg.2.erased).Perm
    (((foundOrders Pool K m index tx).filterMap Sum.getLeft?).filter
      fun o => (poolIndex.pairOf (getPoolRef Pool o)).isSome) := by
  rw [foundOrders]
  cases hextract : extractAtomicTransitions Pool K m index tx with
  | error tx => exact List.Perm.refl []
  | ok found =>
    obtain ⟨transitions, tx⟩ := found
    refine ((perm_batchSend m.pairs _).filterMap _).trans (List.Perm.of_eq ?_)
    rw [List.filterMap_map, List.filterMap_filterMap, List.filter_filterMap]
    apply List.filterMap_congr
    intro tr _
    have htr := h tr
    cases tr with
    | inl o =>
      cases hpair : poolIndex.pairOf (getPoolRef Pool o) with
      | none => simp [poolRefOf, hpair, Option.filter]
      | some pair => simpa [poolRefOf, hpair, Option.filter] using htr
    | inr o =>
      cases hpair : poolIndex.pairOf (getPoolRef Pool o) with
      | none => simp [poolRefOf, hpair]
      | some pair => simpa [poolRefOf, hpair] using htr

theorem specialized_reported (K : Type) [TryFromLedger O K]
    (m : OrderMoment (TOrderId O Pool) (PairId Pool)) (poolIndex : InMemoryEntityIndex Pool)
    (index : InMemoryKvIndex (TOrderId O Pool) O) (ev : SinkEvent) :
    @List.Perm O ((Turn.specialized O Pool K m poolIndex index).reported (some ev))
      (((foundOrders Pool K m index ev.tx).filterMap Sum.getLeft?).filter
        fun o => (poolIndex.pairOf (getPoolRef Pool o)).isSome) := by
  have happlied : ∀ tr : O ⊕ O, eliminatedBy false (.from tr) = tr.getLeft? := by
    intro tr
    cases tr <;> rfl
  have hundone : ∀ tr : O ⊕ O, eliminatedBy true (.from tr.swap) = tr.getLeft? := by
    intro tr
    cases tr <;> rfl
  cases ev with
  | ledger ev =>
    cases ev with
    | txApplied tx slot blockNumber blockHash => exact reported_atomic (O := O) Pool happlied
    | txUnapplied tx slot blockNumber blockHash => exact reported_atomic (O := O) Pool hundone
  | mempool ev =>
    cases ev with
    | txAccepted tx => exact reported_atomic (O := O) Pool happlied
    | txDropped tx => exact reported_atomic (O := O) Pool hundone

theorem perm_known_iff {values reported : List O} {known : O → Bool}
    (h : ∀ o ∈ reported, o ∈ values) :
    (reported.filter known).Perm values ↔
      reported.Perm values ∧ ∀ o ∈ values, known o = true := by
  constructor
  · intro hperm
    have hknown : ∀ o ∈ values, known o = true := by
      intro o ho
      exact (List.mem_filter.mp (hperm.mem_iff.mpr ho)).2
    have hall : reported.filter known = reported :=
      List.filter_eq_self.mpr fun o ho => hknown o (h o ho)
    rw [hall] at hperm
    exact ⟨hperm, hknown⟩
  · rintro ⟨hperm, hknown⟩
    rw [List.filter_eq_self.mpr fun o ho => hknown o (h o ho)]
    exact hperm

theorem specialized_complete_iff {ev : SinkEvent} (hout : ev.tx.outputs ≠ []) :
    @List.Perm O ((Turn.specialized O Pool K m poolIndex index).reported (some ev))
        (spentOrders Pool index ev.tx.inputs) ↔
      ((spentOrders Pool index ev.tx.inputs).map (getSelfRef Pool)).Nodup ∧
        ∀ o ∈ spentOrders Pool index ev.tx.inputs, (poolIndex.pairOf (getPoolRef Pool o)).isSome := by
  obtain ⟨ks, hnodup, hall, hfound⟩ := filterMap_foundOrders (K := K) (m := m) Pool hout
  have hreported := specialized_reported Pool K m poolIndex index ev
  rw [hfound] at hreported
  refine hreported.congr_left _ |>.trans ((perm_known_iff ?_).trans ?_)
  · intro o ho
    obtain ⟨k, _, hlookup⟩ := List.mem_filterMap.mp ho
    exact (of_lookup_collect hlookup).1
  · rw [perm_lookups_iff hnodup hall]

end Specialized

theorem reported_funding {E : Type} {now : Nat} {parts : Walk Nat} {fundingAddresses : List Address}
    {skipSet : OutputRef} {index : FundingIndex} {tx : TxViewMut}
    {inverse : FundingEvent → FundingEvent} {back : TxViewMut → E} {undoes : Bool}
    (hconsumed : ∀ pt utxo, boxConsumedBy undoes (pt, inverse (.consumed utxo)) = some (pt, utxo))
    (hproduced : ∀ pt utxo, boxConsumedBy undoes (pt, inverse (.produced utxo)) = none)
    (hout : tx.outputs ≠ []) :
    ((commitFunding now parts index inverse back
        (extractFundingEvents fundingAddresses skipSet index tx)).sent.filterMap
      (boxConsumedBy undoes)).Perm (spentBoxes index tx.inputs) := by
  rw [extractFundingEvents, if_neg (by simpa using hout)]
  dsimp only
  generalize popOutputs _ _ tx.outputs = popped
  split
  · rename_i hnone
    rw [List.isEmpty_iff, List.append_eq_nil_iff, List.map_eq_nil_iff] at hnone
    rw [hnone.1]
    exact List.Perm.refl []
  · refine ((perm_batchSend parts _).filterMap _).trans (List.Perm.of_eq ?_)
    simp [List.filterMap_map, List.filterMap_append, Function.comp_def, hconsumed, hproduced]

theorem funding_reported {now : Nat} {parts : Walk Nat} {fundingAddresses : List Address}
    {skipSet : OutputRef} {index : FundingIndex} {ev : SinkEvent} (hout : ev.tx.outputs ≠ []) :
    @List.Perm (Nat × FinalizedTxOut)
      ((Turn.funding now parts fundingAddresses skipSet index).reported (some ev))
      (spentBoxes index ev.tx.inputs) := by
  cases ev with
  | ledger ev =>
    cases ev with
    | txApplied tx slot blockNumber blockHash =>
      exact reported_funding (fun pt utxo => rfl) (fun pt utxo => rfl) hout
    | txUnapplied tx slot blockNumber blockHash =>
      exact reported_funding (fun pt utxo => rfl) (fun pt utxo => rfl) hout
  | mempool ev =>
    cases ev with
    | txAccepted tx => exact reported_funding (fun pt utxo => rfl) (fun pt utxo => rfl) hout
    | txDropped tx => exact reported_funding (fun pt utxo => rfl) (fun pt utxo => rfl) hout

/-! ### Chains -/

theorem reported_of_no_outputs (t : Turn) {ev : SinkEvent} (hout : ev.tx.outputs = []) :
    t.reported (some ev) = [] := by
  cases t with
  | pairUpdate T m index =>
    have hreported := pairUpdate_reported T m index ev
    rw [found_eq_nil.mpr (Or.inl hout)] at hreported
    exact hreported.eq_nil
  | specialized O Pool K m poolIndex index =>
    have hnone : foundOrders Pool K m index ev.tx = [] := by
      rw [foundOrders, extractAtomicTransitions, if_pos (by rw [hout]; rfl)]
    have hreported := specialized_reported Pool K m poolIndex index ev
    rw [hnone] at hreported
    exact hreported.eq_nil
  | funding now parts fundingAddresses skipSet index =>
    have hnone : ∀ tx : TxViewMut, tx.outputs = [] →
        extractFundingEvents fundingAddresses skipSet index tx = .error tx := by
      intro tx htx
      rw [extractFundingEvents, if_pos (by rw [htx]; rfl)]
    cases ev with
    | ledger ev =>
      cases ev with
      | txApplied tx slot blockNumber blockHash =>
        simp only [Turn.reported, Turn.tryHandle, FundingEventHandler.tryHandle, hnone tx hout]
        rfl
      | txUnapplied tx slot blockNumber blockHash =>
        simp only [Turn.reported, Turn.tryHandle, FundingEventHandler.tryHandle, hnone tx hout]
        rfl
    | mempool ev =>
      cases ev with
      | txAccepted tx =>
        simp only [Turn.reported, Turn.tryHandle, FundingEventHandler.tryHandle, hnone tx hout]
        rfl
      | txDropped tx =>
        simp only [Turn.reported, Turn.tryHandle, FundingEventHandler.tryHandle, hnone tx hout]
        rfl
  | forwardWith => rfl

theorem complete_of_outputs (t : Turn) {ev : SinkEvent} (hout : ev.tx.outputs ≠ []) :
    (t.reported (some ev)).Perm (t.spent ev.tx.inputs) ↔ t.Apart ev.tx.inputs := by
  cases t with
  | pairUpdate T m index =>
    exact ((pairUpdate_reported T m index ev).congr_left _).trans (filterMap_fst_found (T := T) hout)
  | specialized O Pool K m poolIndex index => exact specialized_complete_iff (O := O) Pool hout
  | funding now parts fundingAddresses skipSet index =>
    exact iff_of_true (funding_reported hout) trivial
  | forwardWith => exact iff_of_true (List.Perm.refl []) trivial

theorem apart_of_spent_nil {t : Turn} {inputs : List TransactionInput} (h : t.spent inputs = []) :
    t.Apart inputs := by
  cases t with
  | pairUpdate T m index =>
    have hspent : spent index inputs = [] := h
    simp [Turn.Apart, hspent]
  | specialized O Pool K m poolIndex index =>
    have hspent : spentOrders Pool index inputs = [] := h
    simp [Turn.Apart, hspent]
  | funding now parts fundingAddresses skipSet index => trivial
  | forwardWith => trivial

theorem complete_iff (t : Turn) {given : Option SinkEvent} {inputs : List TransactionInput}
    (hinputs : ∀ ev, given = some ev → ev.tx.inputs = inputs) :
    (t.reported given).Perm (t.spent inputs) ↔ t.Able inputs given := by
  rw [Turn.Able]
  cases given with
  | none => simp [Turn.reported]
  | some ev =>
    obtain rfl := hinputs ev rfl
    by_cases hout : ev.tx.outputs = []
    · rw [reported_of_no_outputs t hout]
      simp [hout]
    · rw [complete_of_outputs t hout]
      constructor
      · intro h
        exact Or.inr ⟨ev, rfl, hout, h⟩
      · rintro (h | ⟨ev', hev', _, h⟩)
        · exact apart_of_spent_nil h
        · cases hev'
          exact h

section Inputs

variable {E : Type} {tx : TxViewMut} {ev : E}

theorem remainder_atomic {O : Type} (Pool K : Type) [LedgerEntity Pool] [SpecializedOrder O Pool]
    [TryFromLedger O K] {m : OrderMoment (TOrderId O Pool) (PairId Pool)}
    {poolIndex : InMemoryEntityIndex Pool} {index : InMemoryKvIndex (TOrderId O Pool) O}
    {inverse : O ⊕ O → O ⊕ O} {upd : OrderUpdate O → Channel (OrderUpdate O) LedgerCx}
    {back : TxViewMut → E} (h : (commitAtomic Pool m poolIndex index inverse upd back
      (extractAtomicTransitions Pool K m index tx)).remainder = some ev) :
    ∃ outputs, ev = back (tx.leave outputs) := by
  rw [extractAtomicTransitions] at h
  split at h
  · cases h
    exact ⟨tx.outputs, rfl⟩
  · dsimp only at h
    split at h
    · cases h
      exact ⟨_, rfl⟩
    · cases h
      exact ⟨_, rfl⟩

theorem remainder_funding {now : Nat} {parts : Walk Nat} {fundingAddresses : List Address}
    {skipSet : OutputRef} {index : FundingIndex} {inverse : FundingEvent → FundingEvent}
    {back : TxViewMut → E} (h : (commitFunding now parts index inverse back
      (extractFundingEvents fundingAddresses skipSet index tx)).remainder = some ev) :
    ∃ outputs, ev = back (tx.leave outputs) := by
  rw [extractFundingEvents] at h
  split at h
  · cases h
    exact ⟨tx.outputs, rfl⟩
  · dsimp only at h
    split at h
    · cases h
      exact ⟨_, rfl⟩
    · cases h
      exact ⟨_, rfl⟩

end Inputs

/-- An event that is passed on has lost outputs at most. -/
theorem inputs_tryHandle {t : Turn} {ev ev' : SinkEvent} (h : (t.tryHandle ev).2 = some ev') :
    ev'.tx.inputs = ev.tx.inputs := by
  cases t with
  | pairUpdate T m index =>
    cases ev with
    | ledger ev =>
      cases ev with
      | txApplied tx slot blockNumber blockHash =>
        simp only [Turn.tryHandle, PairUpdateHandler.tryHandleLedger, commit_extract] at h
        cases h
        rfl
      | txUnapplied tx slot blockNumber blockHash =>
        simp only [Turn.tryHandle, PairUpdateHandler.tryHandleLedger, commit_extract] at h
        cases h
        rfl
    | mempool ev =>
      cases ev with
      | txAccepted tx =>
        simp only [Turn.tryHandle, PairUpdateHandler.tryHandleMempool, commit_extract] at h
        cases h
        rfl
      | txDropped tx =>
        simp only [Turn.tryHandle, PairUpdateHandler.tryHandleMempool, commit_extract] at h
        cases h
        rfl
  | specialized O Pool K m poolIndex index =>
    cases ev with
    | ledger ev =>
      cases ev <;>
      · obtain ⟨outputs, rfl⟩ := remainder_atomic (O := O) Pool K h
        rfl
    | mempool ev =>
      cases ev <;>
      · obtain ⟨outputs, rfl⟩ := remainder_atomic (O := O) Pool K h
        rfl
  | funding now parts fundingAddresses skipSet index =>
    cases ev with
    | ledger ev =>
      cases ev <;>
      · obtain ⟨outputs, rfl⟩ := remainder_funding h
        rfl
    | mempool ev =>
      cases ev <;>
      · obtain ⟨outputs, rfl⟩ := remainder_funding h
        rfl
  | forwardWith => cases h

theorem inputs_processEvent {chain : List Turn} {given : Option SinkEvent}
    {inputs : List TransactionInput} (h : ∀ ev, given = some ev → ev.tx.inputs = inputs) :
    ∀ p ∈ processEvent given chain, ∀ ev, p.2 = some ev → ev.tx.inputs = inputs := by
  induction chain generalizing given with
  | nil => exact fun p hp => absurd hp List.not_mem_nil
  | cons han hans ih =>
    intro p hp
    rcases List.mem_cons.mp hp with rfl | hp
    · exact h
    · refine ih ?_ p hp
      intro ev hev
      obtain ⟨before, hbefore, hafter⟩ := Option.bind_eq_some_iff.mp hev
      rw [inputs_tryHandle hafter, h before hbefore]

/-- A chain of handlers reports each indexed thing that a transaction spends once, and nothing else,
exactly if each handler is able to. -/
theorem every_consumption_once_iff (chain : List Turn) (ev : SinkEvent) :
    (∀ p ∈ processEvent (some ev) chain, (p.1.reported p.2).Perm (p.1.spent ev.tx.inputs)) ↔
      ∀ p ∈ processEvent (some ev) chain, p.1.Able ev.tx.inputs p.2 := by
  have hinputs : ∀ p ∈ processEvent (some ev) chain, ∀ ev', p.2 = some ev' →
      ev'.tx.inputs = ev.tx.inputs := by
    apply inputs_processEvent
    intro ev' hev'
    cases hev'
    rfl
  constructor
  · intro h p hp
    exact (complete_iff p.1 (hinputs p hp)).mp (h p hp)
  · intro h p hp
    exact (complete_iff p.1 (hinputs p hp)).mpr (h p hp)

/-- A state that a transaction without outputs spends is reported by no one. -/
theorem spent_without_outputs :
    ¬ ∀ (chain : List Turn) (ev : SinkEvent), ∀ p ∈ processEvent (some ev) chain,
      (p.1.reported p.2).Perm (p.1.spent ev.tx.inputs) := by
  intro h
  let index : InMemoryEntityIndex TrivialEntity :=
    (InMemoryEntityIndex.new 300).putState ⟨⟨.replicate 1, 0⟩, 1000⟩
  let ev : SinkEvent := .ledger (.txApplied (sampleTx 2 1 []) 1 1 (.replicate 0))
  have hperm := h [.pairUpdate TrivialEntity (sampleMoment 1) index] ev _ List.mem_cons_self
  have hlength := hperm.length_eq
  rw [reported_of_no_outputs _ rfl] at hlength
  revert hlength
  decide +kernel

end UtxoMonitor.EventSink
