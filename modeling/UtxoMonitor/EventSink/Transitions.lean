import Mathlib.Data.List.Dedup
import Mathlib.Data.List.Induction
import UtxoMonitor.EventSink.Handler

/-! What a transaction does to the entities of an index: the entities it spends and makes, and the
transitions found from them. -/
namespace UtxoMonitor.EventSink

open Lib LiquidityBook Domain

/-! ### Loops over outputs -/

section Outputs

variable {S S' : Type} {read : UInt64 × Pools.TransactionOutput → S → Option S}
  {read' : UInt64 × Pools.TransactionOutput → S' → Option S'} {init : S}
  {outputs : List (UInt64 × Pools.TransactionOutput)}

theorem popOutputs_cons (out : UInt64 × Pools.TransactionOutput) :
    popOutputs read init (out :: outputs) =
      match read out (popOutputs read init outputs).1 with
      | some s => (s, (popOutputs read init outputs).2)
      | none => ((popOutputs read init outputs).1, out :: (popOutputs read init outputs).2) := by
  rfl

/-- A loop may keep its state in another form. -/
theorem popOutputs_map (f : S → S') (init : S) (h : ∀ out s, read' out (f s) = (read out s).map f) :
    popOutputs read' (f init) outputs =
      (f (popOutputs read init outputs).1, (popOutputs read init outputs).2) := by
  induction outputs with
  | nil => rfl
  | cons out outputs ih =>
    rw [popOutputs_cons, popOutputs_cons, ih]
    simp only [h]
    cases read out (popOutputs read init outputs).1 with
    | none => rfl
    | some s => rfl

/-- What each step of a loop keeps holds when it ends. -/
theorem popOutputs_inv (P : S → Prop) (hinit : P init)
    (h : ∀ out ∈ outputs, ∀ s s', P s → read out s = some s' → P s') :
    P (popOutputs read init outputs).1 := by
  induction outputs with
  | nil => exact hinit
  | cons out outputs ih =>
    have hrest := ih fun out' hout' => h out' (List.mem_cons_of_mem _ hout')
    rw [popOutputs_cons]
    split
    · rename_i s hread
      exact h out List.mem_cons_self _ s hrest hread
    · exact hrest

/-- What one output brings about holds when the loop ends, if the others keep it. -/
theorem popOutputs_of_mem (P : S → Prop) {out : UInt64 × Pools.TransactionOutput}
    (hout : out ∈ outputs) (hread : ∀ s, ∃ s', read out s = some s' ∧ P s')
    (h : ∀ out ∈ outputs, ∀ s s', P s → read out s = some s' → P s') :
    P (popOutputs read init outputs).1 := by
  induction outputs with
  | nil => exact absurd hout List.not_mem_nil
  | cons first outputs ih =>
    have hkeep := h first List.mem_cons_self
    rw [popOutputs_cons]
    rcases List.mem_cons.mp hout with rfl | hout
    · obtain ⟨s', hs', hP⟩ := hread (popOutputs read init outputs).1
      rw [hs']
      exact hP
    · have hrest := ih hout fun out' hout' => h out' (List.mem_cons_of_mem _ hout')
      split
      · rename_i s hs
        exact hkeep _ s hrest hs
      · exact hrest

/-- The outputs left are those that are not read when their turn comes. -/
theorem popOutputs_snd : ∃ verdicts : List Bool, verdicts.length = outputs.length ∧
    (popOutputs read init outputs).2 =
      ((outputs.zip verdicts).filter fun p => !p.2).map Prod.fst ∧
    ∀ p ∈ outputs.zip verdicts, ∃ s, (read p.1 s).isSome = p.2 := by
  induction outputs with
  | nil => exact ⟨[], rfl, rfl, fun p hp => absurd hp List.not_mem_nil⟩
  | cons out outputs ih =>
    obtain ⟨verdicts, hlength, hrest, hread⟩ := ih
    refine ⟨(read out (popOutputs read init outputs).1).isSome :: verdicts, ?_, ?_, ?_⟩
    · rw [List.length_cons, List.length_cons, hlength]
    · rw [popOutputs_cons, List.zip_cons_cons]
      cases hout : read out (popOutputs read init outputs).1 with
      | none => simp [hrest]
      | some s => simp [hrest]
    · intro p hp
      rw [List.zip_cons_cons] at hp
      rcases List.mem_cons.mp hp with rfl | hp
      · exact ⟨_, rfl⟩
      · exact hread p hp

end Outputs

/-! ### Updates of pairs -/

section Batches

variable {P M : Type} [DecidableEq P]

theorem perm_flatMap_filter {pairs : List P} (hnodup : pairs.Nodup) {updates : List (P × M)}
    (h : ∀ upd ∈ updates, upd.1 ∈ pairs) :
    (pairs.flatMap fun pair => updates.filter fun upd => upd.1 = pair).Perm updates := by
  induction pairs generalizing updates with
  | nil =>
    cases updates with
    | nil => exact List.Perm.refl []
    | cons upd updates => exact absurd (h upd List.mem_cons_self) List.not_mem_nil
  | cons pair pairs ih =>
    rw [List.nodup_cons] at hnodup
    let others := updates.filter fun upd => !decide (upd.1 = pair)
    have hothers : ∀ upd ∈ others, upd.1 ∈ pairs := by
      intro upd hupd
      simp only [others, List.mem_filter, Bool.not_eq_true', decide_eq_false_iff_not] at hupd
      exact (List.mem_cons.mp (h upd hupd.1)).resolve_left hupd.2
    have hrest : (pairs.flatMap fun pair' => updates.filter fun upd => upd.1 = pair') =
        pairs.flatMap fun pair' => others.filter fun upd => upd.1 = pair' := by
      apply List.flatMap_congr
      intro pair' hpair'
      rw [List.filter_filter]
      apply List.filter_congr
      intro upd _
      by_cases heq : upd.1 = pair'
      · have hne : pair' ≠ pair := by
          rintro rfl
          exact hnodup.1 hpair'
        simp [heq, hne]
      · simp [heq]
    rw [List.flatMap_cons, hrest]
    exact ((ih hnodup.2 hothers).append_left _).trans (List.filter_append_perm _ updates)

theorem perm_batchSend (walk : Walk P) (updates : List (P × M)) :
    (batchSend walk updates).Perm updates := by
  have hnodup := (List.nodup_dedup (updates.map Prod.fst))
  apply perm_flatMap_filter ((walk.perm _).nodup_iff.mpr hnodup)
  intro upd hupd
  rw [(walk.perm _).mem_iff, List.mem_dedup]
  exact List.mem_map_of_mem hupd

end Batches

/-! ### What a transaction spends and makes -/

section Continuous

variable {T : Type} [LedgerEntity T]

/-- The indexed entities that inputs refer to, in the order of the inputs. -/
def spent (index : InMemoryEntityIndex T) (inputs : List TransactionInput) : List T :=
  inputs.filterMap fun i => index.getState (versionOf (OutputRef.ofInput i))

theorem consumedEntities_eq (index : InMemoryEntityIndex T) (inputs : List TransactionInput) :
    consumedEntities index inputs = collect stableId (spent index inputs) := by
  rw [consumedEntities, collect, spent, List.foldl_filterMap]
  congr 1
  funext consumed i
  dsimp only
  cases hstate : index.getState (versionOf (OutputRef.ofInput i)) with
  | none => simp
  | some entity => simp [InMemoryEntityIndex.exists_iff.mpr ⟨entity, hstate⟩]

variable [TryFromLedger T (StableId T)] {m : Moment (StableId T) (PairId T)}
  {index : InMemoryEntityIndex T} {tx : TxViewMut}

variable (m index tx) in
/-- The loop over outputs with the entities read so far in a list. -/
def readOutputs : List T × List (UInt64 × Pools.TransactionOutput) :=
  popOutputs (fun out entities =>
    (readEntity m index tx out (collect stableId entities)).map fun entity => entities ++ [entity]) []
    tx.outputs

variable (m index tx) in
/-- The entities read from outputs, the last output first. -/
def recognised : List T := (readOutputs m index tx).1

variable (m index tx) in
/-- The outputs no entity is read from. -/
def unread : List (UInt64 × Pools.TransactionOutput) := (readOutputs m index tx).2

theorem producedEntities_eq :
    producedEntities m index tx = (collect stableId (recognised m index tx), unread m index tx) := by
  apply popOutputs_map (collect stableId) []
  intro out entities
  cases readEntity m index tx out (collect stableId entities) with
  | none => rfl
  | some entity => simp [collect_snoc]

variable (m index tx) in
/-- The transitions found. -/
def found : List (Ior T T) :=
  if tx.outputs.length = 0 then [] else
    let consumed := collect stableId (spent index tx.inputs)
    let produced := collect stableId (recognised m index tx)
    (m.recognised.order (consumed.keys ++ produced.keys).dedup).filterMap fun k =>
      Ior.tryFrom (consumed.lookup k) (produced.lookup k)

variable (tx) in
/-- What is left of a transaction. -/
def TxViewMut.leave (outputs : List (UInt64 × Pools.TransactionOutput)) : TxViewMut :=
  { tx with outputs := outputs }

theorem unread_nil (h : tx.outputs.length = 0) : tx.leave (unread m index tx) = tx := by
  obtain ⟨hash, inputs, outputs, mints, signers⟩ := tx
  obtain rfl := List.length_eq_zero_iff.mp h
  rfl

theorem extract_eq : extractContinuousTransitions m index tx =
    if found m index tx = [] then .error (tx.leave (unread m index tx))
    else .ok (found m index tx, tx.leave (unread m index tx)) := by
  rw [extractContinuousTransitions, found]
  split
  · rename_i hlen
    rw [if_pos rfl, unread_nil hlen]
  · simp only [producedEntities_eq, consumedEntities_eq, List.isEmpty_iff]
    rfl

/-- Entities are read from outputs. -/
theorem read_of_mem_recognised {e : T} (h : e ∈ recognised m index tx) :
    ∃ out ∈ tx.outputs, ∃ produced, readEntity m index tx out produced = some e := by
  have hread : ∀ e ∈ recognised m index tx,
      ∃ out ∈ tx.outputs, ∃ produced, readEntity m index tx out produced = some e := by
    refine popOutputs_inv (fun entities : List T => ∀ e ∈ entities,
      ∃ out ∈ tx.outputs, ∃ produced, readEntity m index tx out produced = some e)
      (fun e he => absurd he List.not_mem_nil) ?_
    intro out hout entities entities' hentities hread e he
    obtain ⟨entity, hentity, rfl⟩ := Option.map_eq_some_iff.mp hread
    rcases List.mem_append.mp he with he | he
    · exact hentities e he
    · obtain rfl := List.mem_singleton.mp he
      exact ⟨out, hout, _, hentity⟩
  exact hread e h

/-- What is read from an output whatever has been read before is among the entities. -/
theorem mem_recognised_of_read {out : UInt64 × Pools.TransactionOutput} {e : T}
    (hout : out ∈ tx.outputs) (h : ∀ produced, readEntity m index tx out produced = some e) :
    e ∈ recognised m index tx := by
  refine popOutputs_of_mem (fun entities : List T => e ∈ entities) hout ?_ ?_
  · intro entities
    rw [h]
    exact ⟨entities ++ [e], rfl, List.mem_append_right _ List.mem_cons_self⟩
  · intro out' _ entities entities' he hread
    obtain ⟨entity, _, rfl⟩ := Option.map_eq_some_iff.mp hread
    exact List.mem_append_left _ he

/-- What the handler does, transitions or none. -/
theorem commit_extract {E : Type} {indexed : Ior T T → Ior T T} {upd : Ior T T → PairUpdate T}
    {back : TxViewMut → E} :
    commitTransitions m index indexed upd back (extractContinuousTransitions m index tx) = {
      index := if found m index tx = [] then index else
        ((found m index tx).map indexed).foldl (indexTransition m.now) (index.runEviction m.now)
      sent := batchSend m.pairs ((found m index tx).map upd)
      remainder := some (back (tx.leave (unread m index tx))) } := by
  rw [extract_eq]
  split
  · rename_i hnone
    have hsent : batchSend m.pairs ((found m index tx).map upd) = [] := by
      apply List.Perm.eq_nil
      rw [hnone]
      exact perm_batchSend m.pairs []
    rw [commitTransitions, hsent]
  · rfl

theorem mem_found {tr : Ior T T} : tr ∈ found m index tx ↔ tx.outputs ≠ [] ∧
    ∃ k, (collect stableId (spent index tx.inputs)).lookup k = tr.fst ∧
      (collect stableId (recognised m index tx)).lookup k = tr.snd := by
  rw [found]
  split
  · rename_i hlen
    simp [List.length_eq_zero_iff.mp hlen]
  · rename_i hlen
    simp only [List.mem_filterMap, Ior.tryFrom_eq_some, (m.recognised.perm _).mem_iff,
      List.mem_dedup, List.mem_append, ← AList.mem_keys, ← AList.lookup_isSome]
    constructor
    · rintro ⟨k, _, htr⟩
      exact ⟨fun hnil => hlen (by rw [hnil]; rfl), k, htr⟩
    · rintro ⟨_, k, hfst, hsnd⟩
      refine ⟨k, ?_, hfst, hsnd⟩
      rw [hfst, hsnd]
      cases tr <;> simp [Ior.fst, Ior.snd]

/-- A transition is found for every id of an entity that is spent or made. -/
theorem exists_found {k : StableId T} (hout : tx.outputs ≠ [])
    (h : ((collect stableId (spent index tx.inputs)).lookup k).isSome ∨
      ((collect stableId (recognised m index tx)).lookup k).isSome) :
    ∃ tr ∈ found m index tx, (collect stableId (spent index tx.inputs)).lookup k = tr.fst ∧
      (collect stableId (recognised m index tx)).lookup k = tr.snd := by
  obtain ⟨tr, htr⟩ := Option.isSome_iff_exists.mp (Ior.isSome_tryFrom.mpr h)
  obtain ⟨hfst, hsnd⟩ := Ior.tryFrom_eq_some.mp htr
  exact ⟨tr, mem_found.mpr ⟨hout, k, hfst, hsnd⟩, hfst, hsnd⟩

theorem exists_found_of_spent {e : T} (hout : tx.outputs ≠ []) (h : e ∈ spent index tx.inputs) :
    ∃ tr ∈ found m index tx, ∃ last ∈ spent index tx.inputs,
      tr.fst = some last ∧ stableId last = stableId e := by
  obtain ⟨last, hlast⟩ := lookup_collect_of_mem stableId h
  obtain ⟨hmem, hid⟩ := of_lookup_collect hlast
  obtain ⟨tr, htr, hfst, _⟩ := exists_found hout (Or.inl (Option.isSome_of_eq_some hlast))
  exact ⟨tr, htr, last, hmem, hfst.symm.trans hlast, hid⟩

theorem exists_found_of_recognised {e : T} (hout : tx.outputs ≠ [])
    (h : e ∈ recognised m index tx) :
    ∃ tr ∈ found m index tx, ∃ last ∈ recognised m index tx,
      tr.snd = some last ∧ stableId last = stableId e := by
  obtain ⟨last, hlast⟩ := lookup_collect_of_mem stableId h
  obtain ⟨hmem, hid⟩ := of_lookup_collect hlast
  obtain ⟨tr, htr, _, hsnd⟩ := exists_found hout (Or.inr (Option.isSome_of_eq_some hlast))
  exact ⟨tr, htr, last, hmem, hsnd.symm.trans hlast, hid⟩

theorem found_eq_nil : found m index tx = [] ↔
    tx.outputs = [] ∨ (spent index tx.inputs = [] ∧ recognised m index tx = []) := by
  rw [List.eq_nil_iff_forall_not_mem]
  constructor
  · intro h
    by_contra hnot
    rw [not_or, not_and_or] at hnot
    obtain ⟨hout, hsome⟩ := hnot
    rcases hsome with hsome | hsome
    · obtain ⟨e, he⟩ := List.exists_mem_of_ne_nil _ hsome
      obtain ⟨tr, htr, _⟩ := exists_found_of_spent hout he
      exact h tr htr
    · obtain ⟨e, he⟩ := List.exists_mem_of_ne_nil _ hsome
      obtain ⟨tr, htr, _⟩ := exists_found_of_recognised hout he
      exact h tr htr
  · rintro h tr htr
    obtain ⟨hout, k, hfst, hsnd⟩ := mem_found.mp htr
    rcases h with h | ⟨hspent, hmade⟩
    · exact hout h
    · rw [hspent] at hfst
      rw [hmade] at hsnd
      cases tr with
      | left consumed => cases hfst
      | right produced => cases hsnd
      | both consumed produced => cases hfst

/-! ### What the index has after a transaction -/

omit [TryFromLedger T (StableId T)] in
theorem of_getState_indexTransition {now : Nat} {tr : Ior T T} {ver : Version T} {e : T}
    (h : (indexTransition now index tr).getState ver = some e) :
    index.getState ver = some e ∨ tr.snd = some e := by
  have hput : ∀ (index' : InMemoryEntityIndex T) produced,
      (index'.putState produced).getState ver = some e →
      index'.getState ver = some e ∨ some produced = some e := by
    intro index' produced h
    rw [InMemoryEntityIndex.getState_putState] at h
    split at h
    · exact Or.inr h
    · exact Or.inl h
  cases tr with
  | left consumed => exact Or.inl h
  | right produced => exact hput index produced h
  | both consumed produced => exact hput _ produced h

omit [TryFromLedger T (StableId T)] in
theorem of_getState_foldl {now : Nat} {trs : List (Ior T T)} {ver : Version T} {e : T}
    (h : (trs.foldl (indexTransition now) index).getState ver = some e) :
    index.getState ver = some e ∨ ∃ tr ∈ trs, tr.snd = some e := by
  induction trs generalizing index with
  | nil => exact Or.inl h
  | cons tr trs ih =>
    rcases ih h with h | ⟨tr', htr', he⟩
    · rcases of_getState_indexTransition h with h | he
      · exact Or.inl h
      · exact Or.inr ⟨tr, List.mem_cons_self, he⟩
    · exact Or.inr ⟨tr', List.mem_cons_of_mem _ htr', he⟩

/-- Applying a transaction adds only what is recognised in it, one state for each stable id. -/
theorem of_getState_applied {slot : Slot} {blockNumber : UInt64} {blockHash : BlockHeaderHash}
    {ver : Version T} {e : T} (h : (PairUpdateHandler.tryHandleLedger m index
      (.txApplied tx slot blockNumber blockHash)).index.getState ver = some e) :
    index.getState ver = some e ∨
      (collect stableId (recognised m index tx)).lookup (stableId e) = some e := by
  simp only [PairUpdateHandler.tryHandleLedger, commit_extract] at h
  split at h
  · exact Or.inl h
  · rw [List.map_id] at h
    rcases of_getState_foldl h with h | ⟨tr, htr, he⟩
    · exact Or.inl (lookup_of_evict h)
    · obtain ⟨_, k, _, hsnd⟩ := mem_found.mp htr
      rw [he] at hsnd
      obtain rfl := (of_lookup_collect hsnd).2
      exact Or.inr hsnd

end Continuous

end UtxoMonitor.EventSink
