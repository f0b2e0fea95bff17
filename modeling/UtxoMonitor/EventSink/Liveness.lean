import UtxoMonitor.EventSink.Transitions
import UtxoMonitor.Lib.Runs

/-! Whether the index still has the states that no transaction has spent, however the ledger and the
mempool go back and forth. -/
namespace UtxoMonitor.EventSink

open Lib LiquidityBook Domain

section Liveness

variable {T : Type} [LedgerEntity T] [TryFromLedger T (StableId T)]

/-- An event, and when and how it is handled. -/
structure Occurrence (T : Type) [LedgerEntity T] where
  moment : Moment (StableId T) (PairId T)
  ev : SinkEvent

/-- What a source says about a transaction in effect: the versions it made and spent. -/
structure AppliedTx (T : Type) [LedgerEntity T] where
  source : Source
  hash : TransactionHash
  produced : List (Version T)
  consumed : List (Version T)

/-- The index beside the transactions in effect. -/
structure Followed (T : Type) [LedgerEntity T] where
  index : InMemoryEntityIndex T
  applied : List (AppliedTx T)

namespace Occurrence

variable (oc : Occurrence T) (index : InMemoryEntityIndex T)

def handled : InMemoryEntityIndex T :=
  match oc.ev with
  | .ledger ev => (PairUpdateHandler.tryHandleLedger oc.moment index ev).index
  | .mempool ev => (PairUpdateHandler.tryHandleMempool oc.moment index ev).index

/-- The entities the handler recognises among the outputs. -/
def made : List T := recognised oc.moment index oc.ev.tx

def inputVersions : List (Version T) :=
  oc.ev.tx.inputs.map fun i => versionOf (OutputRef.ofInput i)

/-- The entities the event is to store: what a transaction makes, or what it spent if the ledger
takes it back. -/
def toStore : List T :=
  if oc.ev.source = .ledger ∧ oc.ev.undoes then spent index oc.ev.tx.inputs else oc.made index

/-- The handler finds something in the transaction. -/
def Touches : Prop :=
  oc.ev.tx.outputs ≠ [] ∧ (spent index oc.ev.tx.inputs ≠ [] ∨ oc.made index ≠ [])

/-- The event stores the version, which shares its stable id with no other that is to be stored. -/
def Stores (ver : Version T) : Prop :=
  oc.ev.tx.outputs ≠ [] ∧ ∃ e ∈ oc.toStore index, version e = ver ∧
    ∀ e' ∈ oc.toStore index, stableId e' = stableId e → version e' = ver

instance (ver : Version T) : Decidable (oc.Stores index ver) :=
  inferInstanceAs (Decidable (_ ∧ ∃ e ∈ _, _))

instance : Decidable (oc.Touches index) := inferInstanceAs (Decidable (_ ∧ (_ ∨ _)))

end Occurrence

namespace Followed

def new (evictionDelay : Nat) : Followed T := ⟨.new evictionDelay, []⟩

def apply (s : Followed T) (oc : Occurrence T) : Followed T where
  index := oc.handled s.index
  applied :=
    if oc.ev.undoes then
      s.applied.filter fun a => ¬ (a.source = oc.ev.source ∧ a.hash = oc.ev.tx.hash)
    else {
      source := oc.ev.source
      hash := oc.ev.tx.hash
      produced := (oc.made s.index).map version
      consumed := oc.inputVersions } :: s.applied

def run (evictionDelay : Nat) (ocs : List (Occurrence T)) : Followed T :=
  ocs.foldl apply (new evictionDelay)

/-- The version was made by a transaction in effect, and spent by none. -/
def Live (s : Followed T) (ver : Version T) : Prop :=
  (∃ a ∈ s.applied, ver ∈ a.produced) ∧ ∀ a ∈ s.applied, ver ∉ a.consumed

instance (s : Followed T) (ver : Version T) : Decidable (s.Live ver) :=
  inferInstanceAs (Decidable ((∃ a ∈ s.applied, ver ∈ a.produced) ∧ _))

/-- Whatever is live after the event is stored by it, or stays: it was live before, or at least
indexed, and it is not due for eviction when eviction runs. -/
def Keeps (s : Followed T) (oc : Occurrence T) : Prop :=
  ∀ ver, (s.apply oc).Live ver → oc.Stores s.index ver ∨
    ((s.Live ver ∨ s.index.exists_ ver) ∧
      (s.index.Fresh oc.moment.now ver ∨ ¬ oc.Touches s.index))

theorem keeps_iff {s : Followed T} {oc : Occurrence T} :
    s.Keeps oc ↔ ∀ ver ∈ (s.apply oc).applied.flatMap AppliedTx.produced,
      (s.apply oc).Live ver → oc.Stores s.index ver ∨
        ((s.Live ver ∨ s.index.exists_ ver) ∧
          (s.index.Fresh oc.moment.now ver ∨ ¬ oc.Touches s.index)) := by
  constructor
  · intro h ver _
    exact h ver
  · intro h ver hlive
    obtain ⟨a, ha, hver⟩ := hlive.1
    exact h ver (List.mem_flatMap.mpr ⟨a, ha, hver⟩) hlive

instance (s : Followed T) (oc : Occurrence T) : Decidable (s.Keeps oc) :=
  decidable_of_iff _ keeps_iff.symm

/-- The versions that are live are indexed. -/
def Indexed (s : Followed T) : Prop :=
  ∀ ver, s.Live ver → ∃ e, s.index.getState ver = some e ∧ version e = ver

end Followed

/-! ### What an event leaves in the index -/

section Transitions

omit [TryFromLedger T (StableId T)]

variable {index : InMemoryEntityIndex T} {trs : List (Ior T T)} {ver : Version T} {now : Nat}

theorem indexed_mono (h : ∃ e, index.getState ver = some e) (tr : Ior T T) :
    ∃ e, (indexTransition now index tr).getState ver = some e := by
  have hput : ∀ (index : InMemoryEntityIndex T) produced, (∃ e, index.getState ver = some e) →
      ∃ e, (index.putState produced).getState ver = some e := by
    intro index produced h
    rw [InMemoryEntityIndex.getState_putState]
    split
    · exact ⟨produced, rfl⟩
    · exact h
  cases tr with
  | left consumed => exact h
  | right produced => exact hput index produced h
  | both consumed produced => exact hput _ produced h

theorem indexed_run_mono (h : ∃ e, index.getState ver = some e) :
    ∃ e, (trs.foldl (indexTransition now) index).getState ver = some e := by
  induction trs generalizing index with
  | nil => exact h
  | cons tr trs ih => exact ih (indexed_mono h tr)

theorem indexed_snd (index : InMemoryEntityIndex T) {tr : Ior T T} {produced : T} (htr : tr.snd = some produced) :
    ∃ e, (indexTransition now index tr).getState (version produced) = some e := by
  cases tr with
  | left consumed => cases htr
  | right p =>
    cases htr
    exact ⟨produced, by simp [indexTransition]⟩
  | both consumed p =>
    cases htr
    exact ⟨produced, by simp [indexTransition]⟩

theorem indexed_run_snd {tr : Ior T T} {produced : T} (hmem : tr ∈ trs)
    (htr : tr.snd = some produced) :
    ∃ e, (trs.foldl (indexTransition now) index).getState (version produced) = some e := by
  induction trs generalizing index with
  | nil => cases hmem
  | cons first trs ih =>
    rcases List.mem_cons.mp hmem with rfl | hmem
    · rw [List.foldl_cons]
      exact indexed_run_mono (indexed_snd index htr)
    · exact ih hmem

end Transitions

variable {oc : Occurrence T} {index : InMemoryEntityIndex T} {ver : Version T}

/-- The transitions that are indexed: the ones found, or their inverses. -/
def Occurrence.indexed (oc : Occurrence T) (index : InMemoryEntityIndex T) : List (Ior T T) :=
  (found oc.moment index oc.ev.tx).map
    (if oc.ev.source = .ledger ∧ oc.ev.undoes then Ior.swap else id)

theorem handled_eq : oc.handled index =
    if found oc.moment index oc.ev.tx = [] then index
    else (oc.indexed index).foldl (indexTransition oc.moment.now)
      (index.runEviction oc.moment.now) := by
  obtain ⟨m, ev⟩ := oc
  cases ev with
  | ledger ev =>
    cases ev with
    | txApplied tx slot blockNumber blockHash =>
      simp only [Occurrence.handled, PairUpdateHandler.tryHandleLedger, commit_extract]
      rfl
    | txUnapplied tx slot blockNumber blockHash =>
      simp only [Occurrence.handled, PairUpdateHandler.tryHandleLedger, commit_extract]
      rfl
  | mempool ev =>
    cases ev with
    | txAccepted tx =>
      simp only [Occurrence.handled, PairUpdateHandler.tryHandleMempool, commit_extract]
      rfl
    | txDropped tx =>
      simp only [Occurrence.handled, PairUpdateHandler.tryHandleMempool, commit_extract]
      rfl

theorem found_ne_nil_iff :
    found oc.moment index oc.ev.tx ≠ [] ↔ oc.Touches index := by
  rw [ne_eq, found_eq_nil, Occurrence.Touches, not_or, not_and_or]
  rfl

/-- Whatever is to be stored and alone under its stable id is in the transitions indexed. -/
theorem indexed_of_stores (h : oc.Stores index ver) :
    ∃ tr ∈ oc.indexed index, ∃ e, tr.snd = some e ∧ version e = ver := by
  obtain ⟨hout, e, hmem, rfl, halone⟩ := h
  rw [Occurrence.indexed]
  by_cases hback : oc.ev.source = .ledger ∧ oc.ev.undoes = true
  · rw [if_pos hback]
    rw [Occurrence.toStore, if_pos hback] at hmem halone
    obtain ⟨tr, htr, last, hlast, hfst, hid⟩ := exists_found_of_spent hout hmem
    refine ⟨tr.swap, List.mem_map_of_mem htr, last, ?_, halone last hlast hid⟩
    rw [Ior.snd_swap, hfst]
  · rw [if_neg hback, List.map_id]
    rw [Occurrence.toStore, if_neg hback] at hmem halone
    obtain ⟨tr, htr, last, hlast, hsnd, hid⟩ := exists_found_of_recognised hout hmem
    exact ⟨tr, htr, last, hsnd, halone last hlast hid⟩

theorem indexed_handled (h : oc.Stores index ver ∨ ((∃ e, index.getState ver = some e) ∧
    (index.Fresh oc.moment.now ver ∨ ¬ oc.Touches index))) :
    ∃ e, (oc.handled index).getState ver = some e := by
  rw [handled_eq]
  rcases h with h | ⟨h, hstays⟩
  · obtain ⟨tr, htr, e, hsnd, rfl⟩ := indexed_of_stores h
    rw [if_neg]
    · exact indexed_run_snd htr hsnd
    · intro hnone
      rw [Occurrence.indexed, hnone] at htr
      cases htr
  · split
    · exact h
    · rename_i hfound
      have hfresh := hstays.resolve_right (not_not.mpr (found_ne_nil_iff.mp hfound))
      apply indexed_run_mono
      rw [InMemoryEntityIndex.getState_runEviction hfresh]
      exact h

/-! ### Runs -/

theorem indexed_apply {s : Followed T} (h : s.Indexed) (hkeeps : s.Keeps oc) :
    (s.apply oc).Indexed := by
  intro ver hlive
  have hafter : ∃ e, (s.apply oc).index.getState ver = some e := by
    apply indexed_handled
    rcases hkeeps ver hlive with hstores | ⟨hbefore, hstays⟩
    · exact Or.inl hstores
    · refine Or.inr ⟨?_, hstays⟩
      rcases hbefore with hbefore | hbefore
      · obtain ⟨e, he, _⟩ := h ver hbefore
        exact ⟨e, he⟩
      · exact InMemoryEntityIndex.exists_iff.mp hbefore
  obtain ⟨e, he⟩ := hafter
  exact ⟨e, he, InMemoryEntityIndex.version_of_getState he⟩

/-- In every run of events that keep what is live, what is live is indexed all along. -/
theorem live_indexed {evictionDelay : Nat} {ocs : List (Occurrence T)}
    (h : ∀ pre oc, pre ++ [oc] <+: ocs → (Followed.run evictionDelay pre).Keeps oc) :
    ∀ pre, pre <+: ocs → (Followed.run evictionDelay pre).Indexed := by
  intro pre
  induction pre using List.reverseRecOn with
  | nil =>
    rintro _ ver ⟨⟨a, ha, _⟩, _⟩
    cases ha
  | append_singleton pre oc ih =>
    intro hpre
    have hbefore := ih ((List.prefix_append pre [oc]).trans hpre)
    rw [Followed.run, List.foldl_append]
    exact indexed_apply hbefore (h pre oc hpre)

end Liveness

def applied (now : Nat) (tx : TxViewMut) : Occurrence TrivialEntity :=
  ⟨sampleMoment now, .ledger (.txApplied tx 1 1 (.replicate 0))⟩

def unapplied (now : Nat) (tx : TxViewMut) : Occurrence TrivialEntity :=
  ⟨sampleMoment now, .ledger (.txUnapplied tx 1 1 (.replicate 0))⟩

/-- A state is spent, and brought back when the transaction that spent it is taken back. -/
def broughtBack : List (Occurrence TrivialEntity) :=
  [applied 0 (sampleTx 1 0 [1000]), applied 1 (sampleTx 2 1 [98000]),
    unapplied 2 (sampleTx 2 1 [98000])]

theorem live_indexed_brought_back : (Followed.run 300 broughtBack).Indexed := by
  refine live_indexed ?_ broughtBack List.prefix_rfl
  intro pre oc hpre
  obtain ⟨k, rfl, rfl⟩ := exists_take_of_snoc hpre
  have hkeeps : ∀ k : Fin broughtBack.length,
      (Followed.run 300 (broughtBack.take k)).Keeps broughtBack[k] := by
    decide +kernel
  exact hkeeps k

/-- A state that was brought back is evicted as if it were spent. -/
theorem brought_back_evicted :
    ¬ ∀ (evictionDelay : Nat) (ocs : List (Occurrence TrivialEntity)),
      (ocs.map fun oc => oc.moment.now).Pairwise (· ≤ ·) →
      (Followed.run evictionDelay ocs).Indexed := by
  intro h
  obtain ⟨e, he, _⟩ := h 300 (broughtBack ++ [applied 301 (sampleTx 3 0 [5])]) (by decide)
    (⟨.replicate 1, 0⟩ : OutputRef) (by decide +kernel)
  have hgone : (Followed.run 300 (broughtBack ++ [applied 301 (sampleTx 3 0 [5])])).index.getState
      (⟨.replicate 1, 0⟩ : OutputRef) = none := by
    decide +kernel
  rw [hgone] at he
  cases he

end UtxoMonitor.EventSink
