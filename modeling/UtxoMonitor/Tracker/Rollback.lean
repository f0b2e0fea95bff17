import UtxoMonitor.Tracker.History
import UtxoMonitor.Handler.TxHandler

/-! What the tracker makes of a ledger stream in which transactions are also taken back. -/
namespace UtxoMonitor

/-- The pair the ledger pipeline sends to the tracker, for an applied and for an unapplied
transaction alike. -/
def succinctTx : LedgerTxEvent TxViewMut → TransactionHash × Nat
  | .txApplied tx _ blockNumber _ | .txUnapplied tx _ blockNumber _ => (tx.hash, blockNumber.toNat)

/-- What the tracker takes from the mempool pipeline and from the ledger pipeline. -/
inductive PipelineEvent (Tx : Type) where
  | accepted (trs : Tx) (now : Instant)
  | ledger (ev : LedgerTxEvent TxViewMut)

def PipelineEvent.forward {Tx : Type} : PipelineEvent Tx → TrackerEvent TransactionHash Tx
  | accepted trs now => .incoming trs now
  | ledger ev => .confirmed (succinctTx ev).1 (succinctTx ev).2

structure PipelineRun (Tx : Type) where
  canonicalHash : Tx → TransactionHash
  maxConfirmationDelayBlocks : Nat
  event : Nat → Option (PipelineEvent Tx)

namespace PipelineRun

variable {Tx : Type} (P : PipelineRun Tx)

def tracker : TrackerRun TransactionHash Tx :=
  ⟨P.canonicalHash, P.maxConfirmationDelayBlocks, fun n => (P.event n).map PipelineEvent.forward⟩

def Accepted (n : Nat) (t : TransactionHash) : Prop :=
  ∃ trs now, P.event n = some (.accepted trs now) ∧ P.canonicalHash trs = t

def Applies (n : Nat) (t : TransactionHash) : Prop :=
  ∃ tx slot number hash, P.event n = some (.ledger (.txApplied tx slot number hash)) ∧ tx.hash = t

def Unapplies (n : Nat) (t : TransactionHash) : Prop :=
  ∃ tx slot number hash, P.event n = some (.ledger (.txUnapplied tx slot number hash)) ∧
    tx.hash = t

/-- The last ledger event of `t` so far applied it. -/
def OnChain (n : Nat) (t : TransactionHash) : Prop :=
  ∃ i, i < n ∧ P.Applies i t ∧ ∀ j, i < j → j < n → ¬ P.Unapplies j t

/-- The last ledger event of `t` so far took it back. -/
def RolledBack (n : Nat) (t : TransactionHash) : Prop :=
  ∃ i, i < n ∧ P.Unapplies i t ∧ ∀ j, i < j → j < n → ¬ P.Applies j t

def Pending (n : Nat) (t : TransactionHash) : Prop := ∃ k, (P.tracker.queued n k t).isSome

/-- The tracker keeps account of what is not on the chain. -/
structure Accounted (n : Nat) : Prop where
  /-- What was accepted and is not on the chain is pending, or was reported since. -/
  covered : ∀ i t, i < n → P.Accepted i t → ¬ P.OnChain n t →
    P.Pending n t ∨ ∃ m, i < m ∧ m < n ∧ P.tracker.Failed m t
  /-- What was rolled back is not among the recently confirmed transactions. -/
  notRecent : ∀ t, P.RolledBack n t → ¬ P.tracker.recent n t
  /-- To roll a transaction back does not settle it. -/
  notConfirmed : ∀ t, P.Unapplies n t → P.Pending n t →
    P.Pending (n + 1) t ∨ P.tracker.Failed n t

variable {P} {n : Nat} {t : TransactionHash}

theorem tracked_of_accepted (h : P.Accepted n t) : P.tracker.Tracked n t := by
  obtain ⟨trs, now, he, ht⟩ := h
  exact ⟨trs, now, by simp [tracker, he, PipelineEvent.forward], ht⟩

theorem applies_or_unapplies_of_delivered {b : Nat} (h : P.tracker.Delivered n t b) :
    P.Applies n t ∨ P.Unapplies n t := by
  simp only [TrackerRun.Delivered, tracker, Option.map_eq_some_iff] at h
  obtain ⟨e, he, hf⟩ := h
  cases e with
  | accepted trs now => cases hf
  | ledger ev =>
    cases ev with
    | txApplied tx slot number hash =>
      cases hf
      exact .inl ⟨tx, slot, number, hash, he, rfl⟩
    | txUnapplied tx slot number hash =>
      cases hf
      exact .inr ⟨tx, slot, number, hash, he, rfl⟩

theorem delivered_of_unapplies (h : P.Unapplies n t) : ∃ b, P.tracker.Delivered n t b := by
  obtain ⟨tx, slot, number, hash, he, rfl⟩ := h
  exact ⟨number.toNat, by simp [TrackerRun.Delivered, tracker, he, PipelineEvent.forward, succinctTx]⟩

/-- A pending transaction that is not delivered stays pending, or fails. -/
theorem Pending.succ (hP : P.tracker.Ticks) (h : P.Pending n t)
    (hd : ∀ b, ¬ P.tracker.Delivered n t b) : P.Pending (n + 1) t ∨ P.tracker.Failed n t := by
  obtain ⟨k, hk⟩ := h
  rcases P.tracker.step_cases n with ⟨hs, -⟩ | ⟨trs, now, he, hr, hs⟩ | ⟨t', b, hdt, -⟩
  · exact .inl ⟨k, by rwa [TrackerRun.queued, hs]⟩
  · refine .inl ⟨k, ?_⟩
    rw [TrackerRun.queued, hs, PendingTxs.queued_append]
    split
    · rfl
    · exact hk
  · have hne : t ≠ t' := by
      rintro rfl
      exact hd b hdt
    by_cases hdue : P.tracker.currentBlock n < b ∧ k ≤ b
    · obtain ⟨v, hv⟩ := Option.isSome_iff_exists.mp hk
      exact .inr (hP.failed_of_due hdt hdue.1 hdue.2 hv fun hc => hne hc.1)
    · refine .inl ⟨k, ?_⟩
      rw [TrackerRun.queued_delivered hdt, if_neg]
      · exact hk
      · rintro (⟨heq, -⟩ | hc)
        · exact hne heq
        · exact hdue hc

theorem pending_of_queues (h : P.tracker.Queues n t) : P.Pending (n + 1) t := by
  obtain ⟨⟨trs, now, he, rfl⟩, hr⟩ := h
  refine ⟨(P.tracker.state n).pendingTxs.shouldConfirmUntil, ?_⟩
  rw [TrackerRun.queued, TrackerRun.state_succ_incoming he hr, PendingTxs.queued_append]
  simp

/-- Queued and not delivered since, a transaction is pending or has failed. -/
theorem pending_or_failed (hP : P.tracker.Ticks) {i : Nat} (hq : P.tracker.Queues i t)
    (hin : i < n) (hd : ∀ j b, i < j → j < n → ¬ P.tracker.Delivered j t b) :
    P.Pending n t ∨ ∃ m, i < m ∧ m < n ∧ P.tracker.Failed m t := by
  induction n, hin using Nat.le_induction with
  | base => exact .inl (pending_of_queues hq)
  | succ n hin ih =>
    rcases ih fun j b hij hjn => hd j b hij (by omega) with hp | ⟨m, him, hmn, hf⟩
    · rcases hp.succ hP fun b => hd n b hin (by omega) with hp | hf
      · exact .inl hp
      · exact .inr ⟨n, hin, by omega, hf⟩
    · exact .inr ⟨m, him, by omega, hf⟩

/-- A rollback makes its transaction a recently confirmed one. -/
theorem recent_of_unapplies (h : P.Unapplies n t) :
    P.RolledBack (n + 1) t ∧ P.tracker.recent (n + 1) t := by
  obtain ⟨b, hd⟩ := delivered_of_unapplies h
  refine ⟨⟨n, by omega, h, ?_⟩, TrackerRun.recent_succ_of_delivered hd⟩
  intro j hnj hjn
  omega

/-- Where the clock ticks, the tracker keeps account in every state of a run precisely when the
ledger pipeline takes no transaction back. -/
theorem accounted_iff (P : PipelineRun Tx) (hP : P.tracker.Ticks) :
    (∀ n, P.Accounted n) ↔ ∀ n t, ¬ P.Unapplies n t := by
  constructor
  · intro h n t hu
    obtain ⟨hback, hrecent⟩ := recent_of_unapplies hu
    exact (h (n + 1)).notRecent t hback hrecent
  · intro hnone n
    refine ⟨?_, ?_, fun t hu => absurd hu (hnone n t)⟩
    · intro i t hin hacc hoff
      have hd : ∀ j b, j < n → ¬ P.tracker.Delivered j t b := by
        intro j b hjn hdel
        rcases applies_or_unapplies_of_delivered hdel with ha | hu
        · exact hoff ⟨j, hjn, ha, fun l _ _ => hnone l t⟩
        · exact hnone j t hu
      have hold : ¬ P.tracker.recent i t := by
        apply TrackerRun.recent_of_le (Nat.zero_le i)
        · simp [TrackerRun.recent, TrackerRun.state, TxTrackerAgent.new, CircularFilter.new]
        · intro j b _ hji
          exact hd j b (by omega)
      exact pending_or_failed hP ⟨tracked_of_accepted hacc, hold⟩ hin fun j b _ hjn => hd j b hjn
    · rintro t ⟨i, -, hu, -⟩
      exact absurd hu (hnone i t)

/-! ### A rolled back transaction -/

/-- `txConsume` is announced, then confirmed in block 1, and block 1 is rolled back if `back`. -/
def confirmedRun (back : Bool) : PipelineRun TxViewMut where
  canonicalHash := TxViewMut.hash
  maxConfirmationDelayBlocks := 6
  event n := ([.accepted txConsume 0, .ledger (.txApplied txConsume 20 1 (.replicate 0))] ++
    if back then [.ledger (.txUnapplied txConsume 20 1 (.replicate 0))] else [])[n]?

theorem confirmedRun_event {back : Bool} {n : Nat} {e : PipelineEvent TxViewMut}
    (h : (confirmedRun back).event n = some e) :
    (n = 0 ∧ e = .accepted txConsume 0) ∨
      (n = 1 ∧ e = .ledger (.txApplied txConsume 20 1 (.replicate 0))) ∨
      (back = true ∧ n = 2 ∧ e = .ledger (.txUnapplied txConsume 20 1 (.replicate 0))) := by
  match n with
  | 0 => exact .inl ⟨rfl, (Option.some.inj h).symm⟩
  | 1 => exact .inr (.inl ⟨rfl, (Option.some.inj h).symm⟩)
  | 2 =>
    cases back with
    | false => cases h
    | true => exact .inr (.inr ⟨rfl, rfl, (Option.some.inj h).symm⟩)
  | n + 3 => cases back <;> simp [confirmedRun] at h

theorem confirmedRun_incoming {back : Bool} {n : Nat} {trs : TxViewMut} {now : Instant}
    (h : (confirmedRun back).tracker.event n = some (.incoming trs now)) : n = 0 := by
  obtain ⟨e, he, hf⟩ := Option.map_eq_some_iff.mp h
  rcases confirmedRun_event he with ⟨rfl, rfl⟩ | ⟨rfl, rfl⟩ | ⟨-, rfl, rfl⟩
  · rfl
  · cases hf
  · cases hf

theorem confirmedRun_ticks (back : Bool) : (confirmedRun back).tracker.Ticks := by
  intro i j trs trs' now hi hj
  rw [confirmedRun_incoming hi, confirmedRun_incoming hj]

theorem accounted_confirmedRun : (∀ n, (confirmedRun false).Accounted n) ↔
    ∀ n t, ¬ (confirmedRun false).Unapplies n t :=
  accounted_iff _ (confirmedRun_ticks false)

theorem confirmedRun_deadline {n k : Nat} {t : TransactionHash}
    (h : ((confirmedRun true).tracker.queued n k t).isSome) : k = 6 := by
  obtain ⟨v, hv⟩ := Option.isSome_iff_exists.mp h
  obtain ⟨i, -, hi, -, -, rfl⟩ := TrackerRun.exists_incoming_of_queued hv
  rw [confirmedRun_incoming hi]
  rfl

/-- Once its block is rolled back, the transaction is off the chain, neither pending nor reported,
and it counts as recently confirmed. -/
theorem rolledBack_unaccounted :
    (confirmedRun true).Accepted 0 txConsume.hash ∧ ¬ (confirmedRun true).OnChain 3 txConsume.hash ∧
    ¬ (confirmedRun true).Pending 3 txConsume.hash ∧
    (∀ m, ¬ (confirmedRun true).tracker.Failed m txConsume.hash) ∧
    (confirmedRun true).RolledBack 3 txConsume.hash ∧
    (confirmedRun true).tracker.recent 3 txConsume.hash := by
  have hun : (confirmedRun true).Unapplies 2 txConsume.hash :=
    ⟨txConsume, 20, 1, .replicate 0, rfl, rfl⟩
  refine ⟨⟨txConsume, 0, rfl, rfl⟩, ?_, ?_, ?_, recent_of_unapplies hun⟩
  · rintro ⟨i, -, ⟨tx, slot, number, hash, he, -⟩, hlast⟩
    rcases confirmedRun_event he with ⟨rfl, he⟩ | ⟨rfl, -⟩ | ⟨-, rfl, he⟩
    · cases he
    · exact hlast 2 (by omega) (by omega) hun
    · cases he
  · rintro ⟨k, hk⟩
    obtain rfl := confirmedRun_deadline hk
    revert hk
    decide +kernel
  · intro m hf
    obtain ⟨t', b, k, hd, -, hkb, hk, -⟩ := hf.exists_due
    obtain rfl := confirmedRun_deadline hk
    obtain ⟨e, he, hfwd⟩ := Option.map_eq_some_iff.mp hd
    rcases confirmedRun_event he with ⟨rfl, rfl⟩ | ⟨rfl, rfl⟩ | ⟨-, rfl, rfl⟩
    · cases hfwd
    · cases hfwd
      exact absurd hkb (by decide)
    · cases hfwd
      exact absurd hkb (by decide)

end PipelineRun

end UtxoMonitor
