import UtxoMonitor.Tracker.CircularFilter
import UtxoMonitor.Tracker.PendingTxs

/-! The tracker: announced transactions come in on one side and ledger transactions on the other, in
any interleaving. -/
namespace UtxoMonitor

structure TxTrackerAgent (TxHash Tx : Type) where
  recentTxs : CircularFilter 256 TxHash
  pendingTxs : PendingTxs TxHash Tx

/-- What the tracker takes from its channels: an announced transaction, with the reading of the
clock it is queued at, or a transaction of the ledger stream with its block number. -/
inductive TrackerEvent (TxHash Tx : Type) where
  | incoming (trs : Tx) (now : Instant)
  | confirmed (tx : TxHash) (block : Nat)
deriving DecidableEq

variable {TxHash Tx : Type} [DecidableEq TxHash]

namespace TxTrackerAgent

def new (maxConfirmationDelayBlocks : Nat) : TxTrackerAgent TxHash Tx :=
  ⟨CircularFilter.new, PendingTxs.new maxConfirmationDelayBlocks⟩

def processIncomingTx (s : TxTrackerAgent TxHash Tx) (tx : TxHash) (trs : Tx) (now : Instant) :
    TxTrackerAgent TxHash Tx :=
  if s.recentTxs.contains tx then s
  else { s with pendingTxs := s.pendingTxs.append tx trs now }

/-- The transactions to fail, if any, go to `failed_txs`. -/
def processConfirmedTx (s : TxTrackerAgent TxHash Tx) (tx : TxHash) (block : Nat) :
    TxTrackerAgent TxHash Tx × Option (List Tx) :=
  let (pendingTxs, advanceResult) := (s.pendingTxs.confirmTx tx).tryAdvance block
  (⟨(s.recentTxs.add tx).1, pendingTxs⟩, advanceResult)

def step (canonicalHash : Tx → TxHash) (s : TxTrackerAgent TxHash Tx) :
    TrackerEvent TxHash Tx → TxTrackerAgent TxHash Tx × Option (List Tx)
  | .incoming trs now => (s.processIncomingTx (canonicalHash trs) trs now, none)
  | .confirmed tx block => s.processConfirmedTx tx block

end TxTrackerAgent

/-- A run of the tracker; it waits at the positions without an event. -/
structure TrackerRun (TxHash Tx : Type) where
  canonicalHash : Tx → TxHash
  maxConfirmationDelayBlocks : Nat
  event : Nat → Option (TrackerEvent TxHash Tx)

namespace TrackerRun

variable (R : TrackerRun TxHash Tx)

def state : Nat → TxTrackerAgent TxHash Tx
  | 0 => .new R.maxConfirmationDelayBlocks
  | n + 1 =>
    match R.event n with
    | none => state n
    | some e => ((state n).step R.canonicalHash e).1

/-- What is sent to `failed_txs` at a position. -/
def failedTxs (n : Nat) : List Tx :=
  match R.event n with
  | none => []
  | some e => ((R.state n).step R.canonicalHash e).2.getD []

def recent (n : Nat) (t : TxHash) : Prop := t ∈ (R.state n).recentTxs.filter

def currentBlock (n : Nat) : Nat := (R.state n).pendingTxs.currentBlock

def deadline (n : Nat) (t : TxHash) : Option Nat := (R.state n).pendingTxs.deadline t

def queued (n k : Nat) (t : TxHash) : Option (Tx × Instant) := (R.state n).pendingTxs.queued k t

/-- An announcement of `t` comes in. -/
def Tracked (n : Nat) (t : TxHash) : Prop :=
  ∃ trs now, R.event n = some (.incoming trs now) ∧ R.canonicalHash trs = t

/-- The ledger stream delivers `t` as a transaction of `block`. -/
def Delivered (n : Nat) (t : TxHash) (block : Nat) : Prop :=
  R.event n = some (.confirmed t block)

def Failed (n : Nat) (t : TxHash) : Prop := ∃ trs ∈ R.failedTxs n, R.canonicalHash trs = t

/-- An announcement that the filter of recent transactions does not hold back. -/
def Queues (n : Nat) (t : TxHash) : Prop := R.Tracked n t ∧ ¬ R.recent n t

/-! ### One step -/

variable {R} {n : Nat}

theorem state_succ_none (h : R.event n = none) : R.state (n + 1) = R.state n := by
  rw [state, h]

theorem state_succ_held {trs : Tx} {now : Instant} (h : R.event n = some (.incoming trs now))
    (hr : R.recent n (R.canonicalHash trs)) : R.state (n + 1) = R.state n := by
  have hc : (R.state n).recentTxs.contains (R.canonicalHash trs) = true :=
    decide_eq_true hr
  simp [state, h, TxTrackerAgent.step, TxTrackerAgent.processIncomingTx, hc]

theorem state_succ_incoming {trs : Tx} {now : Instant} (h : R.event n = some (.incoming trs now))
    (hr : ¬ R.recent n (R.canonicalHash trs)) :
    R.state (n + 1) = ⟨(R.state n).recentTxs,
      (R.state n).pendingTxs.append (R.canonicalHash trs) trs now⟩ := by
  have hc : (R.state n).recentTxs.contains (R.canonicalHash trs) = false :=
    decide_eq_false hr
  simp [state, h, TxTrackerAgent.step, TxTrackerAgent.processIncomingTx, hc]

theorem state_succ_confirmed {t : TxHash} {b : Nat} (h : R.Delivered n t b) :
    R.state (n + 1) = ⟨((R.state n).recentTxs.add t).1,
      (((R.state n).pendingTxs.confirmTx t).tryAdvance b).1⟩ := by
  rw [state, h]
  rfl

theorem failedTxs_confirmed {t : TxHash} {b : Nat} (h : R.Delivered n t b) :
    R.failedTxs n = (((R.state n).pendingTxs.confirmTx t).tryAdvance b).2.getD [] := by
  rw [failedTxs, h]
  rfl

end TrackerRun

end UtxoMonitor
