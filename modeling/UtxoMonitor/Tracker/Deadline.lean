import UtxoMonitor.Tracker.History
import UtxoMonitor.Cardano.Types

/-! When a transaction that the ledger delivers in time is failed all the same. -/
namespace UtxoMonitor.TrackerRun

variable {TxHash Tx : Type} [DecidableEq TxHash]

section Definitions

variable (R : TrackerRun TxHash Tx) (t : TxHash)

/-- A transaction that the ledger stream delivers by its deadline does not fail after it was
announced. -/
def KeptInTime : Prop :=
  ∀ i j b, R.Tracked i t → i < j → R.Delivered j t b →
    b ≤ R.currentBlock i + R.maxConfirmationDelayBlocks → ∀ n, i < n → ¬ R.Failed n t

/-- No other transaction of a block at or past the deadline of `t` is delivered ahead of `t`, where
`t` is delivered by its deadline. -/
def Ahead : Prop :=
  ∀ n t' b k, R.Delivered n t' b → R.currentBlock n < b → t ≠ t' → R.deadline n t = some k →
    k ≤ b → ∀ j b', n < j → R.Delivered j t b' → k < b'

/-- The steps on `t` that the tracker handles as meant. -/
structure Orderly : Prop where
  ahead : R.Ahead t
  /-- `t` is not queued again under a later deadline while it is queued. -/
  queuedOnce : ∀ n k, R.Queues n t → R.deadline n t = some k →
    k = R.currentBlock n + R.maxConfirmationDelayBlocks
  /-- `t` is not queued again once it was delivered in time. -/
  settled : ∀ i j n b, R.Tracked i t → i < j → R.Delivered j t b →
    b ≤ R.currentBlock i + R.maxConfirmationDelayBlocks → j < n → ¬ R.Queues n t

end Definitions

variable {R : TrackerRun TxHash Tx} {t : TxHash}

/-- An orderly transaction is queued under its indexed deadline only. -/
theorem Orderly.deadline_of_queued (h : R.Orderly t) {n k : Nat}
    (hq : (R.queued n k t).isSome) : R.deadline n t = some k := by
  induction n generalizing k with
  | zero => simp [queued, state, TxTrackerAgent.new, PendingTxs.new, PendingTxs.queued] at hq
  | succ n ih =>
    rcases R.step_cases n with ⟨hs, -⟩ | ⟨trs, now, he, hr, hs⟩ | ⟨t', b, hd, -⟩
    · rw [queued, hs] at hq
      rw [deadline, hs]
      exact ih hq
    · rw [queued, hs, PendingTxs.queued_append] at hq
      rw [deadline, hs, PendingTxs.deadline_append]
      rw [shouldConfirmUntil] at hq ⊢
      by_cases ht : t = R.canonicalHash trs
      · have hqueues : R.Queues n t := ⟨⟨trs, now, he, ht.symm⟩, by rwa [ht]⟩
        rw [if_pos ht]
        by_cases hk : k = R.currentBlock n + R.maxConfirmationDelayBlocks
        · rw [hk]
        · rw [if_neg fun hc => hk hc.1] at hq
          exact absurd (h.queuedOnce n k hqueues (ih hq)) hk
      · rw [if_neg fun hc => ht hc.2] at hq
        rw [if_neg ht]
        exact ih hq
    · rw [queued_delivered hd] at hq
      split at hq
      · cases hq
      rename_i hnot
      rw [deadline_delivered hd, if_neg]
      · exact ih hq
      · rintro (rfl | ⟨hb, j, hj, hqj⟩)
        · exact hnot (.inl ⟨rfl, ih hq⟩)
        · have heq : j = k := Option.some.inj ((ih hqj).symm.trans (ih hq))
          exact hnot (.inr ⟨hb, heq ▸ hj⟩)

/-- An orderly transaction fails only when another one reaches its deadline. -/
theorem Orderly.exists_ahead_of_failed (h : R.Orderly t) {n : Nat} (hf : R.Failed n t) :
    ∃ t' b k, R.Delivered n t' b ∧ R.currentBlock n < b ∧ t ≠ t' ∧
      R.deadline n t = some k ∧ k ≤ b := by
  obtain ⟨t', b, k, hd, hb, hk, hq, hnot⟩ := hf.exists_due
  have hdl := h.deadline_of_queued hq
  exact ⟨t', b, k, hd, hb, fun heq => hnot ⟨heq, hdl⟩, hdl, hk⟩

/-- In every run that is orderly for a transaction, the transaction does not fail once it was
announced and delivered in time, wherever in its block it comes. -/
theorem keptInTime_of_orderly (R : TrackerRun TxHash Tx) (t : TxHash) (h : R.Orderly t) :
    R.KeptInTime t := by
  intro i j b hi hij hj hb n hin hf
  obtain ⟨t', b', k, hd, hcur, hne, hdl, hk⟩ := h.exists_ahead_of_failed hf
  -- the announcement that the failed entry comes from
  obtain ⟨i', hi'n, hq, rfl, hlast⟩ := exists_queues_of_deadline hdl
  have hii' : i ≤ i' := by
    by_contra hlt
    have hnot := (hlast i (by omega) hin).1
    apply hnot
    refine ⟨hi, recent_of_le (by omega) hq.2 ?_⟩
    intro m bm hm hmi hdm
    rcases Nat.lt_or_eq_of_le hm with hm | rfl
    · exact (hlast m hm (by omega)).2 bm hdm
    · exact not_queues_of_delivered hdm hq
  rcases Nat.lt_trichotomy j n with hjn | rfl | hnj
  · -- delivered before the failure: the entry was made afterwards
    have hji' : j < i' := by
      by_contra hle
      rcases Nat.lt_or_eq_of_le (Nat.not_lt.mp hle) with hlt | rfl
      · exact (hlast j hlt hjn).2 b hj
      · exact not_queues_of_delivered hj hq
    exact h.settled i j i' b hi hij hj hb hji' hq
  · rw [Delivered, hd, Option.some.injEq, TrackerEvent.confirmed.injEq] at hj
    exact hne hj.1.symm
  · have hlate := h.ahead n t' b' _ hd hcur hne hdl hk j b hnj hj
    have hmono := R.currentBlock_mono hii'
    omega

/-- Where the clock ticks, a transaction that is kept in time is delivered ahead of all others. -/
theorem ahead_of_keptInTime (hR : R.Ticks) (h : R.KeptInTime t) : R.Ahead t := by
  intro n t' b k hd hcur hne hdl hk j b' hnj hj
  by_contra hlate
  obtain ⟨v, hv⟩ := Option.isSome_iff_exists.mp (isSome_queued_of_deadline hdl)
  have hf := hR.failed_of_due hd hcur hk hv fun hc => hne hc.1
  obtain ⟨i, hin, hq, rfl, -⟩ := exists_queues_of_deadline hdl
  exact h i j b' hq.1 (by omega) hj (by omega) n hin hf

/-! ### Two runs on one transaction -/

/-- `txConsume` is announced at block 100, and due at block 106. -/
def announced (rest : List (TrackerEvent TransactionHash TxViewMut)) :
    TrackerRun TransactionHash TxViewMut where
  canonicalHash := TxViewMut.hash
  maxConfirmationDelayBlocks := 6
  event n := ([.confirmed (.replicate 9) 100, .incoming txConsume 0] ++ rest)[n]?

/-- The ledger delivers it first of block 106. -/
def deliveredFirst : TrackerRun TransactionHash TxViewMut :=
  announced [.confirmed txConsume.hash 106]

/-- The ledger delivers it second of block 106. -/
def deliveredSecond : TrackerRun TransactionHash TxViewMut :=
  announced [.confirmed txProduce.hash 106, .confirmed txConsume.hash 106]

theorem deliveredFirst_event {n : Nat} {e : TrackerEvent TransactionHash TxViewMut}
    (h : deliveredFirst.event n = some e) :
    (n = 0 ∧ e = .confirmed (.replicate 9) 100) ∨ (n = 1 ∧ e = .incoming txConsume 0) ∨
      (n = 2 ∧ e = .confirmed txConsume.hash 106) := by
  match n with
  | 0 => exact .inl ⟨rfl, (Option.some.inj h).symm⟩
  | 1 => exact .inr (.inl ⟨rfl, (Option.some.inj h).symm⟩)
  | 2 => exact .inr (.inr ⟨rfl, (Option.some.inj h).symm⟩)
  | n + 3 => simp [deliveredFirst, announced] at h

theorem orderly_deliveredFirst : deliveredFirst.Orderly txConsume.hash where
  ahead := by
    intro n t' b k hd _ hne hdl
    rcases deliveredFirst_event hd with ⟨rfl, -⟩ | ⟨rfl, he⟩ | ⟨rfl, he⟩
    · cases hdl
    · cases he
    · cases he
      exact absurd rfl hne
  queuedOnce := by
    rintro n k ⟨⟨trs, now, he, -⟩, -⟩ hdl
    rcases deliveredFirst_event he with ⟨rfl, -⟩ | ⟨rfl, -⟩ | ⟨rfl, he⟩
    · cases hdl
    · cases hdl
    · cases he
  settled := by
    rintro i j n b - hij hd - hjn ⟨⟨trs, now, he, -⟩, -⟩
    have hj : deliveredFirst.event j = some (.confirmed txConsume.hash b) := hd
    rcases deliveredFirst_event hj with ⟨rfl, he'⟩ | ⟨rfl, he'⟩ | ⟨rfl, -⟩
    · omega
    · cases he'
    · rcases deliveredFirst_event he with ⟨rfl, -⟩ | ⟨rfl, -⟩ | ⟨rfl, -⟩ <;> omega

theorem keptInTime_deliveredFirst : deliveredFirst.KeptInTime txConsume.hash :=
  keptInTime_of_orderly _ _ orderly_deliveredFirst

theorem not_keptInTime_deliveredSecond : ¬ deliveredSecond.KeptInTime txConsume.hash := by
  intro h
  have hf : deliveredSecond.Failed 2 txConsume.hash := ⟨txConsume, by decide +kernel, rfl⟩
  have htr : deliveredSecond.Tracked 1 txConsume.hash := ⟨txConsume, 0, rfl, rfl⟩
  exact h 1 3 106 htr (by omega) rfl (by decide +kernel) 2 (by omega) hf

end UtxoMonitor.TrackerRun
