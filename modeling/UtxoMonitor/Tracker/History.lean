import UtxoMonitor.Tracker.Agent

/-! Where the memory of the tracker comes from: every entry of its state is traced back to the event
that made it. -/
namespace UtxoMonitor.TrackerRun

variable {TxHash Tx : Type} [DecidableEq TxHash] {R : TrackerRun TxHash Tx} {n m : Nat}
  {t : TxHash} {k b : Nat}

/-- The three ways a step goes: nothing to queue, an announcement to queue, a delivery. -/
theorem step_cases (R : TrackerRun TxHash Tx) (n : Nat) :
    (R.state (n + 1) = R.state n ∧ (∀ t, ¬ R.Queues n t) ∧ ∀ t b, ¬ R.Delivered n t b) ∨
    (∃ trs now, R.event n = some (.incoming trs now) ∧ ¬ R.recent n (R.canonicalHash trs) ∧
      R.state (n + 1) = ⟨(R.state n).recentTxs,
        (R.state n).pendingTxs.append (R.canonicalHash trs) trs now⟩) ∨
    ∃ t b, R.Delivered n t b ∧ R.state (n + 1) = ⟨((R.state n).recentTxs.add t).1,
      (((R.state n).pendingTxs.confirmTx t).tryAdvance b).1⟩ := by
  cases he : R.event n with
  | none =>
    refine .inl ⟨state_succ_none he, ?_, ?_⟩
    · rintro t ⟨⟨trs, now, h, -⟩, -⟩
      simp [he] at h
    · intro t b h
      simp [Delivered, he] at h
  | some e =>
    cases e with
    | incoming trs now =>
      by_cases hr : R.recent n (R.canonicalHash trs)
      · refine .inl ⟨state_succ_held he hr, ?_, ?_⟩
        · rintro t ⟨⟨trs', now', h, rfl⟩, hn⟩
          rw [he, Option.some.injEq, TrackerEvent.incoming.injEq] at h
          rw [← h.1] at hn
          exact hn hr
        · intro t b h
          simp [Delivered, he] at h
      · exact .inr (.inl ⟨trs, now, rfl, hr, state_succ_incoming he hr⟩)
    | confirmed t b => exact .inr (.inr ⟨t, b, he, state_succ_confirmed he⟩)

omit [DecidableEq TxHash] in
theorem not_delivered_of_incoming {trs : Tx} {now : Instant}
    (h : R.event n = some (.incoming trs now)) : ¬ R.Delivered n t b := by
  intro hd
  simp [Delivered, h] at hd

theorem not_queues_of_delivered {t' : TxHash} (h : R.Delivered n t' b) : ¬ R.Queues n t := by
  rintro ⟨⟨trs, now, he, -⟩, -⟩
  exact not_delivered_of_incoming he h

/-! ### The filter of recent transactions -/

theorem synced (R : TrackerRun TxHash Tx) (n : Nat) : (R.state n).recentTxs.Synced := by
  induction n with
  | zero => exact .new
  | succ n ih =>
    rcases R.step_cases n with ⟨h, -⟩ | ⟨trs, now, -, -, h⟩ | ⟨t, b, -, h⟩
    · rwa [h]
    · rwa [h]
    · rw [h]
      exact ih.add t

theorem recent_succ_of_delivered (h : R.Delivered n t b) : R.recent (n + 1) t := by
  rw [recent, state_succ_confirmed h]
  exact CircularFilter.mem_add_self (R.synced n) t

theorem recent_succ (h : R.recent (n + 1) t) : R.recent n t ∨ ∃ b, R.Delivered n t b := by
  rcases R.step_cases n with ⟨hs, -⟩ | ⟨trs, now, -, -, hs⟩ | ⟨t', b, hd, hs⟩
  · rw [recent, hs] at h
    exact .inl h
  · rw [recent, hs] at h
    exact .inl h
  · rw [recent, hs] at h
    rcases CircularFilter.mem_of_mem_add h with rfl | h
    · exact .inr ⟨b, hd⟩
    · exact .inl h

/-- Only a delivery makes a transaction recent. -/
theorem recent_of_le (hnm : n ≤ m) (hr : ¬ R.recent n t)
    (hd : ∀ j b, n ≤ j → j < m → ¬ R.Delivered j t b) : ¬ R.recent m t := by
  induction m, hnm using Nat.le_induction with
  | base => exact hr
  | succ m hnm ih =>
    intro h
    rcases recent_succ h with h | ⟨b, h⟩
    · exact ih (fun j b hj hjm => hd j b hj (by omega)) h
    · exact hd m b hnm (Nat.lt_succ_self m) h

/-! ### Blocks -/

theorem maxDelay (R : TrackerRun TxHash Tx) (n : Nat) :
    (R.state n).pendingTxs.maxConfirmationDelayBlocks = R.maxConfirmationDelayBlocks := by
  induction n with
  | zero => rfl
  | succ n ih =>
    rcases R.step_cases n with ⟨h, -⟩ | ⟨trs, now, -, -, h⟩ | ⟨t, b, -, h⟩
    · rwa [h]
    · rw [h]
      exact ih
    · rw [h, PendingTxs.maxDelay_tryAdvance, PendingTxs.maxDelay_confirmTx, ih]

theorem shouldConfirmUntil (R : TrackerRun TxHash Tx) (n : Nat) :
    (R.state n).pendingTxs.shouldConfirmUntil =
      R.currentBlock n + R.maxConfirmationDelayBlocks := by
  rw [PendingTxs.shouldConfirmUntil, maxDelay]
  rfl

theorem currentBlock_succ_of_delivered (h : R.Delivered n t b) :
    R.currentBlock (n + 1) = max (R.currentBlock n) b := by
  rw [currentBlock, state_succ_confirmed h, PendingTxs.currentBlock_tryAdvance,
    PendingTxs.currentBlock_confirmTx, currentBlock]

theorem currentBlock_le_succ (R : TrackerRun TxHash Tx) (n : Nat) :
    R.currentBlock n ≤ R.currentBlock (n + 1) := by
  rcases R.step_cases n with ⟨h, -⟩ | ⟨trs, now, -, -, h⟩ | ⟨t, b, hd, -⟩
  · rw [currentBlock, currentBlock, h]
  · rw [currentBlock, currentBlock, h]
    exact Nat.le_refl _
  · rw [currentBlock_succ_of_delivered hd]
    omega

theorem currentBlock_mono (R : TrackerRun TxHash Tx) : Monotone R.currentBlock :=
  monotone_nat_of_le_succ R.currentBlock_le_succ

/-! ### Deadlines -/

/-- A delivery leaves the deadlines of the other transactions that it does not make due. -/
theorem deadline_delivered {t' : TxHash} (h : R.Delivered n t' b) :
    R.deadline (n + 1) t =
      if t = t' ∨ R.currentBlock n < b ∧ ∃ j, j ≤ b ∧ (R.queued n j t).isSome then none
      else R.deadline n t := by
  have hconf : t ≠ t' → ∀ j,
      ((R.state n).pendingTxs.confirmTx t').queued j t = R.queued n j t := by
    intro hne j
    rw [PendingTxs.queued_confirmTx, if_neg fun hc => hne hc.1, queued]
  rw [deadline, state_succ_confirmed h]
  by_cases hb : R.currentBlock n < b
  · rw [PendingTxs.deadline_tryAdvance _ _ _ (by simpa [currentBlock] using hb),
      PendingTxs.deadline_confirmTx]
    by_cases ht : t = t'
    · simp [ht]
    · simp [ht, hb, hconf ht, deadline]
  · rw [PendingTxs.tryAdvance_of_le _ _ (by simpa [currentBlock] using hb),
      PendingTxs.deadline_confirmTx]
    simp [hb, deadline]

theorem deadline_succ_of_delivered {t' : TxHash} (h : R.Delivered n t' b)
    (hk : R.deadline (n + 1) t = some k) : t ≠ t' ∧ R.deadline n t = some k := by
  rw [deadline_delivered h] at hk
  split at hk
  · cases hk
  · rename_i hnot
    exact ⟨fun heq => hnot (.inl heq), hk⟩

/-- A deadline is set by an announcement, or kept. -/
theorem deadline_succ (hk : R.deadline (n + 1) t = some k) :
    (R.Queues n t ∧ k = R.currentBlock n + R.maxConfirmationDelayBlocks) ∨
      (R.deadline n t = some k ∧ ¬ R.Queues n t ∧ ∀ b, ¬ R.Delivered n t b) := by
  rcases R.step_cases n with ⟨h, hq, hd⟩ | ⟨trs, now, he, hr, h⟩ | ⟨t', b, hd, -⟩
  · rw [deadline, h] at hk
    exact .inr ⟨hk, hq t, hd t⟩
  · rw [deadline, h, PendingTxs.deadline_append, shouldConfirmUntil] at hk
    by_cases ht : t = R.canonicalHash trs
    · rw [if_pos ht, Option.some.injEq] at hk
      exact .inl ⟨⟨⟨trs, now, he, ht.symm⟩, by rwa [ht]⟩, hk.symm⟩
    · rw [if_neg ht] at hk
      refine .inr ⟨hk, ?_, fun b => not_delivered_of_incoming he⟩
      rintro ⟨⟨trs', now', he', rfl⟩, -⟩
      rw [he, Option.some.injEq, TrackerEvent.incoming.injEq] at he'
      exact ht (by rw [he'.1])
  · obtain ⟨hne, hk⟩ := deadline_succ_of_delivered hd hk
    refine .inr ⟨hk, not_queues_of_delivered hd, ?_⟩
    intro b' hd'
    rw [Delivered, hd, Option.some.injEq, TrackerEvent.confirmed.injEq] at hd'
    exact hne hd'.1.symm

/-- A deadline goes back to the latest announcement that was queued, with no delivery since. -/
theorem exists_queues_of_deadline (hk : R.deadline n t = some k) :
    ∃ i, i < n ∧ R.Queues i t ∧ k = R.currentBlock i + R.maxConfirmationDelayBlocks ∧
      ∀ j, i < j → j < n → ¬ R.Queues j t ∧ ∀ b, ¬ R.Delivered j t b := by
  induction n with
  | zero => simp [deadline, state, TxTrackerAgent.new, PendingTxs.new, PendingTxs.deadline] at hk
  | succ n ih =>
    rcases deadline_succ hk with ⟨hq, hk⟩ | ⟨hk, hq, hd⟩
    · exact ⟨n, by omega, hq, hk, fun j hj hjn => by omega⟩
    · obtain ⟨i, hi, hqi, hki, hlast⟩ := ih hk
      refine ⟨i, by omega, hqi, hki, ?_⟩
      intro j hj hjn
      rcases Nat.lt_succ_iff_lt_or_eq.mp hjn with hjn | rfl
      · exact hlast j hj hjn
      · exact ⟨hq, hd⟩

/-! ### The queue -/

/-- A delivery leaves the entries that it neither confirms nor makes due. -/
theorem queued_delivered {t' : TxHash} (h : R.Delivered n t' b) :
    R.queued (n + 1) k t =
      if t = t' ∧ R.deadline n t' = some k ∨ R.currentBlock n < b ∧ k ≤ b then none
      else R.queued n k t := by
  rw [queued, state_succ_confirmed h]
  by_cases hb : R.currentBlock n < b
  · rw [PendingTxs.queued_tryAdvance _ _ _ _ (by simpa [currentBlock] using hb),
      PendingTxs.queued_confirmTx]
    by_cases hk : k ≤ b
    · simp [hb, hk]
    · simp [hk, queued, deadline]
  · rw [PendingTxs.tryAdvance_of_le _ _ (by simpa [currentBlock] using hb),
      PendingTxs.queued_confirmTx]
    simp [hb, queued, deadline]

/-- An entry of the queue is made by an announcement, or kept. -/
theorem queued_succ {v : Tx × Instant} (hv : R.queued (n + 1) k t = some v) :
    (R.event n = some (.incoming v.1 v.2) ∧ R.canonicalHash v.1 = t ∧ R.Queues n t ∧
      k = R.currentBlock n + R.maxConfirmationDelayBlocks) ∨ R.queued n k t = some v := by
  rcases R.step_cases n with ⟨h, -⟩ | ⟨trs, now, he, hr, h⟩ | ⟨t', b, hd, -⟩
  · rw [queued, h] at hv
    exact .inr hv
  · rw [queued, h, PendingTxs.queued_append, shouldConfirmUntil] at hv
    split at hv
    · rename_i hkt
      obtain rfl := Option.some.inj hv
      exact .inl ⟨he, hkt.2.symm, ⟨⟨trs, now, he, hkt.2.symm⟩, by rwa [hkt.2]⟩, hkt.1⟩
    · exact .inr hv
  · rw [queued_delivered hd] at hv
    split at hv
    · cases hv
    · exact .inr hv

/-- Every entry of the queue is an announcement that came in before. -/
theorem exists_incoming_of_queued {v : Tx × Instant} (hv : R.queued n k t = some v) :
    ∃ i, i < n ∧ R.event i = some (.incoming v.1 v.2) ∧ R.canonicalHash v.1 = t ∧
      R.Queues i t ∧ k = R.currentBlock i + R.maxConfirmationDelayBlocks := by
  induction n with
  | zero =>
    simp [queued, state, TxTrackerAgent.new, PendingTxs.new, PendingTxs.queued] at hv
  | succ n ih =>
    rcases queued_succ hv with ⟨he, hh, hq, hk⟩ | hv
    · exact ⟨n, by omega, he, hh, hq, hk⟩
    · obtain ⟨i, hi, h⟩ := ih hv
      exact ⟨i, by omega, h⟩

/-- A transaction fails when a delivery advances to its deadline. -/
theorem Failed.exists_due (h : R.Failed n t) : ∃ t' b k, R.Delivered n t' b ∧
    R.currentBlock n < b ∧ k ≤ b ∧ (R.queued n k t).isSome ∧
      ¬ (t = t' ∧ R.deadline n t = some k) := by
  obtain ⟨trs, hm, ht⟩ := h
  cases he : R.event n with
  | none => simp [failedTxs, he] at hm
  | some e =>
    cases e with
    | incoming trs' now => simp [failedTxs, he, TxTrackerAgent.step] at hm
    | confirmed t' b =>
      rw [failedTxs_confirmed he] at hm
      by_cases hb : ((R.state n).pendingTxs.confirmTx t').currentBlock < b
      · simp only [PendingTxs.tryAdvance, if_pos hb, Option.getD_some] at hm
        obtain ⟨⟨a, v⟩, hmem, rfl⟩ := PendingTxs.exists_of_mem_newestFirst hm
        obtain ⟨k, hk, hq⟩ := (PendingTxs.mem_expired _ b).mp hmem
        rw [PendingTxs.queued_confirmTx] at hq
        split at hq
        · cases hq
        rename_i hnot
        have hq' : R.queued n k a = some v := hq
        obtain ⟨i, -, -, hh, -⟩ := exists_incoming_of_queued hq'
        obtain rfl : a = t := hh.symm.trans ht
        refine ⟨t', b, k, he, by simpa [currentBlock] using hb, hk, by simp [hq'], ?_⟩
        rintro ⟨rfl, hd⟩
        exact hnot ⟨rfl, hd⟩
      · rw [PendingTxs.tryAdvance_of_le _ _ (Nat.not_lt.mp hb)] at hm
        simp at hm

variable (R) in
/-- The clock moves on between any two announcements. -/
def Ticks : Prop :=
  ∀ i j trs trs' now, R.event i = some (.incoming trs now) →
    R.event j = some (.incoming trs' now) → i = j

/-- With readings of its own, every due transaction fails. -/
theorem Ticks.failed_of_due (hR : R.Ticks) {t' : TxHash} {v : Tx × Instant}
    (hd : R.Delivered n t' b) (hb : R.currentBlock n < b) (hk : k ≤ b)
    (hv : R.queued n k t = some v) (hne : ¬ (t = t' ∧ R.deadline n t = some k)) :
    R.Failed n t := by
  have hb' : ((R.state n).pendingTxs.confirmTx t').currentBlock < b := by
    simpa [currentBlock] using hb
  have hconf : ((R.state n).pendingTxs.confirmTx t').queued k t = some v := by
    rw [PendingTxs.queued_confirmTx, if_neg]
    · exact hv
    · rintro ⟨rfl, hdl⟩
      exact hne ⟨rfl, hdl⟩
  obtain ⟨i, -, hi, hh, -⟩ := exists_incoming_of_queued hv
  refine ⟨v.1, ?_, hh⟩
  rw [failedTxs_confirmed hd, PendingTxs.tryAdvance, if_pos hb', Option.getD_some]
  apply PendingTxs.mem_newestFirst_of_unique (e := ⟨t, v⟩)
  · exact (PendingTxs.mem_expired _ b).mpr ⟨k, hk, hconf⟩
  · rintro ⟨a, w⟩ hmem hat
    obtain ⟨k', -, hq⟩ := (PendingTxs.mem_expired _ b).mp hmem
    rw [PendingTxs.queued_confirmTx] at hq
    split at hq
    · cases hq
    obtain ⟨j, -, hj, hh', -⟩ := exists_incoming_of_queued (show R.queued n k' a = some w from hq)
    rw [show w.2 = v.2 from hat] at hj
    obtain rfl := hR i j _ _ _ hi hj
    rw [hi, Option.some.injEq, TrackerEvent.incoming.injEq] at hj
    have hwv : w = v := Prod.ext hj.1.symm hat
    subst hwv
    rw [← hh, ← hh']

/-- What is indexed is queued under its deadline. -/
theorem isSome_queued_of_deadline (hk : R.deadline n t = some k) :
    (R.queued n k t).isSome := by
  induction n with
  | zero => simp [deadline, state, TxTrackerAgent.new, PendingTxs.new, PendingTxs.deadline] at hk
  | succ n ih =>
    rcases R.step_cases n with ⟨h, -⟩ | ⟨trs, now, he, hr, h⟩ | ⟨t', b, hd, -⟩
    · rw [deadline, h] at hk
      rw [queued, h]
      exact ih hk
    · rw [deadline, h, PendingTxs.deadline_append] at hk
      rw [queued, h, PendingTxs.queued_append]
      by_cases ht : t = R.canonicalHash trs
      · rw [if_pos ht, Option.some.injEq] at hk
        simp [ht, hk]
      · rw [if_neg ht] at hk
        rw [if_neg fun hc => ht hc.2]
        exact ih hk
    · rw [deadline_delivered hd] at hk
      split at hk
      · cases hk
      · rename_i hnot
        rw [queued_delivered hd, if_neg]
        · exact ih hk
        · rintro (⟨rfl, -⟩ | ⟨hb, hkb⟩)
          · exact hnot (.inl rfl)
          · exact hnot (.inr ⟨hb, k, hkb, ih hk⟩)

end UtxoMonitor.TrackerRun
