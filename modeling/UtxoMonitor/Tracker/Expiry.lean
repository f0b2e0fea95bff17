import Mathlib.Data.List.Nodup
import UtxoMonitor.Tracker.Queue

/-! The order in which expired transactions are taken back. -/
namespace UtxoMonitor

variable {TxHash Tx : Type} [DecidableEq TxHash]

/-- The reading of the clock that a call makes. -/
def PendingCall.instant? : PendingCall TxHash Tx → Option Instant
  | .append _ _ now => some now
  | .confirmTx _ => none
  | .tryAdvance _ => none

/-- The clock never goes back; consecutive readings may be equal. -/
def ClockMono (calls : List (PendingCall TxHash Tx)) : Prop :=
  calls.Pairwise fun c c' => ∀ t, c.instant? = some t → ∀ t', c'.instant? = some t' → t ≤ t'

namespace PendingTxs

/-- The `n`-th call appended what bucket `k` has for a hash: no later call has replaced it. -/
def AppendedBy (delay : Nat) (calls : List (PendingCall TxHash Tx)) (k : Nat)
    (e : Expired TxHash Tx) (n : Nat) : Prop :=
  calls[n]? = some (.append e.1 e.2.1 e.2.2) ∧
    k = (after delay (calls.take n)).shouldConfirmUntil ∧
    ∀ m trs now, n < m → calls[m]? = some (.append e.1 trs now) →
      k ≠ (after delay (calls.take m)).shouldConfirmUntil

/-- An expiry returns all that expires, no transaction twice, and the latest append first. -/
def TakesBack (delay : Nat) (calls : List (PendingCall TxHash Tx)) (newBlock : Nat) : Prop :=
  ∃ due : List (Nat × Expired TxHash Tx),
    (due.map Prod.snd).Perm ((after delay calls).expired newBlock) ∧
    (due.map fun d => d.2.1).Nodup ∧
    (∀ d ∈ due, ∃ k, k ≤ newBlock ∧ AppendedBy delay calls k d.2 d.1) ∧
    due.Pairwise (fun d d' => d'.1 < d.1) ∧
    ((after delay calls).tryAdvance newBlock).2 = some (due.map fun d => d.2.2.1)

/-- Every expiry along the calls takes back what it should. -/
def ExpiresInOrder (delay : Nat) (calls : List (PendingCall TxHash Tx)) : Prop :=
  ∀ pre newBlock, pre ++ [.tryAdvance newBlock] <+: calls →
    (after delay pre).currentBlock < newBlock → TakesBack delay pre newBlock

omit [DecidableEq TxHash] in
/-- No two of the entries have one hash or one instant. -/
def Apart (es : List (Expired TxHash Tx)) : Prop :=
  es.Pairwise fun e e' => e.1 ≠ e'.1 ∧ e.2.2 ≠ e'.2.2

variable {s : PendingTxs TxHash Tx} {delay k n m : Nat} {tx : TxHash} {v : Tx × Instant}
  {calls : List (PendingCall TxHash Tx)} {c : PendingCall TxHash Tx} {e e' : Expired TxHash Tx}

omit [DecidableEq TxHash] in
theorem apart_iff {es : List (Expired TxHash Tx)} :
    Apart es ↔ (es.map fun e => e.1).Nodup ∧ (es.map fun e => e.2.2).Nodup := by
  rw [Apart, List.pairwise_and_iff, List.Nodup, List.Nodup, List.pairwise_map, List.pairwise_map]

/-! ### Where an entry comes from -/

theorem queued_call (h : (s.call c).queued k tx = some v) :
    (c = .append tx v.1 v.2 ∧ k = s.shouldConfirmUntil) ∨
      s.queued k tx = some v ∧
        ∀ trs now, c = .append tx trs now → k ≠ s.shouldConfirmUntil := by
  cases c with
  | append tx' trs now =>
    rw [call, queued_append] at h
    split at h
    · rename_i hk
      obtain ⟨hk, rfl⟩ := hk
      cases h
      exact .inl ⟨rfl, hk⟩
    · rename_i hk
      refine .inr ⟨h, ?_⟩
      intro trs' now' heq hk'
      cases heq
      exact hk ⟨hk', rfl⟩
  | confirmTx tx' =>
    rw [call, queued_confirmTx] at h
    split at h
    · cases h
    · exact .inr ⟨h, fun _ _ heq => by cases heq⟩
  | tryAdvance b =>
    refine .inr ⟨?_, fun _ _ heq => by cases heq⟩
    rw [call] at h
    rcases Nat.lt_or_ge s.currentBlock b with hb | hb
    · rw [queued_tryAdvance _ _ _ _ hb] at h
      split at h
      · cases h
      · exact h
    · rwa [tryAdvance_of_le _ _ hb] at h

/-- A later call leaves the position of an entry as it is, unless it replaces the entry. -/
theorem AppendedBy.concat (h : AppendedBy delay calls k e n)
    (hc : ∀ trs now, c = .append e.1 trs now → k ≠ (after delay calls).shouldConfirmUntil) :
    AppendedBy delay (calls ++ [c]) k e n := by
  obtain ⟨hn, hk, hlast⟩ := h
  have hlt : n < calls.length := (List.getElem?_eq_some_iff.mp hn).1
  refine ⟨by rwa [List.getElem?_append_left hlt], ?_, ?_⟩
  · rwa [List.take_append_of_le_length (Nat.le_of_lt hlt)]
  · intro m trs now hnm hm
    rcases Nat.lt_trichotomy m calls.length with hml | hml | hml
    · rw [List.getElem?_append_left hml] at hm
      rw [List.take_append_of_le_length (Nat.le_of_lt hml)]
      exact hlast m trs now hnm hm
    · subst hml
      rw [List.take_left]
      exact hc trs now (by simpa using hm)
    · rw [List.getElem?_eq_none (by simp; omega)] at hm
      cases hm

/-- Every entry of the queue was appended by one of the calls. -/
theorem exists_appendedBy (h : (after delay calls).queued k tx = some v) :
    ∃ n, AppendedBy delay calls k ⟨tx, v⟩ n := by
  induction calls using List.reverseRecOn with
  | nil => simp [after, new, queued] at h
  | append_singleton calls c ih =>
    rw [after_concat] at h
    obtain ⟨rfl, hk⟩ | ⟨h, hc⟩ := queued_call h
    · refine ⟨calls.length, by simp, by simpa using hk, ?_⟩
      intro m trs now hm hget
      rw [List.getElem?_eq_none (by simp; omega)] at hget
      cases hget
    · obtain ⟨n, hn⟩ := ih h
      exact ⟨n, hn.concat hc⟩

theorem lt_of_instant_lt (hclock : ClockMono calls) {k k' : Nat}
    (hn : AppendedBy delay calls k e n) (hm : AppendedBy delay calls k' e' m)
    (hlt : e'.2.2 < e.2.2) : m < n := by
  obtain ⟨hn, -⟩ := hn
  obtain ⟨hm, -⟩ := hm
  by_contra hle
  rcases Nat.lt_or_eq_of_le (Nat.not_lt.mp hle) with hnm | rfl
  · obtain ⟨hnl, hn⟩ := List.getElem?_eq_some_iff.mp hn
    obtain ⟨hml, hm⟩ := List.getElem?_eq_some_iff.mp hm
    have hmono := List.pairwise_iff_getElem.mp hclock n m hnl hml hnm
    rw [hn, hm] at hmono
    have hge : e.2.2 ≤ e'.2.2 := hmono _ rfl _ rfl
    exact Nat.not_lt.mpr hge hlt
  · rw [hn] at hm
    obtain ⟨-, -, hinstant⟩ := PendingCall.append.inj (Option.some.inj hm)
    exact Nat.ne_of_gt hlt hinstant

/-! ### The order of what is returned -/

omit [DecidableEq TxHash] in
/-- Entries with instants of their own are returned latest first. -/
theorem newestFirst_eq {es : List (Expired TxHash Tx)} (h : (es.map fun e => e.2.2).Nodup) :
    ∃ due : List (Expired TxHash Tx), due.Perm es ∧
      due.Pairwise (fun e e' => e'.2.2 < e.2.2) ∧ newestFirst es = due.map fun e => e.2.1 := by
  set due := es.mergeSort fun e e' => decide (e'.2.2 ≤ e.2.2) with hdue
  have hperm : due.Perm es := List.mergeSort_perm _ _
  have hle : due.Pairwise fun e e' => e'.2.2 ≤ e.2.2 := by
    apply (List.pairwise_mergeSort _ _ es).imp of_decide_eq_true
    · intro a b c hab hbc
      simp only [decide_eq_true_eq] at hab hbc ⊢
      exact Nat.le_trans hbc hab
    · intro a b
      simp only [Bool.or_eq_true, decide_eq_true_eq]
      exact Nat.le_total _ _
  have hne : due.Pairwise fun e e' => e.2.2 ≠ e'.2.2 :=
    List.pairwise_map.mp ((hperm.map _).nodup_iff.mpr h)
  have hlt : due.Pairwise fun e e' => e'.2.2 < e.2.2 :=
    hle.imp₂ (fun _ _ hle hne => Nat.lt_of_le_of_ne hle hne.symm) hne
  refine ⟨due, hperm, hlt, ?_⟩
  have heq : (es.foldl (fun failed e => failed.insert e.2.2 e.2.1)
      (∅ : BTreeMap Tx)).toList.reverse = due.map fun e => (e.2.2, e.2.1) := by
    refine List.Perm.eq_of_pairwise (fun p q _ _ (hpq : q.1 < p.1) (hqp : p.1 < q.1) =>
      absurd hpq (Nat.lt_asymm hqp)) ?_ (List.pairwise_map.mpr hlt) ?_
    · apply List.pairwise_reverse.mpr
      exact Std.ExtTreeMap.ordered_keys_toList.imp fun h => Nat.compare_eq_lt.mp h
    · exact (List.reverse_perm _).trans ((toList_foldl_perm h).trans (hperm.map _).symm)
  rw [newestFirst, heq, List.map_map]
  rfl

theorem takesBack_iff (hclock : ClockMono calls) {b : Nat}
    (hb : (after delay calls).currentBlock < b) :
    TakesBack delay calls b ↔ Apart ((after delay calls).expired b) := by
  have hres : ((after delay calls).tryAdvance b).2 =
      some (newestFirst ((after delay calls).expired b)) := by
    rw [tryAdvance, if_pos hb]
  rw [apart_iff]
  constructor
  · rintro ⟨due, hperm, hhash, -, -, hret⟩
    constructor
    · rw [← (hperm.map fun e => e.1).nodup_iff, List.map_map]
      exact hhash
    · apply (newestFirst_perm_iff _).mp
      rw [hres, Option.some.injEq] at hret
      rw [hret]
      have hmap := hperm.map fun e => e.2.1
      rwa [List.map_map] at hmap
  · rintro ⟨hhash, hinstant⟩
    obtain ⟨due, hperm, hlt, hret⟩ := newestFirst_eq hinstant
    have hsource : ∀ e : Expired TxHash Tx, ∃ n, e ∈ due →
        ∃ k, k ≤ b ∧ AppendedBy delay calls k e n := by
      intro e
      by_cases he : e ∈ due
      · obtain ⟨k, hk, hq⟩ := ((after delay calls).mem_expired b).mp (hperm.mem_iff.mp he)
        obtain ⟨n, hn⟩ := exists_appendedBy hq
        exact ⟨n, fun _ => ⟨k, hk, hn⟩⟩
      · exact ⟨0, fun he' => absurd he' he⟩
    choose position hposition using hsource
    refine ⟨due.map fun e => (position e, e), ?_, ?_, ?_, ?_, ?_⟩
    · rw [List.map_map]
      exact (List.Perm.of_eq (List.map_id _)).trans hperm
    · rw [List.map_map]
      exact (hperm.map fun e => e.1).nodup_iff.mpr hhash
    · intro d hd
      obtain ⟨e, he, rfl⟩ := List.mem_map.mp hd
      exact hposition e he
    · apply List.pairwise_map.mpr
      apply hlt.imp_of_mem
      intro e e' he he' hlt
      obtain ⟨k, -, hn⟩ := hposition e he
      obtain ⟨k', -, hm⟩ := hposition e' he'
      exact lt_of_instant_lt hclock hn hm hlt
    · rw [hres, hret, List.map_map]
      rfl

/-- Every expiry takes back all that expires, latest append first, exactly when no two of the
entries that expire together have one hash or one reading of the clock. -/
theorem expires_in_order_iff (delay : Nat) (calls : List (PendingCall TxHash Tx))
    (hclock : ClockMono calls) : ExpiresInOrder delay calls ↔
      ∀ pre newBlock, pre ++ [.tryAdvance newBlock] <+: calls →
        (after delay pre).currentBlock < newBlock →
        Apart ((after delay pre).expired newBlock) := by
  have hpre : ∀ pre c, pre ++ [c] <+: calls → ClockMono pre := by
    intro pre c h
    exact hclock.sublist ((List.sublist_append_left pre [c]).trans h.sublist)
  constructor
  · intro h pre newBlock hp hb
    exact (takesBack_iff (hpre _ _ hp) hb).mp (h pre newBlock hp hb)
  · intro h pre newBlock hp hb
    exact (takesBack_iff (hpre _ _ hp) hb).mpr (h pre newBlock hp hb)

/-- A transaction, and its child announced at a reading of the clock. -/
def submitted (now : Instant) : List (PendingCall Nat Nat) := [.append 0 7 0, .append 1 8 now]

theorem expires_in_order_submitted : ExpiresInOrder 10 (submitted 1 ++ [.tryAdvance 128]) := by
  apply (expires_in_order_iff 10 _ (by unfold ClockMono; decide)).mpr
  intro pre newBlock hpre _
  rcases List.prefix_concat_iff.mp hpre with heq | hpre
  · obtain ⟨rfl, hc⟩ := List.append_inj' heq rfl
    cases hc
    unfold Apart
    decide +kernel
  · have hmem : PendingCall.tryAdvance newBlock ∈ submitted 1 := hpre.subset List.mem_concat_self
    simp [submitted] at hmem

/-- At one reading of the clock only one of the two is returned. -/
theorem not_expires_in_order_submitted : ClockMono (submitted 0 ++ [.tryAdvance 128]) ∧
    ¬ ExpiresInOrder 10 (submitted 0 ++ [.tryAdvance 128]) := by
  refine ⟨by unfold ClockMono; decide, ?_⟩
  intro h
  have hback := h (submitted 0) 128 List.prefix_rfl (by decide +kernel)
  have hapart := (takesBack_iff (by unfold ClockMono; decide) (by decide +kernel)).mp hback
  revert hapart
  unfold Apart
  decide +kernel

end PendingTxs

end UtxoMonitor
