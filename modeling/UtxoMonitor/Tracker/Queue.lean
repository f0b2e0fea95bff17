import Mathlib.Data.List.Dedup
import UtxoMonitor.Lib.Runs
import UtxoMonitor.Tracker.PendingTxs

/-! The queue of waiting transactions and its index, over any sequence of calls. -/
namespace UtxoMonitor

inductive PendingCall (TxHash Tx : Type) where
  | append (tx : TxHash) (trs : Tx) (now : Instant)
  | confirmTx (tx : TxHash)
  | tryAdvance (newBlock : Nat)
deriving DecidableEq

variable {TxHash Tx : Type} [DecidableEq TxHash]

/-- The call ends the wait for an earlier append of `tx` that is due at block `k`. -/
def PendingCall.Ends (k : Nat) (tx : TxHash) : PendingCall TxHash Tx → Prop
  | .append tx' _ _ => tx' = tx
  | .confirmTx tx' => tx' = tx
  | .tryAdvance newBlock => k ≤ newBlock

namespace PendingTxs

def call (s : PendingTxs TxHash Tx) : PendingCall TxHash Tx → PendingTxs TxHash Tx
  | .append tx trs now => s.append tx trs now
  | .confirmTx tx => s.confirmTx tx
  | .tryAdvance newBlock => (s.tryAdvance newBlock).1

def after (delay : Nat) (calls : List (PendingCall TxHash Tx)) : PendingTxs TxHash Tx :=
  calls.foldl call (new delay)

/-- A hash is in a bucket exactly if the index has the key of the bucket for it. -/
def Synced (s : PendingTxs TxHash Tx) : Prop :=
  ∀ k tx, (s.queued k tx).isSome ↔ s.deadline tx = some k

/-- `v` was appended under `tx` and is due at block `k`; no call since then ended the wait for it. -/
def Awaited (delay : Nat) (calls : List (PendingCall TxHash Tx)) (k : Nat) (tx : TxHash)
    (v : Tx × Instant) : Prop :=
  ∃ pre rest, calls = pre ++ .append tx v.1 v.2 :: rest ∧
    k = (after delay pre).shouldConfirmUntil ∧ ∀ c ∈ rest, ¬ c.Ends k tx

/-- After the calls, `try_advance` returns what is awaited and due, each transaction once. -/
def Returns (delay : Nat) (calls : List (PendingCall TxHash Tx)) (newBlock : Nat) : Prop :=
  ∃ due : List (Expired TxHash Tx), due.Nodup ∧
    (∀ e, e ∈ due ↔ ∃ k, k ≤ newBlock ∧ Awaited delay calls k e.1 e.2) ∧
    (((after delay calls).tryAdvance newBlock).2.getD []).Perm (due.map fun e => e.2.1)

/-- The queue and the index agree all along, and every transaction is returned when it is due. -/
def Faithful (delay : Nat) (calls : List (PendingCall TxHash Tx)) : Prop :=
  ∀ pre, pre <+: calls → (after delay pre).Synced ∧
    ∀ newBlock, pre ++ [.tryAdvance newBlock] <+: calls → Returns delay pre newBlock

/-- The calls that keep the queue: no hash is appended while it waits for another block, no two
transactions with one reading of the clock expire together, and nothing is due when the block does
not advance. -/
def Careful (s : PendingTxs TxHash Tx) : PendingCall TxHash Tx → Prop
  | .append tx _ _ => ∀ k, s.deadline tx = some k → k = s.shouldConfirmUntil
  | .confirmTx _ => True
  | .tryAdvance newBlock =>
    (s.currentBlock < newBlock →
      ∀ e ∈ s.expired newBlock, ∀ e' ∈ s.expired newBlock, e.2.2 = e'.2.2 → e = e') ∧
    (newBlock ≤ s.currentBlock → s.expired newBlock = [])

variable {s : PendingTxs TxHash Tx} {delay k : Nat} {tx : TxHash} {v : Tx × Instant}
  {calls : List (PendingCall TxHash Tx)} {c : PendingCall TxHash Tx}

/-! ### What is returned -/

omit [DecidableEq TxHash] in
theorem length_newestFirst (es : List (Expired TxHash Tx)) :
    (newestFirst es).length = (es.map fun e => e.2.2).dedup.length := by
  set failed := es.foldl (fun failed e => failed.insert e.2.2 e.2.1) (∅ : BTreeMap Tx) with hfailed
  have hkeys : failed.keys.Perm (es.map fun e => e.2.2).dedup := by
    rw [List.perm_ext_iff_of_nodup failed.nodup_keys (List.nodup_dedup _)]
    intro at'
    rw [Std.ExtTreeMap.mem_keys, ← Std.ExtTreeMap.isSome_getElem?_iff_mem, hfailed,
      getElem?_foldl_insert, List.mem_dedup]
    simp
  rw [← hkeys.length_eq, ← Std.ExtTreeMap.map_fst_toList_eq_keys]
  simp [newestFirst, hfailed]

omit [DecidableEq TxHash] in
/-- Entries with instants of their own stay apart in a map that is keyed by instants. -/
theorem toList_foldl_perm {es : List (Expired TxHash Tx)} (h : (es.map fun e => e.2.2).Nodup) :
    (es.foldl (fun failed e => failed.insert e.2.2 e.2.1) (∅ : BTreeMap Tx)).toList.Perm
      (es.map fun e => (e.2.2, e.2.1)) := by
  set failed := es.foldl (fun failed e => failed.insert e.2.2 e.2.1) (∅ : BTreeMap Tx) with hfailed
  have hsub : failed.toList ⊆ es.map fun e => (e.2.2, e.2.1) := by
    rintro ⟨at', trs⟩ hm
    have hget := Std.ExtTreeMap.mem_toList_iff_getElem?_eq_some.mp hm
    rw [hfailed, getElem?_foldl_insert] at hget
    obtain ⟨e, he, rfl⟩ : ∃ e, (es.filter fun e => e.2.2 = at').getLast? = some e ∧
        e.2.1 = trs := by simpa using hget
    obtain ⟨hmem, hat⟩ := List.mem_filter.mp (List.mem_of_getLast? he)
    exact List.mem_map.mpr ⟨e, hmem, by rw [of_decide_eq_true hat]⟩
  have hnodup : failed.toList.Nodup := by
    apply List.Nodup.of_map Prod.fst
    rw [Std.ExtTreeMap.map_fst_toList_eq_keys]
    exact failed.nodup_keys
  have hlen : es.length ≤ failed.toList.length := by
    have hn := length_newestFirst es
    rw [h.dedup, List.length_map, newestFirst, List.length_map, List.length_reverse] at hn
    exact Nat.le_of_eq hn.symm
  exact (List.subperm_of_subset hnodup hsub).perm_of_length_le (by simpa using hlen)

omit [DecidableEq TxHash] in
/-- An expiry returns all of its transactions exactly when their instants differ. -/
theorem newestFirst_perm_iff (es : List (Expired TxHash Tx)) :
    (newestFirst es).Perm (es.map fun e => e.2.1) ↔ (es.map fun e => e.2.2).Nodup := by
  constructor
  · intro h
    have hlen := h.length_eq
    rw [length_newestFirst, List.length_map] at hlen
    have hsub := List.dedup_sublist (es.map fun e => e.2.2)
    rw [← hsub.eq_of_length (by rw [hlen, List.length_map])]
    exact List.nodup_dedup _
  · intro h
    have hmap := ((List.reverse_perm _).trans (toList_foldl_perm h)).map Prod.snd
    simpa [newestFirst, Function.comp_def] using hmap

/-- Where the queue agrees with its index, an expiry walks over each due entry once. -/
theorem Synced.nodup_expired (h : s.Synced) (newBlock : Nat) : (s.expired newBlock).Nodup := by
  have hkeys : (s.queue.toList.map Prod.fst).Nodup := by
    rw [Std.ExtTreeMap.map_fst_toList_eq_keys]
    exact s.queue.nodup_keys
  rw [expired, List.nodup_flatMap]
  constructor
  · intro bucket _
    exact bucket.2.nodupKeys.nodup
  · apply List.Pairwise.filter
    apply (List.pairwise_map.mp hkeys).imp_of_mem
    rintro ⟨k, txs⟩ ⟨k', txs'⟩ hm hm' hne ⟨tx, v⟩ he he'
    have hq : (s.queued k tx).isSome := by
      rw [queued, Std.ExtTreeMap.mem_toList_iff_getElem?_eq_some.mp hm, Option.bind_some,
        AList.mem_lookup_iff.mpr he]
      rfl
    have hq' : (s.queued k' tx).isSome := by
      rw [queued, Std.ExtTreeMap.mem_toList_iff_getElem?_eq_some.mp hm', Option.bind_some,
        AList.mem_lookup_iff.mpr he']
      rfl
    exact hne (Option.some.inj (((h k tx).mp hq).symm.trans ((h k' tx).mp hq')))

/-! ### One call -/

theorem after_concat : after delay (calls ++ [c]) = (after delay calls).call c := by
  simp [after]

theorem awaited_concat : Awaited delay (calls ++ [c]) k tx v ↔
    (c = .append tx v.1 v.2 ∧ k = (after delay calls).shouldConfirmUntil) ∨
      (Awaited delay calls k tx v ∧ ¬ c.Ends k tx) := by
  constructor
  · rintro ⟨pre, rest, heq, hk, hrest⟩
    induction rest using List.reverseRecOn with
    | nil =>
      obtain ⟨rfl, hc⟩ := List.append_inj' heq rfl
      exact .inl ⟨by simpa using hc, hk⟩
    | append_singleton rest c' _ =>
      rw [← List.cons_append, ← List.append_assoc] at heq
      obtain ⟨rfl, hc⟩ := List.append_inj' heq rfl
      obtain rfl : c = c' := by simpa using hc
      refine .inr ⟨⟨pre, rest, rfl, hk, fun c' hc' => hrest c' (List.mem_append_left _ hc')⟩, ?_⟩
      exact hrest c (by simp)
  · rintro (⟨rfl, hk⟩ | ⟨⟨pre, rest, rfl, hk, hrest⟩, hc⟩)
    · exact ⟨calls, [], rfl, hk, by simp⟩
    · refine ⟨pre, rest ++ [c], by simp, hk, ?_⟩
      intro c' hc'
      rcases List.mem_append.mp hc' with hc' | hc'
      · exact hrest c' hc'
      · obtain rfl := List.mem_singleton.mp hc'
        exact hc

/-- A call keeps the queue and its index in agreement exactly when it does not append a hash that
waits for another block. -/
theorem Synced.call_iff (h : s.Synced) : (s.call c).Synced ↔
    ∀ tx trs now, c = .append tx trs now → ∀ k, s.deadline tx = some k →
      k = s.shouldConfirmUntil := by
  cases c with
  | append tx trs now =>
    simp only [PendingTxs.call, PendingCall.append.injEq]
    constructor
    · rintro hs tx' trs' now' ⟨rfl, -, -⟩ k hk
      have hq := (h k tx).mpr hk
      have hq' : ((s.append tx trs now).queued k tx).isSome := by
        rw [queued_append]
        split
        · rfl
        · exact hq
      have hd := (hs k tx).mp hq'
      rw [deadline_append, if_pos rfl, Option.some.injEq] at hd
      exact hd.symm
    · intro hk k a
      rw [queued_append, deadline_append]
      by_cases ha : a = tx
      · subst ha
        rw [if_pos rfl, Option.some.injEq]
        by_cases hks : k = s.shouldConfirmUntil
        · simp [hks]
        · rw [if_neg fun hc => hks hc.1, h k a]
          exact ⟨fun hd => absurd (hk a trs now ⟨rfl, rfl, rfl⟩ k hd) hks,
            fun heq => absurd heq.symm hks⟩
      · simpa [ha] using h k a
  | confirmTx tx =>
    simp only [PendingTxs.call, reduceCtorEq, false_imp_iff, implies_true, iff_true]
    intro k a
    rw [queued_confirmTx, deadline_confirmTx]
    by_cases ha : a = tx
    · subst ha
      by_cases hd : s.deadline a = some k
      · simp [hd]
      · simp [hd, h k a]
    · simpa [ha] using h k a
  | tryAdvance b =>
    simp only [PendingTxs.call, reduceCtorEq, false_imp_iff, implies_true, iff_true]
    by_cases hb : s.currentBlock < b
    · intro k a
      rw [queued_tryAdvance s a k b hb, deadline_tryAdvance s a b hb]
      by_cases hk : k ≤ b
      · rw [if_pos hk]
        constructor
        · rintro ⟨⟩
        · intro hd
          split at hd
          · cases hd
          · rename_i hnot
            exact absurd ⟨k, hk, (h k a).mpr hd⟩ hnot
      · rw [if_neg hk, h k a]
        split
        · rename_i hdue
          obtain ⟨j, hj, hq⟩ := hdue
          rw [(h j a).mp hq, Option.some.injEq]
          exact ⟨fun heq => absurd (heq ▸ hj) hk, fun hc => by cases hc⟩
        · rfl
    · rwa [tryAdvance_of_le s b (Nat.not_lt.mp hb)]

/-! ### All calls -/

theorem faithful_concat : Faithful delay (calls ++ [c]) ↔
    Faithful delay calls ∧ (after delay (calls ++ [c])).Synced ∧
      ∀ b, c = .tryAdvance b → Returns delay calls b := by
  constructor
  · intro h
    refine ⟨?_, (h _ List.prefix_rfl).1, ?_⟩
    · intro pre hpre
      have hpre' := hpre.trans (List.prefix_append calls [c])
      exact ⟨(h pre hpre').1,
        fun b hb => (h pre hpre').2 b (hb.trans (List.prefix_append calls [c]))⟩
    · rintro b rfl
      exact (h calls (List.prefix_append _ _)).2 b List.prefix_rfl
  · rintro ⟨h, hs, hr⟩ pre hpre
    rcases List.prefix_concat_iff.mp hpre with rfl | hpre
    · refine ⟨hs, fun b hb => ?_⟩
      have hlen := hb.length_le
      simp at hlen
    · refine ⟨(h pre hpre).1, fun b hb => ?_⟩
      rcases List.prefix_concat_iff.mp hb with heq | hb
      · obtain ⟨rfl, hc⟩ := List.append_inj' heq rfl
        exact hr b (by simpa using hc.symm)
      · exact (h pre hpre).2 b hb

/-- Nothing that is awaited is due when the block does not advance. -/
theorem Returns.not_awaited {b : Nat} (h : Returns delay calls b)
    (hb : b ≤ (after delay calls).currentBlock) (hk : k ≤ b) : ¬ Awaited delay calls k tx v := by
  obtain ⟨due, -, hdue, hperm⟩ := h
  rw [tryAdvance_of_le _ b hb] at hperm
  have hnil : due = [] := by simpa using List.nil_perm.mp hperm
  intro ha
  have hm := (hdue ⟨tx, v⟩).mpr ⟨k, hk, ha⟩
  rw [hnil] at hm
  cases hm

/-- As long as the calls are answered faithfully, the queue holds what is awaited. -/
theorem Faithful.queued_iff (h : Faithful delay calls) :
    (after delay calls).queued k tx = some v ↔ Awaited delay calls k tx v := by
  induction calls using List.reverseRecOn generalizing k tx v with
  | nil =>
    constructor
    · intro hq
      simp [after, new, queued] at hq
    · rintro ⟨pre, rest, heq, -⟩
      simp at heq
  | append_singleton calls c ih =>
    obtain ⟨hpre, hsync', hret⟩ := faithful_concat.mp h
    have hsync := (hpre calls List.prefix_rfl).1
    rw [after_concat] at hsync' ⊢
    rw [awaited_concat, ← ih hpre]
    cases c with
    | append tx' trs now =>
      simp only [PendingTxs.call, PendingCall.Ends] at hsync' ⊢
      by_cases htx : tx = tx'
      · subst htx
        by_cases hk : k = (after delay calls).shouldConfirmUntil
        · simp [hk, Prod.ext_iff]
        · have hnone : ((after delay calls).append tx trs now).queued k tx = none := by
            rw [← Option.not_isSome_iff_eq_none]
            intro hq
            have hd := (hsync' k tx).mp hq
            rw [deadline_append, if_pos rfl, Option.some.injEq] at hd
            exact hk hd.symm
          rw [hnone]
          simp [hk]
      · simp [htx, Ne.symm htx]
    | confirmTx tx' =>
      simp only [PendingTxs.call, PendingCall.Ends, queued_confirmTx]
      by_cases htx : tx = tx'
      · subst htx
        have hnone : ¬ (after delay calls).deadline tx = some k →
            (after delay calls).queued k tx = none := by
          intro hd
          rw [← Option.not_isSome_iff_eq_none, hsync k tx]
          exact hd
        by_cases hd : (after delay calls).deadline tx = some k
        · simp [hd]
        · simp [hd, hnone hd]
      · simp [htx, Ne.symm htx]
    | tryAdvance b =>
      simp only [PendingTxs.call, PendingCall.Ends]
      by_cases hb : (after delay calls).currentBlock < b
      · rw [queued_tryAdvance _ _ _ _ hb]
        by_cases hk : k ≤ b <;> simp [hk]
      · rw [tryAdvance_of_le _ b (Nat.not_lt.mp hb)]
        have hdue : k ≤ b → ¬ Awaited delay calls k tx v :=
          (hret b rfl).not_awaited (Nat.not_lt.mp hb)
        rw [← ih hpre] at hdue
        simp only [reduceCtorEq, false_and, false_or]
        exact ⟨fun hq => ⟨hq, fun hk => hdue hk hq⟩, fun hq => hq.1⟩

/-- What is due is returned exactly when the expiry is careful. -/
theorem Faithful.returns_iff (h : Faithful delay calls) (b : Nat) :
    Returns delay calls b ↔ (after delay calls).Careful (.tryAdvance b) := by
  have hsync := (h calls List.prefix_rfl).1
  have hmem : ∀ e, e ∈ (after delay calls).expired b ↔
      ∃ k, k ≤ b ∧ Awaited delay calls k e.1 e.2 := by
    intro e
    simp only [mem_expired, h.queued_iff]
  have hdue : Returns delay calls b ↔ (((after delay calls).tryAdvance b).2.getD []).Perm
      (((after delay calls).expired b).map fun e => e.2.1) := by
    constructor
    · rintro ⟨due, hnodup, hdue, hperm⟩
      have heq : due.Perm ((after delay calls).expired b) := by
        rw [List.perm_ext_iff_of_nodup hnodup (hsync.nodup_expired b)]
        exact fun e => (hdue e).trans (hmem e).symm
      exact hperm.trans (heq.map _)
    · exact fun hperm => ⟨_, hsync.nodup_expired b, hmem, hperm⟩
  rw [hdue, Careful]
  by_cases hb : (after delay calls).currentBlock < b
  · rw [tryAdvance, if_pos hb, Option.getD_some, newestFirst_perm_iff,
      List.nodup_map_iff_inj_on (hsync.nodup_expired b)]
    exact ⟨fun hinj => ⟨fun _ => hinj, fun hle => absurd hb (Nat.not_lt.mpr hle)⟩,
      fun hc => hc.1 hb⟩
  · rw [tryAdvance_of_le _ b (Nat.not_lt.mp hb), Option.getD_none, List.nil_perm,
      List.map_eq_nil_iff]
    exact ⟨fun hnil => ⟨fun hlt => absurd hlt hb, fun _ => hnil⟩,
      fun hc => hc.2 (Nat.not_lt.mp hb)⟩

/-- The calls are answered faithfully exactly when all of them are careful. -/
theorem faithful_iff (delay : Nat) (calls : List (PendingCall TxHash Tx)) :
    Faithful delay calls ↔ ∀ pre c, pre ++ [c] <+: calls → (after delay pre).Careful c := by
  have hstep : ∀ pre (c : PendingCall TxHash Tx), Faithful delay pre →
      (Faithful delay (pre ++ [c]) ↔ (after delay pre).Careful c) := by
    intro pre c h
    have hsync := (h pre List.prefix_rfl).1
    rw [faithful_concat, after_concat, hsync.call_iff, and_iff_right h]
    cases c with
    | append tx trs now =>
      simp only [PendingCall.append.injEq, reduceCtorEq, false_imp_iff, implies_true, and_true,
        Careful]
      exact ⟨fun hk => hk tx trs now ⟨rfl, rfl, rfl⟩, fun hk _ _ _ heq => heq.1 ▸ hk⟩
    | confirmTx tx => simp [Careful]
    | tryAdvance b => simp [h.returns_iff]
  rw [← Lib.holds_along_iff (Faithful delay) (fun pre c => (after delay pre).Careful c) _ hstep]
  · constructor
    · intro h pre hpre pre' hpre'
      exact ⟨(h pre' (hpre'.trans hpre)).1, fun b hb => (h pre' (hpre'.trans hpre)).2 b
        (hb.trans hpre)⟩
    · exact fun h => h calls List.prefix_rfl
  · intro pre hpre
    rw [List.prefix_nil.mp hpre]
    refine ⟨?_, fun b hb => by simp at hb⟩
    intro k tx
    simp [after, new, queued, deadline]

/-- One transaction, announced at block 0 and again at block 5: with a delay of 10 blocks it is due
twice. -/
def reannounced : List (PendingCall Nat Nat) :=
  [.append 0 7 0, .tryAdvance 5, .append 0 7 1, .confirmTx 0]

theorem not_faithful_reannounced : ¬ Faithful 10 reannounced := by
  intro h
  have hsync := (h reannounced List.prefix_rfl).1
  have hd := (hsync 10 0).mp (by decide +kernel)
  revert hd
  decide +kernel

end PendingTxs

end UtxoMonitor
