import Std.Data.ExtTreeMap
import UtxoMonitor.Lib.Assoc

/-! The transactions that wait for their confirmation, each with the block by which it is due. -/
namespace UtxoMonitor

/-- A hash map, in the order in which it is walked. -/
abbrev HashMap (K V : Type) := AList fun _ : K => V

/-- A reading of the clock. -/
abbrev Instant := Nat

abbrev BTreeMap (V : Type) := Std.ExtTreeMap Nat V compare

structure PendingTxs (TxHash Tx : Type) where
  maxConfirmationDelayBlocks : Nat
  currentBlock : Nat
  index : HashMap TxHash Nat
  queue : BTreeMap (HashMap TxHash (Tx × Instant))

/-- A queued transaction as the expiry walks over it. -/
abbrev Expired (TxHash Tx : Type) := Sigma fun _ : TxHash => Tx × Instant

namespace PendingTxs

variable {TxHash Tx : Type} [DecidableEq TxHash]

def new (maxConfirmationDelayBlocks : Nat) : PendingTxs TxHash Tx :=
  ⟨maxConfirmationDelayBlocks, 0, ∅, ∅⟩

def shouldConfirmUntil (s : PendingTxs TxHash Tx) : Nat :=
  s.currentBlock + s.maxConfirmationDelayBlocks

def append (s : PendingTxs TxHash Tx) (tx : TxHash) (trs : Tx) (now : Instant) :
    PendingTxs TxHash Tx :=
  { s with
    index := s.index.insert tx s.shouldConfirmUntil
    queue :=
      match s.queue[s.shouldConfirmUntil]? with
      | none => s.queue.insert s.shouldConfirmUntil (AList.insert tx (trs, now) ∅)
      | some txs => s.queue.insert s.shouldConfirmUntil (txs.insert tx (trs, now)) }

def confirmTx (s : PendingTxs TxHash Tx) (tx : TxHash) : PendingTxs TxHash Tx :=
  match s.index.lookup tx with
  | none => s
  | some key =>
    { s with
      index := s.index.erase tx
      queue :=
        match s.queue[key]? with
        | none => s.queue
        | some txs => s.queue.insert key (txs.erase tx) }

/-- All transactions due at `newBlock`, bucket by bucket. -/
def expired (s : PendingTxs TxHash Tx) (newBlock : Nat) : List (Expired TxHash Tx) :=
  (s.queue.toList.filter fun bucket => bucket.1 ≤ newBlock).flatMap fun bucket => bucket.2.entries

omit [DecidableEq TxHash] in
/-- The transactions through a map keyed by their instants, latest first. -/
def newestFirst (txs : List (Expired TxHash Tx)) : List Tx :=
  (txs.foldl (fun failed e => failed.insert e.2.2 e.2.1) (∅ : BTreeMap Tx)).toList.reverse.map
    Prod.snd

def tryAdvance (s : PendingTxs TxHash Tx) (newBlock : Nat) :
    PendingTxs TxHash Tx × Option (List Tx) :=
  if s.currentBlock < newBlock then
    ({ s with
        currentBlock := newBlock
        index := (s.expired newBlock).foldl (fun index e => index.erase e.1) s.index
        queue := s.queue.filter fun key _ => newBlock < key },
      some (newestFirst (s.expired newBlock)))
  else (s, none)

/-! ### What is queued under a deadline -/

def queued (s : PendingTxs TxHash Tx) (deadline : Nat) (tx : TxHash) : Option (Tx × Instant) :=
  s.queue[deadline]?.bind (AList.lookup tx)

/-- The deadline the index has for a transaction. -/
def deadline (s : PendingTxs TxHash Tx) (tx : TxHash) : Option Nat := s.index.lookup tx

theorem getElem?_insert {V : Type} (t : BTreeMap V) (k a : Nat) (v : V) :
    (t.insert k v)[a]? = if k = a then some v else t[a]? := by
  rw [Std.ExtTreeMap.getElem?_insert]
  by_cases h : k = a <;> simp [h]

theorem lookup_foldl_erase {V : Type} (es : List (Expired TxHash Tx)) (m : HashMap TxHash V)
    (a : TxHash) : (es.foldl (fun m e => m.erase e.1) m).lookup a =
      if ∃ e ∈ es, e.1 = a then none else m.lookup a := by
  induction es generalizing m with
  | nil => simp
  | cons e es ih =>
    rw [List.foldl_cons, ih, Lib.lookup_erase_eq]
    by_cases he : e.1 = a
    · simp [he]
    · simp only [List.exists_mem_cons_iff, he, Ne.symm he, false_or, if_false]

variable (s : PendingTxs TxHash Tx) (tx a : TxHash) (trs : Tx) (now : Instant) (k b : Nat)

@[simp] theorem deadline_append :
    (s.append tx trs now).deadline a =
      if a = tx then some s.shouldConfirmUntil else s.deadline a :=
  Lib.lookup_insert_eq s.index tx a s.shouldConfirmUntil

@[simp] theorem queued_append :
    (s.append tx trs now).queued k a =
      if k = s.shouldConfirmUntil ∧ a = tx then some (trs, now) else s.queued k a := by
  by_cases hk : s.shouldConfirmUntil = k
  · subst hk
    cases hq : s.queue[s.shouldConfirmUntil]? with
    | none =>
      simp only [queued, append, hq, getElem?_insert, if_true, Option.bind_some, Lib.lookup_insert_eq]
      simp
    | some txs =>
      simp only [queued, append, hq, getElem?_insert, if_true, Option.bind_some, Lib.lookup_insert_eq]
      simp
  · cases hq : s.queue[s.shouldConfirmUntil]? with
    | none => simp [queued, append, hq, getElem?_insert, hk, Ne.symm hk]
    | some txs => simp [queued, append, hq, getElem?_insert, hk, Ne.symm hk]

theorem confirmTx_of_none {s : PendingTxs TxHash Tx} {tx : TxHash} (h : s.deadline tx = none) :
    s.confirmTx tx = s := by
  have hi : s.index.lookup tx = none := h
  rw [confirmTx, hi]

theorem confirmTx_of_some {s : PendingTxs TxHash Tx} {tx : TxHash} {key : Nat}
    (h : s.deadline tx = some key) :
    s.confirmTx tx = { s with
      index := s.index.erase tx
      queue :=
        match s.queue[key]? with
        | none => s.queue
        | some txs => s.queue.insert key (txs.erase tx) } := by
  have hi : s.index.lookup tx = some key := h
  rw [confirmTx, hi]

@[simp] theorem deadline_confirmTx :
    (s.confirmTx tx).deadline a = if a = tx then none else s.deadline a := by
  cases hi : s.deadline tx with
  | none =>
    rw [confirmTx_of_none hi]
    split
    · rename_i h
      rw [h, hi]
    · rfl
  | some key =>
    rw [confirmTx_of_some hi]
    exact Lib.lookup_erase_eq s.index tx a

@[simp] theorem queued_confirmTx :
    (s.confirmTx tx).queued k a =
      if a = tx ∧ s.deadline tx = some k then none else s.queued k a := by
  cases hi : s.deadline tx with
  | none => simp [confirmTx_of_none hi]
  | some key =>
    rw [confirmTx_of_some hi]
    cases hq : s.queue[key]? with
    | none =>
      by_cases hk : key = k
      · subst hk
        simp [queued, hq]
      · simp [queued, hk]
    | some txs =>
      by_cases hk : key = k
      · subst hk
        simp [queued, hq, Lib.lookup_erase_eq]
      · simp [queued, getElem?_insert, hk]

@[simp] theorem currentBlock_confirmTx : (s.confirmTx tx).currentBlock = s.currentBlock := by
  unfold confirmTx
  split <;> rfl

@[simp] theorem maxDelay_confirmTx : (s.confirmTx tx).maxConfirmationDelayBlocks =
    s.maxConfirmationDelayBlocks := by
  unfold confirmTx
  split <;> rfl

theorem mem_expired {e : Expired TxHash Tx} :
    e ∈ s.expired b ↔ ∃ k, k ≤ b ∧ s.queued k e.1 = some e.2 := by
  simp only [expired, List.mem_flatMap, List.mem_filter, decide_eq_true_eq, queued,
    Option.bind_eq_some_iff]
  constructor
  · rintro ⟨⟨key, txs⟩, ⟨hget, hle⟩, he⟩
    refine ⟨key, hle, txs, Std.ExtTreeMap.mem_toList_iff_getElem?_eq_some.mp hget, ?_⟩
    exact AList.mem_lookup_iff.mpr he
  · rintro ⟨key, hle, txs, hget, he⟩
    refine ⟨(key, txs), ⟨Std.ExtTreeMap.mem_toList_iff_getElem?_eq_some.mpr hget, hle⟩, ?_⟩
    exact AList.mem_lookup_iff.mp he

theorem tryAdvance_of_le (h : b ≤ s.currentBlock) : s.tryAdvance b = (s, none) :=
  if_neg (Nat.not_lt.mpr h)

theorem currentBlock_tryAdvance : (s.tryAdvance b).1.currentBlock = max s.currentBlock b := by
  unfold tryAdvance
  split
  · simp only
    omega
  · simp only
    omega

theorem maxDelay_tryAdvance : (s.tryAdvance b).1.maxConfirmationDelayBlocks =
    s.maxConfirmationDelayBlocks := by
  unfold tryAdvance
  split <;> rfl

theorem queued_tryAdvance (h : s.currentBlock < b) :
    (s.tryAdvance b).1.queued k a = if k ≤ b then none else s.queued k a := by
  simp only [tryAdvance, if_pos h, queued, Std.ExtTreeMap.getElem?_filter']
  by_cases hk : k ≤ b
  · cases s.queue[k]? <;> simp [hk, Option.filter, Nat.not_lt.mpr hk]
  · cases s.queue[k]? <;> simp [hk, Option.filter, Nat.lt_of_not_le hk]

theorem deadline_tryAdvance (h : s.currentBlock < b) :
    (s.tryAdvance b).1.deadline a =
      if ∃ k, k ≤ b ∧ (s.queued k a).isSome then none else s.deadline a := by
  have hiff : (∃ e ∈ s.expired b, e.1 = a) ↔ ∃ k, k ≤ b ∧ (s.queued k a).isSome := by
    constructor
    · rintro ⟨⟨t, v⟩, he, rfl⟩
      obtain ⟨k, hk, hq⟩ := (s.mem_expired b).mp he
      exact ⟨k, hk, by simp [hq]⟩
    · rintro ⟨k, hk, hq⟩
      obtain ⟨v, hv⟩ := Option.isSome_iff_exists.mp hq
      exact ⟨⟨a, v⟩, (s.mem_expired b).mpr ⟨k, hk, hv⟩, rfl⟩
  simp only [tryAdvance, if_pos h, deadline, lookup_foldl_erase, hiff]

/-! ### What an expiry returns -/

omit [DecidableEq TxHash] in
theorem getElem?_foldl_insert (es : List (Expired TxHash Tx)) (m : BTreeMap Tx) (at' : Instant) :
    (es.foldl (fun failed e => failed.insert e.2.2 e.2.1) m)[at']? =
      ((es.filter fun e => e.2.2 = at').getLast?.map fun e => e.2.1).or m[at']? := by
  induction es generalizing m with
  | nil => simp
  | cons e es ih =>
    rw [List.foldl_cons, ih, getElem?_insert]
    by_cases he : e.2.2 = at'
    · simp only [he, if_true, List.filter_cons, decide_true, List.getLast?_cons]
      cases (es.filter fun e => e.2.2 = at').getLast? <;> simp
    · simp [he]

omit [DecidableEq TxHash] in
/-- Of the transactions with one instant the expiry returns the last it walks over. -/
theorem mem_newestFirst {es : List (Expired TxHash Tx)} {tx : Tx} :
    tx ∈ newestFirst es ↔
      ∃ at', ((es.filter fun e => e.2.2 = at').getLast?.map fun e => e.2.1) = some tx := by
  simp only [newestFirst, List.mem_map, List.mem_reverse]
  constructor
  · rintro ⟨⟨at', tx'⟩, hm, rfl⟩
    have hget := Std.ExtTreeMap.mem_toList_iff_getElem?_eq_some.mp hm
    rw [getElem?_foldl_insert] at hget
    exact ⟨at', by simpa using hget⟩
  · rintro ⟨at', h⟩
    refine ⟨(at', tx), Std.ExtTreeMap.mem_toList_iff_getElem?_eq_some.mpr ?_, rfl⟩
    rw [getElem?_foldl_insert, h]
    rfl

omit [DecidableEq TxHash] in
theorem exists_of_mem_newestFirst {es : List (Expired TxHash Tx)} {tx : Tx}
    (h : tx ∈ newestFirst es) : ∃ e ∈ es, e.2.1 = tx := by
  obtain ⟨at', hat⟩ := mem_newestFirst.mp h
  obtain ⟨e, he, rfl⟩ := Option.map_eq_some_iff.mp hat
  exact ⟨e, List.mem_of_mem_filter (List.mem_of_getLast? he), rfl⟩

omit [DecidableEq TxHash] in
/-- A transaction with an instant of its own is returned. -/
theorem mem_newestFirst_of_unique {es : List (Expired TxHash Tx)} {e : Expired TxHash Tx}
    (he : e ∈ es) (hu : ∀ e' ∈ es, e'.2.2 = e.2.2 → e' = e) : e.2.1 ∈ newestFirst es := by
  apply mem_newestFirst.mpr
  refine ⟨e.2.2, ?_⟩
  cases hlast : (es.filter fun e' => e'.2.2 = e.2.2).getLast? with
  | none =>
    have hmem : e ∈ es.filter fun e' => e'.2.2 = e.2.2 := by simp [he]
    rw [List.getLast?_eq_none_iff.mp hlast] at hmem
    cases hmem
  | some e' =>
    obtain ⟨hmem, hat⟩ := List.mem_filter.mp (List.mem_of_getLast? hlast)
    rw [hu e' hmem (by simpa using hat)]
    rfl

end PendingTxs

end UtxoMonitor
