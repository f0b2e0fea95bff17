import Mathlib.Data.Finset.Card
import UtxoMonitor.Cardano.Types
import UtxoMonitor.Lib.Window

/-! The filter by which the mempool client tells new transactions from known ones. -/
namespace UtxoMonitor

abbrev RawTxHash := RawBytes 28

structure TxFilter where
  knownTxs : Finset RawTxHash
  /-- Newest first. -/
  evictionQueue : List RawTxHash
  cap : Nat

namespace TxFilter

def new (cap : Nat) : TxFilter := ⟨∅, [], cap⟩

/-- The filter without its oldest hash, where it is over its capacity. -/
def evict (f : TxFilter) : TxFilter :=
  if f.cap < f.knownTxs.card then
    match f.evictionQueue.getLast? with
    | some candidate =>
      { f with
        knownTxs := f.knownTxs.erase candidate
        evictionQueue := f.evictionQueue.dropLast }
    | none => f
  else f

/-- The filter with `tx`, and whether it knew it. -/
def register (f : TxFilter) (tx : RawTxHash) : TxFilter × Bool :=
  if tx ∈ f.knownTxs then (f, true)
  else
    ({ f.evict with
        knownTxs := insert tx f.evict.knownTxs
        evictionQueue := tx :: f.evict.evictionQueue }, false)

/-- Of the new hashes so far, newest first, the filter remembers those in the window. -/
def window (cap : Nat) (news : List RawTxHash) : List RawTxHash := news.take (cap + 1)

structure Remembers (f : TxFilter) (news : List RawTxHash) : Prop where
  queue : f.evictionQueue = window f.cap news
  nodup : f.evictionQueue.Nodup
  known : ∀ h, h ∈ f.knownTxs ↔ h ∈ f.evictionQueue

theorem Remembers.new (cap : Nat) : (new cap).Remembers [] where
  queue := rfl
  nodup := List.nodup_nil
  known h := by simp [TxFilter.new]

variable {f : TxFilter} {news : List RawTxHash}

theorem Remembers.card (hf : f.Remembers news) : f.knownTxs.card = f.evictionQueue.length := by
  have heq : f.knownTxs = f.evictionQueue.toFinset := by
    ext h
    rw [hf.known, List.mem_toFinset]
  rw [heq, List.toFinset_card_of_nodup hf.nodup]

@[simp] theorem cap_evict (f : TxFilter) : f.evict.cap = f.cap := by
  unfold evict
  split
  · split <;> rfl
  · rfl

/-- What is left after an eviction: the window without room for one more. -/
theorem Remembers.evict (hf : f.Remembers news) :
    f.evict.evictionQueue = news.take f.cap ∧ f.evict.evictionQueue.Nodup ∧
      ∀ h, h ∈ f.evict.knownTxs ↔ h ∈ f.evict.evictionQueue := by
  have hcard := hf.card
  have hqueue := hf.queue
  unfold TxFilter.evict
  split
  · rename_i hover
    rw [hcard] at hover
    have hlen : f.cap < news.length := by
      rw [hqueue, window, List.length_take] at hover
      omega
    cases hlast : f.evictionQueue.getLast? with
    | none =>
      rw [List.getLast?_eq_none_iff.mp hlast] at hover
      exact absurd hover (Nat.not_lt_zero _)
    | some candidate =>
      have hsplit := List.dropLast_append_getLast? candidate hlast
      have hnd := hf.nodup
      rw [← hsplit, List.nodup_append] at hnd
      refine ⟨?_, hnd.1, ?_⟩
      · change f.evictionQueue.dropLast = _
        rw [hqueue, window, List.dropLast_eq_take, List.length_take, List.take_take]
        congr 1
        omega
      · intro h
        change h ∈ f.knownTxs.erase candidate ↔ h ∈ f.evictionQueue.dropLast
        rw [Finset.mem_erase, hf.known]
        conv_lhs => rw [← hsplit]
        simp only [List.mem_append, List.mem_singleton]
        constructor
        · rintro ⟨hne, hold | hlast⟩
          · exact hold
          · exact absurd hlast hne
        · intro hold
          exact ⟨fun heq => hnd.2.2 h hold candidate (.head _) heq, .inl hold⟩
  · rename_i hroom
    rw [hcard, hqueue, window, List.length_take] at hroom
    refine ⟨?_, hf.nodup, hf.known⟩
    rw [hqueue, window, List.take_of_length_le (by omega), List.take_of_length_le (by omega)]

/-- A hash is known when it is in the window, and a new one moves the window on. -/
theorem Remembers.register (hf : f.Remembers news) (tx : RawTxHash) :
    (tx ∈ window f.cap news → f.register tx = (f, true)) ∧
    (tx ∉ window f.cap news → (f.register tx).2 = false ∧
      (f.register tx).1.Remembers (tx :: news)) := by
  have hknown : tx ∈ f.knownTxs ↔ tx ∈ window f.cap news := by
    rw [hf.known, hf.queue]
  constructor
  · intro h
    rw [TxFilter.register, if_pos (hknown.mpr h)]
  · intro h
    obtain ⟨hqueue, hnd, hkn⟩ := hf.evict
    rw [TxFilter.register, if_neg (mt hknown.mp h)]
    refine ⟨rfl, ?_, ?_, ?_⟩
    · change tx :: f.evict.evictionQueue = window f.evict.cap (tx :: news)
      rw [hqueue, cap_evict, window, List.take_succ_cons]
    · apply List.nodup_cons.mpr
      refine ⟨?_, hnd⟩
      intro hm
      rw [hqueue] at hm
      exact h ((List.take_sublist_take_left (Nat.le_succ f.cap)).subset hm)
    · intro h'
      change h' ∈ insert tx f.evict.knownTxs ↔ h' ∈ tx :: f.evict.evictionQueue
      rw [Finset.mem_insert, hkn, List.mem_cons]

@[simp] theorem cap_register (f : TxFilter) (tx : RawTxHash) : (f.register tx).1.cap = f.cap := by
  unfold register
  split
  · rfl
  · exact cap_evict f

/-! ### Runs -/

/-- A call of the client, beside the hashes that were answered as new. -/
def feed (s : TxFilter × List RawTxHash) (tx : RawTxHash) : TxFilter × List RawTxHash :=
  let registered := s.1.register tx
  (registered.1, if registered.2 then s.2 else tx :: s.2)

def run (cap : Nat) (txs : List RawTxHash) : TxFilter × List RawTxHash :=
  txs.foldl feed (new cap, [])

/-- The filter remembers a history in which no hash of its window was new again. -/
structure Tracks (cap : Nat) (s : TxFilter × List RawTxHash) : Prop where
  cap_eq : s.1.cap = cap
  remembers : s.1.Remembers s.2
  fresh : Lib.Fresh (cap + 1) s.2

theorem Tracks.feed {cap : Nat} {s : TxFilter × List RawTxHash} (h : Tracks cap s)
    (tx : RawTxHash) : Tracks cap (feed s tx) := by
  obtain ⟨hknown, hnew⟩ := h.remembers.register tx
  by_cases hmem : tx ∈ window s.1.cap s.2
  · have heq : TxFilter.feed s tx = s := by
      rw [TxFilter.feed, hknown hmem]
      rfl
    rw [heq]
    exact h
  · obtain ⟨hanswer, hremembers⟩ := hnew hmem
    have heq : TxFilter.feed s tx = ((s.1.register tx).1, tx :: s.2) := by
      rw [TxFilter.feed, hanswer]
      rfl
    rw [heq]
    refine ⟨(cap_register s.1 tx).trans h.cap_eq, hremembers, .cons ?_ h.fresh⟩
    rw [← h.cap_eq]
    exact hmem

theorem tracks_run (cap : Nat) (txs : List RawTxHash) : Tracks cap (run cap txs) := by
  induction txs using List.reverseRecOn with
  | nil => exact ⟨rfl, .new cap, .nil⟩
  | append_singleton txs tx ih =>
    rw [run, List.foldl_append]
    exact ih.feed tx

/-- After any calls the filter answers by the last `cap + 1` new hashes, its set and its queue are
one, and a hash is new again only after more than `cap` others were. -/
theorem known_iff_recent (cap : Nat) (txs : List RawTxHash) :
    (∀ tx, ((run cap txs).1.register tx).2 = true ↔ tx ∈ (run cap txs).2.take (cap + 1)) ∧
    ((run cap txs).1.evictionQueue.Nodup ∧
      ∀ tx, tx ∈ (run cap txs).1.knownTxs ↔ tx ∈ (run cap txs).1.evictionQueue) ∧
    ∀ newer tx between older, (run cap txs).2 = newer ++ tx :: (between ++ tx :: older) →
      tx ∉ between → cap < between.toFinset.card := by
  have h := tracks_run cap txs
  refine ⟨?_, ⟨h.remembers.nodup, h.remembers.known⟩, ?_⟩
  · intro tx
    obtain ⟨hknown, hnew⟩ := h.remembers.register tx
    rw [h.cap_eq, window] at hknown hnew
    constructor
    · intro htrue
      by_contra hmem
      rw [(hnew hmem).1] at htrue
      cases htrue
    · intro hmem
      rw [hknown hmem]
  · intro newer tx between older hsplit hne
    have hfresh := h.fresh
    rw [hsplit] at hfresh
    exact hfresh.again hne

end TxFilter

end UtxoMonitor
