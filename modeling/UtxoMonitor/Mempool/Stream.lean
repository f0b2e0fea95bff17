import UtxoMonitor.Index.Query
import UtxoMonitor.Mempool.TxFilter
import UtxoMonitor.Tracker.Rollback

/-! The mempool stream beside the tracker and the handlers: what it announces of the snapshots of the
node's mempool, and whether it announces again what was undone. -/
namespace UtxoMonitor

open Lib

/-- What the mempool client takes from its libraries for transactions of type `T`. -/
structure TxLibrary (T : Type) where
  blake2b224 : Bytes → RawTxHash
  fromCborBytes : Bytes → Option T
  canonicalHash : T → TransactionHash
  inputs : T → List TransactionInput
  outputs : T → List TransactionOutput

def filterCap : Nat := 4096

/-- The client: what it has not read yet of the snapshot it holds, and its filter. -/
structure MonitorState where
  snapshot : List Bytes
  filter : TxFilter

variable {T : Type}

namespace TxLibrary

variable (lib : TxLibrary T)

/-- `TxViewMut::from` -/
def view (tx : T) : TxViewMut where
  hash := lib.canonicalHash tx
  inputs := lib.inputs tx
  outputs := (lib.outputs tx).zipIdx.map fun (output, ix) => (.ofNat ix, output)

def hashTxBytes (tx : Bytes) : RawTxHash := lib.blake2b224 tx

/-- A turn of the inner loop of `stream_updates`, with the transaction it yields. -/
def queryNextTx (s : MonitorState) : MonitorState × Option T :=
  match s.snapshot with
  | [] => (s, none)
  | rawTx :: snapshot =>
    let registered := s.filter.register (lib.hashTxBytes rawTx)
    (⟨snapshot, registered.1⟩, if registered.2 then none else lib.fromCborBytes rawTx)

theorem queryNextTx_nil {s : MonitorState} (h : s.snapshot = []) :
    lib.queryNextTx s = (s, none) := by
  simp [queryNextTx, h]

theorem queryNextTx_cons {s : MonitorState} {rawTx : Bytes} {snapshot : List Bytes}
    (h : s.snapshot = rawTx :: snapshot) :
    lib.queryNextTx s = (⟨snapshot, (s.filter.register (lib.hashTxBytes rawTx)).1⟩,
      if (s.filter.register (lib.hashTxBytes rawTx)).2 then none else lib.fromCborBytes rawTx) := by
  simp [queryNextTx, h]

/-- The bytes are those of a transaction with hash `t`. -/
def Encodes (raw : Bytes) (t : TransactionHash) : Prop :=
  ∃ tx, lib.fromCborBytes raw = some tx ∧ lib.canonicalHash tx = t

end TxLibrary

/-- The mempool client, the tracker and the index, with what is under way between them. -/
structure Monitor (T : Type) where
  client : MonitorState
  /-- Announced to the tracker. -/
  tracked : List T
  accepted : List T
  failedTxs : List T
  /-- Sent to the tracker, and next for the handler of the index. -/
  ledgerTxs : List (LedgerTxEvent TxViewMut)
  confirmedTxs : List (TransactionHash × Nat)
  tracker : TxTrackerAgent TransactionHash T
  index : RocksDB

inductive MonitorStep where
  /-- The client takes a snapshot of the node's mempool. -/
  | acquire (snapshot : List Bytes)
  | queryNextTx
  | track (now : Instant)
  | handleAccepted
  | handleFailed
  | ledger (ev : LedgerTxEvent TxViewMut)
  | handleLedger
  | confirm

namespace Monitor

def new (index : RocksDB) : Monitor T where
  client := ⟨[], TxFilter.new filterCap⟩
  tracked := []
  accepted := []
  failedTxs := []
  ledgerTxs := []
  confirmedTxs := []
  tracker := .new 6
  index := index

def step (lib : TxLibrary T) (s : Monitor T) : MonitorStep → Monitor T
  | .acquire snapshot => { s with client := { s.client with snapshot := snapshot } }
  | .queryNextTx =>
    let (client, tx) := lib.queryNextTx s.client
    { s with
      client := client
      tracked := s.tracked ++ tx.toList
      accepted := s.accepted ++ tx.toList }
  | .track now =>
    match s.tracked with
    | [] => s
    | tx :: tracked =>
      { s with
        tracked := tracked
        tracker := s.tracker.processIncomingTx (lib.canonicalHash tx) tx now }
  | .handleAccepted =>
    match s.accepted with
    | [] => s
    | tx :: accepted =>
      { s with
        accepted := accepted
        index := (MempoolUpdate.tryHandle s.index (.txAccepted (lib.view tx))).1 }
  | .handleFailed =>
    match s.failedTxs with
    | [] => s
    | tx :: failedTxs =>
      { s with
        failedTxs := failedTxs
        index := (MempoolUpdate.tryHandle s.index (.txDropped (lib.view tx))).1 }
  | .ledger ev =>
    { s with
      ledgerTxs := s.ledgerTxs ++ [ev]
      confirmedTxs := s.confirmedTxs ++ [succinctTx ev] }
  | .handleLedger =>
    match s.ledgerTxs with
    | [] => s
    | ev :: ledgerTxs =>
      { s with ledgerTxs := ledgerTxs, index := (LedgerTxEvent.tryHandle s.index ev).1 }
  | .confirm =>
    match s.confirmedTxs with
    | [] => s
    | (tx, block) :: confirmedTxs =>
      let (tracker, failed) := s.tracker.processConfirmedTx tx block
      { s with
        confirmedTxs := confirmedTxs
        tracker := tracker
        failedTxs := s.failedTxs ++ failed.getD [] }

/-- Only the client's own reads reach its filter. -/
theorem filter_step (lib : TxLibrary T) (s : Monitor T) {e : MonitorStep}
    (he : e ≠ .queryNextTx) : (s.step lib e).client.filter = s.client.filter := by
  cases e with
  | queryNextTx => exact absurd rfl he
  | acquire snapshot => rfl
  | ledger ev => rfl
  | track now =>
    simp only [step]
    split <;> rfl
  | handleAccepted =>
    simp only [step]
    split <;> rfl
  | handleFailed =>
    simp only [step]
    split <;> rfl
  | handleLedger =>
    simp only [step]
    split <;> rfl
  | confirm =>
    simp only [step]
    split <;> rfl

end Monitor

/-- To take a snapshot with a known transaction alone and to read it emits nothing. -/
theorem queryNextTx_known {lib : TxLibrary T} {s : MonitorState} {raw : Bytes}
    (hs : s.snapshot = []) (hk : lib.hashTxBytes raw ∈ s.filter.knownTxs) :
    lib.queryNextTx { s with snapshot := [raw] } = (s, none) := by
  obtain ⟨snapshot, filter⟩ := s
  obtain rfl : snapshot = [] := hs
  have hr : filter.register (lib.hashTxBytes raw) = (filter, true) := if_pos hk
  simp [TxLibrary.queryNextTx, hr]

theorem Monitor.step_reread {lib : TxLibrary T} {s : Monitor T} {raw : Bytes}
    (hs : s.client.snapshot = []) (hk : lib.hashTxBytes raw ∈ s.client.filter.knownTxs) :
    (s.step lib (.acquire [raw])).step lib .queryNextTx = s := by
  have hread := queryNextTx_known hs hk
  simp [Monitor.step, hread]

/-- A run over the index it finds; it waits at the positions without an event. -/
structure MonitorRun (T : Type) where
  lib : TxLibrary T
  index : RocksDB
  event : Nat → Option MonitorStep

namespace MonitorRun

variable (R : MonitorRun T)

def state : Nat → Monitor T
  | 0 => .new R.index
  | n + 1 =>
    match R.event n with
    | none => state n
    | some e => (state n).step R.lib e

def client (n : Nat) : MonitorState := (R.state n).client

/-- The client reads `raw` in the snapshot it holds. -/
def Reads (n : Nat) (raw : Bytes) : Prop :=
  R.event n = some .queryNextTx ∧ (R.client n).snapshot.head? = some raw

/-- The stream emits `TxAccepted` for `t`. -/
def Emits (n : Nat) (t : TransactionHash) : Prop :=
  R.event n = some .queryNextTx ∧
    ∃ tx, (R.lib.queryNextTx (R.client n)).2 = some tx ∧ R.lib.canonicalHash tx = t

/-- `t` is undone in the index: the tracker dropped it, or the ledger took it back. -/
def Undone (n : Nat) (t : TransactionHash) : Prop :=
  (R.event n = some .handleFailed ∧
    ∃ tx, (R.state n).failedTxs.head? = some tx ∧ R.lib.canonicalHash tx = t) ∨
  (R.event n = some .handleLedger ∧ ∃ tx slot number hash,
    (R.state n).ledgerTxs.head? = some (.txUnapplied tx slot number hash) ∧ tx.hash = t)

/-- The client finds `t` in a snapshot it took after `u`. -/
def FindsAfter (u n : Nat) (t : TransactionHash) : Prop :=
  (∃ a snapshot, u < a ∧ a < n ∧ R.event a = some (.acquire snapshot)) ∧
    ∃ raw, R.Reads n raw ∧ R.lib.Encodes raw t

/-- What was undone and is found in a later snapshot is announced again by then. -/
def Reannounces : Prop :=
  ∀ u n t, R.Undone u t → R.FindsAfter u n t → ∃ m, u < m ∧ m ≤ n ∧ R.Emits m t

/-- The hashes read so far that were new to the filter, newest first. -/
def newHashes : Nat → List RawTxHash
  | 0 => []
  | n + 1 =>
    match R.event n, (R.client n).snapshot with
    | some .queryNextTx, raw :: _ =>
      if R.lib.hashTxBytes raw ∈ TxFilter.window filterCap (newHashes n) then newHashes n
      else R.lib.hashTxBytes raw :: newHashes n
    | _, _ => newHashes n

/-- The bytes are new to the filter: not among the hashes it holds of those it took for new. -/
def New (n : Nat) (raw : Bytes) : Prop :=
  R.lib.hashTxBytes raw ∉ TxFilter.window filterCap (R.newHashes n)

/-! ### The filter along a run -/

variable {R} {n : Nat}

/-- A step of the client, or one that leaves its filter alone. -/
theorem client_cases (R : MonitorRun T) (n : Nat) :
    (R.event n = some .queryNextTx ∧ R.client (n + 1) = (R.lib.queryNextTx (R.client n)).1) ∨
    (R.event n ≠ some .queryNextTx ∧ (R.client (n + 1)).filter = (R.client n).filter) := by
  cases he : R.event n with
  | none => exact .inr ⟨by simp, by rw [client, state, he]; rfl⟩
  | some e =>
    have hs : R.client (n + 1) = ((R.state n).step R.lib e).client := by
      rw [client, state, he]
    rw [hs]
    by_cases hq : e = .queryNextTx
    · subst hq
      exact .inl ⟨rfl, rfl⟩
    · exact .inr ⟨by simpa using hq, (R.state n).filter_step R.lib hq⟩

theorem newHashes_succ_of_ne (h : R.event n ≠ some .queryNextTx) :
    R.newHashes (n + 1) = R.newHashes n := by
  rw [newHashes]
  split
  · rename_i he _
    exact absurd he h
  · rfl

theorem newHashes_succ {raw : Bytes} (h : R.Reads n raw) :
    R.newHashes (n + 1) = if R.lib.hashTxBytes raw ∈ TxFilter.window filterCap (R.newHashes n)
      then R.newHashes n else R.lib.hashTxBytes raw :: R.newHashes n := by
  obtain ⟨he, hraw⟩ := h
  obtain ⟨rest, hs⟩ := List.head?_eq_some_iff.mp hraw
  rw [newHashes, he, hs]

/-- The filter remembers what was new to it. -/
theorem remembers (R : MonitorRun T) (n : Nat) :
    (R.client n).filter.Remembers (R.newHashes n) ∧ (R.client n).filter.cap = filterCap := by
  induction n with
  | zero => exact ⟨.new filterCap, rfl⟩
  | succ n ih =>
    obtain ⟨hrem, hcap⟩ := ih
    rcases R.client_cases n with ⟨he, hs⟩ | ⟨he, hs⟩
    · cases hsnap : (R.client n).snapshot with
      | nil =>
        have hnews : R.newHashes (n + 1) = R.newHashes n := by
          simp [newHashes, he, hsnap]
        rw [hs, hnews, R.lib.queryNextTx_nil hsnap]
        exact ⟨hrem, hcap⟩
      | cons raw snapshot =>
        have hread : R.Reads n raw := ⟨he, by simp [hsnap]⟩
        rw [hs, R.lib.queryNextTx_cons hsnap, newHashes_succ hread, ← hcap]
        refine ⟨?_, (R.client n).filter.cap_register _⟩
        obtain ⟨hknown, hnew⟩ := hrem.register (R.lib.hashTxBytes raw)
        by_cases hin : R.lib.hashTxBytes raw ∈
            TxFilter.window (R.client n).filter.cap (R.newHashes n)
        · simpa only [hknown hin, hin, if_true] using hrem
        · simpa only [hin, if_false] using (hnew hin).2
    · rw [hs, newHashes_succ_of_ne he]
      exact ⟨hrem, hcap⟩

/-- The filter knows the bytes it reads unless they are new to it. -/
theorem register_iff (R : MonitorRun T) (n : Nat) (raw : Bytes) :
    ((R.client n).filter.register (R.lib.hashTxBytes raw)).2 = false ↔ R.New n raw := by
  obtain ⟨hrem, hcap⟩ := R.remembers n
  obtain ⟨hknown, hnew⟩ := hrem.register (R.lib.hashTxBytes raw)
  rw [hcap] at hknown hnew
  constructor
  · intro hr hin
    rw [hknown hin] at hr
    cases hr
  · intro hout
    exact (hnew hout).1

/-- The stream emits what it reads, where that decodes and is new to the filter. -/
theorem emits_iff {t : TransactionHash} :
    R.Emits n t ↔ ∃ raw, R.Reads n raw ∧ R.lib.Encodes raw t ∧ R.New n raw := by
  constructor
  · rintro ⟨he, tx, hq, ht⟩
    cases hsnap : (R.client n).snapshot with
    | nil =>
      rw [R.lib.queryNextTx_nil hsnap] at hq
      cases hq
    | cons raw snapshot =>
      rw [R.lib.queryNextTx_cons hsnap] at hq
      simp only [Option.ite_none_left_eq_some, Bool.not_eq_true] at hq
      have hread : R.Reads n raw := ⟨he, by simp [hsnap]⟩
      exact ⟨raw, hread, ⟨tx, hq.2, ht⟩, (R.register_iff n raw).mp hq.1⟩
  · rintro ⟨raw, ⟨he, hraw⟩, ⟨tx, hdec, ht⟩, hnew⟩
    obtain ⟨rest, hsnap⟩ := List.head?_eq_some_iff.mp hraw
    refine ⟨he, tx, ?_, ht⟩
    rw [R.lib.queryNextTx_cons hsnap]
    simp only [(R.register_iff n raw).mpr hnew, Bool.false_eq_true, if_false]
    exact hdec

/-- What was undone is announced again precisely when its bytes are, by the time a later snapshot
shows it, no longer among those the filter holds. -/
theorem reannounces_iff (R : MonitorRun T) : R.Reannounces ↔
    ∀ u n t, R.Undone u t → R.FindsAfter u n t →
      ∃ m raw, u < m ∧ m ≤ n ∧ R.Reads m raw ∧ R.lib.Encodes raw t ∧ R.New m raw := by
  constructor
  · intro h u n t hu hn
    obtain ⟨m, hum, hmn, hem⟩ := h u n t hu hn
    obtain ⟨raw, hread, henc, hnew⟩ := emits_iff.mp hem
    exact ⟨m, raw, hum, hmn, hread, henc, hnew⟩
  · intro h u n t hu hn
    obtain ⟨m, raw, hum, hmn, hread, henc, hnew⟩ := h u n t hu hn
    exact ⟨m, hum, hmn, emits_iff.mpr ⟨raw, hread, henc, hnew⟩⟩

/-! ### A transaction the tracker dropped -/

/-- A transaction that spends the output of `txProduce` and stays in the node's mempool. -/
def txPending : TxViewMut where
  hash := ⟨[91, 132, 74, 187, 32, 202, 216, 169, 249, 160, 2, 230, 47, 101, 15, 204, 237, 222, 98,
    141, 99, 83, 69, 106, 203, 55, 110, 54, 182, 198, 129, 127], rfl⟩
  inputs := [⟨txProduce.hash, 0⟩]
  outputs := [(0, .alonzoFormatTxOut (.enterprise (.pubKey (.replicate 8))) ⟨1, []⟩ none)]

/-- The bytes of `txPending`, with no witness and a zero fee. -/
def rawPending : Bytes :=
  [132, 163, 0, 129, 130, 88, 32] ++ List.replicate 32 1 ++ [0, 1, 129, 130, 88, 29, 97] ++
    List.replicate 28 8 ++ [1, 2, 0, 160, 245, 246]

/-- The libraries, as far as `rawPending` goes. -/
def pendingLibrary : TxLibrary TxViewMut where
  blake2b224 bytes :=
    if bytes = rawPending then
      ⟨[115, 184, 205, 196, 210, 110, 179, 32, 229, 145, 92, 202, 120, 29, 19, 98, 245, 173, 31,
        38, 115, 254, 167, 90, 45, 72, 73, 51], rfl⟩
    else .replicate 0
  fromCborBytes bytes := if bytes = rawPending then some txPending else none
  canonicalHash := TxViewMut.hash
  inputs := TxViewMut.inputs
  outputs tx := tx.outputs.map Prod.snd

/-- A transaction of block 106 that has nothing to do with the pending one. -/
def txLater : TxViewMut where
  hash := .replicate 9
  inputs := [⟨.replicate 0, 1⟩]
  outputs := []

/-- `txPending` is announced at block 100, dropped at block 106, and in every snapshot from then on. -/
def droppedRun : MonitorRun TxViewMut where
  lib := pendingLibrary
  index := RocksDB.empty
  event n :=
    if h : n < 11 then
      some (([.ledger (.txApplied txProduce 1000 100 (.replicate 3)), .handleLedger, .confirm,
        .acquire [rawPending], .queryNextTx, .track 0, .handleAccepted,
        .ledger (.txApplied txLater 1120 106 (.replicate 4)), .handleLedger, .confirm,
        .handleFailed] : List MonitorStep).get ⟨n, h⟩)
    else if n % 2 = 1 then some (.acquire [rawPending])
    else some .queryNextTx

theorem droppedRun_acquire (k : Nat) :
    droppedRun.event (11 + 2 * k) = some (.acquire [rawPending]) := by
  simp only [droppedRun]
  rw [dif_neg (by omega), if_pos (by omega)]

theorem droppedRun_query (k : Nat) : droppedRun.event (12 + 2 * k) = some .queryNextTx := by
  simp only [droppedRun]
  rw [dif_neg (by omega), if_neg (by omega)]

theorem droppedRun_state_eleven : (droppedRun.state 11).client.snapshot = [] ∧
    pendingLibrary.hashTxBytes rawPending ∈ (droppedRun.state 11).client.filter.knownTxs := by
  decide +kernel

theorem droppedRun_state_acquired {k : Nat}
    (h : droppedRun.state (11 + 2 * k) = droppedRun.state 11) : droppedRun.state (12 + 2 * k) =
      (droppedRun.state 11).step pendingLibrary (.acquire [rawPending]) := by
  rw [show 12 + 2 * k = 11 + 2 * k + 1 by omega, state, droppedRun_acquire, ← h]
  rfl

theorem droppedRun_state (k : Nat) : droppedRun.state (11 + 2 * k) = droppedRun.state 11 := by
  induction k with
  | zero => rfl
  | succ k ih =>
    rw [show 11 + 2 * (k + 1) = 12 + 2 * k + 1 by omega, state, droppedRun_query,
      droppedRun_state_acquired ih]
    exact Monitor.step_reread droppedRun_state_eleven.1 droppedRun_state_eleven.2

theorem droppedRun_emits {n : Nat} (hn : 10 < n) (t : TransactionHash) :
    ¬ droppedRun.Emits n t := by
  rintro ⟨he, tx, hq, -⟩
  have hparity : ∃ k, n = 11 + 2 * k ∨ n = 12 + 2 * k := ⟨(n - 11) / 2, by omega⟩
  obtain ⟨k, rfl | rfl⟩ := hparity
  · rw [droppedRun_acquire] at he
    cases he
  · rw [client, droppedRun_state_acquired (droppedRun_state k)] at hq
    rw [show droppedRun.lib = pendingLibrary from rfl, Monitor.step,
      queryNextTx_known droppedRun_state_eleven.1 droppedRun_state_eleven.2] at hq
    cases hq

/-- Once dropped, the transaction is never announced again, though every snapshot has it, and the
output it spends stays among the unspent ones. -/
theorem dropped_unannounced :
    ¬ droppedRun.Reannounces ∧
    droppedRun.Undone 10 txPending.hash ∧
    (∀ k, droppedRun.FindsAfter 10 (12 + 2 * k) txPending.hash) ∧
    (∀ n, 10 < n → ¬ droppedRun.Emits n txPending.hash) ∧
    ∀ n, 10 < n → ((getUtxos (droppedRun.state n).index
      (some (.pubKey (.replicate 7), .payment)) .unspent 0 10).2.map fun txos =>
        txos.map Txo.oref) = some [⟨txProduce.hash, 0⟩] := by
  have hundone : droppedRun.Undone 10 txPending.hash :=
    .inl ⟨rfl, txPending, by decide +kernel, rfl⟩
  have hfinds : ∀ k, droppedRun.FindsAfter 10 (12 + 2 * k) txPending.hash := by
    intro k
    refine ⟨⟨11, [rawPending], by omega, by omega, droppedRun_acquire 0⟩, rawPending,
      ⟨droppedRun_query k, ?_⟩, txPending, by decide +kernel, rfl⟩
    rw [client, droppedRun_state_acquired (droppedRun_state k)]
    rfl
  refine ⟨?_, hundone, hfinds, fun n hn => droppedRun_emits hn _, ?_⟩
  · intro h
    obtain ⟨m, hum, -, hem⟩ := h 10 12 _ hundone (hfinds 0)
    exact droppedRun_emits hum _ hem
  · intro n hn
    have hindex : (droppedRun.state n).index = (droppedRun.state 11).index := by
      have hparity : ∃ k, n = 11 + 2 * k ∨ n = 12 + 2 * k := ⟨(n - 11) / 2, by omega⟩
      obtain ⟨k, rfl | rfl⟩ := hparity
      · rw [droppedRun_state]
      · rw [droppedRun_state_acquired (droppedRun_state k)]
        rfl
    rw [hindex]
    decide +kernel

end MonitorRun

end UtxoMonitor
