import UtxoMonitor.Handler.TxHandler

/-! How long the outputs of a confirmed transaction stay confirmed. Confirmation is no more than a
field of the record, which any later event that writes the record sets anew. -/
namespace UtxoMonitor

open Lib

/-- Every output of `tx` is stored as settled at `slot`. -/
def ConfirmedAt (db : RocksDB) (tx : TxViewMut) (slot : Slot) : Prop :=
  ∀ o ∈ tx.outputRefs, ∃ r, storedTxo db o = some r ∧ r.settledAt = some slot

/-- An event that writes an output of `tx` is an application at `slot`. -/
def Confirms (ev : Event) (tx : TxViewMut) (slot : Slot) : Prop :=
  (∃ o ∈ tx.outputRefs, o ∈ ev.tx.outputRefs) → ev.applies = some (some slot)

theorem TxViewMut.marked_settledAt (tx : TxViewMut) (spent : Bool) (o : OutputRef)
    (r : Option TxoRecord) :
    (tx.marked spent o r).map TxoRecord.settledAt = r.map TxoRecord.settledAt := by
  unfold marked
  split
  · cases r <;> rfl
  · rfl

/-- The settlement an event leaves on an output. -/
theorem Event.record_settledAt (ev : Event) (o : OutputRef) (r : Option TxoRecord) :
    (ev.record o r).map TxoRecord.settledAt =
      if o ∈ ev.tx.outputRefs then ev.applies else r.map TxoRecord.settledAt := by
  unfold Event.record
  cases ha : ev.applies with
  | some settledAt =>
    unfold TxViewMut.applied
    cases hout : ev.tx.outputAt o with
    | some out =>
      have ho := ev.tx.isSome_outputAt.mp (Option.isSome_of_mem hout)
      simp [ho]
    | none =>
      have ho := ev.tx.outputAt_eq_none.mp hout
      simp [ho, TxViewMut.marked_settledAt]
  | none =>
    unfold TxViewMut.unapplied
    by_cases ho : o ∈ ev.tx.outputRefs <;> simp [ho, TxViewMut.marked_settledAt]

theorem confirmedAt_iff {db : RocksDB} {tx : TxViewMut} {slot : Slot} :
    ConfirmedAt db tx slot ↔
      ∀ o ∈ tx.outputRefs, (storedTxo db o).map TxoRecord.settledAt = some (some slot) := by
  simp [ConfirmedAt, Option.map_eq_some_iff]

/-- One event keeps a transaction confirmed precisely when it confirms what it writes of it. -/
theorem confirmedAt_event_iff {db : RocksDB} {tx : TxViewMut} {slot : Slot}
    (h : ConfirmedAt db tx slot) (ev : Event) :
    ConfirmedAt (ev.run db) tx slot ↔ Confirms ev tx slot := by
  rw [confirmedAt_iff] at h ⊢
  simp only [storedTxo_event, Event.record_settledAt]
  constructor
  · rintro hafter ⟨o, ho, hev⟩
    have := hafter o ho
    rwa [if_pos hev] at this
  · intro hconf o ho
    by_cases hev : o ∈ ev.tx.outputRefs
    · rw [if_pos hev]
      exact hconf ⟨o, ho, hev⟩
    · rw [if_neg hev]
      exact h o ho

theorem confirmedAt_txApplied (db : RocksDB) (tx : TxViewMut) (slot : Slot)
    (blockNumber : UInt64) (blockHash : BlockHeaderHash) :
    ConfirmedAt (Event.run db (.ledger (.txApplied tx slot blockNumber blockHash))) tx slot := by
  rw [confirmedAt_iff]
  intro o ho
  rw [storedTxo_event, Event.record_settledAt]
  exact if_pos ho

/-- After a ledger event confirms a transaction, its outputs stay stored and settled at its slot
exactly as long as every later event that writes one of them confirms it at that slot again. -/
theorem confirmed_stays_iff (before after : List Event) (tx : TxViewMut) (slot : Slot)
    (blockNumber : UInt64) (blockHash : BlockHeaderHash) :
    (∀ seen, seen <+: after → ConfirmedAt (runEvents
        (before ++ .ledger (.txApplied tx slot blockNumber blockHash) :: seen)) tx slot) ↔
      ∀ ev ∈ after, Confirms ev tx slot := by
  have hrun : ∀ seen, runEvents (before ++ .ledger (.txApplied tx slot blockNumber blockHash) ::
      seen) = seen.foldl Event.run (Event.run (runEvents before)
        (.ledger (.txApplied tx slot blockNumber blockHash))) := fun seen => runEvents_append ..
  simp only [hrun]
  have hstart := confirmedAt_txApplied (runEvents before) tx slot blockNumber blockHash
  generalize Event.run (runEvents before) _ = db at hstart
  have halong := holds_along_iff (fun seen => ConfirmedAt (seen.foldl Event.run db) tx slot)
    (fun _ ev => Confirms ev tx slot) hstart
    (fun seen ev h => by
      rw [List.foldl_concat]
      exact confirmedAt_event_iff h ev) after
  rw [halong]
  constructor
  · intro h ev hev
    obtain ⟨seen, rest, rfl⟩ := List.append_of_mem hev
    exact h seen ev ⟨rest, by simp⟩
  · rintro h seen ev ⟨rest, rfl⟩
    exact h ev (by simp)

/-- The mempool drops a transaction after its confirmation. -/
theorem confirmed_lost :
    ∃ o ∈ txProduce.outputRefs, storedTxo (runEvents
      [.ledger (.txApplied txProduce 1 1 (.replicate 1)), .mempool (.txDropped txProduce)]) o =
        none := by
  refine ⟨⟨txProduce.hash, 0⟩, by decide, ?_⟩
  decide +kernel

end UtxoMonitor
