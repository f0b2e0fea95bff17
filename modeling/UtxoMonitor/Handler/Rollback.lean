import UtxoMonitor.Handler.TxHandler

/-! Unapplying transactions in reverse order undoes their application. -/
namespace UtxoMonitor

open Lib

def applyAll (txs : List (TxViewMut × Option Slot)) (db : RocksDB) : RocksDB :=
  txs.foldl (fun db t => (applyTx t.1 t.2).run db) db

def unapplyAll (txs : List TxViewMut) (db : RocksDB) : RocksDB :=
  txs.foldl (fun db tx => (unapplyTx tx).run db) db

/-- The stored inputs of `tx` are unspent and its outputs are new. -/
def Applicable (tx : TxViewMut) (db : RocksDB) : Prop :=
  (∀ o ∈ tx.inputRefs, ∀ r ∈ storedTxo db o, r.spent = false) ∧
    ∀ o ∈ tx.outputRefs, storedTxo db o = none

/-- Every transaction is applicable where the ones before it leave the index. -/
def ApplicableAll : List (TxViewMut × Option Slot) → RocksDB → Prop
  | [], _ => True
  | (tx, settledAt) :: txs, db =>
    Applicable tx db ∧ ApplicableAll txs ((applyTx tx settledAt).run db)

theorem TxViewMut.unapplied_applied {tx : TxViewMut} {db : RocksDB} (h : Applicable tx db)
    (settledAt : Option Slot) (o : OutputRef) :
    tx.unapplied o (tx.applied settledAt o (storedTxo db o)) = storedTxo db o := by
  obtain ⟨hin, hout⟩ := h
  by_cases ho : o ∈ tx.outputRefs
  · rw [unapplied, if_pos ho, hout o ho]
  · rw [unapplied, if_neg ho, applied, tx.outputAt_eq_none.mpr ho]
    by_cases hi : o ∈ tx.inputRefs
    · simp only [marked, if_pos hi, Option.map_map]
      cases hr : storedTxo db o with
      | none => rfl
      | some r =>
        have hsp := hin o hi r hr
        simp [TxoRecord.mark, ← hsp]
    · simp only [marked, if_neg hi]

theorem Consistent.applyAll {db : RocksDB} (h : Consistent db)
    (txs : List (TxViewMut × Option Slot)) : Consistent (applyAll txs db) := by
  induction txs generalizing db with
  | nil => exact h
  | cons t txs ih => exact ih (h.applyTx t.1 t.2)

theorem Consistent.unapplyAll {db : RocksDB} (h : Consistent db) (txs : List TxViewMut) :
    Consistent (unapplyAll txs db) := by
  induction txs generalizing db with
  | nil => exact h
  | cons tx txs ih => exact ih (h.unapplyTx tx)

/-- The records come back one by one, the last transaction's first. -/
theorem storedTxo_unapplyAll_applyAll {txs : List (TxViewMut × Option Slot)} {db : RocksDB}
    (h : ApplicableAll txs db) (o : OutputRef) :
    storedTxo (unapplyAll (txs.map Prod.fst).reverse (applyAll txs db)) o = storedTxo db o := by
  induction txs generalizing db with
  | nil => rfl
  | cons t txs ih =>
    obtain ⟨tx, settledAt⟩ := t
    obtain ⟨happ, hrest⟩ := h
    have hback := ih hrest
    rw [storedTxo_applyTx] at hback
    rw [List.map_cons, List.reverse_cons, unapplyAll, List.foldl_append]
    change storedTxo ((unapplyTx tx).run (unapplyAll (txs.map Prod.fst).reverse
      (applyAll txs ((applyTx tx settledAt).run db)))) o = _
    rw [storedTxo_unapplyTx, hback, TxViewMut.unapplied_applied happ]

/-- Rolling back a chain of transactions restores the txo, unspent and unit tables. -/
theorem rollback_restores (calls : List Call) (txs : List (TxViewMut × Option Slot))
    (h : ApplicableAll txs (runCalls calls)) :
    SameTables (unapplyAll (txs.map Prod.fst).reverse (applyAll txs (runCalls calls)))
      (runCalls calls) := by
  have hc := consistent_runCalls calls
  exact (((hc.applyAll txs).unapplyAll _).sameTables_iff hc).mpr fun o =>
    storedTxo_unapplyAll_applyAll h o

theorem rollback_restores_txConsume :
    ApplicableAll [(txProduce, some 1), (txConsume, none)] (runCalls []) ∧
      SameTables (unapplyAll [txConsume, txProduce]
        (applyAll [(txProduce, some 1), (txConsume, none)] (runCalls []))) (runCalls []) := by
  have h : ApplicableAll [(txProduce, some 1), (txConsume, none)] (runCalls []) :=
    ⟨⟨by decide +kernel, by decide +kernel⟩, ⟨by decide +kernel, by decide +kernel⟩, trivial⟩
  exact ⟨h, rollback_restores [] _ h⟩

end UtxoMonitor
