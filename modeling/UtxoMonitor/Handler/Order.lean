import UtxoMonitor.Handler.Rollback

/-! When two transactions leave the same tables in either order. -/
namespace UtxoMonitor

open Lib

/-- What `P` and `C` write under one reference is the same, and of an output that is not stored
yet, each spends what the other writes or neither does. -/
def OrderFree (db : RocksDB) (P C : TxViewMut) (sP sC : Option Slot) : Prop :=
  ∀ o, (∀ p ∈ P.outputAt o, ∀ c ∈ C.outputAt o, p = c ∧ sP = sC) ∧
    (storedTxo db o = none →
      ((o ∈ P.outputRefs ∧ o ∈ C.inputRefs) ↔ (o ∈ C.outputRefs ∧ o ∈ P.inputRefs)))

/-- On one output: the orders agree exactly under the condition on it. -/
theorem TxViewMut.applied_comm_iff (P C : TxViewMut) (sP sC : Option Slot) (o : OutputRef)
    (r : Option TxoRecord) :
    C.applied sC o (P.applied sP o r) = P.applied sP o (C.applied sC o r) ↔
      (∀ p ∈ P.outputAt o, ∀ c ∈ C.outputAt o, p = c ∧ sP = sC) ∧
      (r = none →
        ((o ∈ P.outputRefs ∧ o ∈ C.inputRefs) ↔ (o ∈ C.outputRefs ∧ o ∈ P.inputRefs))) := by
  rw [← P.isSome_outputAt, ← C.isSome_outputAt]
  cases hp : P.outputAt o <;> cases hc : C.outputAt o <;>
    by_cases hip : o ∈ P.inputRefs <;> by_cases hic : o ∈ C.inputRefs <;>
    cases r <;> simp [applied, marked, hp, hc, hip, hic, keptSpent, TxoRecord.mark, eq_comm]

theorem orderFree_iff_stored {db : RocksDB} {P C : TxViewMut} (sP sC : Option Slot)
    (h : P.hash ≠ C.hash) :
    OrderFree db P C sP sC ↔
      ∀ o, (o ∈ P.outputRefs ∧ o ∈ C.inputRefs) ∨ (o ∈ C.outputRefs ∧ o ∈ P.inputRefs) →
        (storedTxo db o).isSome := by
  have hdisj : ∀ o, o ∈ P.outputRefs → o ∉ C.outputRefs := fun o hp hc =>
    h ((P.hash_of_mem_outputRefs hp).symm.trans (C.hash_of_mem_outputRefs hc))
  constructor
  · intro hfree o ho
    by_contra hn
    have hiff := (hfree o).2 (Option.not_isSome_iff_eq_none.mp hn)
    rcases ho with ho | ho
    · exact hdisj o ho.1 (hiff.mp ho).1
    · exact hdisj o (hiff.mpr ho).1 ho.1
  · intro hst o
    constructor
    · intro p hp c hc
      exact absurd (C.isSome_outputAt.mp (Option.isSome_of_mem hc))
        (hdisj o (P.isSome_outputAt.mp (Option.isSome_of_mem hp)))
    · intro hn
      have hno : ¬ _ := fun ho => by simpa [hn] using hst o ho
      exact iff_of_false (fun ho => hno (.inl ho)) fun ho => hno (.inr ho)

theorem not_hasSentinel_applyTx {db : RocksDB} (h : ∀ pre, ¬ HasSentinel db pre) (tx : TxViewMut)
    (settledAt : Option Slot) (pre : Bytes) : ¬ HasSentinel ((applyTx tx settledAt).run db) pre := by
  rw [run_applyTx]
  intro hs
  exact h pre (hasSentinel_of_runUpdates hs)

/-- The order of two applications matters to the tables unless `OrderFree` holds. For
transactions of different hashes this asks that every output of one that the other spends be
stored already. -/
theorem apply_order (calls : List Call) (P C : TxViewMut) (sP sC : Option Slot) :
    (SameTables ((applyTx C sC).run ((applyTx P sP).run (runCalls calls)))
        ((applyTx P sP).run ((applyTx C sC).run (runCalls calls))) ↔
      OrderFree (runCalls calls) P C sP sC) ∧
    (P.hash ≠ C.hash → (OrderFree (runCalls calls) P C sP sC ↔
      ∀ o, (o ∈ P.outputRefs ∧ o ∈ C.inputRefs) ∨ (o ∈ C.outputRefs ∧ o ∈ P.inputRefs) →
        (storedTxo (runCalls calls) o).isSome)) ∧
    ((∀ pre, ¬ HasSentinel (runCalls calls) pre) → OrderFree (runCalls calls) P C sP sC →
      (applyTx C sC).run ((applyTx P sP).run (runCalls calls)) .unitUnspent =
        (applyTx P sP).run ((applyTx C sC).run (runCalls calls)) .unitUnspent) := by
  have h := consistent_runCalls calls
  generalize runCalls calls = db at h
  have hPC := (h.applyTx P sP).applyTx C sC
  have hCP := (h.applyTx C sC).applyTx P sP
  have hiff : (∀ o, storedTxo ((applyTx C sC).run ((applyTx P sP).run db)) o =
      storedTxo ((applyTx P sP).run ((applyTx C sC).run db)) o) ↔ OrderFree db P C sP sC := by
    simp only [storedTxo_applyTx, TxViewMut.applied_comm_iff]
    rfl
  refine ⟨(hPC.sameTables_iff hCP).trans hiff, orderFree_iff_stored sP sC, ?_⟩
  intro hn hfree
  have hsame := (hPC.sameTables_iff hCP).mpr (hiff.mpr hfree)
  exact hsame.unitUnspent_eq
    (not_hasSentinel_applyTx (not_hasSentinel_applyTx hn P sP) C sC)
    (not_hasSentinel_applyTx (not_hasSentinel_applyTx hn C sC) P sP)

/-- On the empty index the spend that arrives before its producer is forgotten. -/
theorem apply_order_matters :
    (∃ o, o ∈ txProduce.outputRefs ∧ o ∈ txConsume.inputRefs) ∧
    ¬ SameTables ((applyTx txConsume none).run ((applyTx txProduce (some 1)).run (runCalls [])))
      ((applyTx txProduce (some 1)).run ((applyTx txConsume none).run (runCalls []))) := by
  refine ⟨⟨⟨txProduce.hash, 0⟩, by decide, by decide⟩, ?_⟩
  intro h
  have htxo := congrArg (fun t => t[utxoKey ⟨txProduce.hash, 0⟩]?) h.txo
  revert htxo
  decide +kernel

end UtxoMonitor
