import UtxoMonitor.ChainSync.Reorg

/-! Runs with blocks and rollbacks on both sides of the threshold. A rollback to a point at or below
the threshold is ignored, so what the node abandons by it stays applied. -/
namespace UtxoMonitor

open Lib

variable {B C : Era}

namespace Cml

/-- What the follower has applied are the transactions of the chain of the node and of the blocks
that the node has abandoned by rollbacks to points at or below the threshold, and the cached blocks
are among these besides the initial ones. -/
theorem threshold_outstanding (cml : Cml B C) (handleRollbacksAfter : Slot) (start : Option Point)
    (initial : LedgerCache) (us : List (ChainUpgrade (MultiEraBlock B C))) (node : Node B C)
    (starts : initial.getTip = start ∨ initial = ∅)
    (run : cml.NodeRun start handleRollbacksAfter us node) :
    (cml.ledgerTransactions handleRollbacksAfter initial us none = none →
      ∃ b : RawBlock B C, .rollForward b.blk b.bytes false ∈ us ∧
        cml.headerPoint b.blk.header = none) ∧
    (∀ cache evs, cml.ledgerTransactions handleRollbacksAfter initial us none = some (cache, evs) →
      (∃ applied, Stacks [] (evs.map LedgerTxEvent.op) applied ∧
        applied.Perm ((node.abandoned ++ node.chain).flatMap cml.txs)) ∧
      ∀ q lb, cache.getBlock q = some lb →
        (∃ b ∈ node.abandoned ++ node.chain, handleRollbacksAfter < b.slot ∧ q = cml.point b ∧
          lb.blockBytes = b.bytes) ∨ initial.getBlock q = some lb) ∧
    ((∀ p, .rollBackward p ∈ us → handleRollbacksAfter < p.getSlot) → node.abandoned = []) := by
  rw [ledgerTransactions_none]
  obtain ⟨hpanic, hfollow⟩ := following_run starts run
  refine ⟨hpanic, fun cache evs h => ⟨?_, ?_⟩, run.abandoned_eq_nil⟩
  · obtain ⟨older, kept, recent, base, hf, -, hst⟩ := hfollow cache evs h
    refine ⟨_, hst, List.Perm.flatMap_right _ ?_⟩
    have hall := hf.older.append_right recent
    rwa [List.append_assoc, ← hf.chain] at hall
  · obtain ⟨older, kept, recent, base, hf, -, -⟩ := hfollow cache evs h
    intro q lb hq
    rcases hf.cached q lb hq with ⟨x, hx, hslot, hpoint, rfl⟩ | ⟨b, hb, hrest⟩ | hinit
    · have hmem : x.1 ∈ node.chain := by
        rw [hf.chain]
        exact List.mem_append_right _ (mem_of_mem_withPrev hx)
      exact .inl ⟨x.1, List.mem_append_right _ hmem, hslot, hpoint, rfl⟩
    · exact .inl ⟨b, List.mem_append_left _ hb, hrest⟩
    · exact .inr hinit

/-- Block 15 is above the threshold, the point it is rolled back to is below. -/
theorem sample_straddle : sample.NodeRun none 10
    [sampleForward 5, sampleForward 15, sampleBackward 5]
    ⟨[sampleBlock 5], [sampleBlock 15]⟩ := by
  have hforward : sample.NodeRun none 10 [sampleForward 5, sampleForward 15]
      ⟨[sampleBlock 5] ++ [sampleBlock 15], []⟩ :=
    (NodeRun.nil.sample_forward 5 (by decide)).sample_forward 15 (by decide)
  have hback : sample.NodeStep none 10 ⟨[sampleBlock 5] ++ [sampleBlock 15], []⟩
      (sampleBackward 5) ⟨[sampleBlock 5], [] ++ [sampleBlock 15]⟩ := .abandon rfl (by decide)
  exact hforward.snoc hback

/-- The rolled back block stays applied and cached. -/
theorem straddle_stays_applied :
    sample.NodeRun none 10 [sampleForward 5, sampleForward 15, sampleBackward 5]
      ⟨[sampleBlock 5], [sampleBlock 15]⟩ ∧
    ∃ cache evs, sample.ledgerTransactions 10 ∅
        [sampleForward 5, sampleForward 15, sampleBackward 5] none = some (cache, evs) ∧
      evs = (sample.txs (sampleBlock 5) ++ sample.txs (sampleBlock 15)).map BlockTx.applied ∧
      (sample.txs (sampleBlock 15)).length = 1 ∧
      sample.point (sampleBlock 15) ∉ [sampleBlock 5].map sample.point ∧
      cache.getBlock (sample.point (sampleBlock 15)) =
        some ⟨(sampleBlock 15).bytes, sample.point (sampleBlock 5)⟩ ∧
      10 < (sampleBlock 15).slot := by
  refine ⟨sample_straddle, _, _, rfl, rfl, rfl, by decide, ?_, by decide⟩
  decide +kernel

theorem threshold_outstanding_sample :
    ∃ cache evs, sample.ledgerTransactions 10 ∅
        [sampleForward 5, sampleForward 15, sampleBackward 5] none = some (cache, evs) ∧
      ∃ applied, Stacks [] (evs.map LedgerTxEvent.op) applied ∧
        applied.Perm (([sampleBlock 15] ++ [sampleBlock 5]).flatMap sample.txs) := by
  obtain ⟨-, hok, -⟩ := threshold_outstanding sample 10 none ∅ _ _ (.inr rfl) sample_straddle
  exact ⟨_, _, rfl, (hok _ _ rfl).1⟩

end Cml

end UtxoMonitor
