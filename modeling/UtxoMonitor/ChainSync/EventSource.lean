import UtxoMonitor.ChainSync.Cache

/-! The event source: each upgrade of the chain becomes transaction events, and the cache keeps what
is needed to take them back. `none` is a panic of the stream. -/
namespace UtxoMonitor

open Lib

variable {B C : Era}

/-- A transaction with the slot, the number and the hash of its block. -/
abbrev BlockTx (T : Type) := T × Slot × UInt64 × BlockHeaderHash

abbrev LedgerTx (B C : Era) := Transaction B ⊕ Transaction C

/-- The transactions of the listed positions; each takes its auxiliary data out of the set. -/
def attachAuxiliaryData {E : Era} :
    List (UInt16 × E.AuxiliaryData) → List ((E.Body × E.WitnessSet) × Nat) → List (Transaction E)
  | _, [] => []
  | auxiliaryDataSet, ((tb, tw), ix) :: rest =>
    let txIx := UInt16.ofNat ix
    { body := tb, witnessSet := tw, isValid := true,
      auxiliaryData := auxiliaryDataSet.lookup txIx } ::
      attachAuxiliaryData (auxiliaryDataSet.filter fun p => p.1 != txIx) rest

/-- The transactions of a block that are not listed as invalid, in order. -/
def unpackValidTransactions {E : Era} (blockHash : BlockHeaderHash) (block : Block E) :
    List (BlockTx (Transaction E)) :=
  let valid := (block.transactionBodies.zip block.transactionWitnessSets).zipIdx.filter
    fun (_, ix) => !block.invalidTransactions.contains (UInt16.ofNat ix)
  (attachAuxiliaryData block.auxiliaryDataSet valid).map fun tx =>
    (tx, block.header.slot, block.header.blockNumber, blockHash)

namespace Cml

variable (cml : Cml B C)

def unpackValidTransactionsBabbage (block : Block B) : List (BlockTx (Transaction B)) :=
  unpackValidTransactions (cml.blake2b256 (cml.babbageToCborBytes block)) block

def unpackValidTransactionsConway (block : Block C) : List (BlockTx (Transaction C)) :=
  unpackValidTransactions (cml.blake2b256 (cml.conwayToCborBytes block)) block

def unpackValidTransactionsMultiEra : MultiEraBlock B C → List (BlockTx (LedgerTx B C))
  | .babbage blk => (cml.unpackValidTransactionsBabbage blk).map fun (tx, rest) => (.inl tx, rest)
  | .conway blk => (cml.unpackValidTransactionsConway blk).map fun (tx, rest) => (.inr tx, rest)
  | _ => []

def cacheBlock (cache : LedgerCache) (hdr : MultiEraBlockHeader) (blkBytes : Bytes) :
    Option LedgerCache := do
  let point ← cml.headerPoint hdr
  let prevPoint := cache.getTip.getD .origin
  return (cache.setTip point).putBlock point ⟨blkBytes, prevPoint⟩

def cachePoint (cache : LedgerCache) (hdr : MultiEraBlockHeader) : Option LedgerCache := do
  let point ← cml.headerPoint hdr
  return cache.setTip point

/-- The loop of `rollback`, for at most the given number of turns: the blocks it yields. -/
def rollbackLoop (toPoint : Point) :
    Nat → LedgerCache → Option (LedgerCache × List (MultiEraBlock B C))
  | 0, cache => some (cache, [])
  | n + 1, cache =>
    match cache.getTip with
    | some tip =>
      if tip = toPoint then some (cache, [])
      else
        match cache.getBlock tip with
        | some ⟨blockBytes, prevPoint⟩ => do
          let cache := (cache.delete tip).setTip prevPoint
          let block ← cml.fromCborBytes blockBytes
          let (cache, blocks) ← rollbackLoop toPoint n cache
          return (cache, block :: blocks)
        | none => some (cache, [])
    | none => some (cache, [])

/-- `rollback`: every turn but the last removes a row, so the rows bound the number of turns. -/
def rollback (cache : LedgerCache) (toPoint : Point) :
    Option (LedgerCache × List (MultiEraBlock B C)) :=
  cml.rollbackLoop toPoint cache.size cache

end Cml

def BlockTx.applied {T : Type} : BlockTx T → LedgerTxEvent T
  | (tx, slot, blockNumber, blockHash) => .txApplied tx slot blockNumber blockHash

def BlockTx.unapplied {T : Type} : BlockTx T → LedgerTxEvent T
  | (tx, slot, blockNumber, blockHash) => .txUnapplied tx slot blockNumber blockHash

namespace Cml

variable (cml : Cml B C) (handleRollbacksAfter : Slot)

def processUpstreamByTxs (cache : LedgerCache) :
    ChainUpgrade (MultiEraBlock B C) →
      Option (LedgerCache × List (LedgerTxEvent (LedgerTx B C)))
  | .rollForward blk blkBytes replayed => do
    let cache ←
      if !replayed then
        if blk.header.slot > handleRollbacksAfter then cml.cacheBlock cache blk.header blkBytes
        else cml.cachePoint cache blk.header
      else some cache
    return (cache, (cml.unpackValidTransactionsMultiEra blk).map BlockTx.applied)
  | .rollBackward point =>
    if point.getSlot > handleRollbacksAfter then do
      let (cache, blks) ← cml.rollback cache point
      return (cache, blks.flatMap fun blk =>
        ((cml.unpackValidTransactionsMultiEra blk).map BlockTx.unapplied).reverse)
    else some (cache, [])

/-- The upgrades one after the other, each consumed to its end. -/
def processUpstream (cache : LedgerCache) :
    List (ChainUpgrade (MultiEraBlock B C)) →
      Option (LedgerCache × List (LedgerTxEvent (LedgerTx B C)))
  | [] => some (cache, [])
  | upgrade :: upgrades => do
    let (cache, evs) ← cml.processUpstreamByTxs handleRollbacksAfter cache upgrade
    let (cache, evs') ← processUpstream cache upgrades
    return (cache, evs ++ evs')

def ledgerTransactions (cache : LedgerCache) (upstream : List (ChainUpgrade (MultiEraBlock B C)))
    (replayFrom : Option Point) : Option (LedgerCache × List (LedgerTxEvent (LedgerTx B C))) :=
  let rawReplayedBlocks := match replayFrom with
    | none => []
    | some replayFromPoint => cache.replay replayFromPoint
  let replayedBlocks := rawReplayedBlocks.filterMap fun ⟨rawBlk, _⟩ =>
    (cml.fromCborBytes rawBlk).map fun blk => .rollForward blk rawBlk true
  cml.processUpstream handleRollbacksAfter cache (replayedBlocks ++ upstream)

theorem processUpstream_append (cache : LedgerCache)
    (us vs : List (ChainUpgrade (MultiEraBlock B C))) :
    cml.processUpstream handleRollbacksAfter cache (us ++ vs) =
      (cml.processUpstream handleRollbacksAfter cache us).bind fun r =>
        (cml.processUpstream handleRollbacksAfter r.1 vs).map fun r' => (r'.1, r.2 ++ r'.2) := by
  induction us generalizing cache with
  | nil => simp [processUpstream]
  | cons u us ih =>
    simp only [List.cons_append, processUpstream, ih, Option.bind_eq_bind, Option.pure_def]
    cases cml.processUpstreamByTxs handleRollbacksAfter cache u with
    | none => rfl
    | some r =>
      simp only [Option.bind_some]
      cases cml.processUpstream handleRollbacksAfter r.1 us with
      | none => rfl
      | some r' =>
        simp only [Option.bind_some]
        cases cml.processUpstream handleRollbacksAfter r'.1 vs <;> simp

/-- Turns beyond the number of rows change nothing. -/
theorem rollbackLoop_fuel (toPoint : Point) {n : Nat} {cache : LedgerCache}
    (h : cache.size ≤ n) :
    cml.rollbackLoop toPoint (n + 1) cache = cml.rollbackLoop toPoint n cache := by
  induction n generalizing cache with
  | zero =>
    have hempty := cache.getTip_eq_none (Nat.le_zero.mp h)
    simp [rollbackLoop, hempty]
  | succ n ih =>
    rw [rollbackLoop, rollbackLoop]
    cases ht : cache.getTip with
    | none => rfl
    | some tip =>
      by_cases hto : tip = toPoint
      · simp [hto]
      · cases hb : cache.getBlock tip with
        | none => simp [hto, hb]
        | some b =>
          have hsize := cache.size_pop tip b.prevPoint b ht hb
          have hnext := ih (show ((cache.delete tip).setTip b.prevPoint).size ≤ n by omega)
          simp only [hto, hb, if_false, hnext]

theorem rollback_eq (toPoint : Point) {cache : LedgerCache} {n : Nat} (h : cache.size ≤ n) :
    cml.rollback cache toPoint = cml.rollbackLoop toPoint n cache := by
  induction h with
  | refl => rfl
  | step hn ih => rw [ih, rollbackLoop_fuel cml toPoint hn]

end Cml

end UtxoMonitor
