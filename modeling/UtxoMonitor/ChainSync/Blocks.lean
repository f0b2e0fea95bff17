import UtxoMonitor.ChainSync.Reorg

/-! The event source read as a stream that may panic midway, by transactions and by blocks. -/
namespace UtxoMonitor

open Lib

inductive LedgerBlockEvent (Blk : Type) where
  | rollForward (blk : Blk)
  | rollBackward (blk : Blk)

/-- A stream after it was consumed to its end, or to its panic: the cache it leaves and the items
it yielded. -/
structure Consumed (I : Type) where
  cache : LedgerCache
  items : List I
  panicked : Bool

namespace Consumed

variable {I J K : Type}

def done (cache : LedgerCache) (items : List I) : Consumed I := ⟨cache, items, false⟩

def panic (cache : LedgerCache) : Consumed I := ⟨cache, [], true⟩

/-- The items before those of a stream. -/
def yield (item : I) (r : Consumed I) : Consumed I := { r with items := item :: r.items }

/-- The next stream starts where the first has ended. -/
def chain (r : Consumed I) (next : LedgerCache → Consumed I) : Consumed I :=
  if r.panicked then r
  else ⟨(next r.cache).cache, r.items ++ (next r.cache).items, (next r.cache).panicked⟩

def flatMap (r : Consumed I) (f : I → List J) : Consumed J :=
  { r with items := r.items.flatMap f }

/-- The cache and the items of a stream that ends. -/
def finished (r : Consumed I) : Option (LedgerCache × List I) :=
  if r.panicked then none else some (r.cache, r.items)

variable (cache : LedgerCache) (items : List I) (r : Consumed I) (f : I → List J)

@[simp] theorem finished_done : (done cache items).finished = some (cache, items) := rfl

@[simp] theorem finished_panic : (panic cache : Consumed I).finished = none := rfl

@[simp] theorem flatMap_done : (done cache items).flatMap f = done cache (items.flatMap f) := rfl

@[simp] theorem flatMap_panic : (panic cache).flatMap f = panic cache := rfl

@[simp] theorem finished_yield (item : I) :
    (r.yield item).finished = r.finished.map fun p => (p.1, item :: p.2) := by
  cases h : r.panicked <;> simp [finished, yield, h]

@[simp] theorem finished_flatMap :
    (r.flatMap f).finished = r.finished.map fun p => (p.1, p.2.flatMap f) := by
  cases h : r.panicked <;> simp [finished, flatMap, h]

theorem finished_chain (next : LedgerCache → Consumed I) :
    (r.chain next).finished = r.finished.bind fun p =>
      (next p.1).finished.map fun p' => (p'.1, p.2 ++ p'.2) := by
  cases h : r.panicked
  · cases h' : (next r.cache).panicked <;> simp [finished, chain, h, h']
  · simp [finished, chain, h]

theorem flatMap_chain (next : LedgerCache → Consumed I) :
    (r.chain next).flatMap f = (r.flatMap f).chain fun cache => (next cache).flatMap f := by
  cases h : r.panicked <;> simp [chain, flatMap, h]

theorem flatMap_assoc (g : J → List K) :
    (r.flatMap f).flatMap g = r.flatMap fun i => (f i).flatMap g := by
  simp [flatMap, List.flatMap_assoc]

end Consumed

variable {B C : Era}

namespace Cml.Streamed

variable (cml : Cml B C)

def rollbackLoop (toPoint : Point) : Nat → LedgerCache → Consumed (MultiEraBlock B C)
  | 0, cache => .done cache []
  | n + 1, cache =>
    match cache.getTip with
    | some tip =>
      if tip = toPoint then .done cache []
      else
        match cache.getBlock tip with
        | some ⟨blockBytes, prevPoint⟩ =>
          let cache := (cache.delete tip).setTip prevPoint
          match cml.fromCborBytes blockBytes with
          | some block => (rollbackLoop toPoint n cache).yield block
          | none => .panic cache
        | none => .done cache []
    | none => .done cache []

def rollback (cache : LedgerCache) (toPoint : Point) : Consumed (MultiEraBlock B C) :=
  rollbackLoop cml toPoint cache.size cache

variable (handleRollbacksAfter : Slot)

/-- `infoEnabled`: whether the log takes the line that a block is scanned, which hashes the header
of every block. -/
def processUpstreamByTxs (infoEnabled : Bool) (cache : LedgerCache) :
    ChainUpgrade (MultiEraBlock B C) → Consumed (LedgerTxEvent (LedgerTx B C))
  | .rollForward blk blkBytes replayed =>
    let cached :=
      if !replayed then
        if blk.header.slot > handleRollbacksAfter then cml.cacheBlock cache blk.header blkBytes
        else cml.cachePoint cache blk.header
      else some cache
    match cached with
    | none => .panic cache
    | some cache =>
      if infoEnabled && (cml.hashBlockHeaderCanonicalMultiEra blk.header).isNone then .panic cache
      else .done cache ((cml.unpackValidTransactionsMultiEra blk).map BlockTx.applied)
  | .rollBackward point =>
    if point.getSlot > handleRollbacksAfter then
      (rollback cml cache point).flatMap fun blk =>
        ((cml.unpackValidTransactionsMultiEra blk).map BlockTx.unapplied).reverse
    else .done cache []

def processUpstreamByBlocks (cache : LedgerCache) :
    ChainUpgrade (MultiEraBlock B C) → Consumed (LedgerBlockEvent (MultiEraBlock B C))
  | .rollForward blk blkBytes replayed =>
    let cached :=
      if !replayed then
        if blk.header.slot > handleRollbacksAfter then cml.cacheBlock cache blk.header blkBytes
        else cml.cachePoint cache blk.header
      else some cache
    match cached with
    | none => .panic cache
    | some cache => .done cache [.rollForward blk]
  | .rollBackward point =>
    if point.getSlot > handleRollbacksAfter then
      (rollback cml cache point).flatMap fun blk => [.rollBackward blk]
    else .done cache []

/-- The streams of the upgrades, one after the other. -/
def flatten {I : Type} (process : LedgerCache → ChainUpgrade (MultiEraBlock B C) → Consumed I)
    (cache : LedgerCache) : List (ChainUpgrade (MultiEraBlock B C)) → Consumed I
  | [] => .done cache []
  | u :: us => (process cache u).chain fun cache => flatten process cache us

def ledgerTransactions (infoEnabled : Bool) (cache : LedgerCache)
    (upstream : List (ChainUpgrade (MultiEraBlock B C))) (replayFrom : Option Point) :
    Consumed (LedgerTxEvent (LedgerTx B C)) :=
  let rawReplayedBlocks := match replayFrom with
    | none => []
    | some replayFromPoint => cache.replay replayFromPoint
  let replayedBlocks := rawReplayedBlocks.filterMap fun ⟨rawBlk, _⟩ =>
    (cml.fromCborBytes rawBlk).map fun blk => .rollForward blk rawBlk true
  flatten (processUpstreamByTxs cml handleRollbacksAfter infoEnabled) cache
    (replayedBlocks ++ upstream)

def ledgerBlocks (cache : LedgerCache) (upstream : List (ChainUpgrade (MultiEraBlock B C))) :
    Consumed (LedgerBlockEvent (MultiEraBlock B C)) :=
  flatten (processUpstreamByBlocks cml handleRollbacksAfter) cache upstream

/-! ### The streams that do not panic -/

theorem finished_rollbackLoop (toPoint : Point) (n : Nat) (cache : LedgerCache) :
    (rollbackLoop cml toPoint n cache).finished = cml.rollbackLoop toPoint n cache := by
  induction n generalizing cache with
  | zero => rfl
  | succ n ih =>
    rw [rollbackLoop, Cml.rollbackLoop]
    cases cache.getTip with
    | none => rfl
    | some tip =>
      by_cases hto : tip = toPoint
      · simp [hto]
      · cases hb : cache.getBlock tip with
        | none => simp [hto, hb]
        | some b =>
          cases hblk : cml.fromCborBytes b.blockBytes with
          | none => simp [hto, hb, hblk]
          | some blk =>
            simp only [hto, hb, hblk, if_false, Consumed.finished_yield, ih]
            cases cml.rollbackLoop toPoint n ((cache.delete tip).setTip b.prevPoint) <;> rfl

/-- Without the log line, the stream of an upgrade that ends is the upgrade. -/
theorem finished_processUpstreamByTxs (cache : LedgerCache)
    (u : ChainUpgrade (MultiEraBlock B C)) :
    (processUpstreamByTxs cml handleRollbacksAfter false cache u).finished =
      cml.processUpstreamByTxs handleRollbacksAfter cache u := by
  cases u with
  | rollForward blk blkBytes replayed =>
    cases replayed with
    | true => simp [processUpstreamByTxs, Cml.processUpstreamByTxs]
    | false =>
      by_cases hslot : blk.header.slot > handleRollbacksAfter
      · cases hc : cml.cacheBlock cache blk.header blkBytes <;>
          simp [processUpstreamByTxs, Cml.processUpstreamByTxs, hslot, hc]
      · cases hc : cml.cachePoint cache blk.header <;>
          simp [processUpstreamByTxs, Cml.processUpstreamByTxs, hslot, hc]
  | rollBackward point =>
    rw [processUpstreamByTxs, Cml.processUpstreamByTxs]
    split
    · rw [Consumed.finished_flatMap, rollback, finished_rollbackLoop, ← Cml.rollback]
      cases cml.rollback cache point <;> rfl
    · rfl

theorem finished_flatten (cache : LedgerCache) (us : List (ChainUpgrade (MultiEraBlock B C))) :
    (flatten (processUpstreamByTxs cml handleRollbacksAfter false) cache us).finished =
      cml.processUpstream handleRollbacksAfter cache us := by
  induction us generalizing cache with
  | nil => rfl
  | cons u us ih =>
    rw [flatten, Consumed.finished_chain, finished_processUpstreamByTxs, Cml.processUpstream]
    cases cml.processUpstreamByTxs handleRollbacksAfter cache u with
    | none => rfl
    | some r =>
      simp only [Option.bind_some, ih, Option.bind_eq_bind]
      cases cml.processUpstream handleRollbacksAfter r.1 us <;> rfl

/-- Without the log line, `ledger_transactions` as a stream that ends. -/
theorem finished_ledgerTransactions (cache : LedgerCache)
    (us : List (ChainUpgrade (MultiEraBlock B C))) (replayFrom : Option Point) :
    (ledgerTransactions cml handleRollbacksAfter false cache us replayFrom).finished =
      cml.ledgerTransactions handleRollbacksAfter cache us replayFrom :=
  finished_flatten cml handleRollbacksAfter cache _

/-! ### By transactions and by blocks -/

/-- A block event as the transactions of its block. -/
def txEvents : LedgerBlockEvent (MultiEraBlock B C) → List (LedgerTxEvent (LedgerTx B C))
  | .rollForward blk => (cml.unpackValidTransactionsMultiEra blk).map BlockTx.applied
  | .rollBackward blk =>
    ((cml.unpackValidTransactionsMultiEra blk).map BlockTx.unapplied).reverse

/-- The upgrades whose log line can be written. -/
def Loggable (u : ChainUpgrade (MultiEraBlock B C)) : Prop :=
  ∀ blk blkBytes, u = .rollForward blk blkBytes true →
    (cml.hashBlockHeaderCanonicalMultiEra blk.header).isSome

variable {cml} {handleRollbacksAfter}

/-- A cached header can be hashed. -/
theorem isSome_of_cached {cache cache' : LedgerCache} {hdr : MultiEraBlockHeader}
    {blkBytes : Bytes} (h : (if hdr.slot > handleRollbacksAfter then
        cml.cacheBlock cache hdr blkBytes else cml.cachePoint cache hdr) = some cache') :
    (cml.hashBlockHeaderCanonicalMultiEra hdr).isSome := by
  cases hh : cml.hashBlockHeaderCanonicalMultiEra hdr with
  | some _ => rfl
  | none => simp [cacheBlock, cachePoint, headerPoint, hh] at h

/-- One upgrade gives the transactions of its block events, with the same cache. -/
theorem processUpstreamByTxs_eq {infoEnabled : Bool} {u : ChainUpgrade (MultiEraBlock B C)}
    (h : infoEnabled = true → Loggable cml u) (cache : LedgerCache) :
    processUpstreamByTxs cml handleRollbacksAfter infoEnabled cache u =
      (processUpstreamByBlocks cml handleRollbacksAfter cache u).flatMap (txEvents cml) := by
  cases u with
  | rollForward blk blkBytes replayed =>
    simp only [processUpstreamByTxs, processUpstreamByBlocks]
    split
    · rfl
    · rename_i cache' hcached
      have hinfo : (infoEnabled &&
          (cml.hashBlockHeaderCanonicalMultiEra blk.header).isNone) = false := by
        cases hi : infoEnabled with
        | false => rfl
        | true =>
          cases replayed with
          | true => simpa using h hi blk blkBytes rfl
          | false => simpa using isSome_of_cached (by simpa using hcached)
      simp [hinfo, txEvents]
  | rollBackward point =>
    rw [processUpstreamByTxs, processUpstreamByBlocks]
    split
    · rw [Consumed.flatMap_assoc]
      simp [txEvents]
    · rfl

/-- The stream by transactions is the stream by blocks with each block event replaced by its
transactions, and both leave the same cache; they panic together. -/
theorem ledgerTransactions_eq_ledgerBlocks (cml : Cml B C) (handleRollbacksAfter : Slot)
    (infoEnabled : Bool) (cache : LedgerCache) (us : List (ChainUpgrade (MultiEraBlock B C)))
    (h : infoEnabled = true → ∀ u ∈ us, Loggable cml u) :
    ledgerTransactions cml handleRollbacksAfter infoEnabled cache us none =
      (ledgerBlocks cml handleRollbacksAfter cache us).flatMap (txEvents cml) := by
  rw [ledgerTransactions, ledgerBlocks, List.filterMap_nil, List.nil_append]
  induction us generalizing cache with
  | nil => rfl
  | cons u us ih =>
    rw [flatten, flatten, Consumed.flatMap_chain,
      processUpstreamByTxs_eq fun hi => h hi u List.mem_cons_self]
    congr 1
    funext cache'
    exact ih cache' fun hi u' hu' => h hi u' (List.mem_cons_of_mem u hu')

/-- Both streams leave the same cache. -/
theorem ledgerBlocks_cache (cml : Cml B C) (handleRollbacksAfter : Slot) (cache : LedgerCache)
    (us : List (ChainUpgrade (MultiEraBlock B C))) :
    (ledgerBlocks cml handleRollbacksAfter cache us).finished.map Prod.fst =
      (cml.ledgerTransactions handleRollbacksAfter cache us none).map Prod.fst := by
  rw [← finished_ledgerTransactions, ledgerTransactions_eq_ledgerBlocks _ _ false _ _ (by simp),
    Consumed.finished_flatMap, Option.map_map]
  rfl

/-- One block is replayed; the block after it is rolled back. -/
def replayedSample : List (ChainUpgrade (MultiEraBlock sampleEra sampleEra)) :=
  [.rollForward (sampleBlock 15).blk (sampleBlock 15).bytes true, sampleForward 16,
    sampleBackward 15]

theorem ledgerTransactions_eq_ledgerBlocks_sample :
    ledgerTransactions sample 10 true ∅ replayedSample none =
      (ledgerBlocks sample 10 ∅ replayedSample).flatMap (txEvents sample) := by
  apply ledgerTransactions_eq_ledgerBlocks sample 10 true ∅ replayedSample
  intro _ u hu blk blkBytes heq
  subst heq
  obtain ⟨rfl, -⟩ : blk = (sampleBlock 15).blk ∧ blkBytes = (sampleBlock 15).bytes := by
    simpa [replayedSample, sampleForward, sampleBackward] using hu
  rfl

/-- The log line of a replayed Byron block panics; the stream by blocks writes none. -/
theorem replayed_byron_panics :
    (ledgerTransactions sample 10 true ∅ [.rollForward (.byron 5) [] true] none).panicked = true ∧
      ((ledgerBlocks sample 10 ∅ [.rollForward (.byron 5) [] true]).flatMap
        (txEvents sample)).panicked = false := ⟨rfl, rfl⟩

end Cml.Streamed

end UtxoMonitor
