import UtxoMonitor.ChainSync.Follow

/-! Runs of the event source. Above the threshold the applied transactions, the cached tip and the
cached blocks are those of the chain of the node. -/
namespace UtxoMonitor

open Lib

variable {B C : Era}

namespace Cml

section Run

variable {cml : Cml B C} {handleRollbacksAfter : Slot} {start : Option Point}
  {initial : LedgerCache} {us : List (ChainUpgrade (MultiEraBlock B C))} {node : Node B C}
  {cache : LedgerCache} {evs : List (LedgerTxEvent (LedgerTx B C))}

theorem Following.init (htip : initial.getTip = start ∨ initial = ∅) :
    cml.Following handleRollbacksAfter start initial [] ⟨[], []⟩ initial [] := by
  refine ⟨[], [], [], initial.getTip, .init rfl, ⟨fun _ => ⟨rfl, rfl, ?_⟩, by simp⟩, .nil _⟩
  rcases htip with hs | hn
  · exact .inl hs
  · have htip' : initial.getTip = none := by rw [hn, LedgerCache.getTip_empty]
    by_cases hs : start = none
    · exact .inl (htip'.trans hs.symm)
    · exact .inr ⟨hs, hn, .inl htip'⟩

theorem Following.abandon {kept dropped abandoned : List (RawBlock B C)} {point : Point}
    (h : cml.Following handleRollbacksAfter start initial us ⟨kept ++ dropped, abandoned⟩ cache evs)
    (target : cml.chainTip start kept = some point)
    (below : point.getSlot ≤ handleRollbacksAfter) :
    cml.processUpstreamByTxs handleRollbacksAfter cache (.rollBackward point) = some (cache, []) ∧
      cml.Following handleRollbacksAfter start initial (us ++ [.rollBackward point])
        ⟨kept, abandoned ++ dropped⟩ cache evs := by
  obtain ⟨older, kept', recent, base, hf, ha, hst⟩ := h
  obtain ⟨hproc, hnew⟩ := hf.abandon target below
  refine ⟨hproc, older ++ recent, kept, [], cache.getTip, hnew, ⟨?_, ?_⟩, ?_⟩
  · intro hfresh
    exact absurd (hfresh point (by simp)) (Nat.not_lt.mpr below)
  · intro p hs hp
    -- the target cannot lie below a starting point above the threshold
    exfalso
    rcases List.eq_nil_or_concat' kept with rfl | ⟨init, last, rfl⟩
    · obtain rfl : p = point := Option.some.inj (hs.symm.trans target)
      exact absurd hp (Nat.not_lt.mpr below)
    · rw [chainTip_concat, Option.some.injEq] at target
      have hlast : last ∈ init ++ [last] ++ dropped := by simp
      rw [← target, getSlot_point (hf.ok.hashed last hlast)] at below
      have hbefore := hf.ok.above last hlast p hs
      cases p with
      | origin => exact absurd hp (Nat.not_lt_zero _)
      | specific slot hash =>
        exact absurd (Nat.lt_trans hp hbefore) (Nat.not_lt.mpr below)
  · rwa [List.append_nil]

theorem processUpstream_concat (cache : LedgerCache)
    (us : List (ChainUpgrade (MultiEraBlock B C))) (u : ChainUpgrade (MultiEraBlock B C)) :
    cml.processUpstream handleRollbacksAfter cache (us ++ [u]) =
      (cml.processUpstream handleRollbacksAfter cache us).bind fun r =>
        (cml.processUpstreamByTxs handleRollbacksAfter r.1 u).map fun r' =>
          (r'.1, r.2 ++ r'.2) := by
  rw [processUpstream_append]
  congr 1
  funext r
  simp only [processUpstream]
  cases cml.processUpstreamByTxs handleRollbacksAfter r.1 u <;> simp

theorem processUpstreamByTxs_unhashable {b : RawBlock B C}
    (h : cml.headerPoint b.blk.header = none) :
    cml.processUpstreamByTxs handleRollbacksAfter cache (.rollForward b.blk b.bytes false) =
      none := by
  by_cases hslot : b.blk.header.slot > handleRollbacksAfter <;>
    simp [processUpstreamByTxs, hslot, cacheBlock, cachePoint, h]

/-- One upgrade of a chain that is followed panics at a header without a hash only. -/
theorem Following.step {u : ChainUpgrade (MultiEraBlock B C)} {node' : Node B C}
    (h : cml.Following handleRollbacksAfter start initial us node cache evs)
    (hstep : cml.NodeStep start handleRollbacksAfter node u node') :
    (cml.processUpstreamByTxs handleRollbacksAfter cache u = none ∧
      ∃ b : RawBlock B C, u = .rollForward b.blk b.bytes false ∧
        cml.headerPoint b.blk.header = none) ∨
    ∃ cache' evs', cml.processUpstreamByTxs handleRollbacksAfter cache u = some (cache', evs') ∧
      cml.Following handleRollbacksAfter start initial (us ++ [u]) node' cache' (evs ++ evs') := by
  cases hstep with
  | @rollForward _ b decodes follows =>
    cases hp : cml.headerPoint b.blk.header with
    | none => exact .inl ⟨processUpstreamByTxs_unhashable hp, b, rfl, hp⟩
    | some p =>
      have hashed : cml.headerPoint b.blk.header = some (cml.point b) := by simp [point, hp]
      obtain ⟨cache', hproc, hnew⟩ := h.rollForward decodes follows hashed
      exact .inr ⟨cache', _, hproc, hnew⟩
  | rollBackward target above => exact .inr (h.rollBackward target above)
  | abandon target below =>
    obtain ⟨hproc, hnew⟩ := h.abandon target below
    exact .inr ⟨cache, [], hproc, by rwa [List.append_nil]⟩

/-- The follower keeps up with the node over every run. -/
theorem following_run
    (htip : initial.getTip = start ∨ initial = ∅)
    (hrun : cml.NodeRun start handleRollbacksAfter us node) :
    (cml.processUpstream handleRollbacksAfter initial us = none →
      ∃ b : RawBlock B C, .rollForward b.blk b.bytes false ∈ us ∧
        cml.headerPoint b.blk.header = none) ∧
    ∀ cache evs, cml.processUpstream handleRollbacksAfter initial us = some (cache, evs) →
      cml.Following handleRollbacksAfter start initial us node cache evs := by
  induction hrun with
  | nil =>
    refine ⟨fun h => by simp [processUpstream] at h, fun cache evs h => ?_⟩
    simp only [processUpstream, Option.some.injEq, Prod.mk.injEq] at h
    obtain ⟨rfl, rfl⟩ := h
    exact .init htip
  | @snoc us u node node' hrun hstep ih =>
    obtain ⟨hpanic, hfollow⟩ := ih
    rw [processUpstream_concat]
    cases hproc : cml.processUpstream handleRollbacksAfter initial us with
    | none =>
      obtain ⟨b, hmem, hhash⟩ := hpanic hproc
      exact ⟨fun _ => ⟨b, List.mem_append_left _ hmem, hhash⟩, fun _ _ h => by cases h⟩
    | some r =>
      obtain ⟨cache, evs⟩ := r
      rcases (hfollow cache evs hproc).step hstep with
        ⟨hnone, b, rfl, hhash⟩ | ⟨cache', evs', hsome, hnew⟩
      · exact ⟨fun _ => ⟨b, by simp, hhash⟩, fun _ _ h => by simp [hnone] at h⟩
      · refine ⟨fun h => by simp [hsome] at h, fun cache₂ evs₂ h => ?_⟩
        simp only [Option.bind_some, hsome, Option.map_some, Option.some.injEq,
          Prod.mk.injEq] at h
        obtain ⟨rfl, rfl⟩ := h
        exact hnew

/-- The blocks of the node are blocks it has sent. -/
theorem NodeRun.mem (hrun : cml.NodeRun start handleRollbacksAfter us node) :
    ∀ b, b ∈ node.chain ∨ b ∈ node.abandoned → .rollForward b.blk b.bytes false ∈ us := by
  induction hrun with
  | nil => simp
  | snoc hrun hstep ih =>
    intro b hb
    apply List.mem_append.mpr
    cases hstep with
    | rollForward decodes follows =>
      rcases hb with hb | hb
      · rcases List.mem_append.mp hb with hb | hb
        · exact .inl (ih b (.inl hb))
        · rw [List.mem_singleton.mp hb]
          exact .inr (List.mem_singleton_self _)
      · exact .inl (ih b (.inr hb))
    | rollBackward target above =>
      exact .inl (ih b (hb.imp_left (List.mem_append_left _)))
    | abandon target below =>
      rcases hb with hb | hb
      · exact .inl (ih b (.inl (List.mem_append_left _ hb)))
      · rcases List.mem_append.mp hb with hb | hb
        · exact .inl (ih b (.inr hb))
        · exact .inl (ih b (.inl (List.mem_append_right _ hb)))

/-- Rollbacks above the threshold abandon nothing. -/
theorem NodeRun.abandoned_eq_nil (hrun : cml.NodeRun start handleRollbacksAfter us node)
    (above : ∀ p, .rollBackward p ∈ us → handleRollbacksAfter < p.getSlot) :
    node.abandoned = [] := by
  induction hrun with
  | nil => rfl
  | snoc hrun hstep ih =>
    have hnode := ih fun p hp => above p (List.mem_append_left _ hp)
    cases hstep with
    | rollForward decodes follows => exact hnode
    | rollBackward target _ => exact hnode
    | abandon target below => exact absurd (above _ (by simp)) (Nat.not_lt.mpr below)

end Run

end Cml

/-- Blocks and rollback targets above the threshold. -/
def ChainUpgrade.Above (handleRollbacksAfter : Slot) :
    ChainUpgrade (MultiEraBlock B C) → Prop
  | rollForward blk _ _ => handleRollbacksAfter < blk.header.slot
  | rollBackward point => handleRollbacksAfter < point.getSlot

instance (h : Slot) : (u : ChainUpgrade (MultiEraBlock B C)) → Decidable (u.Above h)
  | .rollForward blk _ _ => inferInstanceAs (Decidable (h < blk.header.slot))
  | .rollBackward point => inferInstanceAs (Decidable (h < point.getSlot))

namespace Cml

theorem ledgerTransactions_none (cml : Cml B C) (handleRollbacksAfter : Slot)
    (initial : LedgerCache) (us : List (ChainUpgrade (MultiEraBlock B C))) :
    cml.ledgerTransactions handleRollbacksAfter initial us none =
      cml.processUpstream handleRollbacksAfter initial us := by
  simp [ledgerTransactions]

/-- While all upgrades are above the threshold and rollbacks go to the initially cached tip or a
later block, the applied transactions form a stack with the transactions of the chain, the tip is
that of the chain, and the cache holds the linked blocks of the chain and else only initial blocks.
The stream panics only at a block whose header it cannot hash. -/
theorem reorg_exact (cml : Cml B C) (handleRollbacksAfter : Slot) (initial : LedgerCache)
    (us : List (ChainUpgrade (MultiEraBlock B C))) (node : Node B C)
    (run : cml.NodeRun initial.getTip handleRollbacksAfter us node)
    (above : ∀ u ∈ us, u.Above handleRollbacksAfter) :
    (cml.ledgerTransactions handleRollbacksAfter initial us none = none →
      ∃ b : RawBlock B C, .rollForward b.blk b.bytes false ∈ us ∧
        cml.headerPoint b.blk.header = none) ∧
    ∀ cache evs, cml.ledgerTransactions handleRollbacksAfter initial us none = some (cache, evs) →
      Stacks [] (evs.map LedgerTxEvent.op) (node.chain.flatMap cml.txs) ∧
      cache.getTip = cml.chainTip initial.getTip node.chain ∧
      (∀ x ∈ cml.withPrev initial.getTip node.chain,
        cache.getBlock (cml.point x.1) = some ⟨x.1.bytes, x.2⟩) ∧
      (∀ q lb, cache.getBlock q = some lb →
        (∃ x ∈ cml.withPrev initial.getTip node.chain,
          q = cml.point x.1 ∧ lb = ⟨x.1.bytes, x.2⟩) ∨ initial.getBlock q = some lb) ∧
      (initial.UpTo initial.getTip → cache.UpTo cache.getTip ∧
        ∀ q lb, initial.getBlock q = some lb → cache.getBlock q = some lb) := by
  rw [ledgerTransactions_none]
  obtain ⟨hpanic, hfollow⟩ := following_run (.inl rfl) run
  refine ⟨hpanic, ?_⟩
  intro cache evs h
  obtain ⟨older, kept, recent, base, hf, ha, hst⟩ := hfollow cache evs h
  obtain ⟨rfl, rfl, hbase⟩ := ha.fresh fun p hp => above _ hp
  obtain rfl : base = initial.getTip := by
    rcases hbase with hb | ⟨hne, hempty, -⟩
    · exact hb
    · exact absurd (hempty ▸ LedgerCache.getTip_empty) hne
  have hchain : node.chain = recent := hf.chain
  have habandoned : node.abandoned = [] := by simpa using hf.older.symm.eq_nil
  have hhigh : ∀ b ∈ recent, handleRollbacksAfter < b.slot := fun b hb =>
    above _ (run.mem b (.inl (hchain ▸ hb)))
  have hcached : ∀ q lb, cache.getBlock q = some lb →
      (∃ x ∈ cml.withPrev initial.getTip recent, q = cml.point x.1 ∧ lb = ⟨x.1.bytes, x.2⟩) ∨
        initial.getBlock q = some lb := by
    intro q lb hq
    rcases hf.cached q lb hq with ⟨x, hx, -, hrest⟩ | ⟨b, hb, -⟩ | hinit
    · exact .inl ⟨x, hx, hrest⟩
    · rw [habandoned] at hb
      cases hb
    · exact .inr hinit
  rw [hchain]
  refine ⟨hst, hf.tip, fun x hx => hf.linked x hx (hhigh x.1 (mem_of_mem_withPrev hx)), hcached,
    fun hinit => ⟨?_, hf.remains hinit⟩⟩
  intro q lb hq
  have hok := hf.ok
  rw [hchain] at hok
  rw [hf.tip]
  rcases hcached q lb hq with ⟨x, hx, rfl, -⟩ | hq
  · have hmem := mem_of_mem_withPrev hx
    rw [getSlot_point (hok.hashed x.1 hmem)]
    exact hok.slot_le_tip hmem
  · obtain ⟨p, hp, hle⟩ := hinit q lb hq
    obtain ⟨tip, ht, hle'⟩ := hok.start_le_tip hp
    exact ⟨tip, ht, Nat.le_trans hle hle'⟩

/-- Blocks of one transaction, decoded from one byte: the slot of the block. -/
abbrev sampleEra : Era := ⟨Unit, Unit, Unit⟩

def sampleBlock (n : UInt8) : RawBlock sampleEra sampleEra :=
  ⟨.babbage ⟨⟨n.toUInt64, 0, [n]⟩, [()], [()], [], []⟩, [n]⟩

def sample : Cml sampleEra sampleEra where
  blake2b256 bytes := RawBytes.replicate (bytes.headD 0)
  babbageToCborBytes block := block.header.cborBytes
  conwayToCborBytes block := block.header.cborBytes
  fromCborBytes bytes := bytes.head?.map fun n => (sampleBlock n).blk

def sampleForward (n : UInt8) : ChainUpgrade (MultiEraBlock sampleEra sampleEra) :=
  .rollForward (sampleBlock n).blk (sampleBlock n).bytes false

def sampleBackward (n : UInt8) : ChainUpgrade (MultiEraBlock sampleEra sampleEra) :=
  .rollBackward (sample.point (sampleBlock n))

theorem NodeRun.sample_forward {h : Slot} {chain abandoned : List (RawBlock sampleEra sampleEra)}
    {us : List (ChainUpgrade (MultiEraBlock sampleEra sampleEra))}
    (run : sample.NodeRun none h us ⟨chain, abandoned⟩) (n : UInt8)
    (follows : ∀ tip ∈ sample.chainTip none chain, tip.Before n.toUInt64) :
    sample.NodeRun none h (us ++ [sampleForward n]) ⟨chain ++ [sampleBlock n], abandoned⟩ :=
  run.snoc (.rollForward (b := sampleBlock n) rfl follows)

/-- Block 16 is rolled back and block 17 takes its place. -/
theorem sample_reorg : sample.NodeRun none 10
    [sampleForward 15, sampleForward 16, sampleBackward 15, sampleForward 17]
    ⟨[sampleBlock 15, sampleBlock 17], []⟩ := by
  have hforward : sample.NodeRun none 10 [sampleForward 15, sampleForward 16]
      ⟨[sampleBlock 15] ++ [sampleBlock 16], []⟩ :=
    (NodeRun.nil.sample_forward 15 (by decide)).sample_forward 16 (by decide)
  have hback : sample.NodeStep none 10 ⟨[sampleBlock 15] ++ [sampleBlock 16], []⟩
      (sampleBackward 15) ⟨[sampleBlock 15], []⟩ := .rollBackward rfl (by decide)
  exact (hforward.snoc hback).sample_forward 17 (by decide)

theorem reorg_exact_sample :
    ∃ cache evs, sample.ledgerTransactions 10 ∅
        [sampleForward 15, sampleForward 16, sampleBackward 15, sampleForward 17] none =
          some (cache, evs) ∧
      Stacks [] (evs.map LedgerTxEvent.op)
        ([sampleBlock 15, sampleBlock 17].flatMap sample.txs) ∧
      cache.getTip = some (sample.point (sampleBlock 17)) := by
  obtain ⟨hpanic, hok⟩ := reorg_exact sample 10 ∅ _ _ sample_reorg (by decide)
  cases hrun : sample.ledgerTransactions 10 ∅
      [sampleForward 15, sampleForward 16, sampleBackward 15, sampleForward 17] none with
  | none =>
    obtain ⟨b, hb, hhash⟩ := hpanic hrun
    simp only [sampleForward, sampleBackward, List.mem_cons, ChainUpgrade.rollForward.injEq,
      reduceCtorEq, List.not_mem_nil, or_false, false_or] at hb
    rcases hb with ⟨hb, -⟩ | ⟨hb, -⟩ | ⟨hb, -⟩ <;> rw [hb] at hhash <;> cases hhash
  | some r =>
    obtain ⟨hst, htip, -⟩ := hok r.1 r.2 hrun
    exact ⟨r.1, r.2, rfl, hst, htip⟩

end Cml

end UtxoMonitor
