import UtxoMonitor.ChainSync.Tracking

/-! The invariant between the node and the follower, and what each upgrade does to it. -/
namespace UtxoMonitor

open Lib

variable {B C : Era}

namespace Cml

variable (cml : Cml B C) (handleRollbacksAfter : Slot) (start : Option Point)
  (initial : LedgerCache)

/-- The follower has the blocks `older` and then `recent` applied. Of the older ones the node still
has `kept`; the recent ones, which came after the last ignored rollback, are its last blocks, and
the cache links them from `base` on. -/
structure Follows (older kept recent : List (RawBlock B C)) (base : Option Point)
    (node : Node B C) (cache : LedgerCache) : Prop where
  chain : node.chain = kept ++ recent
  older : older.Perm (node.abandoned ++ kept)
  low : ∀ b ∈ kept, b.slot ≤ handleRollbacksAfter
  ok : cml.ChainOk start node.chain
  tip : cache.getTip = cml.chainTip base recent
  linked : ∀ x ∈ cml.withPrev base recent, handleRollbacksAfter < x.1.slot →
    cache.getBlock (cml.point x.1) = some ⟨x.1.bytes, x.2⟩
  cached : ∀ q lb, cache.getBlock q = some lb →
    (∃ x ∈ cml.withPrev base recent, handleRollbacksAfter < x.1.slot ∧ q = cml.point x.1 ∧
      lb = ⟨x.1.bytes, x.2⟩) ∨
    (∃ b ∈ node.abandoned, handleRollbacksAfter < b.slot ∧ q = cml.point b ∧
      lb.blockBytes = b.bytes) ∨
    initial.getBlock q = some lb
  remains : initial.UpTo start →
    ∀ q lb, initial.getBlock q = some lb → cache.getBlock q = some lb

section Steps

variable {cml handleRollbacksAfter start initial}
  {older kept recent dropped : List (RawBlock B C)} {base : Option Point} {node : Node B C}
  {cache : LedgerCache} {b : RawBlock B C}

theorem Follows.init (h : initial.getTip = base) :
    cml.Follows handleRollbacksAfter start initial [] [] [] base ⟨[], []⟩ initial where
  chain := rfl
  older := List.Perm.refl _
  low := by simp
  ok := ⟨by simp, by simp, List.Pairwise.nil, by simp⟩
  tip := h
  linked := by simp [withPrev]
  cached _ _ h := .inr (.inr h)
  remains _ _ _ h := h

/-- A block above the threshold does not share its point with a block of the initial cache. -/
theorem ChainOk.point_ne_initial {chain : List (RawBlock B C)}
    (hok : cml.ChainOk start chain) (hs : initial.UpTo start) (hb : b ∈ chain)
    (hslot : handleRollbacksAfter < b.slot)
    {q : Point} {lb : LinkedBlock} (hq : initial.getBlock q = some lb) : cml.point b ≠ q := by
  rintro rfl
  obtain ⟨p, hp, hle⟩ := hs _ lb hq
  rw [getSlot_point (hok.hashed b hb)] at hle
  exact absurd ((hok.above b hb p hp).getSlot_lt hslot) (Nat.not_lt.mpr hle)

theorem Follows.rollForward
    (hf : cml.Follows handleRollbacksAfter start initial older kept recent base node cache)
    (decodes : cml.fromCborBytes b.bytes = some b.blk)
    (follows : ∀ tip ∈ cml.chainTip start node.chain, tip.Before b.slot)
    (hashed : cml.headerPoint b.blk.header = some (cml.point b)) :
    ∃ cache', cml.processUpstreamByTxs handleRollbacksAfter cache
        (.rollForward b.blk b.bytes false) = some (cache', (cml.txs b).map BlockTx.applied) ∧
      cml.Follows handleRollbacksAfter start initial older kept (recent ++ [b]) base
        { node with chain := node.chain ++ [b] } cache' := by
  have hok := hf.ok.concat hashed decodes follows
  have hchain : node.chain ++ [b] = kept ++ (recent ++ [b]) := by
    rw [hf.chain, List.append_assoc]
  have hlink : cml.withPrev base (recent ++ [b]) =
      cml.withPrev base recent ++ [(b, cache.getTip.getD .origin)] := by
    rw [withPrev_concat, hf.tip]
  have hmem : ∀ x ∈ cml.withPrev base recent, x.1 ∈ node.chain := by
    intro x hx
    rw [hf.chain]
    exact List.mem_append_right _ (mem_of_mem_withPrev hx)
  by_cases hslot : handleRollbacksAfter < b.slot
  · have hne : ∀ a ∈ node.chain, cml.point b ≠ cml.point a := fun a ha =>
      (hok.point_ne (List.mem_append_left _ ha) (by simp)
        ((List.pairwise_append.mp hok.sorted).2.2 a ha b (by simp))).symm
    refine ⟨(cache.setTip (cml.point b)).putBlock (cml.point b) ⟨b.bytes, cache.getTip.getD .origin⟩,
      ?_, ⟨hchain, hf.older, hf.low, hok, ?_, ?_, ?_, ?_⟩⟩
    · have hgt : b.blk.header.slot > handleRollbacksAfter := hslot
      simp [processUpstreamByTxs, hgt, cacheBlock, hashed, txs]
    · rw [LedgerCache.getTip_putBlock, LedgerCache.getTip_setTip, chainTip_concat]
    · intro x hx hxs
      rw [LedgerCache.getBlock_putBlock, LedgerCache.getBlock_setTip]
      rw [hlink] at hx
      rcases List.mem_append.mp hx with hx | hx
      · rw [if_neg (hne x.1 (hmem x hx)), hf.linked x hx hxs]
      · rw [List.mem_singleton.mp hx, if_pos rfl]
    · intro q lb hq
      rw [LedgerCache.getBlock_putBlock, LedgerCache.getBlock_setTip] at hq
      rw [hlink]
      split at hq
      · rename_i heq
        subst heq
        exact .inl ⟨_, List.mem_append_right _ (List.mem_singleton_self _), hslot, rfl,
          (Option.some.inj hq).symm⟩
      · rcases hf.cached q lb hq with ⟨x, hx, hrest⟩ | hother
        · exact .inl ⟨x, List.mem_append_left _ hx, hrest⟩
        · exact .inr hother
    · intro hs q lb hq
      rw [LedgerCache.getBlock_putBlock, LedgerCache.getBlock_setTip,
        if_neg (hok.point_ne_initial hs (by simp) hslot hq)]
      exact hf.remains hs q lb hq
  · refine ⟨cache.setTip (cml.point b), ?_, ⟨hchain, hf.older, hf.low, hok, ?_, ?_, ?_, ?_⟩⟩
    · have hgt : ¬ b.blk.header.slot > handleRollbacksAfter := hslot
      simp [processUpstreamByTxs, hgt, cachePoint, hashed, txs]
    · rw [LedgerCache.getTip_setTip, chainTip_concat]
    · intro x hx hxs
      rw [LedgerCache.getBlock_setTip]
      rw [hlink] at hx
      rcases List.mem_append.mp hx with hx | hx
      · exact hf.linked x hx hxs
      · rw [List.mem_singleton.mp hx] at hxs
        exact absurd hxs hslot
    · intro q lb hq
      rw [LedgerCache.getBlock_setTip] at hq
      rw [hlink]
      rcases hf.cached q lb hq with ⟨x, hx, hrest⟩ | hother
      · exact .inl ⟨x, List.mem_append_left _ hx, hrest⟩
      · exact .inr hother
    · intro hs q lb hq
      rw [LedgerCache.getBlock_setTip]
      exact hf.remains hs q lb hq

theorem processUpstreamByTxs_ignored {point : Point}
    (below : point.getSlot ≤ handleRollbacksAfter) (cache : LedgerCache) :
    cml.processUpstreamByTxs handleRollbacksAfter cache (.rollBackward point) = some (cache, []) := by
  have hgt : ¬ point.getSlot > handleRollbacksAfter := Nat.not_lt.mpr below
  simp [processUpstreamByTxs, hgt]

/-- A rollback at or below the threshold is ignored: what was recent becomes older. -/
theorem Follows.abandon {kept' : List (RawBlock B C)} {abandoned : List (RawBlock B C)}
    {point : Point}
    (hf : cml.Follows handleRollbacksAfter start initial older kept recent base
      ⟨kept' ++ dropped, abandoned⟩ cache)
    (target : cml.chainTip start kept' = some point)
    (below : point.getSlot ≤ handleRollbacksAfter) :
    cml.processUpstreamByTxs handleRollbacksAfter cache (.rollBackward point) =
        some (cache, []) ∧
      cml.Follows handleRollbacksAfter start initial (older ++ recent) kept' [] cache.getTip
        ⟨kept', abandoned ++ dropped⟩ cache := by
  have hlow : ∀ b ∈ kept', b.slot ≤ handleRollbacksAfter := by
    intro b hb
    obtain ⟨tip, ht, hle⟩ := hf.ok.prefix.slot_le_tip hb
    obtain rfl : point = tip := Option.some.inj (target.symm.trans ht)
    exact Nat.le_trans hle below
  have hchain : kept' ++ dropped = kept ++ recent := hf.chain
  refine ⟨processUpstreamByTxs_ignored below cache,
    ⟨by simp, ?_, hlow, hf.ok.prefix, rfl, by simp [withPrev], ?_, hf.remains⟩⟩
  · have hall : (older ++ recent).Perm (abandoned ++ (kept' ++ dropped)) := by
      rw [hchain, ← List.append_assoc]
      exact hf.older.append_right recent
    rw [List.append_assoc]
    exact hall.trans (List.perm_append_comm.append_left abandoned)
  · intro q lb hq
    rcases hf.cached q lb hq with ⟨x, hx, hslot, hpoint, hlb⟩ | ⟨a, ha, hrest⟩ | hinit
    · have hmem : x.1 ∈ kept' ++ dropped := by
        rw [hchain]
        exact List.mem_append_right _ (mem_of_mem_withPrev hx)
      rcases List.mem_append.mp hmem with hk | hd
      · exact absurd hslot (Nat.not_lt.mpr (hlow x.1 hk))
      · exact .inr (.inl ⟨x.1, List.mem_append_right _ hd, hslot, hpoint, by rw [hlb]⟩)
    · exact .inr (.inl ⟨a, List.mem_append_left _ ha, hrest⟩)
    · exact .inr (.inr hinit)

theorem unapplied_flatMap (dropped : List (RawBlock B C)) :
    (dropped.reverse.map RawBlock.blk).flatMap (fun blk =>
        ((cml.unpackValidTransactionsMultiEra blk).map BlockTx.unapplied).reverse) =
      ((dropped.flatMap cml.txs).reverse).map BlockTx.unapplied := by
  induction dropped with
  | nil => rfl
  | cons b dropped ih =>
    rw [List.reverse_cons, List.map_append, List.flatMap_append, ih, List.flatMap_cons,
      List.reverse_append, List.map_append]
    simp [txs, List.map_reverse]

/-- The loop takes the blocks after its target off the cache, and nothing else. -/
theorem Follows.rollback_dropped {abandoned : List (RawBlock B C)} {point : Point}
    (hf : cml.Follows handleRollbacksAfter start initial older kept (recent ++ dropped) base
      ⟨kept ++ (recent ++ dropped), abandoned⟩ cache)
    (above : handleRollbacksAfter < point.getSlot)
    (hdropped : ∀ b ∈ dropped, point.getSlot < b.slot)
    (hbase : base = none → recent = [] → dropped = [])
    (hstop : ∀ tip, cml.chainTip base recent = some tip → tip = point ∨ cache.getBlock tip = none) :
    ∃ cache', cml.rollback cache point = some (cache', dropped.reverse.map RawBlock.blk) ∧
      cache'.getTip = cml.chainTip base recent ∧
      ∀ q, cache'.getBlock q =
        if q ∈ dropped.map cml.point then none else cache.getBlock q := by
  have hsplit : cml.withPrev base (recent ++ dropped) =
      cml.withPrev base recent ++ cml.withPrev (cml.chainTip base recent) dropped :=
    withPrev_append ..
  have hin : ∀ b ∈ dropped, b ∈ kept ++ (recent ++ dropped) := fun b hb =>
    List.mem_append_right _ (List.mem_append_right _ hb)
  obtain ⟨-, hsorted, -⟩ := List.pairwise_append.mp hf.ok.sorted
  obtain ⟨cache', hloop, htip, hblock⟩ := rollbackLoop_pops cml point
    (fun _ => hf.tip)
    (fun x hx => hf.linked x (hsplit ▸ List.mem_append_right _ hx)
      (Nat.lt_trans above (hdropped x.1 (mem_of_mem_withPrev hx))))
    (fun b hb => hf.ok.decodes b (hin b hb))
    (fun b hb heq => by
      have hlt := hdropped b hb
      rw [← heq, getSlot_point (hf.ok.hashed b (hin b hb))] at hlt
      exact Nat.lt_irrefl _ hlt)
    ((List.pairwise_append.mp hsorted).2.1.imp_of_mem fun ha hb hlt =>
      hf.ok.point_ne (hin _ ha) (hin _ hb) hlt)
  have htip' : cache'.getTip = cml.chainTip base recent := by
    rw [htip]
    by_cases hd : dropped = []
    · rw [if_pos hd, hf.tip, hd, List.append_nil]
    · rw [if_neg hd]
      rcases List.eq_nil_or_concat' recent with rfl | ⟨init, last, rfl⟩
      · obtain ⟨p, rfl⟩ := Option.ne_none_iff_exists'.mp fun hn => hd (hbase hn rfl)
        rfl
      · rw [chainTip_concat]
        rfl
  refine ⟨cache', ?_, htip', hblock⟩
  have hstop' := rollbackLoop_stop cml point (fun tip ht => by
    rw [htip'] at ht
    apply (hstop tip ht).imp_right
    intro hb
    rw [hblock]
    split
    · rfl
    · exact hb) cache.size
  rw [rollback_eq cml point (Nat.le_add_right cache.size dropped.length), hloop, hstop']
  simp

/-- A rollback above the threshold takes back the blocks after its target, the newest first. -/
theorem Follows.rollBackward {abandoned : List (RawBlock B C)} {point : Point}
    (hf : cml.Follows handleRollbacksAfter start initial older kept (recent ++ dropped) base
      ⟨kept ++ (recent ++ dropped), abandoned⟩ cache)
    (above : handleRollbacksAfter < point.getSlot)
    (hdropped : ∀ b ∈ dropped, point.getSlot < b.slot)
    (hbase : base = none → recent = [] → dropped = [])
    (hstop : ∀ tip, cml.chainTip base recent = some tip → tip = point ∨ cache.getBlock tip = none) :
    ∃ cache', cml.processUpstreamByTxs handleRollbacksAfter cache (.rollBackward point) =
        some (cache', ((dropped.flatMap cml.txs).reverse).map BlockTx.unapplied) ∧
      cml.Follows handleRollbacksAfter start initial older kept recent base
        ⟨kept ++ recent, abandoned⟩ cache' := by
  obtain ⟨cache', hroll, htip, hblock⟩ := hf.rollback_dropped above hdropped hbase hstop
  have hsplit : cml.withPrev base (recent ++ dropped) =
      cml.withPrev base recent ++ cml.withPrev (cml.chainTip base recent) dropped :=
    withPrev_append ..
  have hin : ∀ b ∈ dropped, b ∈ kept ++ (recent ++ dropped) := fun b hb =>
    List.mem_append_right _ (List.mem_append_right _ hb)
  obtain ⟨-, hsorted, -⟩ := List.pairwise_append.mp hf.ok.sorted
  obtain ⟨-, -, hless⟩ := List.pairwise_append.mp hsorted
  refine ⟨cache', ?_, ⟨rfl, hf.older, hf.low, ?_, htip, ?_, ?_, ?_⟩⟩
  · have hgt : point.getSlot > handleRollbacksAfter := above
    simp only [processUpstreamByTxs, if_pos hgt, hroll, Option.bind_eq_bind, Option.bind_some,
      Option.pure_def, unapplied_flatMap]
  · have hok := hf.ok
    rw [← List.append_assoc] at hok
    exact hok.prefix
  · intro x hx hslot
    have hx' := mem_of_mem_withPrev hx
    have hnot : cml.point x.1 ∉ dropped.map cml.point := by
      intro hm
      obtain ⟨b, hb, heq⟩ := List.mem_map.mp hm
      exact hf.ok.point_ne (List.mem_append_right _ (List.mem_append_left _ hx')) (hin b hb)
        (hless x.1 hx' b hb) heq.symm
    rw [hblock, if_neg hnot]
    exact hf.linked x (hsplit ▸ List.mem_append_left _ hx) hslot
  · intro q lb hq
    rw [hblock] at hq
    split at hq
    · cases hq
    rename_i hnot
    rcases hf.cached q lb hq with ⟨x, hx, hslot, hpoint, hlb⟩ | hother
    · rw [hsplit] at hx
      rcases List.mem_append.mp hx with hx | hx
      · exact .inl ⟨x, hx, hslot, hpoint, hlb⟩
      · exact absurd (hpoint ▸ List.mem_map_of_mem (mem_of_mem_withPrev hx)) hnot
    · exact .inr hother
  · intro hs q lb hq
    have hnot : q ∉ dropped.map cml.point := by
      intro hm
      obtain ⟨b, hb, heq⟩ := List.mem_map.mp hm
      exact hf.ok.point_ne_initial hs (hin b hb) (Nat.lt_trans above (hdropped b hb)) hq heq
    rw [hblock, if_neg hnot]
    exact hf.remains hs q lb hq

/-- Started on an empty cache, and nothing abandoned, the follower has no block at the origin. -/
theorem Follows.getBlock_origin
    (hf : cml.Follows handleRollbacksAfter start ∅ [] [] recent base node cache) :
    cache.getBlock .origin = none := by
  by_contra hne
  obtain ⟨lb, hlb⟩ := Option.ne_none_iff_exists'.mp hne
  rcases hf.cached _ lb hlb with ⟨x, hx, -, heq, -⟩ | ⟨b, hb, -⟩ | hinit
  · have hmem : x.1 ∈ node.chain := by
      rw [hf.chain]
      exact List.mem_append_right _ (mem_of_mem_withPrev hx)
    obtain ⟨hash, hpoint⟩ := point_eq (hf.ok.hashed x.1 hmem)
    rw [hpoint] at heq
    cases heq
  · have habandoned : node.abandoned = [] := by simpa using hf.older.symm.eq_nil
    rw [habandoned] at hb
    cases hb
  · rw [LedgerCache.getBlock_empty] at hinit
    cases hinit

/-- A missing base and the origin link the same blocks. -/
theorem Follows.rebase (hne : recent ≠ [])
    (hf : cml.Follows handleRollbacksAfter start initial older kept recent none node cache) :
    cml.Follows handleRollbacksAfter start initial older kept recent (some .origin) node cache := by
  obtain ⟨b, bs, rfl⟩ := List.exists_cons_of_ne_nil hne
  have htip : cml.chainTip (some .origin) (b :: bs) = cml.chainTip none (b :: bs) := by
    rw [show b :: bs = [b] ++ bs from rfl, chainTip_append, chainTip_append (none : Option Point)]
    rfl
  exact ⟨hf.chain, hf.older, hf.low, hf.ok, hf.tip.trans htip.symm, hf.linked, hf.cached,
    hf.remains⟩

/-- As long as no rollback is ignored, the follower has just the chain of the node, linked from the
starting point; a cache without a tip links from the origin instead. -/
structure Anchored (handleRollbacksAfter : Slot) (start : Option Point) (initial : LedgerCache)
    (us : List (ChainUpgrade (MultiEraBlock B C))) (older kept : List (RawBlock B C))
    (base : Option Point) : Prop where
  fresh : (∀ p, .rollBackward p ∈ us → handleRollbacksAfter < p.getSlot) →
    older = [] ∧ kept = [] ∧ (base = start ∨
      start ≠ none ∧ initial = ∅ ∧ (base = none ∨ base = some .origin))
  high : ∀ p, start = some p → handleRollbacksAfter < p.getSlot →
    ∀ q, .rollBackward q ∈ us → handleRollbacksAfter < q.getSlot

end Steps

section Run

variable {cml : Cml B C} {handleRollbacksAfter : Slot} {start : Option Point}
  {initial : LedgerCache} {us : List (ChainUpgrade (MultiEraBlock B C))}
  {older kept recent : List (RawBlock B C)} {base : Option Point} {node : Node B C}
  {cache : LedgerCache}

/-- The follower after the upgrades `us`, with its events so far. -/
def Following (cml : Cml B C) (handleRollbacksAfter : Slot) (start : Option Point)
    (initial : LedgerCache) (us : List (ChainUpgrade (MultiEraBlock B C))) (node : Node B C)
    (cache : LedgerCache) (evs : List (LedgerTxEvent (LedgerTx B C))) : Prop :=
  ∃ older kept recent base,
    cml.Follows handleRollbacksAfter start initial older kept recent base node cache ∧
    Anchored handleRollbacksAfter start initial us older kept base ∧
    Stacks [] (evs.map LedgerTxEvent.op) ((older ++ recent).flatMap cml.txs)

theorem map_op_applied (xs : List (BlockTx (LedgerTx B C))) :
    (xs.map BlockTx.applied).map LedgerTxEvent.op = xs.map .push := by
  rw [List.map_map]
  rfl

theorem map_op_unapplied (xs : List (BlockTx (LedgerTx B C))) :
    (xs.map BlockTx.unapplied).map LedgerTxEvent.op = xs.map .pop := by
  rw [List.map_map]
  rfl

theorem Anchored.rollForward (ha : Anchored handleRollbacksAfter start initial us older kept base)
    (blk : MultiEraBlock B C) (blkBytes : Bytes) (replayed : Bool) :
    Anchored handleRollbacksAfter start initial (us ++ [.rollForward blk blkBytes replayed]) older
      kept base := by
  have hmem : ∀ p, ChainUpgrade.rollBackward p ∈ us ++ [.rollForward blk blkBytes replayed] ↔
      .rollBackward p ∈ us := by simp
  refine ⟨fun h => ha.fresh fun p hp => h p ((hmem p).mpr hp), ?_⟩
  intro p hs hp q hq
  exact ha.high p hs hp q ((hmem q).mp hq)

theorem Anchored.rollBackward (ha : Anchored handleRollbacksAfter start initial us older kept base)
    {point : Point} (above : handleRollbacksAfter < point.getSlot) :
    Anchored handleRollbacksAfter start initial (us ++ [.rollBackward point]) older kept base := by
  refine ⟨fun h => ha.fresh fun p hp => h p (List.mem_append_left _ hp), ?_⟩
  intro p hs hp q hq
  rcases List.mem_append.mp hq with hq | hq
  · exact ha.high p hs hp q hq
  · obtain rfl : q = point := by simpa using hq
    exact above

theorem Following.rollForward {b : RawBlock B C} {evs : List (LedgerTxEvent (LedgerTx B C))}
    (h : cml.Following handleRollbacksAfter start initial us node cache evs)
    (decodes : cml.fromCborBytes b.bytes = some b.blk)
    (follows : ∀ tip ∈ cml.chainTip start node.chain, tip.Before b.slot)
    (hashed : cml.headerPoint b.blk.header = some (cml.point b)) :
    ∃ cache', cml.processUpstreamByTxs handleRollbacksAfter cache
        (.rollForward b.blk b.bytes false) = some (cache', (cml.txs b).map BlockTx.applied) ∧
      cml.Following handleRollbacksAfter start initial (us ++ [.rollForward b.blk b.bytes false])
        { node with chain := node.chain ++ [b] } cache'
        (evs ++ (cml.txs b).map BlockTx.applied) := by
  obtain ⟨older, kept, recent, base, hf, ha, hst⟩ := h
  obtain ⟨cache', hproc, hf'⟩ := hf.rollForward decodes follows hashed
  refine ⟨cache', hproc, older, kept, recent ++ [b], base, hf', ha.rollForward _ _ _, ?_⟩
  rw [List.map_append, map_op_applied, ← List.append_assoc, List.flatMap_append]
  have hpush := hst.append (Stacks.pushes _ (cml.txs b))
  simpa using hpush

/-- The blocks after the target of a rollback above the threshold are all recent. -/
theorem Follows.split_target {kept' dropped abandoned : List (RawBlock B C)} {point : Point}
    (hf : cml.Follows handleRollbacksAfter start initial older kept recent base
      ⟨kept' ++ dropped, abandoned⟩ cache)
    (ha : Anchored handleRollbacksAfter start initial us older kept base)
    (target : cml.chainTip start kept' = some point)
    (above : handleRollbacksAfter < point.getSlot) :
    ∃ recent', kept' = kept ++ recent' ∧ recent = recent' ++ dropped ∧
      (recent' = [] → older = [] ∧ kept = [] ∧ (base = start ∨
        initial = ∅ ∧ (base = none ∨ base = some .origin))) := by
  have hlast : kept' ≠ [] → ∃ b ∈ kept', handleRollbacksAfter < b.slot := by
    intro hne
    obtain ⟨init, last, rfl⟩ := (List.eq_nil_or_concat' kept').resolve_left hne
    rw [chainTip_concat, Option.some.injEq] at target
    refine ⟨last, by simp, ?_⟩
    rwa [← getSlot_point (hf.ok.hashed last (by simp)), target]
  have hkept : kept' ≠ [] → ¬ ∀ b ∈ kept', b ∈ kept := fun hne hall => by
    obtain ⟨b, hb, hslot⟩ := hlast hne
    exact absurd hslot (Nat.not_lt.mpr (hf.low b (hall b hb)))
  have hfresh : kept' = [] → older = [] ∧ kept = [] ∧ (base = start ∨
      initial = ∅ ∧ (base = none ∨ base = some .origin)) := by
    rintro rfl
    obtain ⟨ho, hk, hb⟩ := ha.fresh (ha.high point target above)
    exact ⟨ho, hk, hb.imp_right And.right⟩
  have hchain : kept' ++ dropped = kept ++ recent := hf.chain
  rcases List.append_eq_append_iff.mp hchain with ⟨m, hk, hd⟩ | ⟨m, hk, hr⟩
  · by_cases hne : kept' = []
    · have hnil := (hfresh hne).2.1
      subst hne
      obtain rfl : m = [] := by simpa [hnil] using hk.symm
      exact ⟨[], by simp [hnil], by simpa using hd.symm, fun _ => hfresh rfl⟩
    · exact absurd (fun b hb => hk ▸ List.mem_append_left _ hb) (hkept hne)
  · refine ⟨m, hk, hr, ?_⟩
    intro hm
    rw [hm, List.append_nil] at hk
    by_cases hne : kept' = []
    · exact hfresh hne
    · exact absurd (fun b hb => hk ▸ hb) (hkept hne)

/-- The events of a rollback above the threshold take its blocks off the stack. -/
theorem Follows.following_rollBackward {recent dropped abandoned : List (RawBlock B C)}
    {point : Point} {evs : List (LedgerTxEvent (LedgerTx B C))}
    (hf : cml.Follows handleRollbacksAfter start initial older kept (recent ++ dropped) base
      ⟨kept ++ (recent ++ dropped), abandoned⟩ cache)
    (ha : Anchored handleRollbacksAfter start initial us older kept base)
    (hst : Stacks [] (evs.map LedgerTxEvent.op)
      ((older ++ (recent ++ dropped)).flatMap cml.txs))
    (above : handleRollbacksAfter < point.getSlot)
    (hdropped : ∀ b ∈ dropped, point.getSlot < b.slot)
    (hbase : base = none → recent = [] → dropped = [])
    (hstop : ∀ tip, cml.chainTip base recent = some tip → tip = point ∨ cache.getBlock tip = none) :
    ∃ cache' evs', cml.processUpstreamByTxs handleRollbacksAfter cache (.rollBackward point) =
        some (cache', evs') ∧
      cml.Following handleRollbacksAfter start initial (us ++ [.rollBackward point])
        ⟨kept ++ recent, abandoned⟩ cache' (evs ++ evs') := by
  obtain ⟨cache', hproc, hnew⟩ := hf.rollBackward above hdropped hbase hstop
  refine ⟨cache', _, hproc, older, kept, recent, base, hnew, ha.rollBackward above, ?_⟩
  rw [List.map_append, map_op_unapplied]
  rw [← List.append_assoc, List.flatMap_append] at hst
  exact hst.append (Stacks.pops _ _)

theorem Following.rollBackward {kept' dropped abandoned : List (RawBlock B C)} {point : Point}
    {evs : List (LedgerTxEvent (LedgerTx B C))}
    (h : cml.Following handleRollbacksAfter start initial us ⟨kept' ++ dropped, abandoned⟩ cache evs)
    (target : cml.chainTip start kept' = some point)
    (above : handleRollbacksAfter < point.getSlot) :
    ∃ cache' evs', cml.processUpstreamByTxs handleRollbacksAfter cache (.rollBackward point) =
        some (cache', evs') ∧
      cml.Following handleRollbacksAfter start initial (us ++ [.rollBackward point])
        ⟨kept', abandoned⟩ cache' (evs ++ evs') := by
  obtain ⟨older, kept, recent, base, hf, ha, hst⟩ := h
  obtain ⟨recent', rfl, rfl, hnil⟩ := hf.split_target ha target above
  have hslots : ∀ b ∈ dropped, point.getSlot < b.slot := by
    intro b hd
    have hbefore := hf.ok.tip_before target hd
    cases point with
    | origin => exact absurd above (Nat.not_lt_zero _)
    | specific slot hash => exact hbefore
  rw [List.append_assoc] at hf
  by_cases hr : recent' = []
  · obtain ⟨ho, hk, hor⟩ := hnil hr
    subst ho hk hr
    rw [List.nil_append] at target
    have hstart : start ≠ none := by
      rintro rfl
      cases target
    rcases hor with rfl | ⟨rfl, hbase⟩
    · refine hf.following_rollBackward ha hst above hslots (fun hn => absurd hn hstart) ?_
      exact fun tip ht => .inl (Option.some.inj (ht.symm.trans target))
    · have hanchor : Anchored handleRollbacksAfter start ∅ us [] [] (some .origin) :=
        ⟨fun _ => ⟨rfl, rfl, .inr ⟨hstart, rfl, .inr rfl⟩⟩, ha.high⟩
      have hstop : ∀ tip, cml.chainTip (some .origin) ([] : List (RawBlock B C)) = some tip →
          tip = point ∨ cache.getBlock tip = none := by
        intro tip ht
        obtain rfl : Point.origin = tip := by simpa using ht
        exact .inr hf.getBlock_origin
      -- a rollback of all recent blocks goes back to the origin where no base is known
      rcases hbase with rfl | rfl
      · by_cases hd : dropped = []
        · exact hf.following_rollBackward ha hst above hslots (fun _ _ => hd)
            fun tip ht => by cases ht
        · exact (hf.rebase (by simpa using hd)).following_rollBackward hanchor hst above hslots
            (by simp) hstop
      · exact hf.following_rollBackward ha hst above hslots (by simp) hstop
  · refine hf.following_rollBackward ha hst above hslots (fun _ hn => absurd hn hr) ?_
    intro tip ht
    obtain ⟨init, last, rfl⟩ := (List.eq_nil_or_concat' recent').resolve_left hr
    rw [← List.append_assoc, chainTip_concat] at target
    rw [chainTip_concat] at ht
    exact .inl (Option.some.inj (ht.symm.trans target))

end Run

end Cml

end UtxoMonitor
