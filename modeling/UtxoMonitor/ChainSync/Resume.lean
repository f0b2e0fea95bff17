import UtxoMonitor.ChainSync.Blocks

/-! Where the follower resumes after a rollback, when it was started from a configured point on an
empty cache. -/
namespace UtxoMonitor

open Lib

variable {B C : Era}

/-- Neither the tip nor a link between cached blocks is the point. -/
structure LedgerCache.Avoids (cache : LedgerCache) (p : Point) : Prop where
  tip : cache.getTip ≠ some p
  links : ∀ q lb, cache.getBlock q = some lb → lb.prevPoint ≠ p

/-- The point that the node is asked to intersect at after a restart. -/
def LedgerCache.bestPoint (cache : LedgerCache) (startingPoint : Point) : Point :=
  cache.getTip.getD startingPoint

theorem LedgerCache.Avoids.empty (p : Point) : (∅ : LedgerCache).Avoids p where
  tip := by simp
  links q lb h := by simp at h

theorem LedgerCache.Avoids.setTip {cache : LedgerCache} {p q : Point} (h : cache.Avoids p)
    (hq : q ≠ p) : (cache.setTip q).Avoids p where
  tip := by simpa using hq
  links r lb hr := h.links r lb (by simpa using hr)

theorem LedgerCache.Avoids.delete {cache : LedgerCache} {p : Point} (h : cache.Avoids p)
    (q : Point) : (cache.delete q).Avoids p where
  tip := by simpa using h.tip
  links r lb hr := by
    rw [getBlock_delete] at hr
    split at hr
    · cases hr
    · exact h.links r lb hr

theorem LedgerCache.Avoids.putBlock {cache : LedgerCache} {p q : Point} {lb : LinkedBlock}
    (h : cache.Avoids p) (hlb : lb.prevPoint ≠ p) : (cache.putBlock q lb).Avoids p where
  tip := by simpa using h.tip
  links r lb' hr := by
    rw [getBlock_putBlock] at hr
    split at hr
    · rwa [← Option.some.inj hr]
    · exact h.links r lb' hr

namespace Cml

variable {cml : Cml B C} {handleRollbacksAfter : Slot} {P : LedgerCache → Prop}

/-- What taking a block off keeps, the loop of a rollback keeps. -/
theorem rollbackLoop_keeps {toPoint : Point}
    (hpop : ∀ cache tip lb, P cache → cache.getBlock tip = some lb →
      P ((cache.delete tip).setTip lb.prevPoint)) {n : Nat} {cache cache' : LedgerCache}
    {blks : List (MultiEraBlock B C)} (h : P cache)
    (hloop : cml.rollbackLoop toPoint n cache = some (cache', blks)) : P cache' := by
  induction n generalizing cache cache' blks with
  | zero =>
    simp only [rollbackLoop, Option.some.injEq, Prod.mk.injEq] at hloop
    rwa [← hloop.1]
  | succ n ih =>
    rw [rollbackLoop] at hloop
    cases ht : cache.getTip with
    | none =>
      simp only [ht, Option.some.injEq, Prod.mk.injEq] at hloop
      rwa [← hloop.1]
    | some tip =>
      simp only [ht] at hloop
      split at hloop
      · simp only [Option.some.injEq, Prod.mk.injEq] at hloop
        rwa [← hloop.1]
      · cases hb : cache.getBlock tip with
        | none =>
          simp only [hb, Option.some.injEq, Prod.mk.injEq] at hloop
          rwa [← hloop.1]
        | some lb =>
          simp only [hb, Option.bind_eq_bind, Option.bind_eq_some_iff, Option.pure_def,
            Option.some.injEq, Prod.mk.injEq] at hloop
          obtain ⟨blk, -, r, hr, rfl, -⟩ := hloop
          exact ih (hpop cache tip lb h hb) hr

/-- A block that does not stop the stream becomes the tip, and is cached if above the threshold. -/
theorem cache_of_forward {blk : MultiEraBlock B C} {blkBytes : Bytes} {cache : LedgerCache}
    {r : LedgerCache × List (LedgerTxEvent (LedgerTx B C))}
    (h : cml.processUpstreamByTxs handleRollbacksAfter cache (.rollForward blk blkBytes false) =
      some r) :
    ∃ point, cml.headerPoint blk.header = some point ∧ (r.1 = cache.setTip point ∨
      r.1 = (cache.setTip point).putBlock point ⟨blkBytes, cache.getTip.getD .origin⟩) := by
  cases hp : cml.headerPoint blk.header with
  | none =>
    rw [processUpstreamByTxs_unhashable (b := ⟨blk, blkBytes⟩) hp] at h
    cases h
  | some point =>
    refine ⟨point, rfl, ?_⟩
    by_cases hslot : blk.header.slot > handleRollbacksAfter
    · simp only [processUpstreamByTxs, Bool.not_false, if_true, hslot, cacheBlock, hp,
        Option.bind_eq_bind, Option.bind_some, Option.pure_def, Option.some.injEq] at h
      simp [← h]
    · simp only [processUpstreamByTxs, Bool.not_false, if_true, hslot, if_false, cachePoint, hp,
        Option.bind_eq_bind, Option.bind_some, Option.pure_def, Option.some.injEq] at h
      simp [← h]

/-- What each forward block and each block taken off keeps, an upgrade keeps. -/
theorem processUpstreamByTxs_keeps {u : ChainUpgrade (MultiEraBlock B C)}
    (hforward : ∀ blk blkBytes point cache, u = .rollForward blk blkBytes false →
      cml.headerPoint blk.header = some point → P cache →
      P (cache.setTip point) ∧
        P ((cache.setTip point).putBlock point ⟨blkBytes, cache.getTip.getD .origin⟩))
    (hpop : ∀ cache tip lb, P cache → cache.getBlock tip = some lb →
      P ((cache.delete tip).setTip lb.prevPoint)) {cache : LedgerCache}
    {r : LedgerCache × List (LedgerTxEvent (LedgerTx B C))} (h : P cache)
    (hu : cml.processUpstreamByTxs handleRollbacksAfter cache u = some r) : P r.1 := by
  cases u with
  | rollForward blk blkBytes replayed =>
    cases replayed with
    | true =>
      simp only [processUpstreamByTxs, Bool.not_true, Option.bind_eq_bind, Option.bind_some,
        Option.pure_def, Bool.false_eq_true, if_false, Option.some.injEq] at hu
      rwa [← hu]
    | false =>
      obtain ⟨point, hp, hr⟩ := cache_of_forward hu
      obtain ⟨htip, hblock⟩ := hforward blk blkBytes point cache rfl hp h
      rcases hr with hr | hr
      · rwa [hr]
      · rwa [hr]
  | rollBackward point =>
    rw [processUpstreamByTxs] at hu
    split at hu
    · simp only [Option.bind_eq_bind, Option.bind_eq_some_iff, Option.pure_def,
        Option.some.injEq] at hu
      obtain ⟨r', hr, rfl⟩ := hu
      exact rollbackLoop_keeps hpop h hr
    · rw [Option.some.injEq] at hu
      rwa [← hu]

theorem processUpstream_keeps {us : List (ChainUpgrade (MultiEraBlock B C))}
    (hforward : ∀ blk blkBytes point cache, .rollForward blk blkBytes false ∈ us →
      cml.headerPoint blk.header = some point → P cache →
      P (cache.setTip point) ∧
        P ((cache.setTip point).putBlock point ⟨blkBytes, cache.getTip.getD .origin⟩))
    (hpop : ∀ cache tip lb, P cache → cache.getBlock tip = some lb →
      P ((cache.delete tip).setTip lb.prevPoint)) {cache cache' : LedgerCache}
    {evs : List (LedgerTxEvent (LedgerTx B C))} (h : P cache)
    (hrun : cml.processUpstream handleRollbacksAfter cache us = some (cache', evs)) :
    P cache' := by
  induction us generalizing cache evs with
  | nil =>
    simp only [processUpstream, Option.some.injEq, Prod.mk.injEq] at hrun
    rwa [← hrun.1]
  | cons u us ih =>
    simp only [processUpstream, Option.bind_eq_bind, Option.bind_eq_some_iff, Option.pure_def,
      Option.some.injEq, Prod.mk.injEq] at hrun
    obtain ⟨r, hu, r', hus, rfl, -⟩ := hrun
    have hstep : P r.1 := processUpstreamByTxs_keeps
      (fun blk blkBytes point cache heq => hforward blk blkBytes point cache
        (heq ▸ List.mem_cons_self)) hpop h hu
    exact ih (fun blk blkBytes point cache hm => hforward blk blkBytes point cache
      (List.mem_cons_of_mem u hm)) hstep hus

/-- After a forward block the cache has a tip, through all later upgrades. -/
theorem isSome_getTip_of_forward {us : List (ChainUpgrade (MultiEraBlock B C))}
    {blk : MultiEraBlock B C} {blkBytes : Bytes} (hm : .rollForward blk blkBytes false ∈ us)
    {cache cache' : LedgerCache} {evs : List (LedgerTxEvent (LedgerTx B C))}
    (hrun : cml.processUpstream handleRollbacksAfter cache us = some (cache', evs)) :
    cache'.getTip.isSome := by
  have hpop : ∀ (cache : LedgerCache) tip lb, cache.getTip.isSome →
      cache.getBlock tip = some lb → ((cache.delete tip).setTip lb.prevPoint).getTip.isSome := by
    simp
  obtain ⟨pre, post, rfl⟩ := List.append_of_mem hm
  rw [processUpstream_append] at hrun
  simp only [processUpstream, Option.bind_eq_bind, Option.bind_eq_some_iff, Option.map_eq_some_iff,
    Option.pure_def, Option.some.injEq, Prod.mk.injEq] at hrun
  obtain ⟨r, -, r', ⟨r₁, hblk, r₂, hpost, rfl⟩, rfl, -⟩ := hrun
  have htip : r₁.1.getTip.isSome := by
    obtain ⟨point, -, hr | hr⟩ := cache_of_forward hblk <;> simp [hr]
  exact processUpstream_keeps (P := fun cache => cache.getTip.isSome)
    (fun _ _ _ _ _ _ _ => by simp) hpop htip hpost

section Run

variable {p₀ p : Point} {us : List (ChainUpgrade (MultiEraBlock B C))} {node : Node B C}

/-- The blocks after a point above the threshold have other points. -/
theorem NodeRun.forward_ne (run : cml.NodeRun (some p₀) handleRollbacksAfter us node)
    (high : handleRollbacksAfter < p₀.getSlot) {cache : LedgerCache}
    {evs : List (LedgerTxEvent (LedgerTx B C))}
    (hproc : cml.processUpstream handleRollbacksAfter ∅ us = some (cache, evs)) :
    ∀ blk blkBytes, .rollForward blk blkBytes false ∈ us →
      cml.headerPoint blk.header ≠ some p₀ := by
  induction run generalizing cache evs with
  | nil => simp
  | @snoc us u node node' run step ih =>
    rw [processUpstream_concat, Option.bind_eq_some_iff] at hproc
    obtain ⟨r, hr, -⟩ := hproc
    intro blk blkBytes hm
    rcases List.mem_append.mp hm with hm | hm
    · exact ih hr blk blkBytes hm
    · cases step with
      | @rollForward _ b decodes follows =>
        obtain ⟨rfl, -⟩ : blk = b.blk ∧ blkBytes = b.bytes := by simpa using hm
        obtain ⟨older, kept, recent, base, hf, -⟩ := (following_run (.inr rfl) run).2 r.1 r.2 hr
        obtain ⟨tip, htip, hle⟩ := hf.ok.start_le_tip rfl
        intro hp
        have hslot : b.slot = p₀.getSlot := by
          obtain ⟨hash, -, heq⟩ := Option.map_eq_some_iff.mp hp
          rw [← heq]
          rfl
        have hlt := (follows tip htip).getSlot_lt (hslot ▸ high)
        rw [hslot] at hlt
        exact absurd hle (Nat.not_le.mpr hlt)
      | rollBackward => simp at hm
      | abandon => simp at hm

/-- The target of the last rollback is the tip of the node. -/
theorem NodeRun.target
    (run : cml.NodeRun (some p₀) handleRollbacksAfter (us ++ [.rollBackward p]) node) :
    cml.chainTip (some p₀) node.chain = some p := by
  generalize hus : us ++ [.rollBackward p] = us' at run
  cases run with
  | nil => simp at hus
  | snoc run step =>
    obtain ⟨-, hu⟩ := List.append_inj' hus rfl
    obtain rfl := List.cons.inj hu |>.1
    cases step with
    | rollBackward target above => exact target
    | abandon target below => exact target

end Run

/-- Started from a point above the threshold on an empty cache, the follower has the target of a
rollback as its tip unless that is the starting point. -/
theorem NodeRun.getTip_iff {p₀ p : Point} {us : List (ChainUpgrade (MultiEraBlock B C))}
    {node : Node B C}
    (run : cml.NodeRun (some p₀) handleRollbacksAfter (us ++ [.rollBackward p]) node)
    (high : handleRollbacksAfter < p₀.getSlot) {cache : LedgerCache}
    {evs : List (LedgerTxEvent (LedgerTx B C))}
    (hproc : cml.processUpstream handleRollbacksAfter ∅ (us ++ [.rollBackward p]) =
      some (cache, evs)) :
    cache.getTip = some p ↔ p ≠ p₀ := by
  constructor
  · rintro htip rfl
    have hne : Point.origin ≠ p := by
      rintro rfl
      exact absurd high (Nat.not_lt_zero _)
    have havoids : cache.Avoids p := by
      refine processUpstream_keeps (P := fun cache => cache.Avoids p) ?_ ?_ (.empty p) hproc
      · intro blk blkBytes point cache hm hpoint h
        have hpne : point ≠ p := by
          rintro rfl
          exact run.forward_ne high hproc blk blkBytes hm hpoint
        refine ⟨h.setTip hpne, (h.setTip hpne).putBlock ?_⟩
        cases htip : cache.getTip with
        | none => exact hne
        | some tip => exact fun heq => h.tip (htip.trans (congrArg some heq))
      · exact fun cache tip lb h hlb => (h.delete tip).setTip (h.links tip lb hlb)
    exact havoids.tip htip
  · intro hne
    obtain ⟨older, kept, recent, base, hf, ha, -⟩ :=
      (following_run (.inr rfl) run).2 cache evs hproc
    obtain ⟨-, rfl, -⟩ := ha.fresh (ha.high p₀ rfl high)
    have htarget := run.target
    rw [hf.chain, List.nil_append] at htarget
    rcases List.eq_nil_or_concat' recent with rfl | ⟨init, last, rfl⟩
    · exact absurd (Option.some.inj htarget).symm hne
    · rw [hf.tip, chainTip_concat]
      rwa [chainTip_concat] at htarget

/-- As long as no block came, nothing is cached. -/
theorem eq_empty_of_no_forward {us : List (ChainUpgrade (MultiEraBlock B C))}
    (hno : ∀ blk blkBytes, .rollForward blk blkBytes false ∉ us) {cache : LedgerCache}
    {evs : List (LedgerTxEvent (LedgerTx B C))}
    (hproc : cml.processUpstream handleRollbacksAfter ∅ us = some (cache, evs)) : cache = ∅ := by
  refine processUpstream_keeps (P := fun cache => cache = ∅) ?_ ?_ rfl hproc
  · exact fun blk blkBytes _ _ hm => absurd hm (hno blk blkBytes)
  · rintro _ tip lb rfl hlb
    simp at hlb

/-- Started from a point above the threshold on an empty cache, either stream has the target of a
rollback as its tip, and a restart goes on from there, except for a rollback to the starting point:
then the tip is another one, and a restart goes on from there if a block came before. The streams
panic only at a block whose header they cannot hash. -/
theorem tip_after_rollback_iff (cml : Cml B C) (handleRollbacksAfter : Slot) (p₀ p : Point)
    (us : List (ChainUpgrade (MultiEraBlock B C))) (node : Node B C)
    (high : handleRollbacksAfter < p₀.getSlot)
    (run : cml.NodeRun (some p₀) handleRollbacksAfter (us ++ [.rollBackward p]) node) :
    ∀ final ∈ [
        (cml.ledgerTransactions handleRollbacksAfter ∅ (us ++ [.rollBackward p]) none).map
          Prod.fst,
        (Streamed.ledgerBlocks cml handleRollbacksAfter ∅
          (us ++ [.rollBackward p])).finished.map Prod.fst],
      (final = none → ∃ b : RawBlock B C, .rollForward b.blk b.bytes false ∈ us ∧
        cml.headerPoint b.blk.header = none) ∧
      ∀ cache, final = some cache →
        (cache.getTip = some p ↔ p ≠ p₀) ∧
        (cache.bestPoint p₀ = p ↔
          p ≠ p₀ ∨ ∀ blk blkBytes, .rollForward blk blkBytes false ∉ us) := by
  intro final hmem
  have hfinal : final = (cml.processUpstream handleRollbacksAfter ∅
      (us ++ [.rollBackward p])).map Prod.fst := by
    rw [Streamed.ledgerBlocks_cache, ledgerTransactions_none] at hmem
    simpa using hmem
  subst hfinal
  constructor
  · intro hnone
    obtain ⟨b, hb, hhash⟩ := (following_run (.inr rfl) run).1 (Option.map_eq_none_iff.mp hnone)
    exact ⟨b, by simpa using hb, hhash⟩
  · intro cache hsome
    obtain ⟨⟨cache', evs⟩, hproc, rfl⟩ := Option.map_eq_some_iff.mp hsome
    have htip := run.getTip_iff high hproc
    refine ⟨htip, ?_⟩
    by_cases hp : p = p₀
    · subst hp
      have hne : cache'.getTip ≠ some p := fun h => htip.mp h rfl
      have hback : ∀ blk blkBytes,
          ChainUpgrade.rollForward blk blkBytes false ∈ us ++ [.rollBackward p] ↔
            .rollForward blk blkBytes false ∈ us := by simp
      constructor
      · intro hbest
        refine .inr fun blk blkBytes hm => ?_
        obtain ⟨tip, ht⟩ := Option.isSome_iff_exists.mp
          (isSome_getTip_of_forward ((hback blk blkBytes).mpr hm) hproc)
        rw [LedgerCache.bestPoint, ht, Option.getD_some] at hbest
        exact hne (ht.trans (congrArg some hbest))
      · rintro (h | hno)
        · exact absurd rfl h
        · rw [eq_empty_of_no_forward (fun blk blkBytes => mt (hback blk blkBytes).mp
            (hno blk blkBytes)) hproc, LedgerCache.bestPoint, LedgerCache.getTip_empty]
          rfl
    · rw [LedgerCache.bestPoint, htip.mpr hp]
      simp [hp]

/-- Started from block 14: blocks 15 and 16 come, and the node goes back to one of the three. -/
def resumeSample (n : UInt8) : List (ChainUpgrade (MultiEraBlock sampleEra sampleEra)) :=
  [sampleForward 15, sampleForward 16] ++ [sampleBackward n]

theorem resumeSample_run (n : UInt8) (kept dropped : List (RawBlock sampleEra sampleEra))
    (hsplit : [sampleBlock 15, sampleBlock 16] = kept ++ dropped)
    (htarget : sample.chainTip (some (sample.point (sampleBlock 14))) kept =
      some (sample.point (sampleBlock n)))
    (habove : 10 < (sample.point (sampleBlock n)).getSlot) :
    sample.NodeRun (some (sample.point (sampleBlock 14))) 10 (resumeSample n) ⟨kept, []⟩ := by
  have h15 : sample.NodeRun (some (sample.point (sampleBlock 14))) 10 [sampleForward 15]
      ⟨[sampleBlock 15], []⟩ := NodeRun.nil.snoc (.rollForward rfl (by decide))
  have h16 : sample.NodeRun (some (sample.point (sampleBlock 14))) 10
      [sampleForward 15, sampleForward 16] ⟨[sampleBlock 15, sampleBlock 16], []⟩ :=
    h15.snoc (.rollForward rfl (by decide))
  rw [hsplit] at h16
  exact h16.snoc (.rollBackward htarget habove)

theorem tip_after_rollback_sample : ∃ cache, (sample.ledgerTransactions 10 ∅
      (resumeSample 15) none).map Prod.fst = some cache ∧
    cache.getTip = some (sample.point (sampleBlock 15)) := by
  have hrun := resumeSample_run 15 [sampleBlock 15] [sampleBlock 16] rfl rfl (by decide)
  have hiff := tip_after_rollback_iff sample 10 (sample.point (sampleBlock 14))
    (sample.point (sampleBlock 15)) [sampleForward 15, sampleForward 16] _ (by decide) hrun _
    (List.mem_cons_self ..)
  exact ⟨_, rfl, (hiff.2 _ rfl).1.mpr (by decide)⟩

/-- After a rollback to the starting point the follower would resume from the origin. -/
theorem rollback_to_start_resumes_from_origin :
    sample.NodeRun (some (sample.point (sampleBlock 14))) 10 (resumeSample 14) ⟨[], []⟩ ∧
    10 < (sample.point (sampleBlock 14)).getSlot ∧
    ∃ cache, (sample.ledgerTransactions 10 ∅ (resumeSample 14) none).map Prod.fst = some cache ∧
      (Streamed.ledgerBlocks sample 10 ∅ (resumeSample 14)).finished.map Prod.fst = some cache ∧
      cache.getTip = some .origin ∧
      cache.bestPoint (sample.point (sampleBlock 14)) = .origin := by
  refine ⟨resumeSample_run 14 [] [sampleBlock 15, sampleBlock 16] rfl rfl (by decide), by decide,
    _, rfl, rfl, ?_, ?_⟩ <;> decide +kernel

end Cml

end UtxoMonitor
