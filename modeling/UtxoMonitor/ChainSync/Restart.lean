import UtxoMonitor.Lib.Stack
import UtxoMonitor.ChainSync.Storage

/-! Restarts of the monitor. A block becomes the cached tip before its transactions reach the index,
and a crash in between leaves the tip ahead of the index. -/
namespace UtxoMonitor

open Lib

variable {B C : Era}

namespace Cml

variable (cml : Cml B C) (handleRollbacksAfter : Slot)

/-- A turn of `rollback`: the block is dropped from the cache, then its transactions are undone. -/
def undoTxs (tip prevPoint : Point) (block : Option (MultiEraBlock B C)) :
    List (StorageWrite (LedgerTxEvent (LedgerTx B C))) :=
  [.delete tip, .setTip prevPoint] ++
    match block with
    | some blk =>
      (((cml.unpackValidTransactionsMultiEra blk).map BlockTx.unapplied).reverse).map .commit
    | none => []

/-- What `process_upstream_by_txs` and the handlers of its events write. -/
def upgradeByTxs : WritePlan B C (LedgerTxEvent (LedgerTx B C))
  | cache, .rollForward blk blkBytes replayed =>
    let appliedTxs := ((cml.unpackValidTransactionsMultiEra blk).map BlockTx.applied).map .commit
    if !replayed then
      match cml.headerPoint blk.header with
      | some point =>
        if blk.header.slot > handleRollbacksAfter then
          ([.setTip point, .putBlock point ⟨blkBytes, cache.getTip.getD .origin⟩] ++ appliedTxs,
            false)
        else ([.setTip point] ++ appliedTxs, false)
      | none => ([], true)
    else (appliedTxs, false)
  | cache, .rollBackward point =>
    if point.getSlot > handleRollbacksAfter then
      cml.rollbackWrites cml.undoTxs point cache.size cache
    else ([], false)

/-- The monitor from a first start at `startingPoint`, with an empty cache and an empty index. -/
abbrev monitor (tree : BlockTree cml) (startingPoint : Point) :
    Durable (Storage (LedgerTxEvent (LedgerTx B C)))
      (StorageWrite (LedgerTxEvent (LedgerTx B C))) (Option Point) :=
  follower tree (cml.upgradeByTxs handleRollbacksAfter) startingPoint

end Cml

/-! ### The writes are those of the event source -/

theorem foldl_perform_commit {E : Type} (s : Storage E) (evs : List E) :
    (evs.map .commit).foldl Storage.perform s = { s with committed := s.committed ++ evs } := by
  induction evs generalizing s with
  | nil => simp
  | cons ev evs ih =>
    rw [List.map_cons, List.foldl_cons, ih]
    simp [Storage.perform]

namespace Cml

variable {cml : Cml B C} {handleRollbacksAfter : Slot}

theorem rollbackLoop_eq (toPoint : Point) (n : Nat)
    (s : Storage (LedgerTxEvent (LedgerTx B C))) :
    ((cml.rollbackLoop toPoint n s.cache).map fun r =>
      Storage.mk r.1 (s.committed ++ r.2.flatMap fun blk =>
        ((cml.unpackValidTransactionsMultiEra blk).map BlockTx.unapplied).reverse)) =
    if (cml.rollbackWrites cml.undoTxs toPoint n s.cache).2 then none
    else some ((cml.rollbackWrites cml.undoTxs toPoint n s.cache).1.foldl Storage.perform s) := by
  induction n generalizing s with
  | zero => simp [rollbackLoop, rollbackWrites]
  | succ n ih =>
    rw [rollbackLoop, rollbackWrites]
    cases s.cache.getTip with
    | none => simp
    | some tip =>
      by_cases hto : tip = toPoint
      · simp [hto]
      · cases hb : s.cache.getBlock tip with
        | none => simp [hto, hb]
        | some lb =>
          cases hd : cml.fromCborBytes lb.blockBytes with
          | none => simp [hto, hb, hd]
          | some blk =>
            have hrest := ih ⟨(s.cache.delete tip).setTip lb.prevPoint, s.committed ++
              ((cml.unpackValidTransactionsMultiEra blk).map BlockTx.unapplied).reverse⟩
            simp only [hto, hb, hd, if_false, undoTxs, List.foldl_append, foldl_perform_commit,
              List.foldl_cons, List.foldl_nil, Storage.perform, ← hrest, Option.bind_eq_bind,
              Option.bind_some]
            cases cml.rollbackLoop toPoint n ((s.cache.delete tip).setTip lb.prevPoint) <;> simp

/-- To make all writes of an upgrade is to process it. -/
theorem processUpstreamByTxs_eq (cache : LedgerCache)
    (u : ChainUpgrade (MultiEraBlock B C)) :
    (cml.processUpstreamByTxs handleRollbacksAfter cache u).map (fun r => Storage.mk r.1 r.2) =
      if (cml.upgradeByTxs handleRollbacksAfter cache u).2 then none
      else some ((cml.upgradeByTxs handleRollbacksAfter cache u).1.foldl Storage.perform
        ⟨cache, []⟩) := by
  cases u with
  | rollForward blk blkBytes replayed =>
    cases replayed with
    | true => simp [processUpstreamByTxs, upgradeByTxs, foldl_perform_commit, -List.map_map]
    | false =>
      cases hp : cml.headerPoint blk.header <;>
        by_cases hs : blk.header.slot > handleRollbacksAfter <;>
        simp [processUpstreamByTxs, upgradeByTxs, cacheBlock, cachePoint, hp, hs,
          foldl_perform_commit, Storage.perform, -List.map_map]
  | rollBackward point =>
    by_cases hs : point.getSlot > handleRollbacksAfter
    · have hloop := @rollbackLoop_eq _ _ cml point cache.size ⟨cache, []⟩
      simp only [processUpstreamByTxs, upgradeByTxs, hs, if_true, rollback, ← hloop]
      cases cml.rollbackLoop point cache.size cache <;> simp
    · simp [processUpstreamByTxs, upgradeByTxs, hs]

theorem slot_of_mem_txs {b : RawBlock B C} {x : BlockTx (LedgerTx B C)} (hx : x ∈ cml.txs b) :
    x.2.1 = b.slot := by
  obtain ⟨blk, bytes⟩ := b
  cases blk with
  | babbage blk =>
    obtain ⟨y, hy, rfl⟩ := List.mem_map.mp hx
    obtain ⟨tx, -, rfl⟩ := List.mem_map.mp hy
    rfl
  | conway blk =>
    obtain ⟨y, hy, rfl⟩ := List.mem_map.mp hx
    obtain ⟨tx, -, rfl⟩ := List.mem_map.mp hy
    rfl
  | _ => cases hx

end Cml

/-! ### The index and the cached tip -/

namespace Restart

variable {cml : Cml B C} (tree : BlockTree cml) (handleRollbacksAfter : Slot)
  (startingPoint : Point)

/-- The crashes that do no harm: none while a block is the tip already and its row or one of its
transactions is still to be written, and none between the two cache writes of a rollback. -/
def CleanCrash (last next : Option (StorageWrite (LedgerTxEvent (LedgerTx B C)))) : Prop :=
  (∀ p, last ≠ some (.delete p)) ∧ (∀ p b, next ≠ some (.putBlock p b)) ∧
    ∀ x : BlockTx (LedgerTx B C), next ≠ some (.commit x.applied)

/-- All valid transactions of a chain after the starting point are applied. -/
def Covers (evs : List (LedgerTxEvent (LedgerTx B C))) (tip : Point) : Prop :=
  ∀ p b q, tree.OnChain tip p → ¬ tree.OnChain startingPoint p → tree.block p = some (b, q) →
    ∀ x ∈ cml.txs b, Standing (evs.map LedgerTxEvent.op) x

/-- The cached tip is not ahead of the index. -/
def CoversTip (s : Storage (LedgerTxEvent (LedgerTx B C))) : Prop :=
  ∀ tip, s.cache.getTip = some tip → Covers tree startingPoint s.committed tip

/-- Points of blocks that are cached without a row. -/
def Low (p : Point) : Prop := p.getSlot ≤ handleRollbacksAfter

/-- A storage to restart from. -/
structure Safe (s : Storage (LedgerTxEvent (LedgerTx B C))) : Prop where
  covers : CoversTip tree startingPoint s
  linked : ∀ tip, s.cache.getTip = some tip →
    ∃ ps, tree.Linked (Low handleRollbacksAfter) s.cache tip ps
  noOrigin : s.cache.getBlock .origin = none

/-- Between two upgrades: what the node has sent is applied, and the cached tip is the read position
unless rollbacks to the read position are ignored or lead out of the cached chain. -/
structure Idle (s : Storage (LedgerTxEvent (LedgerTx B C))) (position : Option Point) : Prop extends
    Safe tree handleRollbacksAfter startingPoint s where
  reached : ∀ p, position = some p → Covers tree startingPoint s.committed p
  tip : ∀ p, position = some p → s.cache.getTip = some p ∨ s.cache.getTip = none ∨
    s.cache.getTip = some .origin ∨ Low handleRollbacksAfter p

variable {tree handleRollbacksAfter startingPoint} {s : Storage (LedgerTxEvent (LedgerTx B C))}
  {evs : List (LedgerTxEvent (LedgerTx B C))} {p q t u : Point} {b : RawBlock B C}

theorem covers_origin : Covers tree startingPoint evs .origin := by
  intro p b q hp _ hb
  obtain rfl := hp.eq_origin
  exact absurd rfl (BlockTree.ne_origin hb)

theorem covers_start : Covers tree startingPoint evs startingPoint :=
  fun _ _ _ hp hnot => absurd hp hnot

theorem Covers.of_onChain (h : Covers tree startingPoint evs t) (hu : tree.OnChain t u) :
    Covers tree startingPoint evs u :=
  fun p b q hp => h p b q (hu.trans hp)

theorem standing_applied {xs : List (BlockTx (LedgerTx B C))} {x : BlockTx (LedgerTx B C)} :
    Standing ((evs ++ xs.map BlockTx.applied).map LedgerTxEvent.op) x ↔
      x ∈ xs ∨ Standing (evs.map LedgerTxEvent.op) x := by
  induction xs using List.reverseRecOn with
  | nil => simp
  | append_singleton xs y ih =>
    have hsplit : (evs ++ (xs ++ [y]).map BlockTx.applied).map LedgerTxEvent.op =
        (evs ++ xs.map BlockTx.applied).map LedgerTxEvent.op ++ [.push y] := by
      simp only [List.map_append, List.append_assoc, List.map_singleton]
      rfl
    rw [hsplit, standing_push, ih, List.mem_append, List.mem_singleton]
    tauto

/-- The chain of a block is covered once its transactions are applied after those before it. -/
theorem Covers.rollForward (h : Covers tree startingPoint evs q) (hb : tree.block p = some (b, q)) :
    Covers tree startingPoint (evs ++ (cml.txs b).map BlockTx.applied) p := by
  intro u b' q' hu hnot hb' x hx
  rw [standing_applied]
  by_cases heq : p = u
  · subst heq
    obtain ⟨rfl, rfl⟩ : b = b' ∧ q = q' := by simpa using hb.symm.trans hb'
    exact .inl hx
  · exact .inr (h u b' q' (hu.of_ne heq hb) hnot hb' x hx)

/-- To undo a transaction of a block leaves the chain before the block covered. -/
theorem Covers.rollBackward (h : Covers tree startingPoint evs u) (hb : tree.block t = some (b, q))
    (hu : tree.OnChain q u) {y : BlockTx (LedgerTx B C)} (hy : y ∈ cml.txs b) :
    Covers tree startingPoint (evs ++ [y.unapplied]) u := by
  intro v b' q' hv hnot hb' x hx
  have hop : (BlockTx.unapplied y).op = .pop y := rfl
  rw [List.map_append, List.map_singleton, hop, standing_pop]
  refine ⟨?_, h v b' q' hv hnot hb' x hx⟩
  rintro rfl
  have hslot := BlockTree.OnChain.getSlot_lt hb (hu.trans hv) (BlockTree.ne_origin hb')
  rw [tree.slot hb, tree.slot hb', ← Cml.slot_of_mem_txs hx, ← Cml.slot_of_mem_txs hy] at hslot
  exact Nat.lt_irrefl _ hslot

/-! ### What an upgrade leaves -/

theorem Safe.start : Safe tree handleRollbacksAfter startingPoint .empty where
  covers tip h := by simp [Storage.empty] at h
  linked tip h := by simp [Storage.empty] at h
  noOrigin := LedgerCache.getBlock_empty _

theorem Safe.restart (h : Safe tree handleRollbacksAfter startingPoint s) :
    Idle tree handleRollbacksAfter startingPoint s (some (s.cache.getTip.getD startingPoint)) where
  toSafe := h
  reached p hp := by
    obtain rfl := Option.some.inj hp
    cases ht : s.cache.getTip with
    | none => exact covers_start
    | some tip => exact h.covers tip ht
  tip p hp := by
    obtain rfl := Option.some.inj hp
    cases ht : s.cache.getTip with
    | none => exact .inr (.inl rfl)
    | some tip => exact .inl rfl

variable {position : Point}

/-- A cached block links to the block before it, or needs no link. -/
theorem Idle.linked_put (h : Idle tree handleRollbacksAfter startingPoint s (some position))
    (hb : tree.block p = some (b, position)) (decodes : cml.fromCborBytes b.bytes = some b.blk) :
    ∃ ps, tree.Linked (Low handleRollbacksAfter) ((s.cache.setTip p).putBlock p
      ⟨b.bytes, s.cache.getTip.getD .origin⟩) p ps := by
  rcases h.tip position rfl with ht | ht | ht | hlow
  · obtain ⟨ps, hps⟩ := h.linked position ht
    rw [ht, Option.getD_some]
    exact ⟨p :: ps, hps.put hb decodes⟩
  · rw [ht, Option.getD_none]
    exact ⟨[p], BlockTree.linked_put_first hb decodes (.inl rfl)⟩
  · rw [ht, Option.getD_some]
    exact ⟨[p], BlockTree.linked_put_first hb decodes (.inl rfl)⟩
  · exact ⟨[p], BlockTree.linked_put_first hb decodes (.inr hlow)⟩

theorem Idle.rollForward_high (h : Idle tree handleRollbacksAfter startingPoint s (some position))
    (hb : tree.block p = some (b, position)) (decodes : cml.fromCborBytes b.bytes = some b.blk) :
    Idle tree handleRollbacksAfter startingPoint
      ⟨(s.cache.setTip p).putBlock p ⟨b.bytes, s.cache.getTip.getD .origin⟩,
        s.committed ++ (cml.txs b).map BlockTx.applied⟩ (some p) := by
  have hcov := (h.reached position rfl).rollForward hb
  have htip : ((s.cache.setTip p).putBlock p ⟨b.bytes, s.cache.getTip.getD .origin⟩).getTip =
      some p := by simp
  refine ⟨⟨?_, ?_, ?_⟩, ?_, ?_⟩
  · intro tip ht
    obtain rfl := Option.some.inj (htip.symm.trans ht)
    exact hcov
  · intro tip ht
    obtain rfl := Option.some.inj (htip.symm.trans ht)
    exact h.linked_put hb decodes
  · exact BlockTree.getBlock_origin_put h.noOrigin hb
  · intro p' hp
    obtain rfl := Option.some.inj hp
    exact hcov
  · intro p' hp
    obtain rfl := Option.some.inj hp
    exact .inl htip

theorem Idle.rollForward_low (h : Idle tree handleRollbacksAfter startingPoint s (some position))
    (hb : tree.block p = some (b, position)) (hlow : Low handleRollbacksAfter p) :
    Idle tree handleRollbacksAfter startingPoint
      ⟨s.cache.setTip p, s.committed ++ (cml.txs b).map BlockTx.applied⟩ (some p) := by
  have hcov := (h.reached position rfl).rollForward hb
  refine ⟨⟨?_, ?_, ?_⟩, ?_, ?_⟩
  · intro tip ht
    obtain rfl : p = tip := by simpa using ht
    exact hcov
  · intro tip ht
    obtain rfl : p = tip := by simpa using ht
    exact ⟨[], .low hlow⟩
  · rw [LedgerCache.getBlock_setTip]
    exact h.noOrigin
  · intro p' hp
    obtain rfl := Option.some.inj hp
    exact hcov
  · intro p' hp
    obtain rfl := Option.some.inj hp
    exact .inr (.inr (.inr hlow))

/-- The block a rollback takes back, with what its row links it to. -/
theorem Safe.turn (h : Safe tree handleRollbacksAfter startingPoint s)
    (ht : s.cache.getTip = some t) (hne : t ≠ p) (hp : ¬ Low handleRollbacksAfter p)
    (hon : tree.OnChain t p) :
    ∃ b q r ps, tree.block t = some (b, q) ∧ cml.fromCborBytes b.bytes = some b.blk ∧
      s.cache.getBlock t = some ⟨b.bytes, r⟩ ∧ tree.OnChain q p ∧ (r = .origin ∨ r = q) ∧
      tree.Linked (Low handleRollbacksAfter) s.cache r ps ∧ t ∉ ps := by
  have hhigh : ∀ {u : Point}, tree.OnChain u p → ¬ Low handleRollbacksAfter u :=
    fun hu hlow => hp (Nat.le_trans hu.getSlot_le hlow)
  obtain ⟨ps, hps⟩ := h.linked t ht
  cases hps with
  | origin => exact absurd hon.eq_origin.symm hne
  | low hlow => exact absurd hlow (hhigh hon)
  | @first _ q r b block decodes row base =>
    have hq := hon.of_ne hne block
    rcases base with rfl | hlow
    · exact ⟨b, q, .origin, [], block, decodes, row, hq, .inl rfl, .origin, List.not_mem_nil⟩
    · exact absurd hlow (hhigh hq)
  | @next _ q b ps block decodes row rest =>
    exact ⟨b, q, q, ps, block, decodes, row, hon.of_ne hne block, .inr rfl, rest,
      rest.notMem block⟩

theorem not_cleanCrash_putBlock {last : Option (StorageWrite (LedgerTxEvent (LedgerTx B C)))}
    {lb : LinkedBlock} : ¬ CleanCrash last (some (.putBlock p lb)) :=
  fun h => h.2.1 p lb rfl

theorem not_cleanCrash_applied {last : Option (StorageWrite (LedgerTxEvent (LedgerTx B C)))}
    {w : StorageWrite (LedgerTxEvent (LedgerTx B C))} {xs : List (BlockTx (LedgerTx B C))}
    (hw : w ∈ (xs.map BlockTx.applied).map StorageWrite.commit) : ¬ CleanCrash last (some w) := by
  intro h
  simp only [List.map_map, List.mem_map, Function.comp] at hw
  obtain ⟨x, -, rfl⟩ := hw
  exact h.2.2 x rfl

theorem not_cleanCrash_delete {next : Option (StorageWrite (LedgerTxEvent (LedgerTx B C)))} :
    ¬ CleanCrash (some (.delete p)) next :=
  fun h => h.1 p rfl

theorem survives_rollForward
    (h : Idle tree handleRollbacksAfter startingPoint s (some position))
    (hb : tree.block p = some (b, position)) (decodes : cml.fromCborBytes b.bytes = some b.blk) :
    (cml.monitor handleRollbacksAfter tree startingPoint).Survives CleanCrash
      (Safe tree handleRollbacksAfter startingPoint)
      (fun s' => Idle tree handleRollbacksAfter startingPoint s'
        (if (cml.upgradeByTxs handleRollbacksAfter s.cache
          (.rollForward b.blk b.bytes false)).2 then none else some p)) none s
      (cml.upgradeByTxs handleRollbacksAfter s.cache (.rollForward b.blk b.bytes false)).1 := by
  have hslot := tree.slot hb
  cases hpoint : cml.headerPoint b.blk.header with
  | none =>
    simp only [Cml.upgradeByTxs, hpoint, Bool.not_false, if_true]
    exact ⟨h.toSafe, by simp, by simp⟩
  | some p' =>
    obtain rfl := tree.hashed hb hpoint
    by_cases hs : b.blk.header.slot > handleRollbacksAfter
    · simp only [Cml.upgradeByTxs, hpoint, hs, Bool.not_false, if_true, Bool.false_eq_true,
        if_false]
      refine ⟨fun _ => h.toSafe, Durable.survives_of_unclean ?_ ?_⟩
      · intro w hw last
        rcases List.mem_cons.mp hw with rfl | hw
        · exact not_cleanCrash_putBlock
        · exact not_cleanCrash_applied hw
      · change Idle tree handleRollbacksAfter startingPoint (List.foldl Storage.perform
          ⟨(s.cache.setTip p').putBlock p' ⟨b.bytes, s.cache.getTip.getD .origin⟩, s.committed⟩
          (((cml.txs b).map BlockTx.applied).map .commit)) (some p')
        rw [foldl_perform_commit]
        exact h.rollForward_high hb decodes
    · have hlow : Low handleRollbacksAfter p' := by
        rw [Low, hslot]
        exact Nat.not_lt.mp hs
      simp only [Cml.upgradeByTxs, hpoint, hs, Bool.not_false, if_true, Bool.false_eq_true,
        if_false]
      refine ⟨fun _ => h.toSafe, Durable.survives_of_unclean ?_ ?_⟩
      · intro w hw last
        exact not_cleanCrash_applied hw
      · change Idle tree handleRollbacksAfter startingPoint (List.foldl Storage.perform
          ⟨s.cache.setTip p', s.committed⟩ (((cml.txs b).map BlockTx.applied).map .commit)) (some p')
        rw [foldl_perform_commit]
        exact h.rollForward_low hb hlow

theorem Safe.idle (h : Safe tree handleRollbacksAfter startingPoint s)
    (hcov : Covers tree startingPoint s.committed p)
    (htip : s.cache.getTip = none ∨ s.cache.getTip = some .origin ∨ s.cache.getTip = some p) :
    Idle tree handleRollbacksAfter startingPoint s (some p) := by
  refine ⟨h, ?_, ?_⟩
  · intro p' heq
    obtain rfl := Option.some.inj heq
    exact hcov
  · intro p' heq
    obtain rfl := Option.some.inj heq
    rcases htip with ht | ht | ht
    · exact .inr (.inl ht)
    · exact .inr (.inr (.inl ht))
    · exact .inl ht

variable (tree startingPoint) in
/-- A turn of a rollback to `p`, once the cache is back at `r`. -/
structure Popped (cache : LedgerCache) (p r : Point)
    (s : Storage (LedgerTxEvent (LedgerTx B C))) : Prop where
  cache : s.cache = cache
  target : Covers tree startingPoint s.committed p
  tip : Covers tree startingPoint s.committed r

theorem Safe.popped {r : Point} (h : Safe tree handleRollbacksAfter startingPoint s)
    (ht : s.cache.getTip = some t) (hcov : Covers tree startingPoint s.committed p)
    (hb : tree.block t = some (b, q)) (hr : r = .origin ∨ r = q) :
    Popped tree startingPoint ((s.cache.delete t).setTip r) p r
      ⟨(s.cache.delete t).setTip r, s.committed⟩ where
  cache := rfl
  target := hcov
  tip := by
    rcases hr with rfl | rfl
    · exact covers_origin
    · exact (h.covers t ht).of_onChain (BlockTree.onChain_cons hb BlockTree.onChain_refl)

theorem Popped.safe {cache : LedgerCache} {r : Point} {ps : List Point}
    (h : Popped tree startingPoint ((cache.delete t).setTip r) p r s)
    (horigin : cache.getBlock .origin = none)
    (hlinked : tree.Linked (Low handleRollbacksAfter) cache r ps) (hnot : t ∉ ps) :
    Safe tree handleRollbacksAfter startingPoint s where
  covers tip ht := by
    rw [h.cache, LedgerCache.getTip_setTip] at ht
    obtain rfl := Option.some.inj ht
    exact h.tip
  linked tip ht := by
    rw [h.cache, LedgerCache.getTip_setTip] at ht
    obtain rfl := Option.some.inj ht
    rw [h.cache]
    exact ⟨ps, hlinked.pop hnot⟩
  noOrigin := by
    rw [h.cache]
    exact BlockTree.getBlock_origin_pop horigin

theorem Popped.unapply {cache : LedgerCache} {r : Point}
    (h : Popped tree startingPoint cache p r s) (hb : tree.block t = some (b, q))
    (hq : tree.OnChain q p) (hr : r = .origin ∨ r = q) {y : BlockTx (LedgerTx B C)}
    (hy : y ∈ cml.txs b) :
    Popped tree startingPoint cache p r (s.perform (.commit y.unapplied)) where
  cache := h.cache
  target := h.target.rollBackward hb hq hy
  tip := by
    rcases hr with rfl | rfl
    · exact covers_origin
    · exact h.tip.rollBackward hb BlockTree.onChain_refl hy

/-- A turn of a rollback, and what follows it. -/
theorem survives_turn {r : Point} {ps : List Point}
    {ws : List (StorageWrite (LedgerTxEvent (LedgerTx B C)))} {Done : Storage _ → Prop}
    (h : Safe tree handleRollbacksAfter startingPoint s) (ht : s.cache.getTip = some t)
    (hcov : Covers tree startingPoint s.committed p) (hb : tree.block t = some (b, q))
    (hq : tree.OnChain q p) (hr : r = .origin ∨ r = q)
    (hlinked : tree.Linked (Low handleRollbacksAfter) s.cache r ps) (hnot : t ∉ ps)
    (hrest : ∀ s', Popped tree startingPoint ((s.cache.delete t).setTip r) p r s' → ∀ last,
      (cml.monitor handleRollbacksAfter tree startingPoint).Survives CleanCrash
        (Safe tree handleRollbacksAfter startingPoint) Done last s' ws)
    (last : Option (StorageWrite (LedgerTxEvent (LedgerTx B C)))) :
    (cml.monitor handleRollbacksAfter tree startingPoint).Survives CleanCrash
      (Safe tree handleRollbacksAfter startingPoint) Done last s
      (cml.undoTxs t r (some b.blk) ++ ws) := by
  -- no crash comes between the two writes to the cache
  refine ⟨fun _ => h, fun hclean => absurd hclean not_cleanCrash_delete, ?_⟩
  apply Durable.Survives.append
  apply Durable.survives_of_keeps (h.popped ht hcov hb hr)
  · intro s' hs'
    exact hs'.safe h.noOrigin hlinked hnot
  · intro w hw s' hs'
    obtain ⟨ev, hev, rfl⟩ := List.mem_map.mp hw
    obtain ⟨y, hy, rfl⟩ := List.mem_map.mp (List.mem_reverse.mp hev)
    exact hs'.unapply hb hq hr hy
  · exact hrest

theorem survives_rollback {n : Nat} (hsize : s.cache.size ≤ n)
    (h : Safe tree handleRollbacksAfter startingPoint s)
    (hcov : Covers tree startingPoint s.committed p) (hp : ¬ Low handleRollbacksAfter p)
    (hon : ∀ t, s.cache.getTip = some t → t = .origin ∨ tree.OnChain t p)
    (last : Option (StorageWrite (LedgerTxEvent (LedgerTx B C)))) :
    (cml.rollbackWrites cml.undoTxs p n s.cache).2 = false ∧
    (cml.monitor handleRollbacksAfter tree startingPoint).Survives CleanCrash
      (Safe tree handleRollbacksAfter startingPoint)
      (fun s' => Idle tree handleRollbacksAfter startingPoint s' (some p)) last s
      (cml.rollbackWrites cml.undoTxs p n s.cache).1 := by
  induction n generalizing s last with
  | zero => exact ⟨rfl, h.idle hcov (.inl (s.cache.getTip_eq_none (Nat.le_zero.mp hsize)))⟩
  | succ n ih =>
    rw [Cml.rollbackWrites]
    cases ht : s.cache.getTip with
    | none => exact ⟨rfl, h.idle hcov (.inl ht)⟩
    | some t =>
      by_cases hto : t = p
      · simp only [hto, if_true]
        exact ⟨trivial, h.idle hcov (.inr (.inr (ht.trans (congrArg some hto))))⟩
      · simp only [hto, if_false]
        by_cases horigin : t = .origin
        · simp only [horigin, h.noOrigin]
          exact ⟨trivial, h.idle hcov (.inr (.inl (ht.trans (congrArg some horigin))))⟩
        · obtain ⟨b, q, r, ps, hb, decodes, row, hq, hr, hlinked, hnot⟩ :=
            h.turn ht hto hp ((hon t ht).resolve_left horigin)
          simp only [row, decodes]
          have hcache : ∀ t', ((s.cache.delete t).setTip r).getTip = some t' →
              t' = .origin ∨ tree.OnChain t' p := BlockTree.tip_pop hr hq
          have hless := s.cache.size_pop t r ⟨b.bytes, r⟩ ht row
          have hrest : ∀ s', Popped tree startingPoint ((s.cache.delete t).setTip r) p r s' →
              ∀ last,
                (cml.rollbackWrites cml.undoTxs p n ((s.cache.delete t).setTip r)).2 = false ∧
                (cml.monitor handleRollbacksAfter tree startingPoint).Survives CleanCrash
                  (Safe tree handleRollbacksAfter startingPoint)
                  (fun s' => Idle tree handleRollbacksAfter startingPoint s' (some p)) last s'
                  (cml.rollbackWrites cml.undoTxs p n ((s.cache.delete t).setTip r)).1 := by
            intro s' hs' last
            have hsafe := hs'.safe h.noOrigin hlinked hnot
            obtain ⟨hc, hcov', -⟩ := hs'
            rw [← hc] at hcache hless ⊢
            exact ih (by omega) hsafe hcov' hcache last
          exact ⟨(hrest _ (h.popped ht hcov hb hr) none).1,
            survives_turn h ht hcov hb hq hr hlinked hnot
              (fun s' hs' last => (hrest s' hs' last).2) last⟩

theorem survives_rollBackward
    (h : Idle tree handleRollbacksAfter startingPoint s (some position))
    (target : tree.OnChain position p) :
    (cml.monitor handleRollbacksAfter tree startingPoint).Survives CleanCrash
      (Safe tree handleRollbacksAfter startingPoint)
      (fun s' => Idle tree handleRollbacksAfter startingPoint s'
        (if (cml.upgradeByTxs handleRollbacksAfter s.cache (.rollBackward p)).2 then none
          else some p)) none s
      (cml.upgradeByTxs handleRollbacksAfter s.cache (.rollBackward p)).1 := by
  have hcov := (h.reached position rfl).of_onChain target
  by_cases hs : p.getSlot > handleRollbacksAfter
  · have hp : ¬ Low handleRollbacksAfter p := Nat.not_le.mpr hs
    have hon : ∀ t, s.cache.getTip = some t → t = .origin ∨ tree.OnChain t p := by
      intro t ht
      rcases h.tip position rfl with ht' | ht' | ht' | hlow
      · obtain rfl := Option.some.inj (ht.symm.trans ht')
        exact .inr target
      · cases ht.symm.trans ht'
      · exact .inl (Option.some.inj (ht.symm.trans ht'))
      · exact absurd (Nat.le_trans target.getSlot_le hlow) hp
    obtain ⟨hpanic, hsurvives⟩ := survives_rollback (Nat.le_refl _) h.toSafe hcov hp hon none
    simp only [Cml.upgradeByTxs, hs, if_true, hpanic, Bool.false_eq_true, if_false]
    exact hsurvives
  · simp only [Cml.upgradeByTxs, hs, if_false, Bool.false_eq_true]
    refine ⟨h.toSafe, ?_, ?_⟩
    · intro p' heq
      obtain rfl := Option.some.inj heq
      exact hcov
    · intro p' heq
      obtain rfl := Option.some.inj heq
      exact .inr (.inr (.inr (Nat.not_lt.mp hs)))

/-- In every run in which each crash is clean, no restart finds the cached tip ahead of the index. -/
theorem coversTip_of_cleanCrash
    {x : Progress (Storage (LedgerTxEvent (LedgerTx B C)))
      (StorageWrite (LedgerTxEvent (LedgerTx B C))) (Option Point)}
    (run : (cml.monitor handleRollbacksAfter tree startingPoint).Reaches CleanCrash .empty x)
    (crash : CleanCrash x.last x.todo.head?) : CoversTip tree startingPoint x.storage := by
  have hidle := (run.crash crash).survives (Idle tree handleRollbacksAfter startingPoint)
    Safe.start (fun _ _ h => h.toSafe) (fun _ h => h.restart) ?_
  · exact hidle.covers
  · intro s a ws a' h hop
    cases hop with
    | rollForward block decodes => exact survives_rollForward h block decodes
    | rollBackward target => exact survives_rollBackward h target

/-! ### A crash after the tip is set -/

section Sample

open Cml

def sampleMonitor : Durable (Storage (LedgerTxEvent (LedgerTx sampleEra sampleEra)))
    (StorageWrite (LedgerTxEvent (LedgerTx sampleEra sampleEra))) (Option Point) :=
  sample.monitor 10 sampleTree .origin

/-- The transaction of a block. -/
def sampleTx (n : UInt8) : BlockTx (LedgerTx sampleEra sampleEra) :=
  (.inl ⟨(), (), true, none⟩, n.toUInt64, 0, .replicate n)

/-- Block 15 is written in full before the crash. -/
theorem coversTip_sample : CoversTip sampleTree .origin
    ⟨((∅ : LedgerCache).setTip (samplePoint 15)).putBlock (samplePoint 15) ⟨[15], .origin⟩,
      [(sampleTx 15).applied]⟩ := by
  have hbegin : sampleMonitor.Reaches CleanCrash .empty ⟨.empty, some (samplePoint 15), none,
      [.setTip (samplePoint 15), .putBlock (samplePoint 15) ⟨[15], .origin⟩,
        .commit (sampleTx 15).applied]⟩ :=
    .begin .start (Upgrades.rollForward (b := sampleBlock 15) rfl rfl)
  have hclean : CleanCrash (some (.commit (sampleTx 15).applied)) none :=
    ⟨by simp, by simp, by simp⟩
  exact coversTip_of_cleanCrash hbegin.write.write.write hclean

def skipped : Storage (LedgerTxEvent (LedgerTx sampleEra sampleEra)) where
  cache := (((∅ : LedgerCache).setTip (samplePoint 15)).setTip (samplePoint 16)).putBlock
    (samplePoint 16) ⟨[16], samplePoint 15⟩
  committed := [(sampleTx 16).applied]

/-- After a crash between the tip and the transaction of block 15 the node goes on with block 16: at
the next restart, too, the transaction is not applied, and the node sends what follows block 16. -/
theorem crash_skips_block :
    sampleMonitor.Reaches (fun _ _ => True) .empty ⟨skipped, some (samplePoint 16), none, []⟩ ∧
    skipped.cache.getTip = some (samplePoint 16) ∧
    ¬ CoversTip sampleTree .origin skipped := by
  have htip : skipped.cache.getTip = some (samplePoint 16) := by
    simp [skipped]
  have hbegin : sampleMonitor.Reaches (fun _ _ => True) .empty
      ⟨.empty, some (samplePoint 15), none, [.setTip (samplePoint 15),
        .putBlock (samplePoint 15) ⟨[15], .origin⟩, .commit (sampleTx 15).applied]⟩ :=
    .begin .start (Upgrades.rollForward (b := sampleBlock 15) rfl rfl)
  have hcrash := hbegin.write.crash trivial
  have hnext : sampleMonitor.Reaches (fun _ _ => True) .empty
      ⟨⟨(∅ : LedgerCache).setTip (samplePoint 15), []⟩, some (samplePoint 16), none,
        [.setTip (samplePoint 16), .putBlock (samplePoint 16) ⟨[16], samplePoint 15⟩,
          .commit (sampleTx 16).applied]⟩ :=
    .begin hcrash (Upgrades.rollForward (b := sampleBlock 16) rfl rfl)
  have hafter := hnext.write.write.write.crash trivial
  have hrestart : sampleMonitor.restart skipped = some (samplePoint 16) :=
    congrArg (fun tip : Option Point => some (tip.getD .origin)) htip
  refine ⟨hrestart ▸ hafter, htip, ?_⟩
  intro h
  have hon : sampleTree.OnChain (samplePoint 16) (samplePoint 15) :=
    BlockTree.onChain_cons (b := sampleBlock 16) rfl BlockTree.onChain_refl
  have hnew : ¬ sampleTree.OnChain .origin (samplePoint 15) := by
    intro hc
    cases hc.eq_origin
  have hstanding : Standing ([] ++ [.push (sampleTx 16)]) (sampleTx 15) :=
    h _ htip _ (sampleBlock 15) .origin hon hnew rfl _ (.head _)
  rw [standing_push] at hstanding
  rcases hstanding with heq | hnil
  · exact absurd (congrArg (fun x => x.2.1) heq) (by decide)
  · exact not_standing_nil hnil

end Sample

end Restart

end UtxoMonitor
