import UtxoMonitor.Lib.Stack
import UtxoMonitor.ChainSync.Storage

/-! The flow of whole blocks. Downstream commits the events of a block before the cache takes the
block in, or drops it; the cache then takes two writes. -/
namespace UtxoMonitor

open Lib

variable {B C : Era}

inductive BlockEvents (T : Type) where
  | rollForward (events : List T) (blockNum : UInt64) (blockSlot : Slot)
  | rollBackward (events : List T) (blockNum : UInt64) (blockSlot : Slot)

/-- An event of a block, with the point of the block. -/
abbrev BlockCommit (B C : Era) := BlockEvents (LedgerTx B C) × Point

def BlockCommit.op : BlockCommit B C → StackOp Point
  | (.rollForward _ _ _, point) => .push point
  | (.rollBackward _ _ _, point) => .pop point

namespace AtomicFlow

section Flow

-- `block_number` of the serialization library
variable (cml : Cml B C) (blockNumber : MultiEraBlockHeader → UInt64)

def appliedTxs (blk : MultiEraBlock B C) : BlockEvents (LedgerTx B C) :=
  .rollForward ((cml.unpackValidTransactionsMultiEra blk).map Prod.fst) (blockNumber blk.header)
    blk.header.slot

def unappliedTxs (blk : MultiEraBlock B C) : BlockEvents (LedgerTx B C) :=
  .rollBackward ((cml.unpackValidTransactionsMultiEra blk).map Prod.fst).reverse
    (blockNumber blk.header) blk.header.slot

/-- A turn of the rollback loop. -/
def undoBlock (tip prevPoint : Point) :
    Option (MultiEraBlock B C) → List (StorageWrite (BlockCommit B C))
  | some block => [.commit (unappliedTxs cml blockNumber block, tip), .delete tip, .setTip prevPoint]
  | none => []

/-- What `AtomicFlow::run` writes for an upgrade. -/
def run : Cml.WritePlan B C (BlockCommit B C)
  | cache, .rollForward blk blkBytes _ =>
    match cml.headerPoint blk.header with
    | some point =>
      ([.commit (appliedTxs cml blockNumber blk, point), .setTip point,
        .putBlock point ⟨blkBytes, cache.getTip.getD .origin⟩], false)
    | none => ([], true)
  | cache, .rollBackward point =>
    cml.rollbackWrites (undoBlock cml blockNumber) point cache.size cache

end Flow

section Definitions

variable {cml : Cml B C} (tree : BlockTree cml) (blockNumber : MultiEraBlockHeader → UInt64)

/-- The flow from a first start at `startingPoint`, with an empty cache. -/
abbrev flow (startingPoint : Point) :
    Durable (Storage (BlockCommit B C)) (StorageWrite (BlockCommit B C)) (Option Point) :=
  Cml.follower tree (run cml blockNumber) startingPoint

/-- Downstream has committed the block and not taken it back since. -/
def Outstanding (evs : List (BlockCommit B C)) (p : Point) : Prop :=
  Standing (evs.map BlockCommit.op) p

/-- The writes of a rollback from `position` to `p` take blocks of the chain back, newest first,
among them every outstanding one that is not on the chain up to `p`. -/
def TakesBack (evs : List (BlockCommit B C)) (position p : Point)
    (ws : List (StorageWrite (BlockCommit B C))) : Prop :=
  ∃ undone : List (Point × RawBlock B C),
    commits ws = undone.map (fun x => (unappliedTxs cml blockNumber x.2.blk, x.1)) ∧
    (∀ x ∈ undone, tree.OnChain position x.1 ∧ ∃ q, tree.block x.1 = some (x.2, q)) ∧
    undone.Pairwise (fun x y => y.1.getSlot < x.1.getSlot) ∧
    ∀ u, Outstanding evs u → ¬ tree.OnChain p u → ∃ x ∈ undone, x.1 = u

/-- The block of the tip is cached. -/
def TipCached (cache : LedgerCache) : Prop :=
  ∀ tip, cache.getTip = some tip → tip ≠ .origin → (cache.getBlock tip).isSome

/-- The crashes that do no harm: none between the commit of a new block and the last cache write for
it, and none between the two cache writes of a rollback. -/
def CleanCrash (_last next : Option (StorageWrite (BlockCommit B C))) : Prop :=
  (∀ p, next ≠ some (.setTip p)) ∧ ∀ p lb, next ≠ some (.putBlock p lb)

/-- The rows link the tip to the origin, and all outstanding blocks are among them. -/
structure Safe (s : Storage (BlockCommit B C)) : Prop where
  noOrigin : s.cache.getBlock .origin = none
  linked : ∃ ps, tree.Linked (fun _ => False) s.cache (s.cache.getTip.getD .origin) ps ∧
    ∀ u, Outstanding s.committed u → u ∈ ps

structure Idle (s : Storage (BlockCommit B C)) (position : Option Point) : Prop extends
    Safe tree s where
  tip : ∀ p, position = some p → s.cache.getTip = some p ∨ s.cache.getTip.getD .origin = .origin

end Definitions

variable {cml : Cml B C} {tree : BlockTree cml} {blockNumber : MultiEraBlockHeader → UInt64}
  {startingPoint : Point} {s : Storage (BlockCommit B C)} {evs : List (BlockCommit B C)}
  {p q t u position : Point} {b : RawBlock B C}

@[simp] theorem outstanding_applied {blk : MultiEraBlock B C} :
    Outstanding (evs ++ [(appliedTxs cml blockNumber blk, p)]) u ↔ u = p ∨ Outstanding evs u := by
  rw [Outstanding, List.map_append]
  exact standing_push

@[simp] theorem outstanding_unapplied {blk : MultiEraBlock B C} :
    Outstanding (evs ++ [(unappliedTxs cml blockNumber blk, p)]) u ↔ u ≠ p ∧ Outstanding evs u := by
  rw [Outstanding, List.map_append]
  exact standing_pop

theorem Safe.start : Safe tree .empty where
  noOrigin := LedgerCache.getBlock_empty _
  linked := by
    refine ⟨[], by simpa [Storage.empty] using .origin, ?_⟩
    intro u hu
    exact absurd hu not_standing_nil

theorem Safe.restart (h : Safe tree s) :
    Idle tree s (some (s.cache.getTip.getD startingPoint)) where
  toSafe := h
  tip p hp := by
    obtain rfl := Option.some.inj hp
    cases s.cache.getTip with
    | none => exact .inr rfl
    | some tip => exact .inl rfl

theorem Safe.tipCached (h : Safe tree s) : TipCached s.cache := by
  intro tip ht hne
  obtain ⟨ps, hps, -⟩ := h.linked
  rw [ht, Option.getD_some] at hps
  cases hps with
  | origin => exact absurd rfl hne
  | low h => exact h.elim
  | first _ _ row => rw [row]; rfl
  | next _ _ row => rw [row]; rfl

/-! ### A new block -/

theorem Idle.rollForward (h : Idle tree s (some position))
    (hb : tree.block p = some (b, position)) (decodes : cml.fromCborBytes b.bytes = some b.blk) :
    Idle tree ⟨(s.cache.setTip p).putBlock p ⟨b.bytes, s.cache.getTip.getD .origin⟩,
      s.committed ++ [(appliedTxs cml blockNumber b.blk, p)]⟩ (some p) := by
  have htip : ((s.cache.setTip p).putBlock p ⟨b.bytes, s.cache.getTip.getD .origin⟩).getTip =
      some p := by simp
  obtain ⟨ps, hps, hout⟩ := h.linked
  refine ⟨⟨?_, ?_⟩, ?_⟩
  · exact BlockTree.getBlock_origin_put h.noOrigin hb
  · rw [htip, Option.getD_some]
    rcases h.tip position rfl with ht | ht
    · rw [ht, Option.getD_some] at hps ⊢
      refine ⟨p :: ps, hps.put hb decodes, ?_⟩
      intro u hu
      rcases outstanding_applied.mp hu with rfl | hu
      · exact .head _
      · exact .tail _ (hout u hu)
    · rw [ht] at hps
      obtain rfl := hps.eq_nil
      refine ⟨[p], BlockTree.linked_put_first hb decodes (.inl ht), ?_⟩
      intro u hu
      rcases outstanding_applied.mp hu with rfl | hu
      · exact .head _
      · cases hout u hu
  · intro p' hp
    obtain rfl := Option.some.inj hp
    exact .inl htip

theorem survives_rollForward (h : Idle tree s (some position))
    (hb : tree.block p = some (b, position)) (decodes : cml.fromCborBytes b.bytes = some b.blk) :
    (flow tree blockNumber startingPoint).Survives CleanCrash (Safe tree)
      (fun s' => Idle tree s' (if (run cml blockNumber s.cache
        (.rollForward b.blk b.bytes false)).2 then none else some p)) none s
      (run cml blockNumber s.cache (.rollForward b.blk b.bytes false)).1 := by
  cases hpoint : cml.headerPoint b.blk.header with
  | none =>
    simp only [run, hpoint, if_true]
    exact ⟨h.toSafe, by simp⟩
  | some p' =>
    obtain rfl := tree.hashed hb hpoint
    simp only [run, hpoint, Bool.false_eq_true, if_false]
    refine ⟨fun _ => h.toSafe, fun hc => absurd rfl (hc.1 _), fun hc => absurd rfl (hc.2 _ _), ?_⟩
    exact h.rollForward hb decodes

/-! ### A rollback -/

/-- The block of the tip, with what its row links it to. -/
theorem Safe.turn (h : Safe tree s) (ht : s.cache.getTip = some t) (hne : t ≠ .origin) :
    ∃ b q r ps, tree.block t = some (b, q) ∧ cml.fromCborBytes b.bytes = some b.blk ∧
      s.cache.getBlock t = some ⟨b.bytes, r⟩ ∧ (r = .origin ∨ r = q) ∧
      tree.Linked (fun _ => False) s.cache r ps ∧ t ∉ ps ∧
      ∀ u, Outstanding s.committed u → u ∈ t :: ps := by
  obtain ⟨ps, hps, hout⟩ := h.linked
  rw [ht, Option.getD_some] at hps
  cases hps with
  | origin => exact absurd rfl hne
  | low h => exact h.elim
  | @first _ q r b block decodes row base =>
    have hr : r = .origin := base.resolve_right id
    subst hr
    exact ⟨b, q, .origin, [], block, decodes, row, .inl rfl, .origin, List.not_mem_nil, hout⟩
  | @next _ q b ps block decodes row rest =>
    exact ⟨b, q, q, ps, block, decodes, row, .inr rfl, rest, rest.notMem block, hout⟩

/-- The storage after a turn. -/
theorem Safe.undo {blk : MultiEraBlock B C} {r : Point} {ps : List Point} (h : Safe tree s)
    (hlinked : tree.Linked (fun _ => False) s.cache r ps) (hnot : t ∉ ps)
    (hout : ∀ u, Outstanding s.committed u → u ∈ t :: ps) :
    Safe tree ⟨(s.cache.delete t).setTip r,
      s.committed ++ [(unappliedTxs cml blockNumber blk, t)]⟩ where
  noOrigin := BlockTree.getBlock_origin_pop h.noOrigin
  linked := by
    rw [LedgerCache.getTip_setTip, Option.getD_some]
    refine ⟨ps, hlinked.pop hnot, ?_⟩
    intro u hu
    obtain ⟨hne, hu⟩ := outstanding_unapplied.mp hu
    exact List.mem_of_ne_of_mem hne (hout u hu)

/-- A crash after the commit of a turn finds the block still cached. -/
theorem Safe.commit {blk : MultiEraBlock B C} (h : Safe tree s) :
    Safe tree ⟨s.cache, s.committed ++ [(unappliedTxs cml blockNumber blk, t)]⟩ where
  noOrigin := h.noOrigin
  linked := by
    obtain ⟨ps, hps, hout⟩ := h.linked
    exact ⟨ps, hps, fun u hu => hout u (outstanding_unapplied.mp hu).2⟩

/-- A loop that stops at once has nothing to take back. -/
theorem Safe.stop (h : Safe tree s)
    (ht : s.cache.getTip.getD .origin = .origin ∨ s.cache.getTip = some p) :
    Idle tree s (some p) ∧ ∀ u, Outstanding s.committed u → tree.OnChain p u := by
  obtain ⟨ps, hps, hout⟩ := h.linked
  constructor
  · refine ⟨h, ?_⟩
    intro p' hp
    obtain rfl := Option.some.inj hp
    exact ht.symm
  · intro u hu
    rcases ht with ht | ht
    · rw [ht] at hps
      obtain rfl := hps.eq_nil
      cases hout u hu
    · rw [ht, Option.getD_some] at hps
      exact (hps.mem (hout u hu)).1

theorem takesBack_nothing (hall : ∀ u, Outstanding evs u → tree.OnChain p u) :
    TakesBack tree blockNumber evs position p [] := by
  refine ⟨[], rfl, by simp, List.Pairwise.nil, ?_⟩
  intro u hu hnot
  exact absurd (hall u hu) hnot

/-- A turn takes back the tip, and what follows takes back older blocks. -/
theorem TakesBack.turn {r : Point} {ws : List (StorageWrite (BlockCommit B C))}
    (h : TakesBack tree blockNumber (evs ++ [(unappliedTxs cml blockNumber b.blk, t)]) r p ws)
    (hb : tree.block t = some (b, q)) (hr : r = .origin ∨ r = q) :
    TakesBack tree blockNumber evs t p (undoBlock cml blockNumber t r (some b.blk) ++ ws) := by
  obtain ⟨undone, hcommits, hblocks, hsorted, hall⟩ := h
  have hchain : ∀ x ∈ undone, tree.OnChain q x.1 := by
    intro x hx
    obtain ⟨hon, q', hb'⟩ := hblocks x hx
    rcases hr with rfl | rfl
    · exact absurd hon.eq_origin (BlockTree.ne_origin hb')
    · exact hon
  refine ⟨(t, b) :: undone, ?_, ?_, ?_, ?_⟩
  · change (unappliedTxs cml blockNumber b.blk, t) :: commits ws = _
    rw [hcommits]
    rfl
  · intro x hx
    rcases List.mem_cons.mp hx with rfl | hx
    · exact ⟨BlockTree.onChain_refl, q, hb⟩
    · exact ⟨BlockTree.onChain_cons hb (hchain x hx), (hblocks x hx).2⟩
  · refine List.pairwise_cons.mpr ⟨?_, hsorted⟩
    intro x hx
    obtain ⟨-, q', hb'⟩ := hblocks x hx
    exact (hchain x hx).getSlot_lt hb (BlockTree.ne_origin hb')
  · intro u hu hnot
    by_cases heq : u = t
    · exact ⟨(t, b), .head _, heq.symm⟩
    · obtain ⟨x, hx, hxu⟩ := hall u (outstanding_unapplied.mpr ⟨heq, hu⟩) hnot
      exact ⟨x, .tail _ hx, hxu⟩

theorem rollback_spec {n : Nat} (hsize : s.cache.size ≤ n) (h : Safe tree s)
    (hon : ∀ t, s.cache.getTip = some t → t = .origin ∨ tree.OnChain t p)
    (last : Option (StorageWrite (BlockCommit B C))) :
    (cml.rollbackWrites (undoBlock cml blockNumber) p n s.cache).2 = false ∧
    (flow tree blockNumber startingPoint).Survives CleanCrash (Safe tree)
      (fun s' => Idle tree s' (some p)) last s
      (cml.rollbackWrites (undoBlock cml blockNumber) p n s.cache).1 ∧
    TakesBack tree blockNumber s.committed (s.cache.getTip.getD .origin) p
      (cml.rollbackWrites (undoBlock cml blockNumber) p n s.cache).1 := by
  induction n generalizing s last with
  | zero =>
    have hnone := s.cache.getTip_eq_none (Nat.le_zero.mp hsize)
    obtain ⟨hidle, hall⟩ := h.stop (p := p) (.inl (by rw [hnone]; rfl))
    exact ⟨rfl, hidle, takesBack_nothing hall⟩
  | succ n ih =>
    rw [Cml.rollbackWrites]
    cases ht : s.cache.getTip with
    | none =>
      obtain ⟨hidle, hall⟩ := h.stop (p := p) (.inl (by rw [ht]; rfl))
      exact ⟨rfl, hidle, takesBack_nothing hall⟩
    | some t =>
      by_cases hto : t = p
      · obtain ⟨hidle, hall⟩ := h.stop (p := p) (.inr (ht.trans (congrArg some hto)))
        simp only [hto, if_true]
        exact ⟨trivial, hidle, takesBack_nothing hall⟩
      · simp only [hto, if_false]
        by_cases horigin : t = .origin
        · obtain ⟨hidle, hall⟩ := h.stop (p := p) (.inl (by rw [ht, horigin]; rfl))
          simp only [horigin, h.noOrigin]
          exact ⟨trivial, hidle, takesBack_nothing hall⟩
        · obtain ⟨b, q, r, ps, hb, decodes, row, hr, hlinked, hnot, hout⟩ := h.turn ht horigin
          have hq := ((hon t ht).resolve_left horigin).of_ne hto hb
          have hless := s.cache.size_pop t r ⟨b.bytes, r⟩ ht row
          have hnext : Safe tree ⟨(s.cache.delete t).setTip r,
              s.committed ++ [(unappliedTxs cml blockNumber b.blk, t)]⟩ :=
            h.undo hlinked hnot hout
          obtain ⟨hpanic, hsurvives, htakes⟩ :=
            ih (show ((s.cache.delete t).setTip r).size ≤ n by omega) hnext (BlockTree.tip_pop hr hq)
              (some (.setTip r))
          rw [LedgerCache.getTip_setTip, Option.getD_some] at htakes
          simp only [row, decodes]
          refine ⟨hpanic, ⟨fun _ => h, fun _ => h.commit, fun hc => absurd rfl (hc.1 _), hsurvives⟩,
            htakes.turn hb hr⟩

theorem TakesBack.of_origin {ws : List (StorageWrite (BlockCommit B C))}
    (h : TakesBack tree blockNumber evs .origin p ws) :
    TakesBack tree blockNumber evs position p ws := by
  obtain ⟨undone, hcommits, hblocks, hsorted, hall⟩ := h
  refine ⟨undone, hcommits, ?_, hsorted, hall⟩
  intro x hx
  obtain ⟨hon, q, hb⟩ := hblocks x hx
  exact absurd hon.eq_origin (BlockTree.ne_origin hb)

variable (startingPoint) in
theorem rollBackward_spec (h : Idle tree s (some position)) (target : tree.OnChain position p) :
    (run cml blockNumber s.cache (.rollBackward p)).2 = false ∧
    (flow tree blockNumber startingPoint).Survives CleanCrash (Safe tree)
      (fun s' => Idle tree s' (if (run cml blockNumber s.cache (.rollBackward p)).2 then none
        else some p)) none s (run cml blockNumber s.cache (.rollBackward p)).1 ∧
    TakesBack tree blockNumber s.committed position p
      (run cml blockNumber s.cache (.rollBackward p)).1 := by
  have hon : ∀ t, s.cache.getTip = some t → t = .origin ∨ tree.OnChain t p := by
    intro t ht
    rcases h.tip position rfl with ht' | ht'
    · obtain rfl := Option.some.inj (ht.symm.trans ht')
      exact .inr target
    · rw [ht, Option.getD_some] at ht'
      exact .inl ht'
  obtain ⟨hpanic, hsurvives, htakes⟩ := rollback_spec (Nat.le_refl _) h.toSafe hon none
  have hposition : (if (run cml blockNumber s.cache (.rollBackward p)).2 then none else some p) =
      some p := by
    rw [run, hpanic]
    rfl
  refine ⟨hpanic, hposition.symm ▸ hsurvives, ?_⟩
  rcases h.tip position rfl with ht | ht
  · rwa [ht, Option.getD_some] at htakes
  · rw [ht] at htakes
    exact htakes.of_origin

/-- In every run in which each crash is clean, a rollback takes back all outstanding blocks after its
target, and the block of the tip is cached. -/
theorem takesBack_of_cleanCrash {x : Progress (Storage (BlockCommit B C))
      (StorageWrite (BlockCommit B C)) (Option Point)}
    (hrun : (flow tree blockNumber startingPoint).Reaches CleanCrash .empty x)
    (idle : x.todo = []) (at_position : x.memory = some position)
    (target : tree.OnChain position p) :
    (run cml blockNumber x.storage.cache (.rollBackward p)).2 = false ∧
    TakesBack tree blockNumber x.storage.committed position p
      (run cml blockNumber x.storage.cache (.rollBackward p)).1 ∧
    TipCached x.storage.cache := by
  have hsurvives := hrun.survives (Idle tree) Safe.start (fun _ _ h => h.toSafe)
    (fun _ h => h.restart) ?_
  · rw [idle, at_position] at hsurvives
    have hidle : Idle tree x.storage (some position) := hsurvives
    obtain ⟨hpanic, -, htakes⟩ := rollBackward_spec startingPoint hidle target
    exact ⟨hpanic, htakes, hidle.tipCached⟩
  · intro s a ws a' h hop
    cases hop with
    | rollForward block decodes => exact survives_rollForward h block decodes
    | rollBackward target => exact (rollBackward_spec startingPoint h target).2.1

/-! ### A crash between the two cache writes -/

section Sample

open Cml

def sampleFlow : Durable (Storage (BlockCommit sampleEra sampleEra))
    (StorageWrite (BlockCommit sampleEra sampleEra)) (Option Point) :=
  flow sampleTree (fun _ => 0) .origin

def sampleCommit (n : UInt8) : BlockCommit sampleEra sampleEra :=
  (appliedTxs sample (fun _ => 0) (sampleBlock n).blk, samplePoint n)

theorem sampleFlow_begin
    {Clean : Option (StorageWrite (BlockCommit sampleEra sampleEra)) →
      Option (StorageWrite (BlockCommit sampleEra sampleEra)) → Prop} :
    sampleFlow.Reaches Clean .empty ⟨.empty, some (samplePoint 15), none,
      [.commit (sampleCommit 15), .setTip (samplePoint 15),
        .putBlock (samplePoint 15) ⟨[15], .origin⟩]⟩ :=
  .begin .start (Upgrades.rollForward (b := sampleBlock 15) rfl rfl)

theorem sampleTree_origin : sampleTree.OnChain (samplePoint 15) .origin :=
  BlockTree.onChain_cons (b := sampleBlock 15) rfl BlockTree.onChain_refl

/-- Block 15 is written in full and then rolled back. -/
theorem takesBack_sample :
    TakesBack sampleTree (fun _ => 0) [sampleCommit 15] (samplePoint 15) .origin
      (run sample (fun _ => 0) (((∅ : LedgerCache).setTip (samplePoint 15)).putBlock
        (samplePoint 15) ⟨[15], .origin⟩) (.rollBackward .origin)).1 :=
  (takesBack_of_cleanCrash sampleFlow_begin.write.write.write rfl rfl sampleTree_origin).2.1

def torn : Storage (BlockCommit sampleEra sampleEra) where
  cache := (∅ : LedgerCache).setTip (samplePoint 15)
  committed := [sampleCommit 15]

/-- After a crash between the tip and the row of block 15 the rollback loop stops at once, and the
block is not taken back. -/
theorem crash_loses_block :
    sampleFlow.Reaches (fun _ _ => True) .empty ⟨torn, some (samplePoint 15), none, []⟩ ∧
    ¬ TipCached torn.cache ∧
    run sample (fun _ => 0) torn.cache (.rollBackward .origin) = ([], false) ∧
    ¬ TakesBack sampleTree (fun _ => 0) torn.committed (samplePoint 15) .origin
      (run sample (fun _ => 0) torn.cache (.rollBackward .origin)).1 := by
  have htip : torn.cache.getTip = some (samplePoint 15) := by
    simp [torn]
  have hrow : torn.cache.getBlock (samplePoint 15) = none := by
    simp [torn]
  have hrestart : sampleFlow.restart torn = some (samplePoint 15) :=
    congrArg (fun tip : Option Point => some (tip.getD .origin)) htip
  have hstop : ∀ n, sample.rollbackWrites (undoBlock sample fun _ => 0) .origin n torn.cache =
      ([], false) := by
    intro n
    cases n with
    | zero => rfl
    | succ n => simp [rollbackWrites, htip, hrow]
  have hrun : run sample (fun _ => 0) torn.cache (.rollBackward .origin) = ([], false) :=
    hstop _
  refine ⟨hrestart ▸ sampleFlow_begin.write.write.crash trivial, ?_, hrun, ?_⟩
  · intro h
    have hcached := h _ htip (by decide)
    rw [hrow] at hcached
    cases hcached
  · rintro ⟨undone, hcommits, -, -, hall⟩
    rw [hrun] at hcommits
    obtain rfl : undone = [] := List.map_eq_nil_iff.mp hcommits.symm
    have hout : Outstanding torn.committed (samplePoint 15) := ⟨[], [], rfl, List.not_mem_nil⟩
    obtain ⟨x, hx, -⟩ := hall _ hout fun h => by cases h.eq_origin
    cases hx

end Sample

end AtomicFlow

end UtxoMonitor
