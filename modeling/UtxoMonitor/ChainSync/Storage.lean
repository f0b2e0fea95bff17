import Mathlib.Logic.Relation
import UtxoMonitor.Lib.Recovery
import UtxoMonitor.ChainSync.Reorg

/-! The follower over a storage that survives crashes: the cache, and what is downstream of it. Each
upgrade is a list of single writes; a restart takes the cached tip for the intersection point. -/
namespace UtxoMonitor

open Lib

variable {B C : Era} {E : Type}

inductive StorageWrite (E : Type) where
  | setTip (point : Point)
  | putBlock (point : Point) (block : LinkedBlock)
  | delete (point : Point)
  | commit (ev : E)

def StorageWrite.event : StorageWrite E → Option E
  | .commit ev => some ev
  | _ => none

/-- What the writes have downstream commit. -/
def commits (ws : List (StorageWrite E)) : List E := ws.filterMap StorageWrite.event

structure Storage (E : Type) where
  cache : LedgerCache
  /-- What downstream has committed, in order. -/
  committed : List E

namespace Storage

def empty : Storage E := ⟨∅, []⟩

def perform (s : Storage E) : StorageWrite E → Storage E
  | .setTip point => { s with cache := s.cache.setTip point }
  | .putBlock point block => { s with cache := s.cache.putBlock point block }
  | .delete point => { s with cache := s.cache.delete point }
  | .commit ev => { s with committed := s.committed ++ [ev] }

end Storage

/-! ### The blocks of the node -/

/-- The blocks the node may send, on any of its forks: the block of each point, with the point before
it. A point names its block by slot and header hash. -/
structure BlockTree (cml : Cml B C) where
  block : Point → Option (RawBlock B C × Point)
  origin : block .origin = none
  slot : ∀ {p b q}, block p = some (b, q) → p.getSlot = b.slot
  hashed : ∀ {p b q p'}, block p = some (b, q) → cml.headerPoint b.blk.header = some p' → p' = p
  before : ∀ {p b q}, block p = some (b, q) → q.Before b.slot

namespace BlockTree

variable {cml : Cml B C} (tree : BlockTree cml)

/-- The block of `p` comes right after `q`. -/
def Follows (p q : Point) : Prop := ∃ b, tree.block p = some (b, q)

/-- `q` is on the chain that ends in `tip`. -/
def OnChain (tip q : Point) : Prop := Relation.ReflTransGen tree.Follows tip q

variable {tree} {p q t u : Point} {b : RawBlock B C}

theorem onChain_refl : tree.OnChain p p := .refl

theorem OnChain.trans (h : tree.OnChain t p) (h' : tree.OnChain p q) : tree.OnChain t q :=
  Relation.ReflTransGen.trans h h'

theorem onChain_cons (hb : tree.block t = some (b, q)) (h : tree.OnChain q u) :
    tree.OnChain t u := .head ⟨b, hb⟩ h

/-- What else is on a chain is on the chain before its last block. -/
theorem OnChain.of_ne (h : tree.OnChain t u) (hne : t ≠ u) (hb : tree.block t = some (b, q)) :
    tree.OnChain q u := by
  rcases Relation.ReflTransGen.cases_head h with heq | ⟨r, ⟨b', hb'⟩, hr⟩
  · exact absurd heq hne
  · obtain ⟨rfl, rfl⟩ : b = b' ∧ q = r := by simpa using hb.symm.trans hb'
    exact hr

theorem OnChain.eq_origin (h : tree.OnChain .origin u) : u = .origin := by
  rcases Relation.ReflTransGen.cases_head h with heq | ⟨r, ⟨b, hb⟩, -⟩
  · exact heq.symm
  · rw [tree.origin] at hb
    cases hb

theorem getSlot_lt_of_before {s : Slot} (h : q.Before s) (hne : q ≠ .origin) : q.getSlot < s := by
  cases q with
  | origin => exact absurd rfl hne
  | specific slot hash => exact h

theorem OnChain.getSlot_le (h : tree.OnChain t u) : u.getSlot ≤ t.getSlot := by
  induction h using Relation.ReflTransGen.head_induction_on with
  | refl => exact Nat.le_refl _
  | @head t q hstep _ ih =>
    obtain ⟨b, hb⟩ := hstep
    by_cases hq : q = .origin
    · subst hq
      exact Nat.le_trans ih (Nat.zero_le _)
    · have hlt := getSlot_lt_of_before (tree.before hb) hq
      rw [← tree.slot hb] at hlt
      exact Nat.le_trans ih (Nat.le_of_lt hlt)

/-- The blocks before a block have lower slots. -/
theorem OnChain.getSlot_lt (hb : tree.block t = some (b, q)) (h : tree.OnChain q u)
    (hu : u ≠ .origin) : u.getSlot < t.getSlot := by
  have hq : q ≠ .origin := by
    rintro rfl
    exact hu h.eq_origin
  have hlt := getSlot_lt_of_before (tree.before hb) hq
  rw [← tree.slot hb] at hlt
  exact Nat.lt_of_le_of_lt h.getSlot_le hlt

theorem ne_origin (hb : tree.block t = some (b, q)) : t ≠ .origin := by
  rintro rfl
  rw [tree.origin] at hb
  cases hb

/-! ### The rows of a chain -/

variable (tree) in
/-- The cached rows link the blocks `ps`, newest first, from the tip of the chain down to the origin,
or down to blocks that are cached without a row. -/
inductive Linked (low : Point → Prop) (cache : LedgerCache) : Point → List Point → Prop where
  | origin : Linked low cache .origin []
  | low {p : Point} (h : low p) : Linked low cache p []
  | first {p q r : Point} {b : RawBlock B C} (block : tree.block p = some (b, q))
      (decodes : cml.fromCborBytes b.bytes = some b.blk)
      (row : cache.getBlock p = some ⟨b.bytes, r⟩) (base : r = .origin ∨ low q) :
      Linked low cache p [p]
  | next {p q : Point} {b : RawBlock B C} {ps : List Point} (block : tree.block p = some (b, q))
      (decodes : cml.fromCborBytes b.bytes = some b.blk)
      (row : cache.getBlock p = some ⟨b.bytes, q⟩) (rest : Linked low cache q ps) :
      Linked low cache p (p :: ps)

variable {low : Point → Prop} {cache cache' : LedgerCache} {ps : List Point}

theorem Linked.congr (h : tree.Linked low cache p ps)
    (hc : ∀ q ∈ ps, cache'.getBlock q = cache.getBlock q) : tree.Linked low cache' p ps := by
  induction h with
  | origin => exact .origin
  | low h => exact .low h
  | first block decodes row base =>
    exact .first block decodes ((hc _ (List.mem_singleton_self _)).trans row) base
  | next block decodes row _ ih =>
    exact .next block decodes ((hc _ (.head _)).trans row) (ih fun q hq => hc q (.tail _ hq))

theorem getBlock_origin_put {lb : LinkedBlock} (h : cache.getBlock .origin = none)
    (hb : tree.block p = some (b, q)) :
    ((cache.setTip p).putBlock p lb).getBlock .origin = none := by
  rw [LedgerCache.getBlock_putBlock, if_neg (ne_origin hb), LedgerCache.getBlock_setTip, h]

theorem getBlock_origin_pop {r : Point} (h : cache.getBlock .origin = none) :
    ((cache.delete t).setTip r).getBlock .origin = none := by
  rw [LedgerCache.getBlock_setTip, LedgerCache.getBlock_delete, h, ite_self]

theorem Linked.mem (h : tree.Linked low cache t ps) (hp : p ∈ ps) :
    tree.OnChain t p ∧ ∃ b q, tree.block p = some (b, q) := by
  induction h with
  | origin => cases hp
  | low h => cases hp
  | first block =>
    obtain rfl := List.mem_singleton.mp hp
    exact ⟨onChain_refl, _, _, block⟩
  | next block _ _ _ ih =>
    rcases List.mem_cons.mp hp with rfl | hp
    · exact ⟨onChain_refl, _, _, block⟩
    · exact ⟨onChain_cons block (ih hp).1, (ih hp).2⟩

/-- The block that follows a chain is not in the rows of the chain. -/
theorem Linked.notMem (h : tree.Linked low cache q ps) (hb : tree.block t = some (b, q)) :
    t ∉ ps := by
  intro ht
  have hlt := OnChain.getSlot_lt hb (h.mem ht).1 (ne_origin hb)
  exact Nat.lt_irrefl _ hlt

/-- A new block on top of linked ones. -/
theorem Linked.put (h : tree.Linked low cache q ps) (hb : tree.block p = some (b, q))
    (decodes : cml.fromCborBytes b.bytes = some b.blk) :
    tree.Linked low ((cache.setTip p).putBlock p ⟨b.bytes, q⟩) p (p :: ps) := by
  refine .next hb decodes (by rw [LedgerCache.getBlock_putBlock, if_pos rfl]) (h.congr ?_)
  intro u hu
  have hne : p ≠ u := by
    rintro rfl
    exact h.notMem hb hu
  rw [LedgerCache.getBlock_putBlock, if_neg hne, LedgerCache.getBlock_setTip]

theorem linked_put_first {r : Point} (hb : tree.block p = some (b, q))
    (decodes : cml.fromCborBytes b.bytes = some b.blk) (base : r = .origin ∨ low q) :
    tree.Linked low ((cache.setTip p).putBlock p ⟨b.bytes, r⟩) p [p] :=
  .first hb decodes (by rw [LedgerCache.getBlock_putBlock, if_pos rfl]) base

/-- What a dropped block was linked to stays linked. -/
theorem Linked.pop {r : Point} (h : tree.Linked low cache r ps) (hnot : t ∉ ps) :
    tree.Linked low ((cache.delete t).setTip r) r ps := by
  apply h.congr
  intro q hq
  have hne : t ≠ q := by
    rintro rfl
    exact hnot hq
  rw [LedgerCache.getBlock_setTip, LedgerCache.getBlock_delete, if_neg hne]

/-- A dropped block leaves a tip from which the target of the rollback is still ahead. -/
theorem tip_pop {r : Point} (hr : r = .origin ∨ r = q) (hq : tree.OnChain q p) :
    ∀ t', ((cache.delete t).setTip r).getTip = some t' → t' = .origin ∨ tree.OnChain t' p := by
  intro t' ht'
  obtain rfl : r = t' := by simpa using ht'
  rcases hr with rfl | rfl
  · exact .inl rfl
  · exact .inr hq

theorem Linked.eq_nil (h : tree.Linked low cache .origin ps) : ps = [] := by
  cases h with
  | origin => rfl
  | low h => rfl
  | first block => exact absurd rfl (ne_origin block)
  | next block => exact absurd rfl (ne_origin block)

end BlockTree

/-! ### Upgrades as writes -/

namespace Cml

variable (cml : Cml B C)

/-- The loop of a rollback, for at most the given number of turns: what it writes, and whether it
panics at a row that does not decode. `undo` is what one turn writes for a tip, the point before it
and its block. -/
def rollbackWrites (undo : Point → Point → Option (MultiEraBlock B C) → List (StorageWrite E))
    (toPoint : Point) : Nat → LedgerCache → List (StorageWrite E) × Bool
  | 0, _ => ([], false)
  | n + 1, cache =>
    match cache.getTip with
    | some tip =>
      if tip = toPoint then ([], false)
      else
        match cache.getBlock tip with
        | some ⟨blockBytes, prevPoint⟩ =>
          match cml.fromCborBytes blockBytes with
          | some block =>
            let rest := rollbackWrites undo toPoint n ((cache.delete tip).setTip prevPoint)
            (undo tip prevPoint (some block) ++ rest.1, rest.2)
          | none => (undo tip prevPoint none, true)
        | none => ([], false)
    | none => ([], false)

/-- What an upgrade writes, and whether it panics then. -/
abbrev WritePlan (B C : Era) (E : Type) :=
  LedgerCache → ChainUpgrade (MultiEraBlock B C) → List (StorageWrite E) × Bool

variable {cml}

/-- An upgrade at the read position of the node's chain; a panic loses the position. -/
inductive Upgrades (tree : BlockTree cml) (plan : WritePlan B C E) :
    Storage E → Option Point → List (StorageWrite E) → Option Point → Prop where
  | rollForward {s : Storage E} {p position : Point} {b : RawBlock B C}
      (block : tree.block p = some (b, position))
      (decodes : cml.fromCborBytes b.bytes = some b.blk) :
      Upgrades tree plan s (some position) (plan s.cache (.rollForward b.blk b.bytes false)).1
        (if (plan s.cache (.rollForward b.blk b.bytes false)).2 then none else some p)
  | rollBackward {s : Storage E} {p position : Point} (target : tree.OnChain position p) :
      Upgrades tree plan s (some position) (plan s.cache (.rollBackward p)).1
        (if (plan s.cache (.rollBackward p)).2 then none else some p)

/-- The follower of a chain: it keeps the read position in memory and finds it again in the cache. -/
def follower (tree : BlockTree cml) (plan : WritePlan B C E) (startingPoint : Point) :
    Durable (Storage E) (StorageWrite E) (Option Point) where
  perform := Storage.perform
  Begins := Upgrades tree plan
  restart s := some (s.cache.getTip.getD startingPoint)

def samplePoint (n : UInt8) : Point := sample.point (sampleBlock n)

/-- Block 15 after the origin, and block 16 after it. -/
def sampleTree : BlockTree sample where
  block p :=
    if p = samplePoint 15 then some (sampleBlock 15, .origin)
    else if p = samplePoint 16 then some (sampleBlock 16, samplePoint 15)
    else none
  origin := rfl
  slot := by
    intro p b q h
    split at h
    · rename_i hp
      subst hp
      cases h
      rfl
    split at h
    · rename_i hp
      subst hp
      cases h
      rfl
    · cases h
  hashed := by
    intro p b q p' h hp
    split at h
    · rename_i heq
      subst heq
      cases h
      exact (Option.some.inj hp).symm
    split at h
    · rename_i heq
      subst heq
      cases h
      exact (Option.some.inj hp).symm
    · cases h
  before := by
    intro p b q h
    split at h
    · cases h
      trivial
    split at h
    · cases h
      decide
    · cases h

end Cml

end UtxoMonitor
