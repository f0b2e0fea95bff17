import Mathlib.Data.Set.List
import UtxoMonitor.ChainSync.Resume
import UtxoMonitor.ChainSync.Threshold

/-! What a replay of the cache yields: the cached blocks from a point on, in the order of the chain. -/
namespace UtxoMonitor

open Lib

variable {B C : Era}

def Point.slotAndHash : Point → Slot × Bytes
  | origin => (0, [])
  | specific slot hash => (slot, hash.toRawBytes)

/-- Points are ordered by slot, and those of one slot by hash. -/
def Point.cmp (p q : Point) : Ordering :=
  (compare p.slotAndHash.1 q.slotAndHash.1).then (compare p.slotAndHash.2 q.slotAndHash.2)

theorem pointKey_eq (pre : Bytes) (p : Point) :
    pointKey pre p = pre ++ bigEndian 8 p.slotAndHash.1.toNat ++ p.slotAndHash.2 := by
  cases p <;> rfl

/-- The keys of points are in the order of the points. -/
theorem compare_pointKey (pre : Bytes) (p q : Point) :
    compare (pointKey pre p) (pointKey pre q) = p.cmp q := by
  rw [pointKey_eq, pointKey_eq, List.append_assoc, List.append_assoc, compare_append_left,
    compare_bigEndian_append (slot_lt _) (slot_lt _), Point.cmp,
    UInt64.compare_eq_toNat_compare_toNat]

theorem Point.cmp_of_slot_lt {s t : Slot} (g k : BlockHeaderHash) (h : s < t) :
    (specific s g).cmp (specific t k) = .lt := by
  have hc : compare s t = .lt := by
    rw [UInt64.compare_eq_toNat_compare_toNat]
    exact Nat.compare_eq_lt.mpr h
  simp [cmp, slotAndHash, hc]

namespace LedgerCache

/-- The rows of blocks have the keys of points. -/
def Keyed (cache : LedgerCache) : Prop :=
  ∀ k lb, cache[k]? = some (.block lb) → ∃ q, pointKey pointPrefix q = k

/-- `rows` are the blocks from the point `p` on that the cache holds, each once and in the order of
their points, and the replay yields these. -/
structure Replays (cache : LedgerCache) (p : Point) (rows : List (Point × LinkedBlock)) :
    Prop where
  replay : cache.replay p = rows.map Prod.snd
  sorted : rows.Pairwise fun x y => x.1.cmp y.1 = .lt
  mem : ∀ q lb, (q, lb) ∈ rows ↔ (p.cmp q).isLE ∧ cache.getBlock q = some lb

theorem Keyed.empty : (∅ : LedgerCache).Keyed := by
  intro k lb h
  simp at h

theorem Keyed.setTip {cache : LedgerCache} (h : cache.Keyed) (p : Point) :
    (cache.setTip p).Keyed := by
  intro k lb hk
  rw [LedgerCache.setTip, Table.getElem?_insert_iff] at hk
  split at hk
  · cases hk
  · exact h k lb hk

theorem Keyed.putBlock {cache : LedgerCache} (h : cache.Keyed) (p : Point) (lb : LinkedBlock) :
    (cache.putBlock p lb).Keyed := by
  intro k lb' hk
  rw [LedgerCache.putBlock, Table.getElem?_insert_iff] at hk
  split at hk
  · rename_i heq
    exact ⟨p, heq⟩
  · exact h k lb' hk

theorem Keyed.delete {cache : LedgerCache} (h : cache.Keyed) (p : Point) :
    (cache.delete p).Keyed := by
  intro k lb hk
  rw [LedgerCache.delete, Table.getElem?_erase_iff] at hk
  split at hk
  · cases hk
  · exact h k lb hk

theorem getBlock_eq_some_iff {cache : LedgerCache} {q : Point} {lb : LinkedBlock} :
    cache.getBlock q = some lb ↔ cache[pointKey pointPrefix q]? = some (.block lb) := by
  rw [getBlock]
  constructor
  · intro h
    split at h
    · rename_i hrow
      rwa [← Option.some.inj h]
    · cases h
  · intro h
    rw [h]

/-- The blocks that a replay walks over, with their keys. -/
def keyedBlocks (cache : LedgerCache) (fromPoint : Point) : List (Bytes × LinkedBlock) :=
  (cache.toList.filter fun row => (compare (pointKey pointPrefix fromPoint) row.1).isLE).filterMap
    fun row => match row.2 with
      | .block b => some (row.1, b)
      | .point _ => none

theorem replay_eq_keyedBlocks (cache : LedgerCache) (p : Point) :
    cache.replay p = (cache.keyedBlocks p).map Prod.snd := by
  rw [keyedBlocks, replay, List.map_filterMap]
  congr 1
  funext row
  cases row.2 <;> rfl

theorem mem_keyedBlocks {cache : LedgerCache} {p : Point} {k : Bytes} {lb : LinkedBlock} :
    (k, lb) ∈ cache.keyedBlocks p ↔
      (compare (pointKey pointPrefix p) k).isLE ∧ cache[k]? = some (.block lb) := by
  rw [keyedBlocks, List.mem_filterMap]
  constructor
  · rintro ⟨⟨k', v⟩, hrow, hv⟩
    obtain ⟨hget, hle⟩ := List.mem_filter.mp hrow
    cases v with
    | point q => cases hv
    | block b =>
      simp only [Option.some.injEq, Prod.mk.injEq] at hv
      obtain ⟨rfl, rfl⟩ := hv
      exact ⟨hle, Std.ExtTreeMap.mem_toList_iff_getElem?_eq_some.mp hget⟩
  · rintro ⟨hle, hget⟩
    exact ⟨(k, .block lb), List.mem_filter.mpr
      ⟨Std.ExtTreeMap.mem_toList_iff_getElem?_eq_some.mpr hget, hle⟩, rfl⟩

theorem keyedBlocks_sorted (cache : LedgerCache) (p : Point) :
    (cache.keyedBlocks p).Pairwise fun x y => compare x.1 y.1 = .lt := by
  apply List.Pairwise.filterMap _ _
    (Std.ExtTreeMap.ordered_keys_toList (t := cache) |>.filter fun row =>
      (compare (pointKey pointPrefix p) row.1).isLE)
  rintro ⟨k, v⟩ ⟨k', v'⟩ hlt x hx y hy
  cases v with
  | point q => cases hx
  | block b =>
    cases v' with
    | point q => cases hy
    | block b' =>
      cases hx
      cases hy
      exact hlt

theorem Keyed.exists_replays {cache : LedgerCache} (h : cache.Keyed) (p : Point) :
    ∃ rows, cache.Replays p rows := by
  have hrange : cache.keyedBlocks p ∈ Set.range
      (List.map fun x : Point × LinkedBlock => (pointKey pointPrefix x.1, x.2)) := by
    rw [Set.range_list_map]
    rintro ⟨k, lb⟩ hx
    obtain ⟨q, rfl⟩ := h k lb (mem_keyedBlocks.mp hx).2
    exact ⟨(q, lb), rfl⟩
  obtain ⟨rows, hrows⟩ := hrange
  refine ⟨rows, ?_, ?_, ?_⟩
  · rw [replay_eq_keyedBlocks, ← hrows, List.map_map]
    rfl
  · have hsorted := cache.keyedBlocks_sorted p
    rw [← hrows, List.pairwise_map] at hsorted
    simpa only [compare_pointKey] using hsorted
  · intro q lb
    rw [getBlock_eq_some_iff, ← compare_pointKey pointPrefix, ← mem_keyedBlocks, ← hrows,
      List.mem_map]
    constructor
    · exact fun hq => ⟨(q, lb), hq, rfl⟩
    · rintro ⟨⟨q', lb'⟩, hq, heq⟩
      simp only [Prod.mk.injEq] at heq
      obtain ⟨hkey, rfl⟩ := heq
      rwa [← pointKey_injective pointPrefix hkey]

end LedgerCache

namespace Cml

variable {cml : Cml B C} {handleRollbacksAfter : Slot} {start : Option Point}
  {us : List (ChainUpgrade (MultiEraBlock B C))} {node : Node B C} {cache : LedgerCache}
  {evs : List (LedgerTxEvent (LedgerTx B C))}

variable (cml handleRollbacksAfter) in
/-- The blocks of a chain above the threshold and from the point `p` on. -/
def chainFrom (p : Point) (chain : List (RawBlock B C)) : List (Point × Bytes) :=
  (chain.filter fun b => handleRollbacksAfter < b.slot ∧ (p.cmp (cml.point b)).isLE).map
    fun b => (cml.point b, b.bytes)

theorem mem_chainFrom {p : Point} {chain : List (RawBlock B C)} {x : Point × Bytes} :
    x ∈ cml.chainFrom handleRollbacksAfter p chain ↔ ∃ b ∈ chain, handleRollbacksAfter < b.slot ∧
      (p.cmp x.1).isLE ∧ x = (cml.point b, b.bytes) := by
  rw [chainFrom, List.mem_map]
  constructor
  · rintro ⟨b, hb, rfl⟩
    obtain ⟨hmem, hcond⟩ := List.mem_filter.mp hb
    obtain ⟨hslot, hle⟩ := of_decide_eq_true hcond
    exact ⟨b, hmem, hslot, hle, rfl⟩
  · rintro ⟨b, hmem, hslot, hle, rfl⟩
    exact ⟨b, List.mem_filter.mpr ⟨hmem, decide_eq_true ⟨hslot, hle⟩⟩, rfl⟩

theorem ChainOk.chainFrom_sorted {chain : List (RawBlock B C)} (h : cml.ChainOk start chain)
    (p : Point) : (cml.chainFrom handleRollbacksAfter p chain).Pairwise
      fun x y => x.1.cmp y.1 = .lt := by
  rw [chainFrom, List.pairwise_map]
  apply List.Pairwise.filter
  apply h.sorted.imp_of_mem
  intro a b ha hb hlt
  obtain ⟨g, hg⟩ := point_eq (h.hashed a ha)
  obtain ⟨k, hk⟩ := point_eq (h.hashed b hb)
  rw [hg, hk]
  exact Point.cmp_of_slot_lt g k hlt

theorem exists_mem_withPrev (base : Option Point) {chain : List (RawBlock B C)} {b : RawBlock B C}
    (h : b ∈ chain) : ∃ prev, (b, prev) ∈ cml.withPrev base chain := by
  induction chain generalizing base with
  | nil => cases h
  | cons a chain ih =>
    rcases List.mem_cons.mp h with rfl | h
    · exact ⟨_, List.mem_cons_self⟩
    · obtain ⟨prev, hm⟩ := ih (some (cml.point a)) h
      exact ⟨prev, List.mem_cons_of_mem _ hm⟩

theorem keyed_of_processUpstream
    (hproc : cml.processUpstream handleRollbacksAfter ∅ us = some (cache, evs)) : cache.Keyed := by
  refine processUpstream_keeps (P := LedgerCache.Keyed) ?_ ?_ .empty hproc
  · exact fun _ _ point _ _ _ h => ⟨h.setTip point, (h.setTip point).putBlock point _⟩
  · exact fun _ tip lb h _ => (h.delete tip).setTip lb.prevPoint

/-- The blocks of the chain above the threshold are cached. -/
theorem Following.getBlock_of_mem {initial : LedgerCache} {b : RawBlock B C}
    (h : cml.Following handleRollbacksAfter start initial us node cache evs)
    (hb : b ∈ node.chain) (hslot : handleRollbacksAfter < b.slot) :
    ∃ prev, cache.getBlock (cml.point b) = some ⟨b.bytes, prev⟩ := by
  obtain ⟨older, kept, recent, base, hf, -⟩ := h
  rw [hf.chain] at hb
  rcases List.mem_append.mp hb with hb | hb
  · exact absurd hslot (Nat.not_lt.mpr (hf.low b hb))
  · obtain ⟨prev, hm⟩ := exists_mem_withPrev base hb
    exact ⟨prev, hf.linked (b, prev) hm hslot⟩

/-- What an empty cache has filled with are blocks of the chain, and abandoned ones. -/
theorem Following.of_getBlock {q : Point} {lb : LinkedBlock}
    (h : cml.Following handleRollbacksAfter start ∅ us node cache evs)
    (hq : cache.getBlock q = some lb) :
    ∃ b, (b ∈ node.chain ∨ b ∈ node.abandoned) ∧ handleRollbacksAfter < b.slot ∧
      q = cml.point b ∧ lb.blockBytes = b.bytes := by
  obtain ⟨older, kept, recent, base, hf, -⟩ := h
  rcases hf.cached q lb hq with ⟨x, hx, hslot, hpoint, rfl⟩ | ⟨b, hb, hrest⟩ | hinit
  · refine ⟨x.1, .inl ?_, hslot, hpoint, rfl⟩
    rw [hf.chain]
    exact List.mem_append_right _ (mem_of_mem_withPrev hx)
  · exact ⟨b, .inr hb, hrest⟩
  · rw [LedgerCache.getBlock_empty] at hinit
    cases hinit

theorem Following.chainOk {initial : LedgerCache}
    (h : cml.Following handleRollbacksAfter start initial us node cache evs) :
    cml.ChainOk start node.chain := by
  obtain ⟨older, kept, recent, base, hf, -⟩ := h
  exact hf.ok

/-- A replay yields each cached block from its point on once, in the order of the points. These are
the blocks of the chain above the threshold, in the order of the chain, and blocks that the node has
abandoned by rollbacks to points that are not above the threshold; without such rollbacks it yields
just the chain. The stream panics only at a block whose header it cannot hash. -/
theorem replay_exact (cml : Cml B C) (handleRollbacksAfter : Slot) (start : Option Point)
    (us : List (ChainUpgrade (MultiEraBlock B C))) (node : Node B C)
    (run : cml.NodeRun start handleRollbacksAfter us node) :
    (cml.ledgerTransactions handleRollbacksAfter ∅ us none = none →
      ∃ b : RawBlock B C, .rollForward b.blk b.bytes false ∈ us ∧
        cml.headerPoint b.blk.header = none) ∧
    ∀ cache evs, cml.ledgerTransactions handleRollbacksAfter ∅ us none = some (cache, evs) →
      ∀ p, ∃ rows, cache.Replays p rows ∧
        (cml.chainFrom handleRollbacksAfter p node.chain).Sublist
          (rows.map fun x => (x.1, x.2.blockBytes)) ∧
        (∀ x ∈ rows, ∃ b, (b ∈ node.chain ∨ b ∈ node.abandoned) ∧ handleRollbacksAfter < b.slot ∧
          x.1 = cml.point b ∧ x.2.blockBytes = b.bytes) ∧
        ((∀ q, .rollBackward q ∈ us → handleRollbacksAfter < q.getSlot) →
          rows.map (fun x => (x.1, x.2.blockBytes)) =
            cml.chainFrom handleRollbacksAfter p node.chain) := by
  rw [ledgerTransactions_none]
  obtain ⟨hpanic, hfollow⟩ := following_run (.inr rfl) run
  refine ⟨hpanic, ?_⟩
  intro cache evs hproc p
  have h := hfollow cache evs hproc
  obtain ⟨rows, hrows⟩ := (keyed_of_processUpstream hproc).exists_replays p
  have hof : ∀ x ∈ rows, ∃ b, (b ∈ node.chain ∨ b ∈ node.abandoned) ∧
      handleRollbacksAfter < b.slot ∧ x.1 = cml.point b ∧ x.2.blockBytes = b.bytes := by
    intro x hx
    exact h.of_getBlock ((hrows.mem x.1 x.2).mp hx).2
  have hsub : ∀ x ∈ cml.chainFrom handleRollbacksAfter p node.chain,
      x ∈ rows.map fun x => (x.1, x.2.blockBytes) := by
    intro x hx
    obtain ⟨b, hb, hslot, hle, rfl⟩ := mem_chainFrom.mp hx
    obtain ⟨prev, hget⟩ := h.getBlock_of_mem hb hslot
    exact List.mem_map.mpr ⟨(cml.point b, ⟨b.bytes, prev⟩), (hrows.mem _ _).mpr ⟨hle, hget⟩, rfl⟩
  have hkeys : ∀ l : List (Point × Bytes), l.Pairwise (fun x y => x.1.cmp y.1 = .lt) →
      l.Pairwise fun x y =>
        compare (pointKey pointPrefix x.1) (pointKey pointPrefix y.1) = .lt := by
    simp only [compare_pointKey, imp_self, implies_true]
  have hsorted : (rows.map fun x => (x.1, x.2.blockBytes)).Pairwise
      fun x y => x.1.cmp y.1 = .lt := by
    rw [List.pairwise_map]
    exact hrows.sorted
  have hchain := hkeys (cml.chainFrom handleRollbacksAfter p node.chain)
    (h.chainOk.chainFrom_sorted p)
  refine ⟨rows, hrows, ?_, hof, ?_⟩
  · have heq := Table.eq_of_sorted hchain (hkeys _ (hsorted.filter
      (· ∈ cml.chainFrom handleRollbacksAfter p node.chain))) (by
        intro x
        rw [List.mem_filter, decide_eq_true_eq]
        exact ⟨fun hx => ⟨hsub x hx, hx⟩, And.right⟩)
    rw [heq]
    exact List.filter_sublist
  · intro above
    refine Table.eq_of_sorted (hkeys _ hsorted) hchain fun x => ⟨?_, hsub x⟩
    intro hx
    obtain ⟨y, hy, rfl⟩ := List.mem_map.mp hx
    obtain ⟨b, hb, hslot, hpoint, hbytes⟩ := hof y hy
    rw [run.abandoned_eq_nil above] at hb
    refine mem_chainFrom.mpr ⟨b, hb.resolve_right (by simp), hslot,
      ((hrows.mem y.1 y.2).mp hy).1, by rw [hpoint, hbytes]⟩

theorem replay_exact_sample : ∃ cache evs,
    sample.ledgerTransactions 10 ∅
      [sampleForward 15, sampleForward 16, sampleBackward 15, sampleForward 17] none =
        some (cache, evs) ∧
    ∃ rows, cache.Replays (sample.point (sampleBlock 16)) rows ∧
      rows.map (fun x => (x.1, x.2.blockBytes)) = [(sample.point (sampleBlock 17), [17])] := by
  obtain ⟨-, hok⟩ := replay_exact sample 10 none _ _ sample_reorg
  obtain ⟨rows, hrows, -, -, hexact⟩ := hok _ _ rfl (sample.point (sampleBlock 16))
  refine ⟨_, _, rfl, rows, hrows, ?_⟩
  rw [hexact (by
    intro q hq
    obtain rfl : q = sample.point (sampleBlock 15) := by
      simpa [sampleForward, sampleBackward] using hq
    decide)]
  decide +kernel

/-- The block that an ignored rollback left in the cache is replayed. -/
theorem straddle_replays_abandoned :
    sample.NodeRun none 10 [sampleForward 5, sampleForward 15, sampleBackward 5]
      ⟨[sampleBlock 5], [sampleBlock 15]⟩ ∧
    sample.point (sampleBlock 15) ∉ [sampleBlock 5].map sample.point ∧
    ∃ cache evs, sample.ledgerTransactions 10 ∅
        [sampleForward 5, sampleForward 15, sampleBackward 5] none = some (cache, evs) ∧
      cache.replay .origin = [⟨(sampleBlock 15).bytes, sample.point (sampleBlock 5)⟩] := by
  refine ⟨sample_straddle, by decide, _, _, rfl, ?_⟩
  decide +kernel

end Cml

end UtxoMonitor
