import UtxoMonitor.Lib.Stack
import UtxoMonitor.ChainSync.EventSource

/-! How the cache and the events follow the chain of the node. Rollbacks at or below the threshold
are ignored, so the follower may keep blocks that the node has abandoned. -/
namespace UtxoMonitor

open Lib

variable {B C : Era}

/-- A block with its serialized representation. -/
structure RawBlock (B C : Era) where
  blk : MultiEraBlock B C
  bytes : Bytes

def RawBlock.slot (b : RawBlock B C) : Slot := b.blk.header.slot

/-- A point that a block of the given slot can follow. -/
def Point.Before : Point → Slot → Prop
  | origin, _ => True
  | specific slot _, s => slot < s

instance (s : Slot) : (p : Point) → Decidable (p.Before s)
  | .origin => inferInstanceAs (Decidable True)
  | .specific slot _ => inferInstanceAs (Decidable (slot < s))

theorem Point.Before.getSlot_lt {p : Point} {s h : Slot} (hb : p.Before s) (hs : h < s) :
    p.getSlot < s := by
  cases p with
  | origin => exact Nat.lt_of_le_of_lt (Nat.zero_le _) hs
  | specific slot hash => exact hb

/-- The chain of the node from a starting point on, and the blocks it abandoned by rollbacks to
points that are not above the threshold. -/
structure Node (B C : Era) where
  chain : List (RawBlock B C)
  abandoned : List (RawBlock B C)

namespace Cml

variable (cml : Cml B C)

def point (b : RawBlock B C) : Point := (cml.headerPoint b.blk.header).getD .origin

def txs (b : RawBlock B C) : List (BlockTx (LedgerTx B C)) :=
  cml.unpackValidTransactionsMultiEra b.blk

/-- The last point of a chain that starts after `start`. -/
def chainTip (start : Option Point) (chain : List (RawBlock B C)) : Option Point :=
  match chain.getLast? with
  | some b => some (cml.point b)
  | none => start

/-- The blocks of a chain, each with the point before it. -/
def withPrev : Option Point → List (RawBlock B C) → List (RawBlock B C × Point)
  | _, [] => []
  | prev, b :: bs => (b, prev.getD .origin) :: withPrev (some (cml.point b)) bs

/-- What an upgrade does to the node. A new block extends the chain; a rollback goes back to a
point of the chain. -/
inductive NodeStep (start : Option Point) (handleRollbacksAfter : Slot) :
    Node B C → ChainUpgrade (MultiEraBlock B C) → Node B C → Prop where
  | rollForward {node : Node B C} {b : RawBlock B C}
      (decodes : cml.fromCborBytes b.bytes = some b.blk)
      (follows : ∀ tip ∈ cml.chainTip start node.chain, tip.Before b.slot) :
      NodeStep start handleRollbacksAfter node (.rollForward b.blk b.bytes false)
        { node with chain := node.chain ++ [b] }
  | rollBackward {kept dropped abandoned : List (RawBlock B C)} {point : Point}
      (target : cml.chainTip start kept = some point)
      (above : handleRollbacksAfter < point.getSlot) :
      NodeStep start handleRollbacksAfter ⟨kept ++ dropped, abandoned⟩ (.rollBackward point)
        ⟨kept, abandoned⟩
  | abandon {kept dropped abandoned : List (RawBlock B C)} {point : Point}
      (target : cml.chainTip start kept = some point)
      (below : point.getSlot ≤ handleRollbacksAfter) :
      NodeStep start handleRollbacksAfter ⟨kept ++ dropped, abandoned⟩ (.rollBackward point)
        ⟨kept, abandoned ++ dropped⟩

/-- The upgrades take the node from its starting point to a chain. -/
inductive NodeRun (start : Option Point) (handleRollbacksAfter : Slot) :
    List (ChainUpgrade (MultiEraBlock B C)) → Node B C → Prop where
  | nil : NodeRun start handleRollbacksAfter [] ⟨[], []⟩
  | snoc {us : List (ChainUpgrade (MultiEraBlock B C))}
      {u : ChainUpgrade (MultiEraBlock B C)} {node node' : Node B C}
      (run : NodeRun start handleRollbacksAfter us node)
      (step : cml.NodeStep start handleRollbacksAfter node u node') :
      NodeRun start handleRollbacksAfter (us ++ [u]) node'

/-- The blocks of a chain have hashable headers, decode and follow each other in slot order. -/
structure ChainOk (start : Option Point) (chain : List (RawBlock B C)) : Prop where
  hashed : ∀ b ∈ chain, cml.headerPoint b.blk.header = some (cml.point b)
  decodes : ∀ b ∈ chain, cml.fromCborBytes b.bytes = some b.blk
  sorted : chain.Pairwise fun a b => a.slot < b.slot
  above : ∀ b ∈ chain, ∀ p ∈ start, p.Before b.slot

end Cml

def LedgerTxEvent.op {Tx : Type} : LedgerTxEvent Tx → StackOp (BlockTx Tx)
  | txApplied tx slot blockNumber blockHash => .push (tx, slot, blockNumber, blockHash)
  | txUnapplied tx slot blockNumber blockHash => .pop (tx, slot, blockNumber, blockHash)

/-- Every cached block is at or below the given point. -/
def LedgerCache.UpTo (cache : LedgerCache) (point : Option Point) : Prop :=
  ∀ q lb, cache.getBlock q = some lb → ∃ p, point = some p ∧ q.getSlot ≤ p.getSlot

namespace Cml

section Chains

variable {cml : Cml B C} {start : Option Point} {chain kept dropped : List (RawBlock B C)}
  {b : RawBlock B C}

@[simp] theorem chainTip_nil : cml.chainTip start [] = start := rfl

@[simp] theorem chainTip_concat : cml.chainTip start (chain ++ [b]) = some (cml.point b) := by
  simp [chainTip]

theorem chainTip_append (start : Option Point) (xs ys : List (RawBlock B C)) :
    cml.chainTip start (xs ++ ys) = cml.chainTip (cml.chainTip start xs) ys := by
  rcases List.eq_nil_or_concat' ys with rfl | ⟨init, last, rfl⟩
  · simp
  · rw [← List.append_assoc, chainTip_concat, chainTip_concat]

theorem withPrev_append (start : Option Point) (xs ys : List (RawBlock B C)) :
    cml.withPrev start (xs ++ ys) =
      cml.withPrev start xs ++ cml.withPrev (cml.chainTip start xs) ys := by
  induction xs generalizing start with
  | nil => rfl
  | cons a xs ih =>
    have htip : cml.chainTip start (a :: xs) = cml.chainTip (some (cml.point a)) xs :=
      chainTip_append start [a] xs
    rw [List.cons_append, withPrev, ih, withPrev, htip]
    rfl

theorem withPrev_concat (start : Option Point) (xs : List (RawBlock B C)) (b : RawBlock B C) :
    cml.withPrev start (xs ++ [b]) =
      cml.withPrev start xs ++ [(b, (cml.chainTip start xs).getD .origin)] := by
  rw [withPrev_append]
  rfl

theorem mem_of_mem_withPrev {x : RawBlock B C × Point} (h : x ∈ cml.withPrev start chain) :
    x.1 ∈ chain := by
  induction chain generalizing start with
  | nil => cases h
  | cons a chain ih =>
    rcases List.mem_cons.mp h with rfl | h
    · exact List.mem_cons_self
    · exact List.mem_cons_of_mem _ (ih h)

theorem point_eq (h : cml.headerPoint b.blk.header = some (cml.point b)) :
    ∃ hash, cml.point b = .specific b.slot hash := by
  obtain ⟨hash, -, heq⟩ := Option.map_eq_some_iff.mp h
  exact ⟨hash, heq.symm⟩

theorem getSlot_point (h : cml.headerPoint b.blk.header = some (cml.point b)) :
    (cml.point b).getSlot = b.slot := by
  obtain ⟨hash, heq⟩ := point_eq h
  rw [heq, Point.getSlot]

theorem ChainOk.prefix (h : cml.ChainOk start (kept ++ dropped)) : cml.ChainOk start kept where
  hashed b hb := h.hashed b (List.mem_append_left _ hb)
  decodes b hb := h.decodes b (List.mem_append_left _ hb)
  sorted := (List.pairwise_append.mp h.sorted).1
  above b hb := h.above b (List.mem_append_left _ hb)

/-- The tip of a chain comes before what follows it. -/
theorem ChainOk.tip_before (h : cml.ChainOk start (kept ++ dropped)) {p : Point}
    (ht : cml.chainTip start kept = some p) (hb : b ∈ dropped) : p.Before b.slot := by
  rcases List.eq_nil_or_concat' kept with rfl | ⟨init, last, rfl⟩
  · exact h.above b hb p ht
  · rw [chainTip_concat, Option.some.injEq] at ht
    have hlast : last ∈ init ++ [last] := by simp
    obtain ⟨hash, heq⟩ := point_eq (h.hashed last (List.mem_append_left _ hlast))
    rw [← ht, heq]
    exact (List.pairwise_append.mp h.sorted).2.2 last hlast b hb

theorem ChainOk.concat (h : cml.ChainOk start chain)
    (hashed : cml.headerPoint b.blk.header = some (cml.point b))
    (decodes : cml.fromCborBytes b.bytes = some b.blk)
    (follows : ∀ tip ∈ cml.chainTip start chain, tip.Before b.slot) :
    cml.ChainOk start (chain ++ [b]) := by
  have hlt : ∀ a ∈ chain, a.slot < b.slot := by
    intro a ha
    obtain ⟨init, last, rfl⟩ := (List.eq_nil_or_concat' chain).resolve_left (List.ne_nil_of_mem ha)
    obtain ⟨hash, heq⟩ := point_eq (h.hashed last (by simp))
    have hlast : last.slot < b.slot := by
      have hb := follows _ chainTip_concat
      rwa [heq] at hb
    rcases List.mem_append.mp ha with ha | ha
    · exact Nat.lt_trans ((List.pairwise_append.mp h.sorted).2.2 a ha last (by simp)) hlast
    · rwa [List.mem_singleton.mp ha]
  refine ⟨?_, ?_, ?_, ?_⟩
  · simpa [or_imp, forall_and] using ⟨h.hashed, hashed⟩
  · simpa [or_imp, forall_and] using ⟨h.decodes, decodes⟩
  · rw [List.pairwise_append]
    exact ⟨h.sorted, List.pairwise_singleton _ _, fun a ha c hc => by
      rw [List.mem_singleton.mp hc]
      exact hlt a ha⟩
  · intro c hc p hp
    rcases List.mem_append.mp hc with hc | hc
    · exact h.above c hc p hp
    · rw [List.mem_singleton.mp hc]
      rcases List.eq_nil_or_concat' chain with rfl | ⟨init, last, rfl⟩
      · exact follows p hp
      · have hlast : last ∈ init ++ [last] := by simp
        cases p with
        | origin => trivial
        | specific slot hash =>
          exact Nat.lt_trans (h.above last hlast _ hp) (hlt last hlast)

/-- The blocks of a chain, and what it starts from, are not after its tip. -/
theorem ChainOk.slot_le_tip (h : cml.ChainOk start chain) (hb : b ∈ chain) :
    ∃ tip, cml.chainTip start chain = some tip ∧ b.slot ≤ tip.getSlot := by
  obtain ⟨init, last, rfl⟩ := (List.eq_nil_or_concat' chain).resolve_left (List.ne_nil_of_mem hb)
  refine ⟨cml.point last, chainTip_concat, ?_⟩
  rw [getSlot_point (h.hashed last (by simp))]
  rcases List.mem_append.mp hb with hb | hb
  · exact Nat.le_of_lt ((List.pairwise_append.mp h.sorted).2.2 b hb last (by simp))
  · obtain rfl : b = last := List.mem_singleton.mp hb
    exact Nat.le_refl _

theorem ChainOk.start_le_tip (h : cml.ChainOk start chain) {p : Point} (hp : start = some p) :
    ∃ tip, cml.chainTip start chain = some tip ∧ p.getSlot ≤ tip.getSlot := by
  rcases List.eq_nil_or_concat' chain with rfl | ⟨init, last, rfl⟩
  · exact ⟨p, hp, Nat.le_refl _⟩
  · refine ⟨cml.point last, chainTip_concat, ?_⟩
    rw [getSlot_point (h.hashed last (by simp))]
    have hbefore := h.above last (by simp) p hp
    cases p with
    | origin => exact Nat.zero_le _
    | specific slot hash => exact Nat.le_of_lt hbefore

theorem ChainOk.point_ne (h : cml.ChainOk start chain) {a c : RawBlock B C} (ha : a ∈ chain)
    (hc : c ∈ chain) (hlt : a.slot < c.slot) : cml.point a ≠ cml.point c := by
  intro heq
  have := congrArg Point.getSlot heq
  rw [getSlot_point (h.hashed a ha), getSlot_point (h.hashed c hc)] at this
  rw [this] at hlt
  exact Nat.lt_irrefl _ hlt

end Chains

/-! ### The rollback loop -/

section Rollback

variable (cml : Cml B C) (toPoint : Point) {cache : LedgerCache} {base : Option Point}
  {recent dropped : List (RawBlock B C)}

theorem rollbackLoop_stop
    (h : ∀ tip, cache.getTip = some tip → tip = toPoint ∨ cache.getBlock tip = none) (n : Nat) :
    cml.rollbackLoop toPoint n cache = some (cache, []) := by
  cases n with
  | zero => rfl
  | succ n =>
    rw [rollbackLoop]
    cases ht : cache.getTip with
    | none => rfl
    | some tip =>
      rcases h tip ht with rfl | hb
      · simp
      · simp [hb]

/-- One turn takes the block at the tip off, and goes back to the point before it. -/
theorem rollbackLoop_pop {b : RawBlock B C} {prevPoint : Point}
    (htip : cache.getTip = some (cml.point b)) (hto : cml.point b ≠ toPoint)
    (hblock : cache.getBlock (cml.point b) = some ⟨b.bytes, prevPoint⟩)
    (hdecodes : cml.fromCborBytes b.bytes = some b.blk) (n : Nat) :
    cml.rollbackLoop toPoint (n + 1) cache =
      (cml.rollbackLoop toPoint n ((cache.delete (cml.point b)).setTip prevPoint)).map fun r =>
        (r.1, b.blk :: r.2) := by
  rw [rollbackLoop]
  simp only [htip, hto, if_false, hblock, hdecodes, Option.bind_eq_bind, Option.bind_some,
    Option.pure_def]
  cases cml.rollbackLoop toPoint n ((cache.delete (cml.point b)).setTip prevPoint) <;> rfl

/-- The loop takes the linked blocks at the end of a chain off, the newest first. -/
theorem rollbackLoop_pops
    (htip : dropped ≠ [] → cache.getTip = cml.chainTip base (recent ++ dropped))
    (hlinked : ∀ x ∈ cml.withPrev (cml.chainTip base recent) dropped,
      cache.getBlock (cml.point x.1) = some ⟨x.1.bytes, x.2⟩)
    (hdecodes : ∀ b ∈ dropped, cml.fromCborBytes b.bytes = some b.blk)
    (hto : ∀ b ∈ dropped, cml.point b ≠ toPoint)
    (hdistinct : dropped.Pairwise fun a b => cml.point a ≠ cml.point b) :
    ∃ cache' : LedgerCache,
      (∀ n, cml.rollbackLoop toPoint (n + dropped.length) cache =
        (cml.rollbackLoop toPoint n cache').map fun r =>
          (r.1, dropped.reverse.map RawBlock.blk ++ r.2)) ∧
      cache'.getTip = (if dropped = [] then cache.getTip
        else some ((cml.chainTip base recent).getD .origin)) ∧
      ∀ q, cache'.getBlock q =
        if q ∈ dropped.map cml.point then none else cache.getBlock q := by
  induction dropped using List.reverseRecOn generalizing cache with
  | nil => exact ⟨cache, fun n => by simp, by simp, by simp⟩
  | append_singleton dropped b ih =>
    rw [withPrev_concat, ← chainTip_append] at hlinked
    obtain ⟨hpair, -, hlast⟩ := List.pairwise_append.mp hdistinct
    have hne : ∀ a ∈ dropped, cml.point a ≠ cml.point b := fun a ha =>
      hlast a ha b (List.mem_singleton_self b)
    have hb := hlinked (b, (cml.chainTip base (recent ++ dropped)).getD .origin) (by simp)
    have htop : cache.getTip = some (cml.point b) := by
      rw [htip (by simp), ← List.append_assoc, chainTip_concat]
    obtain ⟨cache', hloop, htip', hblock⟩ := @ih
      ((cache.delete (cml.point b)).setTip
        ((cml.chainTip base (recent ++ dropped)).getD .origin))
      (fun hd => by
        obtain ⟨init, last, rfl⟩ := (List.eq_nil_or_concat' dropped).resolve_left hd
        rw [LedgerCache.getTip_setTip, ← List.append_assoc, chainTip_concat]
        rfl)
      (fun x hx => by
        rw [LedgerCache.getBlock_setTip, LedgerCache.getBlock_delete,
          if_neg (hne x.1 (mem_of_mem_withPrev hx)).symm]
        exact hlinked x (List.mem_append_left _ hx))
      (fun a ha => hdecodes a (List.mem_append_left _ ha))
      (fun a ha => hto a (List.mem_append_left _ ha)) hpair
    refine ⟨cache', ?_, ?_, ?_⟩
    · intro n
      have hfuel : n + (dropped ++ [b]).length = n + dropped.length + 1 := by simp; omega
      rw [hfuel, rollbackLoop_pop cml toPoint htop (hto b (by simp)) hb (hdecodes b (by simp)),
        hloop]
      cases cml.rollbackLoop toPoint n cache' <;> simp
    · rw [htip', if_neg (by simp : dropped ++ [b] ≠ [])]
      split
      · rename_i hd
        subst hd
        simp
      · rfl
    · intro q
      rw [hblock q, LedgerCache.getBlock_setTip, LedgerCache.getBlock_delete]
      by_cases hq : q ∈ dropped.map cml.point
      · have hq' : q ∈ (dropped ++ [b]).map cml.point := by
          rw [List.map_append]
          exact List.mem_append_left _ hq
        rw [if_pos hq, if_pos hq']
      · rw [if_neg hq]
        by_cases heq : cml.point b = q
        · subst heq
          simp
        · have hq' : q ∉ (dropped ++ [b]).map cml.point := by
            rw [List.map_append, List.mem_append]
            rintro (h | h)
            · exact hq h
            · exact heq (List.mem_singleton.mp h).symm
          rw [if_neg heq, if_neg hq']

end Rollback

end Cml

end UtxoMonitor
