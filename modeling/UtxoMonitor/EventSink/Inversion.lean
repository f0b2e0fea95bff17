import UtxoMonitor.EventSink.Transitions

/-! A chain of transactions applied and then unapplied: what is sent on the way back is the inverse
of what was sent on the way there. -/
namespace UtxoMonitor.EventSink

open Lib LiquidityBook Domain

section Inversion

variable {T : Type} [LedgerEntity T] [TryFromLedger T (StableId T)]

/-! ### Chains of transactions -/

/-- A transaction of a block, and how the events of its application and of its rollback are
handled. -/
structure ChainTx (T : Type) [LedgerEntity T] where
  tx : TxViewMut
  slot : Slot
  blockNumber : UInt64
  blockHash : BlockHeaderHash
  applied : Moment (StableId T) (PairId T)
  unapplied : Moment (StableId T) (PairId T)

abbrev LedgerHandled (T : Type) [LedgerEntity T] :=
  Handled (InMemoryEntityIndex T) (PairUpdate T) (LedgerTxEvent TxViewMut)

namespace ChainTx

def apply (c : ChainTx T) (index : InMemoryEntityIndex T) : LedgerHandled T :=
  PairUpdateHandler.tryHandleLedger c.applied index
    (.txApplied c.tx c.slot c.blockNumber c.blockHash)

def unapply (c : ChainTx T) (index : InMemoryEntityIndex T) : LedgerHandled T :=
  PairUpdateHandler.tryHandleLedger c.unapplied index
    (.txUnapplied c.tx c.slot c.blockNumber c.blockHash)

end ChainTx

/-- Events handled one after the other, with what comes of each and the index in the end. -/
def handleAll (handle : ChainTx T → InMemoryEntityIndex T → LedgerHandled T) :
    InMemoryEntityIndex T → List (ChainTx T) →
      List (ChainTx T × LedgerHandled T) × InMemoryEntityIndex T
  | index, [] => ([], index)
  | index, c :: cs =>
    let handled := handle c index
    let rest := handleAll handle handled.index cs
    ((c, handled) :: rest.1, rest.2)

/-- No deadline expires while the events are handled. -/
def NothingDue (handle : ChainTx T → InMemoryEntityIndex T → LedgerHandled T)
    (now : ChainTx T → Nat) : InMemoryEntityIndex T → List (ChainTx T) → Prop
  | _, [] => True
  | index, c :: cs =>
    (∀ entry ∈ index.evictionQueue, now c < entry.1) ∧
      NothingDue handle now (handle c index).index cs

instance (handle : ChainTx T → InMemoryEntityIndex T → LedgerHandled T) (now : ChainTx T → Nat) :
    (index : InMemoryEntityIndex T) → (cs : List (ChainTx T)) →
      Decidable (NothingDue handle now index cs)
  | _, [] => isTrue trivial
  | index, c :: cs =>
    have := instDecidableNothingDue handle now (handle c index).index cs
    inferInstanceAs (Decidable (_ ∧ _))

/-! ### What is assumed of the entities and the transactions -/

/-- Versions are references to outputs, and entities have the version of the output they are read
from. -/
class VersionedByOutput (T : Type) [LedgerEntity T] [TryFromLedger T (StableId T)] : Prop where
  versionOf_injective : Function.Injective (versionOf : OutputRef → Version T)
  version_of_read : ∀ {o : Pools.TransactionOutput} {cx : EventContext (StableId T)} {e : T},
    tryFromLedger o cx = some e → version e = versionOf cx.outputRef

variable (T) in
/-- The outputs are read the same in whatever order the maps of the handler are walked. -/
def OrderFree (tx : TxViewMut) : Prop :=
  ∀ (index : InMemoryEntityIndex T) (m m' : Moment (StableId T) (PairId T)),
    readOutputs m index tx = readOutputs m' index tx

/-- No transaction spends an output of its own or of a later transaction. -/
def Ordered : List (ChainTx T) → Prop
  | [] => True
  | c :: cs => (∀ d ∈ c :: cs, ∀ i ∈ c.tx.inputs, i.transactionId ≠ d.tx.hash) ∧ Ordered cs

instance : (cs : List (ChainTx T)) → Decidable (Ordered cs)
  | [] => isTrue trivial
  | c :: cs =>
    have := instDecidableOrdered cs
    inferInstanceAs (Decidable ((∀ d ∈ c :: cs, _) ∧ Ordered cs))

/-! ### Inverses -/

/-- The inverse of a message: `Backward` of the swapped transition, for the pair of the state it
starts from. -/
def inverse : PairUpdate T → PairUpdate T
  | (_, .ledger (.forward tr) cx) => (pairIdOf tr.swap, .ledger (.backward tr.swap) cx)
  | msg => msg

/-- An update leaves an entity on its pair. -/
def StaysOnPair (tr : Ior T T) : Prop :=
  ∀ old new, tr = .both old new → pairId old = pairId new

variable (T) in
/-- What is left of the outputs: in their order, those that no entity is read from. -/
def Unrecognised (tx : TxViewMut) (rest : List (UInt64 × Pools.TransactionOutput)) : Prop :=
  ∃ verdicts : List Bool, verdicts.length = tx.outputs.length ∧
    rest = ((tx.outputs.zip verdicts).filter fun p => !p.2).map Prod.fst ∧
    ∀ p ∈ tx.outputs.zip verdicts, ∃ cx : EventContext (StableId T),
      cx.outputRef = tx.refOf p.1 ∧ cx.consumedUtxos = .new tx.consumedUtxos ∧
      (tryFromLedger p.1.2 cx : Option T).isSome = p.2

/-- What comes of unapplying a transaction inverts what came of applying it. -/
def Inverts (c : ChainTx T) (applied unapplied : LedgerHandled T) : Prop :=
  unapplied.sent.Perm (applied.sent.map inverse) ∧
  (∀ pair tr cx, (pair, .ledger (.forward tr) cx) ∈ applied.sent → StaysOnPair tr →
    pairIdOf tr.swap = pair) ∧
  ∃ rest, Unrecognised T c.tx rest ∧
    applied.remainder = some (.txApplied (c.tx.leave rest) c.slot c.blockNumber c.blockHash) ∧
    unapplied.remainder = some (.txUnapplied (c.tx.leave rest) c.slot c.blockNumber c.blockHash)

/-! ### The same transitions on the way back -/

section Transitions

variable {m m' : Moment (StableId T) (PairId T)} {index index' : InMemoryEntityIndex T}
  {tx : TxViewMut}

theorem readOutputs_congr (h : spent index tx.inputs = spent index' tx.inputs) :
    readOutputs m index tx = readOutputs m index' tx := by
  have hread : readEntity m index tx = readEntity m index' tx := by
    funext out produced
    simp only [readEntity, eventContext, consumedEntities_eq, h]
  rw [readOutputs, readOutputs, hread]

theorem found_perm (hspent : spent index tx.inputs = spent index' tx.inputs)
    (hread : readOutputs m index tx = readOutputs m' index' tx) :
    (found m index tx).Perm (found m' index' tx) := by
  have hmade : recognised m index tx = recognised m' index' tx := by
    rw [recognised, recognised, hread]
  rw [found, found, hspent, hmade]
  split
  · exact List.Perm.refl []
  · exact ((m.recognised.perm _).trans (m'.recognised.perm _).symm).filterMap _

theorem unrecognised_unread : Unrecognised T tx (unread m index tx) := by
  obtain ⟨verdicts, hlength, hrest, hread⟩ := popOutputs_snd
  refine ⟨verdicts, hlength, hrest, ?_⟩
  intro p hp
  obtain ⟨entities, hverdict⟩ := hread p hp
  refine ⟨eventContext m index tx p.1 (collect stableId entities), rfl, rfl, ?_⟩
  rw [← hverdict, Option.isSome_map]
  rfl

end Transitions

/-! ### What the index still has -/

section Index

variable {index : InMemoryEntityIndex T} {ver : Version T} {now : Nat}

omit [TryFromLedger T (StableId T)] in
theorem getState_indexTransition {tr : Ior T T}
    (h : ∀ e, tr.snd = some e → version e = ver → index.getState ver = some e) :
    (indexTransition now index tr).getState ver = index.getState ver := by
  have hput : ∀ (index' : InMemoryEntityIndex T) e, tr.snd = some e →
      index'.getState ver = index.getState ver →
      (index'.putState e).getState ver = index.getState ver := by
    intro index' e he hsame
    rw [InMemoryEntityIndex.getState_putState]
    split
    · rename_i hver
      exact (h e he hver.symm).symm
    · exact hsame
  cases tr with
  | left consumed => rfl
  | right produced => exact hput index produced rfl rfl
  | both consumed produced => exact hput _ produced rfl rfl

omit [TryFromLedger T (StableId T)] in
theorem getState_foldl {trs : List (Ior T T)}
    (h : ∀ tr ∈ trs, ∀ e, tr.snd = some e → version e = ver → index.getState ver = some e) :
    (trs.foldl (indexTransition now) index).getState ver = index.getState ver := by
  induction trs generalizing index with
  | nil => rfl
  | cons tr trs ih =>
    have hsame : (indexTransition now index tr).getState ver = index.getState ver :=
      getState_indexTransition (h tr List.mem_cons_self)
    rw [List.foldl_cons, ih, hsame]
    intro tr' htr' e he hver
    rw [hsame]
    exact h tr' (List.mem_cons_of_mem _ htr') e he hver

variable {c : ChainTx T}

theorem apply_eq (c : ChainTx T) (index : InMemoryEntityIndex T) : c.apply index = {
    index := if found c.applied index c.tx = [] then index else
      ((found c.applied index c.tx).map id).foldl (indexTransition c.applied.now)
        (index.runEviction c.applied.now)
    sent := batchSend c.applied.pairs ((found c.applied index c.tx).map fun tr =>
      (pairIdOf tr, .ledger (.forward tr) ⟨c.blockHash, c.slot⟩))
    remainder := some (.txApplied (c.tx.leave (unread c.applied index c.tx)) c.slot c.blockNumber
      c.blockHash) } :=
  commit_extract

theorem unapply_eq (c : ChainTx T) (index : InMemoryEntityIndex T) : c.unapply index = {
    index := if found c.unapplied index c.tx = [] then index else
      ((found c.unapplied index c.tx).map Ior.swap).foldl (indexTransition c.unapplied.now)
        (index.runEviction c.unapplied.now)
    sent := batchSend c.unapplied.pairs ((found c.unapplied index c.tx).map fun tr =>
      (pairIdOf tr.swap, .ledger (.backward tr.swap) ⟨c.blockHash, c.slot⟩))
    remainder := some (.txUnapplied (c.tx.leave (unread c.unapplied index c.tx)) c.slot
      c.blockNumber c.blockHash) } :=
  commit_extract

/-- Applying a transaction changes the states of its own outputs only. -/
theorem getState_apply [VersionedByOutput T] {o : OutputRef}
    (hdue : ∀ entry ∈ index.evictionQueue, c.applied.now < entry.1) (ho : o.txHash ≠ c.tx.hash) :
    (c.apply index).index.getState (versionOf o) = index.getState (versionOf o) := by
  rw [apply_eq, InMemoryEntityIndex.runEviction_of_fresh hdue]
  dsimp only
  split
  · rfl
  · rw [List.map_id]
    apply getState_foldl
    intro tr htr e he hver
    obtain ⟨_, k, _, hsnd⟩ := mem_found.mp htr
    rw [he] at hsnd
    obtain ⟨out, _, produced, hread⟩ := read_of_mem_recognised (of_lookup_collect hsnd).1
    have hout := VersionedByOutput.version_of_read hread
    rw [hver] at hout
    have href := VersionedByOutput.versionOf_injective hout
    exact absurd (congrArg OutputRef.txHash href) ho

/-- Unapplying a transaction puts back what is there. -/
theorem getState_unapply (hdue : ∀ entry ∈ index.evictionQueue, c.unapplied.now < entry.1) :
    (c.unapply index).index.getState ver = index.getState ver := by
  rw [unapply_eq, InMemoryEntityIndex.runEviction_of_fresh hdue]
  dsimp only
  split
  · rfl
  · apply getState_foldl
    intro tr htr e he hver
    obtain ⟨tr', htr', rfl⟩ := List.mem_map.mp htr
    rw [Ior.snd_swap] at he
    obtain ⟨_, k, hfst, _⟩ := mem_found.mp htr'
    rw [he] at hfst
    obtain ⟨i, _, hi⟩ := List.mem_filterMap.mp (of_lookup_collect hfst).1
    rw [← hver, InMemoryEntityIndex.version_of_getState hi, hi]

end Index

/-! ### One transaction -/

omit [TryFromLedger T (StableId T)] in
theorem pairIdOf_swap {tr : Ior T T} (h : StaysOnPair tr) : pairIdOf tr.swap = pairIdOf tr := by
  cases tr with
  | left consumed => rfl
  | right produced => rfl
  | both old new => exact (h old new rfl).symm

theorem inverts {c : ChainTx T} {index index' : InMemoryEntityIndex T} (hfree : OrderFree T c.tx)
    (hspent : spent index' c.tx.inputs = spent index c.tx.inputs) :
    Inverts c (c.apply index) (c.unapply index') := by
  have hread : readOutputs c.unapplied index' c.tx = readOutputs c.applied index c.tx :=
    (readOutputs_congr hspent).trans (hfree index c.unapplied c.applied)
  have hunread : unread c.unapplied index' c.tx = unread c.applied index c.tx := by
    rw [unread, unread, hread]
  rw [apply_eq, unapply_eq]
  refine ⟨?_, ?_, unread c.applied index c.tx, unrecognised_unread, rfl, by rw [hunread]⟩
  · dsimp only
    have hback := perm_batchSend c.unapplied.pairs ((found c.unapplied index' c.tx).map fun tr =>
      ((pairIdOf tr.swap, .ledger (.backward tr.swap) ⟨c.blockHash, c.slot⟩) : PairUpdate T))
    have hthere := (perm_batchSend c.applied.pairs ((found c.applied index c.tx).map fun tr =>
      ((pairIdOf tr, .ledger (.forward tr) ⟨c.blockHash, c.slot⟩) : PairUpdate T))).map inverse
    rw [List.map_map] at hthere
    exact (hback.trans ((found_perm hspent hread).map _)).trans hthere.symm
  · intro pair tr cx hmem hstays
    rw [(perm_batchSend c.applied.pairs _).mem_iff] at hmem
    obtain ⟨tr', _, heq⟩ := List.mem_map.mp hmem
    cases heq
    exact pairIdOf_swap hstays

/-! ### The chain -/

section Chain

variable {index : InMemoryEntityIndex T} {cs ds : List (ChainTx T)}

omit [TryFromLedger T (StableId T)] in
theorem handleAll_append (handle : ChainTx T → InMemoryEntityIndex T → LedgerHandled T) :
    handleAll handle index (cs ++ ds) =
      ((handleAll handle index cs).1 ++ (handleAll handle (handleAll handle index cs).2 ds).1,
        (handleAll handle (handleAll handle index cs).2 ds).2) := by
  induction cs generalizing index with
  | nil => rfl
  | cons c cs ih =>
    rw [List.cons_append, handleAll, ih]
    rfl

omit [TryFromLedger T (StableId T)] in
theorem nothingDue_append {handle : ChainTx T → InMemoryEntityIndex T → LedgerHandled T}
    {now : ChainTx T → Nat} : NothingDue handle now index (cs ++ ds) ↔
      NothingDue handle now index cs ∧ NothingDue handle now (handleAll handle index cs).2 ds := by
  induction cs generalizing index with
  | nil => simp [NothingDue, handleAll]
  | cons c cs ih =>
    rw [List.cons_append, NothingDue, ih, NothingDue, and_assoc]
    rfl

theorem getState_applyAll [VersionedByOutput T] {o : OutputRef}
    (hdue : NothingDue ChainTx.apply (·.applied.now) index cs)
    (ho : ∀ d ∈ cs, o.txHash ≠ d.tx.hash) :
    (handleAll ChainTx.apply index cs).2.getState (versionOf o) =
      index.getState (versionOf o) := by
  induction cs generalizing index with
  | nil => rfl
  | cons c cs ih =>
    have hrest := ih hdue.2 fun d hd => ho d (List.mem_cons_of_mem _ hd)
    exact hrest.trans (getState_apply hdue.1 (ho c List.mem_cons_self))

theorem getState_unapplyAll {ver : Version T}
    (hdue : NothingDue ChainTx.unapply (·.unapplied.now) index cs) :
    (handleAll ChainTx.unapply index cs).2.getState ver = index.getState ver := by
  induction cs generalizing index with
  | nil => rfl
  | cons c cs ih => exact (ih hdue.2).trans (getState_unapply hdue.1)

/-- Unapplying a chain of transactions in reverse order sends, transaction by transaction in that
order, the inverses of what was sent when they were applied, and passes on the same outputs. -/
theorem unapply_inverts_apply [VersionedByOutput T] (hordered : Ordered cs)
    (hfree : ∀ c ∈ cs, OrderFree T c.tx)
    (hthere : NothingDue ChainTx.apply (·.applied.now) index cs)
    (hback : NothingDue ChainTx.unapply (·.unapplied.now) (handleAll ChainTx.apply index cs).2
      cs.reverse) :
    List.Forall₂ (fun there back => there.1 = back.1 ∧ Inverts there.1 there.2 back.2)
      (handleAll ChainTx.apply index cs).1
      (handleAll ChainTx.unapply (handleAll ChainTx.apply index cs).2 cs.reverse).1.reverse := by
  induction cs generalizing index with
  | nil => exact List.Forall₂.nil
  | cons c cs ih =>
    rw [List.reverse_cons, nothingDue_append] at hback
    have hrest := ih hordered.2 (fun d hd => hfree d (List.mem_cons_of_mem _ hd)) hthere.2 hback.1
    rw [List.reverse_cons, handleAll_append, List.reverse_append]
    refine List.Forall₂.cons ⟨rfl, inverts (hfree c List.mem_cons_self) ?_⟩ hrest
    -- Nothing that happened since has touched what the transaction spends.
    apply List.filterMap_congr
    intro i hi
    have hnotOwn : ∀ d ∈ c :: cs, (OutputRef.ofInput i).txHash ≠ d.tx.hash :=
      fun d hd => hordered.1 d hd i hi
    exact (getState_unapplyAll hback.1).trans (getState_applyAll hthere hnotOwn)

end Chain

end Inversion

instance : VersionedByOutput TrivialEntity where
  versionOf_injective := Function.injective_id
  version_of_read h := by
    cases h
    rfl

def chainTx {T : Type} [LedgerEntity T] (now later : Moment (StableId T) (PairId T))
    (tx : TxViewMut) : ChainTx T :=
  ⟨tx, 1, 1, .replicate 0, now, later⟩

/-- The chain the tests of the handler apply. -/
def sampleChain : List (ChainTx TrivialEntity) :=
  [chainTx (sampleMoment 0) (sampleMoment 3) (sampleTx 1 0 [1000]),
    chainTx (sampleMoment 1) (sampleMoment 2) (sampleTx 2 1 [98000])]

theorem unapply_inverts_apply_sample :
    List.Forall₂ (fun there back => there.1 = back.1 ∧ Inverts there.1 there.2 back.2)
      (handleAll ChainTx.apply (.new 300) sampleChain).1
      (handleAll ChainTx.unapply (handleAll ChainTx.apply (.new 300) sampleChain).2
        sampleChain.reverse).1.reverse := by
  apply unapply_inverts_apply
  · decide +kernel
  · intro c _ index m m'
    rfl
  · decide +kernel
  · decide +kernel

/-! ### What is not inverted exactly -/

section Exact

variable {T : Type} [LedgerEntity T] [TryFromLedger T (StableId T)]

/-- The inverse of a message, for the same pair. -/
def inverseOnPair : PairUpdate T → PairUpdate T
  | (pair, .ledger (.forward tr) cx) => (pair, .ledger (.backward tr.swap) cx)
  | msg => msg

def sentThere (cs : List (ChainTx T)) : List (PairUpdate T) :=
  (handleAll ChainTx.apply (.new 300) cs).1.flatMap fun handled => handled.2.sent

def sentBack (cs : List (ChainTx T)) : List (PairUpdate T) :=
  (handleAll ChainTx.unapply (handleAll ChainTx.apply (.new 300) cs).2 cs.reverse).1.flatMap
    fun handled => handled.2.sent

/-- The chain is in order, and nothing is due for eviction while it is applied and unapplied. -/
def Undisturbed (cs : List (ChainTx T)) : Prop :=
  Ordered cs ∧ NothingDue ChainTx.apply (·.applied.now) (.new 300) cs ∧
    NothingDue ChainTx.unapply (·.unapplied.now) (handleAll ChainTx.apply (.new 300) cs).2
      cs.reverse

instance (cs : List (ChainTx T)) : Decidable (Undisturbed cs) :=
  inferInstanceAs (Decidable (_ ∧ _))

end Exact

/-- An entity whose id and pair are the last digits of the coin. From 100 on, outputs are entities
only if entity 1 is the first one listed as spent. -/
structure CoinEntity where
  ref : OutputRef
  coin : Nat
deriving DecidableEq

instance : LedgerEntity CoinEntity where
  StableId := Nat
  decEqId := inferInstance
  stableId e := e.coin / 10 % 10
  Version := OutputRef
  decEqVersion := inferInstance
  version := CoinEntity.ref
  isQuasiPermanent _ := false
  PairId := Nat
  decEqPairId := inferInstance
  pairId e := e.coin % 10
  versionOf := id

instance : TryFromLedger CoinEntity (StableId CoinEntity) where
  tryFromLedger repr ctx :=
    if repr.value.coin < 100 ∨ ctx.consumedIdentifiers.val.head? = some (1 : Nat) then
      some ⟨ctx.outputRef, repr.value.coin⟩
    else none

def coinMoment (now : Nat) (consumed : Walk Nat) : Moment (StableId CoinEntity) (PairId CoinEntity) :=
  ⟨now, consumed, default, default, default⟩

/-- Entities 1 and 2 are made by one transaction. -/
def twoMade : List (ChainTx CoinEntity) :=
  [chainTx (coinMoment 0 default) (coinMoment 1 default) (sampleTx 1 0 [10, 20])]

/-- Entity 1 is moved from pair 0 to pair 1. -/
def pairMoved : List (ChainTx CoinEntity) :=
  [chainTx (coinMoment 0 default) (coinMoment 3 default) (sampleTx 1 0 [10]),
    chainTx (coinMoment 1 default) (coinMoment 2 default) (sampleTx 2 1 [11])]

/-- Entities 1 and 2 are spent by one transaction, and listed in another order on the way back. -/
def listedOtherwise : List (ChainTx CoinEntity) :=
  [chainTx (coinMoment 0 default) (coinMoment 5 default) (sampleTx 1 0 [10]),
    chainTx (coinMoment 1 default) (coinMoment 4 default) (sampleTx 2 0 [20]),
    chainTx (coinMoment 2 ⟨List.reverse, List.reverse_perm⟩) (coinMoment 3 default)
      { sampleTx 3 1 [130] with inputs := [⟨.replicate 1, 0⟩, ⟨.replicate 2, 0⟩] }]

/-- What is sent on the way back need not be the reverse of what was sent on the way there, nor go to
the same pairs, nor even be about the same outputs. -/
theorem not_exactly_inverted :
    (Undisturbed twoMade ∧ sentBack twoMade ≠ ((sentThere twoMade).map inverseOnPair).reverse) ∧
    (Undisturbed pairMoved ∧
      (sentBack pairMoved).map Prod.fst ≠ ((sentThere pairMoved).map Prod.fst).reverse) ∧
    (Undisturbed listedOtherwise ∧
      (sentBack listedOtherwise).length ≠ (sentThere listedOtherwise).length) := by
  decide +kernel

end UtxoMonitor.EventSink
