import UtxoMonitor.ExecutionEngine.Entities

/-! The executor: it follows the events of every pair, matches what its books hold, and waits for the
feedback on what it submitted. -/
namespace UtxoMonitor.ExecutionEngine

open LiquidityBook Domain

/-- `Has<V>` for bearers -/
class HasVersion (B : Type) (V : outParam Type) where
  select : B → V

/-- A wait until the state is synced, or until no rollback is in progress. -/
inductive Blocker where
  | stateSynced
  | rollbackOver
deriving DecidableEq

structure Executor (IX L PR CO P V B SO : Type) {U : Type} [MarketTaker CO U] [Ord CO] [Stable P]
    [Ord B] where
  /-- Storage for all on-chain states. -/
  index : IX
  /-- Separate books for each pair (for swaps). -/
  multiBook : MultiPair PR (TLB CO P)
  /-- Separate backlogs for each pair (for specialized operations such as deposits). -/
  multiBacklog : MultiPair PR L
  fundingPool : Std.ExtTreeSet B compare
  /-- Pending effects resulted from execution of a batch trade in a certain pair. -/
  pendingEffects : Option (Effects PR CO SO P V B)
  /-- Which pair should we process in the first place. -/
  focusSet : FocusSet PR
  /-- Temporarily memoize entities that came from unconfirmed updates. -/
  skipFilter : CircularFilter 256 V
  blocker : Option Blocker

/-- News of an entity that trades in the book, or of an order of the backlog. -/
abbrev Event (CO SO P B V LCX : Type) :=
  Channel (Transition (EvolvingEntity CO P V B)) LCX ⊕ Channel (OrderUpdate (Bundled SO B) SO) LCX

structure ExecutionResult (CO P V B TC : Type) where
  txc : TC
  matchmakingEffects : List (ExecutionEff (EvolvingEntity CO P V B) (EvolvingEntity CO P V B))
  fundingIO : FundingIO B B

/-- What makes transactions of recipes and of single orders. The interpreters have states of their own,
so the same recipe may have several results. -/
structure Interpreters (CO SO P V B TC TX : Type) where
  tradeInterpreter : ExecutionRecipe CO P B → B → ExecutionResult CO P V B TC → Prop
  specInterpreter : Bundled P B → Bundled SO B →
    Option (TC × Bundled (Baked P V) B × Bundled SO B) → Prop
  prove : TC → TX

namespace Executor

variable {IX L PR CO P V B SO SID U LCX TC TX : Type} [DecidableEq PR] [DecidableEq V]
  [DecidableEq SID] [Stable CO] [MarketTaker CO U] [TakerBehaviour CO] [Ord CO] [SideOrd CO]
  [Stable P] [MarketMaker P U] [MakerBehavior P] [Composable CO P SID] [Ord B] [Std.TransOrd B]
  [StateIndex IX (EvolvingEntity CO P V B)] [SpecializedOrder SO V SID]
  [HotBacklog L (Bundled SO B) V]

def new (index : IX) (multiBook : MultiPair PR (TLB CO P)) (multiBacklog : MultiPair PR L) :
    Executor IX L PR CO P V B SO where
  index := index
  multiBook := multiBook
  multiBacklog := multiBacklog
  fundingPool := ∅
  pendingEffects := none
  focusSet := .new
  skipFilter := .new
  blocker := none

/-! ### Syncing -/

def withBacklog (self : Executor IX L PR CO P V B SO) (pair : PR) (f : L → L) :
    Executor IX L PR CO P V B SO :=
  { self with multiBacklog := self.multiBacklog.put pair (f (self.multiBacklog.get pair)) }

def withBook (self : Executor IX L PR CO P V B SO) (pair : PR)
    (f : TLB CO P → Except Panic (TLB CO P)) : Except Panic (Executor IX L PR CO P V B SO) := do
  let book ← f (self.multiBook.get pair)
  return { self with multiBook := self.multiBook.put pair book }

def syncBacklog (self : Executor IX L PR CO P V B SO) (pair : PR)
    (update : Channel (OrderUpdate (Bundled SO B) SO) LCX) : Executor IX L PR CO P V B SO :=
  match update.erased with
  | .created newOrder =>
    if self.skipFilter.contains (SpecializedOrder.getSelfRef newOrder.entity) then self
    else self.withBacklog pair fun backlog => HotBacklog.put backlog newOrder
  | .eliminated elimOrder =>
    let elimOrderId := SpecializedOrder.getSelfRef elimOrder
    match update with
    | .ledger _ _ => self.withBacklog pair fun backlog =>
        HotBacklog.remove (O := Bundled SO B) backlog elimOrderId
    | _ => self.withBacklog pair fun backlog =>
        HotBacklog.softEvict (O := Bundled SO B) backlog elimOrderId

def syncBook (self : Executor IX L PR CO P V B SO) (pair : PR) :
    Ior (BakedEntity CO P V) (BakedEntity CO P V) → Except Panic (Executor IX L PR CO P V B SO)
  | .left (.inl o) => self.withBook pair fun book => book.removeTaker o.entity
  | .left (.inr p) => self.withBook pair fun book => book.removeMaker p.entity
  | .both (.inl old) (.inl new) => do
    let self ← self.withBook pair fun book => book.removeTaker old.entity
    self.withBook pair fun book => book.updateTaker new.entity
  | .both _ (.inr new) => self.withBook pair fun book => book.updateMaker new.entity
  | .both (.inr _) (.inl _) => throw .unreachable
  | .right (.inl new) => self.withBook pair fun book => book.updateTaker new.entity
  | .right (.inr new) => self.withBook pair fun book => book.updateMaker new.entity

/-- A book is synced if there is something to sync. -/
def syncBookWith (self : Executor IX L PR CO P V B SO) (pair : PR)
    (transition : Option (Ior (BakedEntity CO P V) (BakedEntity CO P V))) :
    Except Panic (Executor IX L PR CO P V B SO) :=
  match transition with
  | some tr => self.syncBook pair tr
  | none => return self

def toTransition {T : Type} : Option (Bundled T B) → Option (Bundled T B) → Option (Ior T T)
  | some elimState, none => some (.left elimState.entity)
  | none, some newState => some (.right newState.entity)
  | some prevBestState, some newBestState => some (.both prevBestState.entity newBestState.entity)
  | none, none => none

/-- Invalidates one version after the other, and returns those of which the index has no state. -/
def invalidateVersions (self : Executor IX L PR CO P V B SO) (pair : PR) :
    List V → Except Panic (Executor IX L PR CO P V B SO × List V)
  | [] => return (self, [])
  | ver :: versions =>
    match StateIndex.getState (T := EvolvingEntity CO P V B) self.index ver with
    | some state => do
      let id := entityId state.entity
      let stateBeforeInvalidation := resolveState (T := EvolvingEntity CO P V B) id self.index
      let index := StateIndex.invalidateVersion (T := EvolvingEntity CO P V B) self.index ver
      let stateAfterInvalidation := resolveState (T := EvolvingEntity CO P V B) id index
      let self ← { self with index := index }.syncBookWith pair
        (toTransition stateBeforeInvalidation stateAfterInvalidation)
      self.invalidateVersions pair versions
    | none => do
      let (self, missingBearers) ← self.invalidateVersions pair versions
      return (self, ver :: missingBearers)

/-- The state is put as what its news tells it is. -/
def putState (index : IX) (update : Channel (Transition (EvolvingEntity CO P V B)) LCX)
    (newState : EvolvingEntity CO P V B) : IX :=
  match update with
  | .ledger _ _ => StateIndex.putConfirmed index newState
  | .mempool _ => StateIndex.putUnconfirmed index newState
  | .localTxSubmit _ => StateIndex.putPredicted index newState

/-- A new state is put, once the state it is rolled back from is invalidated. States that the
executor has moved on from are filed away. -/
def observeState (self : Executor IX L PR CO P V B SO)
    (update : Channel (Transition (EvolvingEntity CO P V B)) LCX)
    (newState : EvolvingEntity CO P V B) (stateToRollback : Option V) (isRollbackUpd : Bool) :
    Option (Ior (BakedEntity CO P V) (BakedEntity CO P V)) × Executor IX L PR CO P V B SO :=
  let id := entityId newState.entity
  let ver := entityVersion newState.entity
  if self.skipFilter.contains ver ∧ ¬ isRollbackUpd then
    (none, { self with
      index :=
        match update with
        | .ledger _ _ => StateIndex.putConfirmed self.index newState
        | _ => StateIndex.putFallback self.index newState })
  else
    let skipFilter := if self.skipFilter.contains ver then self.skipFilter.remove ver
      else self.skipFilter
    let stateBeforeUpdate := resolveState (T := EvolvingEntity CO P V B) id self.index
    let index :=
      match stateToRollback with
      | some stateToRollback =>
        StateIndex.invalidateVersion (T := EvolvingEntity CO P V B) self.index stateToRollback
      | none => self.index
    let index := putState index update newState
    let stateAfterUpdate := resolveState (T := EvolvingEntity CO P V B) id index
    (toTransition stateBeforeUpdate stateAfterUpdate,
      { self with index := index, skipFilter := skipFilter })

/-- An entity is gone. -/
def eliminateState (self : Executor IX L PR CO P V B SO)
    (update : Channel (Transition (EvolvingEntity CO P V B)) LCX) (st : EvolvingEntity CO P V B) :
    Option (Ior (BakedEntity CO P V) (BakedEntity CO P V)) × Executor IX L PR CO P V B SO :=
  let fromLedger :=
    match update with
    | .ledger _ _ => true
    | _ => false
  (some (.left st.entity),
    if fromLedger || !EntitySnapshot.isQuasiPermanent st then
      { self with
        index := StateIndex.eliminate (T := EvolvingEntity CO P V B) self.index (entityId st.entity) }
    else self)

def updateState (self : Executor IX L PR CO P V B SO)
    (update : Channel (Transition (EvolvingEntity CO P V B)) LCX) :
    Option (Ior (BakedEntity CO P V) (BakedEntity CO P V)) × Executor IX L PR CO P V B SO :=
  match update.erased with
  | .forward (.right newState) => self.observeState update newState none false
  | .forward (.both _ newState) => self.observeState update newState none false
  | .backward (.right newState) => self.observeState update newState none true
  | .backward (.both rolledBackState newState) =>
    self.observeState update newState (some (entityVersion rolledBackState.entity)) true
  | .forward (.left st) => self.eliminateState update st
  | .backward (.left st) => self.eliminateState update st

/-! ### Feedback -/

def onEntityProcessed (self : Executor IX L PR CO P V B SO) (ver : V) :
    Executor IX L PR CO P V B SO :=
  { self with skipFilter := (self.skipFilter.add ver).1 }

/-- The effects of a batch are applied one after the other. -/
def applyEffects (self : Executor IX L PR CO P V B SO) (pair : PR) :
    List (ExecutionEff (EvolvingEntity CO P V B) (EvolvingEntity CO P V B)) →
      Except Panic (Executor IX L PR CO P V B SO)
  | [] => return self
  | .updated elim upd :: effs => do
    let (tr, self) := (self.onEntityProcessed (entityVersion elim.entity)).updateState
      (.localTxSubmit (.forward (.both elim upd)) : Channel _ Unit)
    let self ← self.syncBookWith pair tr
    self.applyEffects pair effs
  | .eliminated elim :: effs => do
    let (tr, self) := (self.onEntityProcessed (entityVersion elim.entity)).updateState
      (.localTxSubmit (.forward (.left elim)) : Channel _ Unit)
    let self ← self.syncBookWith pair tr
    self.applyEffects pair effs

/-- The effects are taken from the last on. -/
def onExecutionEffectsSuccess (self : Executor IX L PR CO P V B SO)
    (effects : ExecutionEffectsByPair PR CO SO P V B) :
    Except Panic (Executor IX L PR CO P V B SO) :=
  match effects.pendingEffects with
  | .fromLiquidityBook pendingEffects => do
    let self ← self.withBook effects.pair fun book => return book.onRecipeSucceeded
    self.applyEffects effects.pair pendingEffects.reverse
  | .fromBacklog newPool consumedOrd =>
    return ((self.onEntityProcessed (SpecializedOrder.getSelfRef consumedOrd.entity)).updateState
      (.localTxSubmit (.forward (.right ⟨.inr newPool.entity, newPool.bearer⟩)) : Channel _ Unit)).2

/-- The orders that a batch consumes. -/
def consumedOrders
    (effs : List (ExecutionEff (EvolvingEntity CO P V B) (EvolvingEntity CO P V B))) : List CO :=
  effs.filterMap fun eff =>
    match eff with
    | .updated ⟨.inl order, _⟩ _ => some order.entity
    | .eliminated ⟨.inl order, _⟩ => some order.entity
    | _ => none

/-- The error tells which inputs are missing, or nothing. The versions are those of the missing inputs
that the batch consumes. -/
def onExecutionEffectsFailure (self : Executor IX L PR CO P V B SO)
    (missingInputs : Option (Finset V)) (effects : ExecutionEffectsByPair PR CO SO P V B)
    (relevantBearers : List V) : Except Panic (Executor IX L PR CO P V B SO) :=
  match missingInputs with
  | some missingInputs =>
    match effects.pendingEffects with
    | .fromLiquidityBook _ => do
      let self ← self.withBook effects.pair fun book => return book.onRecipeFailed
      let (self, unknownBearers) ← self.invalidateVersions effects.pair relevantBearers
      if unknownBearers = [] then return self else throw .stateInconsistency
    | .fromBacklog _ order => do
      let orderRef := SpecializedOrder.getSelfRef order.entity
      let self := self.withBacklog effects.pair fun backlog =>
        if orderRef ∈ missingInputs then HotBacklog.softEvict (O := Bundled SO B) backlog orderRef
        else HotBacklog.put backlog order
      let (self, _) ← self.invalidateVersions effects.pair relevantBearers
      return self
  | none =>
    match effects.pendingEffects with
    | .fromLiquidityBook effs =>
      self.withBook effects.pair fun book =>
        (consumedOrders effs).foldlM TLB.removeTaker book.onRecipeFailed
    | .fromBacklog _ order =>
      return self.withBacklog effects.pair fun backlog => HotBacklog.put backlog order

def onFundingEffectsSuccess (self : Executor IX L PR CO P V B SO) (effects : List (FundingEvent B)) :
    Executor IX L PR CO P V B SO :=
  { self with
    fundingPool := effects.reverse.foldl
      (fun pool effect =>
        match effect with
        | .consumed _ => pool
        | .produced funding => pool.insert funding) self.fundingPool }

def onFundingEffectsFailure [HasVersion B V] (self : Executor IX L PR CO P V B SO)
    (missingInputs : Option (Finset V)) (effects : List (FundingEvent B)) :
    Executor IX L PR CO P V B SO :=
  { self with
    fundingPool := effects.reverse.foldl
      (fun pool effect =>
        match effect with
        | .produced _ => pool
        | .consumed funding =>
          if HasVersion.select funding ∈ missingInputs.getD ∅ then pool else pool.insert funding)
      self.fundingPool }

def onLinkageFailure (self : Executor IX L PR CO P V B SO) (focusPair : PR)
    (orphans : List (CO ⊕ P)) : Except Panic (Executor IX L PR CO P V B SO) :=
  self.withBook focusPair fun book =>
    orphans.foldlM
      (fun book fragment =>
        match fragment with
        | .inl taker => book.removeTaker taker
        | .inr maker => book.removeMaker maker) book.onRecipeFailed

/-! ### Events -/

def onPairEvent (self : Executor IX L PR CO P V B SO) (pair : PR) (event : Event CO SO P B V LCX) :
    Except Panic (Executor IX L PR CO P V B SO) :=
  match event with
  | .inl evolvingEntity => do
    let (upd, self) := self.updateState evolvingEntity
    let self ← self.syncBookWith pair upd
    return { self with focusSet := self.focusSet.pushBack pair }
  | .inr atomicEntity =>
    let self := self.syncBacklog pair atomicEntity
    return { self with focusSet := self.focusSet.pushBack pair }

def onFundingEvent (self : Executor IX L PR CO P V B SO) (event : FundingEvent B) :
    Executor IX L PR CO P V B SO :=
  match event with
  | .consumed fundingBearer => { self with fundingPool := self.fundingPool.erase fundingBearer }
  | .produced fundingBearer => { self with fundingPool := self.fundingPool.insert fundingBearer }

/-! ### Matchmaking -/

/-- The version and the bearer of the latest state of an entity. -/
def linkTo (self : Executor IX L PR CO P V B SO) (id : SID) : Option (V × B) :=
  (resolveState (T := EvolvingEntity CO P V B) id self.index).map fun state =>
    (entityVersion state.entity, state.bearer)

def submitTrade (self : Executor IX L PR CO P V B SO) (focusPair : PR) (funding : B)
    (consumedVersions : Finset V) (result : ExecutionResult CO P V B TC) :
    Executor IX L PR CO P V B SO :=
  let (maybeUnusedFunding, fundingEffects) := result.fundingIO.intoEffects
  let fundingPool := self.fundingPool.erase funding
  { self with
    fundingPool :=
      match maybeUnusedFunding with
      | some unusedFunding => fundingPool.insert unusedFunding
      | none => fundingPool
    pendingEffects := some
      { execution :=
          { pair := focusPair
            consumedVersions := consumedVersions
            pendingEffects := .fromLiquidityBook result.matchmakingEffects }
        funding := fundingEffects }
    focusSet := self.focusSet.pushBack focusPair }

/-- The book of a pair is tried. A recipe that is not submitted is given up. -/
inductive TriesBook [Zero U] [Add U] [LT U] (interpreters : Interpreters CO SO P V B TC TX)
    (focusPair : PR) (self : Executor IX L PR CO P V B SO) :
    Except Panic (Executor IX L PR CO P V B SO × Option TX) → Prop where
  | noRecipe {book : TLB CO P} (attempt : (self.multiBook.get focusPair).Attempted none book) :
    TriesBook interpreters focusPair self
      (.ok ({ self with multiBook := self.multiBook.put focusPair book }, none))
  | submitted {book : TLB CO P} {recipe : MatchmakingRecipe CO P}
    {linkedRecipe : ExecutionRecipe CO P B} {consumedVersions : Finset V} {funding : B}
    {result : ExecutionResult CO P V B TC}
    (attempt : (self.multiBook.get focusPair).Attempted (some recipe) book)
    (link : ExecutionRecipe.link recipe self.linkTo = .ok (linkedRecipe, consumedVersions))
    (pop : self.fundingPool.min? = some funding)
    (run : interpreters.tradeInterpreter linkedRecipe funding result) :
    TriesBook interpreters focusPair self
      (.ok ({ self with multiBook := self.multiBook.put focusPair book }.submitTrade focusPair
        funding consumedVersions result, some (interpreters.prove result.txc)))
  | noFunding {book : TLB CO P} {recipe : MatchmakingRecipe CO P}
    {linked : ExecutionRecipe CO P B × Finset V}
    (attempt : (self.multiBook.get focusPair).Attempted (some recipe) book)
    (link : ExecutionRecipe.link recipe self.linkTo = .ok linked)
    (pop : self.fundingPool.min? = none) :
    TriesBook interpreters focusPair self
      (.ok ({ self with multiBook := self.multiBook.put focusPair book.onRecipeFailed }, none))
  | orphaned {book : TLB CO P} {recipe : MatchmakingRecipe CO P} {invalidFragments : List (CO ⊕ P)}
    (attempt : (self.multiBook.get focusPair).Attempted (some recipe) book)
    (link : ExecutionRecipe.link recipe self.linkTo = .error invalidFragments) :
    TriesBook interpreters focusPair self
      ((fun self => (self, none)) <$>
        { self with multiBook := self.multiBook.put focusPair book }.onLinkageFailure focusPair
          invalidFragments)

/-- The pool that an order is for. -/
def poolOf (self : Executor IX L PR CO P V B SO) (order : Bundled SO B) :
    Option (Bundled (Baked P V) B) :=
  match resolveState (T := EvolvingEntity CO P V B) (SpecializedOrder.getPoolRef order.entity)
      self.index with
  | some ⟨.inr pool, bearer⟩ => some ⟨pool, bearer⟩
  | _ => none

def submitOrder (self : Executor IX L PR CO P V B SO) (focusPair : PR) (pool : Baked P V)
    (updatedPool : Bundled (Baked P V) B) (consumedOrd : Bundled SO B) :
    Executor IX L PR CO P V B SO :=
  { self with
    pendingEffects := some
      { execution :=
          { pair := focusPair
            consumedVersions := {pool.version, SpecializedOrder.getSelfRef consumedOrd.entity}
            pendingEffects := .fromBacklog updatedPool consumedOrd }
        funding := [] }
    focusSet := self.focusSet.pushBack focusPair }

/-- The backlog of a pair is tried. -/
inductive TriesBacklog (interpreters : Interpreters CO SO P V B TC TX) (focusPair : PR)
    (self : Executor IX L PR CO P V B SO) :
    Executor IX L PR CO P V B SO × Option TX → Prop where
  | noOrder {backlog : L}
    (pop : HotBacklog.tryPop (self.multiBacklog.get focusPair) =
      ((none : Option (Bundled SO B)), backlog)) :
    TriesBacklog interpreters focusPair self
      ({ self with multiBacklog := self.multiBacklog.put focusPair backlog }, none)
  | noPool {backlog : L} {nextOrder : Bundled SO B}
    (pop : HotBacklog.tryPop (self.multiBacklog.get focusPair) = (some nextOrder, backlog))
    (resolved : self.poolOf nextOrder = none) :
    TriesBacklog interpreters focusPair self
      ({ self with multiBacklog := self.multiBacklog.put focusPair backlog }, none)
  | notRun {backlog : L} {nextOrder : Bundled SO B} {pool : Bundled (Baked P V) B}
    (pop : HotBacklog.tryPop (self.multiBacklog.get focusPair) = (some nextOrder, backlog))
    (resolved : self.poolOf nextOrder = some pool)
    (run : interpreters.specInterpreter ⟨pool.entity.entity, pool.bearer⟩ nextOrder none) :
    TriesBacklog interpreters focusPair self
      ({ self with multiBacklog := self.multiBacklog.put focusPair backlog }, none)
  | submitted {backlog : L} {nextOrder consumedOrd : Bundled SO B}
    {pool updatedPool : Bundled (Baked P V) B} {txc : TC}
    (pop : HotBacklog.tryPop (self.multiBacklog.get focusPair) = (some nextOrder, backlog))
    (resolved : self.poolOf nextOrder = some pool)
    (run : interpreters.specInterpreter ⟨pool.entity.entity, pool.bearer⟩ nextOrder
      (some (txc, updatedPool, consumedOrd))) :
    TriesBacklog interpreters focusPair self
      ({ self with multiBacklog := self.multiBacklog.put focusPair backlog }.submitOrder focusPair
        pool.entity updatedPool consumedOrd, some (interpreters.prove txc))

/-- The pairs in focus are tried one after the other, until a transaction is to be submitted. -/
inductive Matchmakes [Zero U] [Add U] [LT U] (interpreters : Interpreters CO SO P V B TC TX) :
    Executor IX L PR CO P V B SO →
      Except Panic (Executor IX L PR CO P V B SO × Option TX) → Prop where
  | exhausted {self : Executor IX L PR CO P V B SO} (pop : self.focusSet.popFront = none) :
    Matchmakes interpreters self (.ok (self, none))
  | panics {self : Executor IX L PR CO P V B SO} {focusPair : PR} {focusSet : FocusSet PR}
    {why : Panic} (pop : self.focusSet.popFront = some (focusPair, focusSet))
    (book : TriesBook interpreters focusPair { self with focusSet := focusSet } (.error why)) :
    Matchmakes interpreters self (.error why)
  | trade {self self' : Executor IX L PR CO P V B SO} {focusPair : PR} {focusSet : FocusSet PR}
    {tx : TX} (pop : self.focusSet.popFront = some (focusPair, focusSet))
    (book : TriesBook interpreters focusPair { self with focusSet := focusSet }
      (.ok (self', some tx))) :
    Matchmakes interpreters self (.ok (self', some tx))
  | order {self self' self'' : Executor IX L PR CO P V B SO} {focusPair : PR}
    {focusSet : FocusSet PR} {tx : TX}
    (pop : self.focusSet.popFront = some (focusPair, focusSet))
    (book : TriesBook interpreters focusPair { self with focusSet := focusSet }
      (.ok (self', none)))
    (backlog : TriesBacklog interpreters focusPair self' (self'', some tx)) :
    Matchmakes interpreters self (.ok (self'', some tx))
  | next {self self' self'' : Executor IX L PR CO P V B SO} {focusPair : PR}
    {focusSet : FocusSet PR} {outcome : Except Panic (Executor IX L PR CO P V B SO × Option TX)}
    (pop : self.focusSet.popFront = some (focusPair, focusSet))
    (book : TriesBook interpreters focusPair { self with focusSet := focusSet }
      (.ok (self', none)))
    (backlog : TriesBacklog interpreters focusPair self' (self'', none))
    (rest : Matchmakes interpreters self'' outcome) :
    Matchmakes interpreters self outcome

end Executor

/-! ### The partition -/

/-- An executor with the submission of its last transaction and the channel of what came of it. -/
structure ExecutionPart (IX L PR CO P V B SO TX E : Type) {U : Type} [MarketTaker CO U] [Ord CO]
    [Stable P] [Ord B] where
  executor : Executor IX L PR CO P V B SO
  feedback : List (Except E Unit)
  submission : Option TX

namespace ExecutionPart

variable {IX L PR CO P V B SO SID U LCX TC TX E : Type} [DecidableEq PR] [DecidableEq V]
  [DecidableEq SID] [Stable CO] [MarketTaker CO U] [TakerBehaviour CO] [Ord CO] [SideOrd CO]
  [Stable P] [MarketMaker P U] [MakerBehavior P] [Composable CO P SID] [Ord B] [Std.TransOrd B]
  [StateIndex IX (EvolvingEntity CO P V B)] [SpecializedOrder SO V SID]
  [HotBacklog L (Bundled SO B) V] [HasVersion B V]

/-- The executor is polled: no submission is under way, and what came of the last one is handled. -/
def Polled (s : ExecutionPart IX L PR CO P V B SO TX E) : Prop :=
  s.submission = none ∧ (s.executor.pendingEffects = none ∨ s.feedback = [])

/-- The executor is polled again once the submission of its last transaction is over. Errors may tell
which inputs are missing. -/
inductive Step [Zero U] [Add U] [LT U] (LCX : Type) (interpreters : Interpreters CO SO P V B TC TX)
    (missingInputs : E → Option (Finset V)) (s : ExecutionPart IX L PR CO P V B SO TX E) :
    Except Panic (ExecutionPart IX L PR CO P V B SO TX E) → Prop where
  | submitted {tx : TX} (result : Except E Unit) (hsubmission : s.submission = some tx) :
    Step LCX interpreters missingInputs s
      (.ok { s with feedback := s.feedback ++ [result], submission := none })
  | accepted {effects : Effects PR CO SO P V B} {feedback : List (Except E Unit)}
    (hsubmission : s.submission = none) (hpending : s.executor.pendingEffects = some effects)
    (hfeedback : s.feedback = .ok () :: feedback) :
    Step LCX interpreters missingInputs s
      ((fun executor => { s with
          executor := executor.onFundingEffectsSuccess effects.funding
          feedback := feedback }) <$>
        { s.executor with pendingEffects := none }.onExecutionEffectsSuccess effects.execution)
  | rejected {effects : Effects PR CO SO P V B} {feedback : List (Except E Unit)} {err : E}
    (relevantBearers : List V) (hsubmission : s.submission = none)
    (hpending : s.executor.pendingEffects = some effects)
    (hfeedback : s.feedback = .error err :: feedback) (hnodup : relevantBearers.Nodup)
    (hrelevant : relevantBearers.toFinset =
      (missingInputs err).getD ∅ ∩ effects.execution.consumedVersions) :
    Step LCX interpreters missingInputs s
      ((fun executor => { s with
          executor := executor.onFundingEffectsFailure (missingInputs err) effects.funding
          feedback := feedback }) <$>
        { s.executor with pendingEffects := none }.onExecutionEffectsFailure (missingInputs err)
          effects.execution relevantBearers)
  | upstream (pair : PR) (event : Event CO SO P B V LCX) (hpolled : s.Polled) :
    Step LCX interpreters missingInputs s
      ((fun executor => { s with executor := executor }) <$> s.executor.onPairEvent pair event)
  | funding (event : FundingEvent B) (hpolled : s.Polled) :
    Step LCX interpreters missingInputs s
      (.ok { s with executor := s.executor.onFundingEvent event })
  | block (blocker : Blocker) (hpolled : s.Polled) (hblocker : s.executor.blocker = none) :
    Step LCX interpreters missingInputs s
      (.ok { s with executor := { s.executor with blocker := some blocker } })
  | unblock (hpolled : s.Polled) :
    Step LCX interpreters missingInputs s
      (.ok { s with executor := { s.executor with blocker := none } })
  | matchmake {outcome : Except Panic (Executor IX L PR CO P V B SO × Option TX)}
    (hpolled : s.Polled) (hblocker : s.executor.blocker = none)
    (hmatch : Executor.Matchmakes interpreters s.executor outcome) :
    Step LCX interpreters missingInputs s
      ((fun (executor, submission) => { s with executor := executor, submission := submission }) <$>
        outcome)

end ExecutionPart

end UtxoMonitor.ExecutionEngine
