import Mathlib.Data.Finset.Basic
import UtxoMonitor.ExecutionEngine.Storage
import UtxoMonitor.Backlog.Hot
import UtxoMonitor.LiquidityBook.Tlb

/-! What the executor moves about: entities with their bearers, resources by pair, the effects of a
batch, and the stores it is built on. -/
namespace UtxoMonitor.ExecutionEngine

open LiquidityBook Domain Backlog

/-! ### Entities -/

/-- Entity bundled with its source. -/
structure Bundled (T Bearer : Type) where
  entity : T
  bearer : Bearer
deriving DecidableEq

structure Baked (T V : Type) where
  entity : T
  version : V
deriving DecidableEq

/-- Orders and pools have ids of one kind, and may be kept whatever becomes of them. -/
class Composable (CO P : Type) (SID : outParam Type) [Stable CO] [Stable P] where
  takerId : StableId CO → SID
  makerId : StableId P → SID
  isQuasiPermanentTaker : CO → Bool
  isQuasiPermanentMaker : P → Bool

abbrev BakedEntity (CO P V : Type) := Baked CO V ⊕ Baked P V

abbrev EvolvingEntity (CO P V B : Type) := Bundled (BakedEntity CO P V) B

section

variable {CO P V B SID : Type} [Stable CO] [Stable P] [Composable CO P SID]

def entityId : BakedEntity CO P V → SID
  | .inl o => Composable.takerId P (stableId o.entity)
  | .inr p => Composable.makerId CO (stableId p.entity)

def entityVersion : BakedEntity CO P V → V
  | .inl o => o.version
  | .inr p => p.version

variable [DecidableEq SID] [DecidableEq V]

instance : EntitySnapshot (EvolvingEntity CO P V B) where
  StableId := SID
  decEqId := inferInstance
  stableId e := entityId e.entity
  Version := V
  decEqVersion := inferInstance
  version e := entityVersion e.entity
  isQuasiPermanent e :=
    match e.entity with
    | .inl o => Composable.isQuasiPermanentTaker P o.entity
    | .inr p => Composable.isQuasiPermanentMaker CO p.entity

end

/-- Orders that are carried out one by one, each against a pool. -/
class SpecializedOrder (SO : Type) (V SID : outParam Type) where
  getSelfRef : SO → V
  getPoolRef : SO → SID

inductive OrderUpdate (TNewOrd TElimOrd : Type) where
  | created (newOrder : TNewOrd)
  | eliminated (elimOrder : TElimOrd)

/-! ### Stores -/

class StateIndex (IX T : Type) [EntitySnapshot T] where
  getLastPredicted : IX → StableId T → Option T
  getLastConfirmed : IX → StableId T → Option T
  getLastUnconfirmed : IX → StableId T → Option T
  getFallback : IX → StableId T → Option T
  putConfirmed : IX → T → IX
  putUnconfirmed : IX → T → IX
  putPredicted : IX → T → IX
  putFallback : IX → T → IX
  invalidateVersion : IX → Version T → IX
  eliminate : IX → StableId T → IX
  getState : IX → Version T → Option T

instance {T : Type} [EntitySnapshot T] [RawStableId T] : StateIndex (InMemoryStateIndex T) T where
  getLastPredicted := InMemoryStateIndex.getLastPredicted
  getLastConfirmed := InMemoryStateIndex.getLastConfirmed
  getLastUnconfirmed := InMemoryStateIndex.getLastUnconfirmed
  getFallback := InMemoryStateIndex.getFallback
  putConfirmed := InMemoryStateIndex.putConfirmed
  putUnconfirmed := InMemoryStateIndex.putUnconfirmed
  putPredicted := InMemoryStateIndex.putPredicted
  putFallback := InMemoryStateIndex.putFallback
  invalidateVersion index ver := (index.invalidateVersion ver).2
  eliminate := InMemoryStateIndex.eliminate
  getState := InMemoryStateIndex.getState

/-- Get latest state of an on-chain entity. -/
def resolveState {IX T : Type} [EntitySnapshot T] [StateIndex IX T] (id : StableId T) (index : IX) :
    Option T :=
  (StateIndex.getLastPredicted index id).or <| (StateIndex.getLastUnconfirmed index id).or <|
    (StateIndex.getFallback index id).or (StateIndex.getLastConfirmed index id)

class HotBacklog (L O : Type) (V : outParam Type) where
  put : L → O → L
  tryPop : L → Option O × L
  softEvict : L → V → L
  remove : L → V → L

instance {Q O V W : Type} [DecidableEq V] [LE W] [Lib.PriorityQueue Q V W] [UniqueOrder O V]
    [Weighted O W] : HotBacklog (HotPriorityBacklog Q O V) O V where
  put := HotPriorityBacklog.put
  tryPop := HotPriorityBacklog.tryPop
  softEvict := HotPriorityBacklog.softEvict
  remove := HotPriorityBacklog.remove

/-! ### Resources by pair -/

/-- Resources by pair, which are made when they are first asked for. -/
structure MultiPair (PR R : Type) where
  resources : AList fun _ : PR => R
  make : PR → R

namespace MultiPair

variable {PR R : Type} [DecidableEq PR] {pair pair' : PR}

omit [DecidableEq PR] in
def new (make : PR → R) : MultiPair PR R := ⟨∅, make⟩

def get (self : MultiPair PR R) (pair : PR) : R := (self.resources.lookup pair).getD (self.make pair)

/-- What is left of `get_mut` when the resource has become `r`. -/
def put (self : MultiPair PR R) (pair : PR) (r : R) : MultiPair PR R :=
  { self with resources := self.resources.insert pair r }

@[simp] theorem get_new (make : PR → R) (pair : PR) : (new make).get pair = make pair := rfl

theorem get_put (self : MultiPair PR R) (pair pair' : PR) (r : R) :
    (self.put pair r).get pair' = if pair' = pair then r else self.get pair' := by
  rw [get, put, Lib.lookup_insert_eq]
  split
  · rfl
  · rfl

end MultiPair

/-! ### The pairs in focus -/

structure FocusSet (T : Type) where
  queue : List T
  filter : Finset T

namespace FocusSet

variable {T : Type} [DecidableEq T]

omit [DecidableEq T] in
def new : FocusSet T := ⟨[], ∅⟩

def pushBack (self : FocusSet T) (a : T) : FocusSet T :=
  if a ∈ self.filter then self else ⟨self.queue ++ [a], insert a self.filter⟩

def popFront (self : FocusSet T) : Option (T × FocusSet T) :=
  match self.queue with
  | a :: queue => some (a, ⟨queue, self.filter.erase a⟩)
  | [] => none

end FocusSet

/-! ### Effects -/

inductive ExecutionEff (T K : Type) where
  | updated (k : K) (t : T)
  | eliminated (k : K)

inductive FundingEvent (T : Type) where
  | consumed (t : T)
  | produced (t : T)

inductive FundingIO (T K : Type) where
  /-- Old funding is replaced with a new one. -/
  | replaced (consumed : T) (produced : K)
  /-- Old funding wasn't used, plus a new one is created. -/
  | added (unused : T) (produced : K)
  /-- Old funding wasn't used. -/
  | notUsed (unused : T)

def FundingIO.intoEffects {T : Type} : FundingIO T T → Option T × List (FundingEvent T)
  | .replaced consumed produced => (none, [.consumed consumed, .produced produced])
  | .added unused produced => (some unused, [.produced produced])
  | .notUsed unused => (some unused, [])

inductive ExecutionEffects (CO SO P V B : Type) where
  | fromLiquidityBook
      (effs : List (ExecutionEff (EvolvingEntity CO P V B) (EvolvingEntity CO P V B)))
  | fromBacklog (newPool : Bundled (Baked P V) B) (consumedOrd : Bundled SO B)

structure ExecutionEffectsByPair (PR CO SO P V B : Type) where
  pair : PR
  consumedVersions : Finset V
  pendingEffects : ExecutionEffects CO SO P V B

structure Effects (PR CO SO P V B : Type) where
  execution : ExecutionEffectsByPair PR CO SO P V B
  funding : List (FundingEvent B)

/-! ### Linked recipes -/

/-- A recipe with bearers attached to each target. -/
structure ExecutionRecipe (CO P B : Type) where
  executions :
    List (Trans (Bundled CO B) CO TerminalTake ⊕ Trans (Bundled P B) P Empty)

/-- The instructions with their bearers, the versions they consume, and the targets that are not
linked. -/
def linkInstructions {CO P V B SID : Type} [Stable CO] [Stable P] [Composable CO P SID]
    (link : SID → Option (V × B)) :
    List (TakeInProgress CO ⊕ MakeInProgress P) →
      List (Trans (Bundled CO B) CO TerminalTake ⊕ Trans (Bundled P B) P Empty) × List V ×
        List (CO ⊕ P)
  | [] => ([], [], [])
  | .inl take :: rest =>
    let (executions, versions, orphans) := linkInstructions link rest
    match link (Composable.takerId P (stableId take.target)) with
    | some (ver, bearer) =>
      (.inl ⟨⟨take.target, bearer⟩, take.result⟩ :: executions, ver :: versions, orphans)
    | none => (executions, versions, .inl take.target :: orphans)
  | .inr make :: rest =>
    let (executions, versions, orphans) := linkInstructions link rest
    match link (Composable.makerId CO (stableId make.target)) with
    | some (ver, bearer) =>
      (.inr ⟨⟨make.target, bearer⟩, make.result⟩ :: executions, ver :: versions, orphans)
    | none => (executions, versions, .inr make.target :: orphans)

/-- The linked recipe with the versions it consumes, or the orphans. -/
def ExecutionRecipe.link {CO P V B SID : Type} [DecidableEq V] [Stable CO] [Stable P]
    [Composable CO P SID] (recipe : MatchmakingRecipe CO P) (link : SID → Option (V × B)) :
    Except (List (CO ⊕ P)) (ExecutionRecipe CO P B × Finset V) :=
  match linkInstructions link recipe.instructions with
  | (executions, versions, []) => .ok (⟨executions⟩, versions.toFinset)
  | (_, _, orphans) => .error orphans

end UtxoMonitor.ExecutionEngine
