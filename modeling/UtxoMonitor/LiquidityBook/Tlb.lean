import UtxoMonitor.LiquidityBook.Chronology
import UtxoMonitor.LiquidityBook.Matching

/-! The book of one pair: attempts to match, what becomes of them, and the changes from outside. -/
namespace UtxoMonitor.LiquidityBook

/-! ### Changes of a settled book -/

namespace MarketMakers

variable {M U : Type} [Stable M] [MarketMaker M U]

def removePool (mm : MarketMakers M) (pool : M) : MarketMakers M where
  values := mm.values.erase (stableId pool)
  qualityIndex := mm.qualityIndex.erase (quality pool)
  keyed := (mm.take (stableId pool)).keyed

end MarketMakers

namespace IdleState

variable {T M U : Type} [MarketTaker T U] [Ord T] [SideOrd T] [Stable M]

omit [SideOrd T] in
def new (timeNow : Nat) : IdleState T M := ⟨.new timeNow, .empty⟩

def advanceClocks [TimedTaker T] (st : IdleState T M) (newTime : Nat) : IdleState T M :=
  { st with takers := st.takers.advanceClocks newTime }

def addFragment (st : IdleState T M) (fr : T) : IdleState T M :=
  { st with takers := st.takers.addFragment fr }

def removeFragment (st : IdleState T M) (fr : T) : IdleState T M :=
  { st with takers := st.takers.removeFragment fr }

variable [MarketMaker M U]

omit [SideOrd T] in
def updatePool (st : IdleState T M) (maker : M) : IdleState T M :=
  { st with makers := st.makers.updatePool maker }

omit [SideOrd T] in
def removePool (st : IdleState T M) (maker : M) : IdleState T M :=
  { st with makers := st.makers.removePool maker }

end IdleState

/-! ### The book -/

structure TLB (T M : Type) {U : Type} [MarketTaker T U] [Ord T] [Stable M] where
  state : TLBState T M
  conf : ExecutionConfig U

/-- Why the engine panics. -/
inductive Panic where
  /-- "PartialPreview|Preview state cannot be externally mutated" -/
  | previewMutated
  /-- `unreachable!()` -/
  | unreachable
  /-- "Detected state inconsistency while invalidating" -/
  | stateInconsistency
deriving DecidableEq

namespace TLB

variable {T M U : Type} [Stable T] [MarketTaker T U] [TakerBehaviour T] [Ord T] [SideOrd T]
  [Stable M] [MarketMaker M U] [MakerBehavior M]

def new (time : Nat) (conf : ExecutionConfig U) : TLB T M := ⟨.idle (.new time), conf⟩

/-- `attempt` returns the recipe, and leaves the book `self'`. -/
def Attempted [Zero U] [Add U] [LT U] (self : TLB T M) (recipe : Option (MatchmakingRecipe T M))
    (self' : TLB T M) : Prop :=
  self'.conf = self.conf ∧
    ∃ stashed, Attempt.Run self.conf (Attempt.start self.state) stashed (.returned recipe self'.state)

def onRecipeSucceeded (self : TLB T M) : TLB T M := { self with state := self.state.commit }

def onRecipeFailed (self : TLB T M) : TLB T M := { self with state := self.state.rollback .unstash }

def requiringSettledState (book : TLB T M) (f : IdleState T M → IdleState T M) :
    Except Panic (TLB T M) :=
  match book.state with
  | .idle st => return { book with state := .idle (f st) }
  | .partialPreview _ => throw .previewMutated
  | .preview _ => throw .previewMutated

def advanceClocks [TimedTaker T] (self : TLB T M) (newTime : Nat) : Except Panic (TLB T M) :=
  self.requiringSettledState fun st => st.advanceClocks newTime

def updateTaker (self : TLB T M) (fr : T) : Except Panic (TLB T M) :=
  self.requiringSettledState fun st => st.addFragment fr

def removeTaker (self : TLB T M) (fr : T) : Except Panic (TLB T M) :=
  self.requiringSettledState fun st => st.removeFragment fr

def updateMaker (self : TLB T M) (pool : M) : Except Panic (TLB T M) :=
  self.requiringSettledState fun st => st.updatePool pool

def removeMaker (self : TLB T M) (pool : M) : Except Panic (TLB T M) :=
  self.requiringSettledState fun st => st.removePool pool

/-! ### The settled state -/

def Idle (self : TLB T M) : Prop := ∃ st, self.state = .idle st

variable {self self' : TLB T M}

omit [Stable T] [TakerBehaviour T] [SideOrd T] [MarketMaker M U] [MakerBehavior M] in
theorem idle_new (time : Nat) (conf : ExecutionConfig U) : (new time conf : TLB T M).Idle :=
  ⟨_, rfl⟩

omit [Stable T] [TakerBehaviour T] [MarketMaker M U] [MakerBehavior M] in
theorem idle_onRecipeSucceeded (self : TLB T M) : self.onRecipeSucceeded.Idle := by
  unfold onRecipeSucceeded
  cases hstate : self.state with
  | idle st => exact ⟨st, rfl⟩
  | partialPreview st => exact ⟨st.commit, rfl⟩
  | preview st => exact ⟨st.commit, rfl⟩

omit [Stable T] [TakerBehaviour T] [MarketMaker M U] [MakerBehavior M] in
theorem exists_rollback_unstash (book : TLBState T M) : ∃ st, book.rollback .unstash = .idle st := by
  cases book with
  | idle st => exact ⟨st, rfl⟩
  | partialPreview st => exact ⟨_, rfl⟩
  | preview st => exact ⟨_, rfl⟩

omit [Stable T] [TakerBehaviour T] [MarketMaker M U] [MakerBehavior M] in
theorem idle_onRecipeFailed (self : TLB T M) : self.onRecipeFailed.Idle :=
  exists_rollback_unstash self.state

omit [Stable T] [TakerBehaviour T] [SideOrd T] [MarketMaker M U] [MakerBehavior M] in
/-- A settled book is changed, and is settled after. -/
theorem Idle.requiringSettledState (h : self.Idle) (f : IdleState T M → IdleState T M) :
    ∃ book, self.requiringSettledState f = .ok book ∧ book.Idle := by
  obtain ⟨st, hst⟩ := h
  refine ⟨{ self with state := .idle (f st) }, ?_, _, rfl⟩
  rw [TLB.requiringSettledState, hst]
  rfl

omit [Stable T] [TakerBehaviour T] [SideOrd T] [MarketMaker M U] [MakerBehavior M] in
/-- The change panics exactly if the book is not settled. -/
theorem requiringSettledState_panics_iff (f : IdleState T M → IdleState T M) :
    self.requiringSettledState f = .error .previewMutated ↔ ¬ self.Idle := by
  constructor
  · intro h hidle
    obtain ⟨book, hbook, -⟩ := hidle.requiringSettledState f
    rw [hbook] at h
    cases h
  · intro h
    unfold TLB.requiringSettledState
    cases hstate : self.state with
    | idle st => exact absurd ⟨st, hstate⟩ h
    | partialPreview st => rfl
    | preview st => rfl

/-- An attempt without a recipe leaves a settled book. -/
theorem idle_of_attempted [Zero U] [Add U] [LT U] (h : self.Attempted none self') : self'.Idle := by
  obtain ⟨-, stashed, hrun⟩ := h
  generalize hend : Attempt.returned none self'.state = b at hrun
  cases hrun with
  | refl => cases hend
  | step run hstep =>
    subst hend
    generalize hreturned : Attempt.returned none self'.state = b at hstep
    cases hstep with
    | next _ _ _ _ => cases hreturned
    | stop _ _ _ _ => cases hreturned
    | full _ => cases hreturned
    | @pass optimized batch book takes makes outcome walk walk' hout =>
      cases outcome with
      | ok recipe => cases hreturned
      | error why =>
        cases why with
        | failed =>
          obtain ⟨st, hst⟩ := exists_rollback_unstash book
          refine ⟨st, ?_⟩
          rw [← hst]
          exact (Attempt.returned.inj hreturned).2
        | dissatisfiedTakers ts => cases hreturned
        | downgradeNeeded => cases hreturned

end TLB

end UtxoMonitor.LiquidityBook
