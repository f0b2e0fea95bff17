import Mathlib.Data.List.AList
import UtxoMonitor.LiquidityBook.Types

/-! What a pass of the matchmaking collects, and the recipe that is made of it. -/
namespace UtxoMonitor.LiquidityBook

/-! ### Takes -/

namespace TerminalTake

def withBudgetCorrected (term : TerminalTake) (delta : Int) : Int × TerminalTake :=
  let budgetRemainder : Int := term.remainingBudget
  let updatedBudgetRemainder := max (budgetRemainder + delta) 0
  (updatedBudgetRemainder - budgetRemainder,
    { term with remainingBudget := updatedBudgetRemainder.toNat })

def withOutputAdded (term : TerminalTake) (addedOutput : Nat) : TerminalTake :=
  { term with accumulatedOutput := term.accumulatedOutput + addedOutput }

def withFeeCharged (term : TerminalTake) (fee : Nat) : TerminalTake :=
  { term with remainingFee := term.remainingFee - fee }

end TerminalTake

namespace TakeInProgress

variable {T U : Type} [MarketTaker T U]

def removedInput (take : TakeInProgress T) : Nat :=
  input take.target - match take.result with
    | .succ next => input next
    | .term term => term.remainingInput

def addedOutput (take : TakeInProgress T) : Nat :=
  (match take.result with
    | .succ next => output next
    | .term term => term.accumulatedOutput) - output take.target

/-- The take with its share of the excess, its fee charged and its budget consumed. -/
def finalized [TakerBehaviour T] (take : TakeInProgress T) (excess : Nat) : TakeInProgress T :=
  let fee := operatorFee take.target take.removedInput
  let budget : Int := consumableBudget take.target
  { target := take.target
    result := match take.result with
      | .succ next =>
        tryTerminate (withBudgetCorrected (withFeeCharged (withOutputAdded next excess) fee)
          (-budget)).2
      | .term term =>
        .term (((term.withOutputAdded excess).withFeeCharged fee).withBudgetCorrected (-budget)).2 }

end TakeInProgress

/-! ### Makes -/

structure Excess where
  base : Nat
  quote : Nat
deriving DecidableEq

instance : Add Excess := ⟨fun a b => ⟨a.base + b.base, a.quote + b.quote⟩⟩

namespace MakeInProgress

variable {M U : Type} [MarketMaker M U]

def tradeSide (make : MakeInProgress M) : Option Side :=
  match make.result with
  | .succ succ =>
    if (liquidity succ).base < (liquidity make.target).base ∧
        (liquidity make.target).quote < (liquidity succ).quote then some .bid
    else if (liquidity make.target).base < (liquidity succ).base ∧
        (liquidity succ).quote < (liquidity make.target).quote then some .ask
    else none
  | .term _ => none

def isZero (make : MakeInProgress M) : Bool := make.tradeSide.isNone

def loss (make : MakeInProgress M) : Option (OnSide Nat) :=
  match make.result with
  | .succ succ => (liquidity make.target).loss (liquidity succ)
  | .term _ => none

/-- The make swapped anew in one go, and what that leaves over. -/
def finalized [MakerBehavior M] (make : MakeInProgress M) : Option (MakeInProgress M × Excess) :=
  match make.result with
  | .term void => void.elim
  | .succ next =>
    match checkedSub (liquidity next).base (liquidity make.target).base with
    | some tradeInput =>
      match swap make.target (.ask tradeInput) with
      | .term void => void.elim
      | .succ rebalanced =>
        (checkedSub (liquidity next).quote (liquidity rebalanced).quote).map fun excessQuote =>
          (⟨make.target, .succ rebalanced⟩, ⟨0, excessQuote⟩)
    | none =>
      (checkedSub (liquidity next).quote (liquidity make.target).quote).bind fun tradeInput =>
        match swap make.target (.bid tradeInput) with
        | .term void => void.elim
        | .succ rebalanced =>
          (checkedSub (liquidity next).base (liquidity rebalanced).base).map fun excessBase =>
            (⟨make.target, .succ rebalanced⟩, ⟨excessBase, 0⟩)

end MakeInProgress

/-! ### Attempts -/

structure MatchmakingAttempt (T M U : Type) [Stable T] [Stable M] where
  takes : AList fun _ : StableId T => TakeInProgress T
  makes : AList fun _ : StableId M => MakeInProgress M
  ordering : List (StableId T)
  executionUnitsConsumed : U
  /-- Number of distinct makes aggregated into one. -/
  numAggregatedMakes : Nat

/-- The matches made final, in the order in which the maps have been walked. -/
structure FinalRecipe (T M : Type) [Stable T] where
  takes : List (TakeInProgress T)
  makes : List (MakeInProgress M)
  ordering : List (StableId T)

/-- Why there is no recipe. -/
inductive NoRecipe (T : Type) where
  | failed
  | dissatisfiedTakers (ts : List T)
  | downgradeNeeded

structure MatchmakingRecipe (T M : Type) where
  instructions : List (TakeInProgress T ⊕ MakeInProgress M)

variable {T M U : Type} [Stable T] [Stable M]

namespace MatchmakingAttempt

def empty [Zero U] : MatchmakingAttempt T M U := ⟨∅, ∅, [], 0, 0⟩

def numTakes (batch : MatchmakingAttempt T M U) : Nat := batch.takes.entries.length

/-- The orders that are traded, as they were before. -/
def targets (batch : MatchmakingAttempt T M U) : List T :=
  (batch.takes.entries.map Sigma.snd).map Trans.target

theorem mem_takes {batch : MatchmakingAttempt T M U} {take : TakeInProgress T} :
    take ∈ batch.takes.entries.map Sigma.snd ↔ ∃ sid, batch.takes.lookup sid = some take := by
  constructor
  · intro htake
    obtain ⟨⟨sid, take⟩, hentry, rfl⟩ := List.mem_map.mp htake
    exact ⟨sid, AList.mem_lookup_iff.mpr hentry⟩
  · rintro ⟨sid, hlookup⟩
    exact List.mem_map_of_mem (AList.mem_lookup_iff.mp hlookup)

theorem mem_targets {batch : MatchmakingAttempt T M U} {t : T} :
    t ∈ batch.targets ↔ ∃ sid take, batch.takes.lookup sid = some take ∧ take.target = t := by
  constructor
  · intro ht
    obtain ⟨take, htake, htarget⟩ := List.mem_map.mp ht
    obtain ⟨sid, hlookup⟩ := mem_takes.mp htake
    exact ⟨sid, take, hlookup, htarget⟩
  · rintro ⟨sid, take, hlookup, rfl⟩
    exact List.mem_map_of_mem (mem_takes.mpr ⟨sid, hlookup⟩)

def numMakes (batch : MatchmakingAttempt T M U) : Nat := batch.makes.entries.length

def isComplete (batch : MatchmakingAttempt T M U) : Bool :=
  1 < batch.numTakes || batch.numTakes = 1 && 0 < batch.numMakes

section Add

variable [Add U]

def addTake [MarketTaker T U] (batch : MatchmakingAttempt T M U) (take : TakeInProgress T) :
    MatchmakingAttempt T M U :=
  let sid := stableId take.target
  match batch.takes.lookup sid with
  | none =>
    { batch with
      executionUnitsConsumed :=
        batch.executionUnitsConsumed + MarketTaker.marginalCostHint take.target
      ordering := batch.ordering ++ [sid]
      takes := batch.takes.insert sid take }
  | some existingTransition =>
    { batch with takes := batch.takes.insert sid (existingTransition.combine take) }

def addMake [MarketMaker M U] (batch : MatchmakingAttempt T M U) (make : MakeInProgress M) :
    MatchmakingAttempt T M U :=
  let sid := stableId make.target
  match batch.makes.lookup sid with
  | none =>
    { batch with
      executionUnitsConsumed :=
        batch.executionUnitsConsumed + MarketMaker.marginalCostHint make.target
      makes := batch.makes.insert sid make }
  | some accumulatedTrans =>
    { batch with
      numAggregatedMakes := batch.numAggregatedMakes + 1
      makes := batch.makes.insert sid (accumulatedTrans.combine make) }

theorem lookup_addTake [MarketTaker T U] {batch : MatchmakingAttempt T M U}
    {take : TakeInProgress T} {sid : StableId T} :
    (batch.addTake take).takes.lookup sid =
      if sid = stableId take.target then
        some ⟨((batch.takes.lookup sid).map Trans.target).getD take.target, take.result⟩
      else batch.takes.lookup sid := by
  unfold addTake
  dsimp only
  by_cases hid : sid = stableId take.target
  · subst hid
    rw [if_pos rfl]
    split
    · rename_i hlookup
      rw [AList.lookup_insert, hlookup]
      rfl
    · rename_i existing hlookup
      rw [AList.lookup_insert, hlookup]
      rfl
  · rw [if_neg hid]
    split
    · rw [AList.lookup_insert_ne hid]
    · rw [AList.lookup_insert_ne hid]

/-- The take of an identifier keeps its target from one match to the next. -/
theorem target_of_lookup_addTake [MarketTaker T U] {batch : MatchmakingAttempt T M U}
    {take take' : TakeInProgress T} {sid : StableId T}
    (h : (batch.addTake take).takes.lookup sid = some take') :
    (∃ existing, batch.takes.lookup sid = some existing ∧ take'.target = existing.target) ∨
      (batch.takes.lookup sid = none ∧ sid = stableId take.target ∧ take'.target = take.target) := by
  rw [lookup_addTake] at h
  cases hold : batch.takes.lookup sid with
  | none =>
    rw [hold] at h
    split at h
    · rename_i hid
      cases h
      exact .inr ⟨rfl, hid, rfl⟩
    · cases h
  | some existing =>
    rw [hold] at h
    split at h
    · cases h
      exact .inl ⟨existing, rfl, rfl⟩
    · exact .inl ⟨existing, rfl, congrArg Trans.target (Option.some.inj h).symm⟩

@[simp] theorem takes_addMake [MarketMaker M U] (batch : MatchmakingAttempt T M U)
    (make : MakeInProgress M) : (batch.addMake make).takes = batch.takes := by
  unfold addMake
  dsimp only
  split <;> rfl

@[simp] theorem makes_addTake [MarketTaker T U] (batch : MatchmakingAttempt T M U)
    (take : TakeInProgress T) : (batch.addTake take).makes = batch.makes := by
  unfold addTake
  dsimp only
  split <;> rfl

end Add

variable [MarketTaker T U] [TakerBehaviour T] [MarketMaker M U] [MakerBehavior M]

/-- The whole excess of a side goes to the first of its takes. -/
def balanceTakes : Excess → List (TakeInProgress T) → List (TakeInProgress T) × Excess
  | excess, [] => ([], excess)
  | excess, take :: takes =>
    match side take.target with
    | .bid =>
      let (balanced, left) := balanceTakes { excess with base := 0 } takes
      (take.finalized excess.base :: balanced, left)
    | .ask =>
      let (balanced, left) := balanceTakes { excess with quote := 0 } takes
      (take.finalized excess.quote :: balanced, left)

/-- The attempt made final, its takes and makes walked in the given orders. -/
def finalized (batch : MatchmakingAttempt T M U) (takes : List (TakeInProgress T))
    (makes : List (MakeInProgress M)) : Option (FinalRecipe T M) :=
  (makes.mapM MakeInProgress.finalized).bind fun balancedMakes =>
    let excess := (balancedMakes.map Prod.snd).foldl (· + ·) ⟨0, 0⟩
    let (balancedTakes, left) := balanceTakes excess takes
    if left = ⟨0, 0⟩ then some ⟨balancedTakes, balancedMakes.map Prod.fst, batch.ordering⟩ else none

end MatchmakingAttempt

/-! ### Recipes -/

namespace FinalRecipe

variable [MarketTaker T U]

/-- The targets of the takes that add less than the least output of a step. -/
def unsatisfiedFragments (recipe : FinalRecipe T M) : List T :=
  recipe.takes.filterMap fun take =>
    if take.addedOutput < minMarginalOutput take.target then some take.target else none

/-- Whether the budgets of the takes pay for the makes: at least half a step each. -/
def checkRecipeComplexity (recipe : FinalRecipe T M) (baseStepBudget : Nat) : Bool :=
  if 0 < recipe.makes.length then
    let takesToMakes : ℚ≥0 := recipe.takes.length / recipe.makes.length
    let baseBudget := max baseStepBudget 1
    let totalBudget := (recipe.takes.map fun take => consumableBudget take.target).sum
    let budgetRatio : ℚ≥0 := totalBudget / baseBudget
    1 / 2 ≤ takesToMakes * budgetRatio
  else true

/-- The takes as they were first made, then the makes. -/
def instructions (recipe : FinalRecipe T M) : List (TakeInProgress T ⊕ MakeInProgress M) :=
  let takes := recipe.takes.mergeSort fun a b =>
    recipe.ordering.idxOf (stableId a.target) ≤ recipe.ordering.idxOf (stableId b.target)
  takes.map .inl ++ recipe.makes.map .inr

end FinalRecipe

variable [MarketTaker T U] [TakerBehaviour T] [MarketMaker M U] [MakerBehavior M]

/-- The recipe of an attempt, its takes and makes walked in the given orders. -/
def MatchmakingRecipe.tryFrom (batch : MatchmakingAttempt T M U) (takes : List (TakeInProgress T))
    (makes : List (MakeInProgress M)) (baseStepBudget : Nat) :
    Except (NoRecipe T) (MatchmakingRecipe T M) :=
  if batch.isComplete then
    match batch.finalized takes makes with
    | some finalRecipe =>
      if finalRecipe.unsatisfiedFragments.isEmpty then
        if finalRecipe.makes.any MakeInProgress.isZero then .error .failed
        else if finalRecipe.checkRecipeComplexity baseStepBudget then
          .ok ⟨finalRecipe.instructions⟩
        else .error .downgradeNeeded
      else .error (.dissatisfiedTakers finalRecipe.unsatisfiedFragments)
    | none => .error .failed
  else .error .failed

/-! ### Whose takes a recipe is made of -/

section Targets

variable {batch : MatchmakingAttempt T M U} {takes : List (TakeInProgress T)}
  {makes : List (MakeInProgress M)} {t : T}

omit [Stable T] in
theorem targets_balanceTakes (excess : Excess) (takes : List (TakeInProgress T)) :
    (MatchmakingAttempt.balanceTakes excess takes).1.map Trans.target = takes.map Trans.target := by
  induction takes generalizing excess with
  | nil => rfl
  | cons take takes ih =>
    rw [MatchmakingAttempt.balanceTakes]
    split
    · exact congrArg (take.target :: ·) (ih _)
    · exact congrArg (take.target :: ·) (ih _)

omit [Stable T] in
/-- Every take is made final, with some excess. -/
theorem finalized_mem_balanceTakes (excess : Excess) {take : TakeInProgress T} (h : take ∈ takes) :
    ∃ share, take.finalized share ∈ (MatchmakingAttempt.balanceTakes excess takes).1 := by
  induction takes generalizing excess with
  | nil => cases h
  | cons first takes ih =>
    rw [MatchmakingAttempt.balanceTakes]
    rcases List.mem_cons.mp h with rfl | h
    · split
      · exact ⟨_, List.mem_cons_self⟩
      · exact ⟨_, List.mem_cons_self⟩
    · split
      · obtain ⟨share, hshare⟩ := ih _ h
        exact ⟨share, .tail _ hshare⟩
      · obtain ⟨share, hshare⟩ := ih _ h
        exact ⟨share, .tail _ hshare⟩

omit [Stable T] in
/-- A take that was made final is one of those walked. -/
theorem exists_of_mem_balanceTakes (excess : Excess) {take : TakeInProgress T}
    (h : take ∈ (MatchmakingAttempt.balanceTakes excess takes).1) :
    ∃ take' ∈ takes, ∃ share, take = take'.finalized share := by
  induction takes generalizing excess with
  | nil => cases h
  | cons first takes ih =>
    rw [MatchmakingAttempt.balanceTakes] at h
    split at h
    · rcases List.mem_cons.mp h with rfl | h
      · exact ⟨first, List.mem_cons_self, _, rfl⟩
      · obtain ⟨take', htake', hshare⟩ := ih _ h
        exact ⟨take', .tail _ htake', hshare⟩
    · rcases List.mem_cons.mp h with rfl | h
      · exact ⟨first, List.mem_cons_self, _, rfl⟩
      · obtain ⟨take', htake', hshare⟩ := ih _ h
        exact ⟨take', .tail _ htake', hshare⟩

theorem takes_of_finalized {final : FinalRecipe T M}
    (h : batch.finalized takes makes = some final) :
    ∃ excess, final.takes = (MatchmakingAttempt.balanceTakes excess takes).1 := by
  obtain ⟨balancedMakes, -, h⟩ := Option.bind_eq_some_iff.mp h
  dsimp only at h
  split at h
  · cases h
    exact ⟨_, rfl⟩
  · cases h

theorem targets_finalized {final : FinalRecipe T M} (h : batch.finalized takes makes = some final) :
    final.takes.map Trans.target = takes.map Trans.target := by
  obtain ⟨excess, htakes⟩ := takes_of_finalized h
  rw [htakes, targets_balanceTakes]

/-- The recipe trades the order as it was before the attempt. -/
def MatchmakingRecipe.Consumes (recipe : MatchmakingRecipe T M) (t : T) : Prop :=
  ∃ take, .inl take ∈ recipe.instructions ∧ take.target = t

/-- The recipe has the take of a match that left the order as a remainder, the take made final. -/
def MatchmakingRecipe.Leaves (recipe : MatchmakingRecipe T M) (batch : MatchmakingAttempt T M U)
    (t : T) : Prop :=
  ∃ take ∈ batch.takes.entries.map Sigma.snd, take.result = .succ t ∧
    ∃ share, .inl (take.finalized share) ∈ recipe.instructions

omit [Stable M] [MarketTaker T U] [TakerBehaviour T] [MarketMaker M U] [MakerBehavior M] in
theorem inl_mem_instructions {final : FinalRecipe T M} {take : TakeInProgress T} :
    .inl take ∈ final.instructions ↔ take ∈ final.takes := by
  simp [FinalRecipe.instructions]

omit [Stable M] [MarketTaker T U] [TakerBehaviour T] [MarketMaker M U] [MakerBehavior M] in
theorem consumes_instructions (final : FinalRecipe T M) :
    (MatchmakingRecipe.mk final.instructions).Consumes t ↔
      t ∈ final.takes.map Trans.target := by
  simp [MatchmakingRecipe.Consumes, inl_mem_instructions]

/-- The recipe is made of the takes of the attempt. -/
structure MadeOf (recipe : MatchmakingRecipe T M) (batch : MatchmakingAttempt T M U) : Prop where
  consumes : ∀ t, recipe.Consumes t ↔ t ∈ batch.targets
  finalized : ∀ take ∈ batch.takes.entries.map Sigma.snd,
    ∃ share, .inl (take.finalized share) ∈ recipe.instructions

theorem madeOf_of_finalized {final : FinalRecipe T M}
    (walk : takes.Perm (batch.takes.entries.map Sigma.snd))
    (hfinal : batch.finalized takes makes = some final) :
    MadeOf ⟨final.instructions⟩ batch where
  consumes t := by
    rw [consumes_instructions, targets_finalized hfinal, (walk.map _).mem_iff,
      MatchmakingAttempt.targets]
  finalized take htake := by
    obtain ⟨excess, htakes⟩ := takes_of_finalized hfinal
    obtain ⟨share, hshare⟩ := finalized_mem_balanceTakes excess (walk.mem_iff.mpr htake)
    rw [← htakes] at hshare
    exact ⟨share, inl_mem_instructions.mpr hshare⟩

/-- What the outcome of a pass says of its attempt. -/
inductive OutcomeCase (batch : MatchmakingAttempt T M U) (takes : List (TakeInProgress T))
    (makes : List (MakeInProgress M)) (baseStepBudget : Nat) :
    Except (NoRecipe T) (MatchmakingRecipe T M) → Prop where
  | failed : OutcomeCase batch takes makes baseStepBudget (.error .failed)
  | ok {final : FinalRecipe T M} (complete : batch.isComplete)
      (hfinal : batch.finalized takes makes = some final) :
      OutcomeCase batch takes makes baseStepBudget (.ok ⟨final.instructions⟩)
  | dissatisfiedTakers {final : FinalRecipe T M} (complete : batch.isComplete)
      (hfinal : batch.finalized takes makes = some final)
      (unsatisfied : final.unsatisfiedFragments ≠ []) :
      OutcomeCase batch takes makes baseStepBudget
        (.error (.dissatisfiedTakers final.unsatisfiedFragments))
  | downgradeNeeded {final : FinalRecipe T M} (complete : batch.isComplete)
      (hfinal : batch.finalized takes makes = some final)
      (complex : ¬ final.checkRecipeComplexity baseStepBudget) :
      OutcomeCase batch takes makes baseStepBudget (.error .downgradeNeeded)

theorem outcome_case (batch : MatchmakingAttempt T M U) (takes : List (TakeInProgress T))
    (makes : List (MakeInProgress M)) (baseStepBudget : Nat) :
    OutcomeCase batch takes makes baseStepBudget
      (MatchmakingRecipe.tryFrom batch takes makes baseStepBudget) := by
  unfold MatchmakingRecipe.tryFrom
  split
  · rename_i complete
    split
    · rename_i final hfinal
      split
      · split
        · exact .failed
        split
        · exact .ok complete hfinal
        · rename_i complex
          exact .downgradeNeeded complete hfinal complex
      · rename_i hempty
        exact .dissatisfiedTakers complete hfinal fun h => hempty (List.isEmpty_iff.mpr h)
    · exact .failed
  · exact .failed

omit [Stable M] [TakerBehaviour T] [MarketMaker M U] [MakerBehavior M] in
theorem mem_targets_of_unsatisfied {final : FinalRecipe T M}
    (h : t ∈ final.unsatisfiedFragments) : t ∈ final.takes.map Trans.target := by
  obtain ⟨take, htake, hsome⟩ := List.mem_filterMap.mp h
  split at hsome
  · cases hsome
    exact List.mem_map_of_mem htake
  · cases hsome

end Targets

end UtxoMonitor.LiquidityBook
