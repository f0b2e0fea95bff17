import UtxoMonitor.ExecutionEngine.FeeBalancing
import UtxoMonitor.Orders.AnyOrder
import UtxoMonitor.Orders.Instant

/-! How a recipe's fee is balanced on signed words of 64 bits, with takes of any kind of order. -/
namespace UtxoMonitor.Orders

open Lib LiquidityBook ExecutionEngine Pools

/-! ### Orders of either kind -/

/-- `Next::map_succ` -/
def mapSucc {A B E : Type} (f : A → B) : Next A E → Next B E
  | .succ next => .succ (f next)
  | .term term => .term term

namespace AnyOrder

def withAppliedTrade (self : AnyOrder) (removedInput addedOutput : Nat) :
    Checked (Next AnyOrder TerminalTake) :=
  match self with
  | limit o => mapSucc limit <$> o.withAppliedTrade removedInput addedOutput
  | grid o => mapSucc grid <$> o.withAppliedTrade removedInput addedOutput

def withBudgetCorrected (self : AnyOrder) (delta : Int) : Checked (Int × AnyOrder) :=
  match self with
  | limit o => do
    let (d, s) ← o.withBudgetCorrected delta
    return (d, limit s)
  | grid o => do
    let (d, s) ← o.withBudgetCorrected delta
    return (d, grid s)

def withFeeCharged (self : AnyOrder) (fee : Nat) : Checked AnyOrder :=
  match self with
  | limit o => limit <$> o.withFeeCharged fee
  | grid o => return grid o

def withOutputAdded (self : AnyOrder) (addedOutput : Nat) : Checked AnyOrder :=
  match self with
  | limit o => limit <$> o.withOutputAdded addedOutput
  | grid o => grid <$> o.withOutputAdded addedOutput

def tryTerminate : AnyOrder → Next AnyOrder TerminalTake
  | limit o => mapSucc limit o.tryTerminate
  | grid o => .succ (grid o)

end AnyOrder

instance : CheckedTaker AnyOrder where
  withAppliedTrade := AnyOrder.withAppliedTrade
  withBudgetCorrected := AnyOrder.withBudgetCorrected
  withFeeCharged := AnyOrder.withFeeCharged
  withOutputAdded := AnyOrder.withOutputAdded
  tryTerminate := AnyOrder.tryTerminate

/-! ### Fee balancing -/

section Balancing

variable {T M U : Type} [MarketTaker T U] [CheckedTaker T]

/-- Returns by how much more is consumed, and the take. -/
def correctConsumedBudget (take : TakeInProgress T) (delta : Int) :
    Checked (Int × TakeInProgress T) :=
  match take.result with
  | .succ next => do
    let (deltaBudget, updated) ← Settling.withBudgetCorrected next (← negI64 delta)
    return (← negI64 deltaBudget, { take with result := .succ updated })
  | .term term => do
    let (deltaBudget, updated) ← Settling.withBudgetCorrected term (← negI64 delta)
    return (← negI64 deltaBudget, { take with result := .term updated })

def scaleConsumedBudget (take : TakeInProgress T) (scale : Ratio) :
    Checked (Int × TakeInProgress T) := do
  let oldVal ← consumedBudget take
  let newVal ← scale.share oldVal
  let deltaConsumedBudget ← toI64 (asI64 newVal - asI64 oldVal)
  correctConsumedBudget take deltaConsumedBudget

/-- Scales the budgets, and returns what then is left of the mismatch. -/
def scaleBudgets (rescaleFactor : Ratio) (feeMismatch : Int) :
    List (Execution T M) → Checked (Int × List (Execution T M))
  | [] => return (feeMismatch, [])
  | .inr make :: rest => do
    let (feeMismatch, rest) ← scaleBudgets rescaleFactor feeMismatch rest
    return (feeMismatch, .inr make :: rest)
  | .inl take :: rest => do
    let (delta, take) ← scaleConsumedBudget take rescaleFactor
    let feeMismatch ← toI64 (feeMismatch + delta)
    let (feeMismatch, rest) ← scaleBudgets rescaleFactor feeMismatch rest
    return (feeMismatch, .inl take :: rest)

/-- Corrects one budget after another while there is a mismatch. -/
def correctBudgets (feeMismatch : Int) : List (Execution T M) → Checked (List (Execution T M))
  | [] => return []
  | .inr make :: rest => do
    return .inr make :: (← correctBudgets feeMismatch rest)
  | .inl take :: rest =>
    if feeMismatch ≠ 0 then do
      let (delta, take) ← correctConsumedBudget take (← negI64 feeMismatch)
      let feeMismatch ← toI64 (feeMismatch + delta)
      return .inl take :: (← correctBudgets feeMismatch rest)
    else return .inl take :: rest

def balanceFee (feeMismatch : Int) (rescaleFactor : Ratio) (instructions : List (Execution T M)) :
    Checked (List (Execution T M)) := do
  let (feeMismatch, instructions) ← scaleBudgets rescaleFactor feeMismatch instructions
  correctBudgets feeMismatch instructions

end Balancing

/-! ### The budget that is corrected -/

/-- Where an order keeps its execution budget. It may tell another budget than the one it keeps. -/
class BudgetKeeper (T : Type) where
  held : T → Nat
  withHeld : T → Nat → T
  /-- Whether the budget it tells is the one it keeps. -/
  counted : T → Bool
  held_withHeld (t : T) (n : Nat) : held (withHeld t n) = n
  withHeld_held (t : T) : withHeld t (held t) = t
  withHeld_withHeld (t : T) (n m : Nat) : withHeld (withHeld t n) m = withHeld t m
  counted_withHeld (t : T) (n : Nat) : counted (withHeld t n) = counted t

export BudgetKeeper (held withHeld counted)

class LawfulKeeper (T : Type) {U : Type} [MarketTaker T U] [CheckedTaker T] [BudgetKeeper T] :
    Prop where
  budget_of_counted (t : T) (h : counted t) : budget t = held t
  budget_withHeld (t : T) (n : Nat) : budget (withHeld t n) = if counted t then n else budget t
  input_withHeld (t : T) (n : Nat) : input (withHeld t n) = input t
  output_withHeld (t : T) (n : Nat) : output (withHeld t n) = output t
  corrected (t : T) (delta : Int) : Settling.withBudgetCorrected t delta =
    Prod.map id (withHeld t) <$> correctedBudget (held t) delta

instance : BudgetKeeper LimitOrder where
  held o := o.executionBudget
  withHeld o n := { o with executionBudget := n }
  counted _ := true
  held_withHeld _ _ := rfl
  withHeld_held _ := rfl
  withHeld_withHeld _ _ _ := rfl
  counted_withHeld _ _ := rfl

instance : LawfulKeeper LimitOrder where
  budget_of_counted _ _ := rfl
  budget_withHeld _ _ := rfl
  input_withHeld _ _ := rfl
  output_withHeld _ _ := rfl
  corrected o delta := by
    show o.withBudgetCorrected delta = _
    rw [LimitOrder.withBudgetCorrected]
    cases correctedBudget o.executionBudget delta <;> rfl

instance : BudgetKeeper InstantOrder where
  held o := o.executionBudget
  withHeld o n := { o with executionBudget := n }
  counted _ := true
  held_withHeld _ _ := rfl
  withHeld_held _ := rfl
  withHeld_withHeld _ _ _ := rfl
  counted_withHeld _ _ := rfl

instance : LawfulKeeper InstantOrder where
  budget_of_counted _ _ := rfl
  budget_withHeld _ _ := rfl
  input_withHeld _ _ := rfl
  output_withHeld _ _ := rfl
  corrected o delta := by
    show o.withBudgetCorrected delta = _
    rw [InstantOrder.withBudgetCorrected]
    cases correctedBudget o.executionBudget delta <;> rfl

instance : BudgetKeeper AdhocOrder where
  held o := o.order.executionBudget
  withHeld o n := { o with order := { o.order with executionBudget := n } }
  counted _ := true
  held_withHeld _ _ := rfl
  withHeld_held _ := rfl
  withHeld_withHeld _ _ _ := rfl
  counted_withHeld _ _ := rfl

instance : LawfulKeeper AdhocOrder where
  budget_of_counted _ _ := rfl
  budget_withHeld _ _ := rfl
  input_withHeld _ _ := rfl
  output_withHeld _ _ := rfl
  corrected o delta := by
    show o.withBudgetCorrected delta = _
    rw [AdhocOrder.withBudgetCorrected, InstantOrder.withBudgetCorrected]
    cases correctedBudget o.order.executionBudget delta <;> rfl

/-- A grid order tells what it may spend in a step, whatever it has left. -/
instance : BudgetKeeper GridOrder where
  held o := o.remainingExecutionBudget
  withHeld o n := { o with remainingExecutionBudget := n }
  counted _ := false
  held_withHeld _ _ := rfl
  withHeld_held _ := rfl
  withHeld_withHeld _ _ _ := rfl
  counted_withHeld _ _ := rfl

instance : LawfulKeeper GridOrder where
  budget_of_counted _ h := by cases h
  budget_withHeld _ _ := rfl
  input_withHeld _ _ := rfl
  output_withHeld _ _ := rfl
  corrected o delta := by
    show o.withBudgetCorrected delta = _
    rw [GridOrder.withBudgetCorrected]
    cases correctedBudget o.remainingExecutionBudget delta <;> rfl

instance : BudgetKeeper AnyOrder where
  held
    | .limit o => held o
    | .grid o => held o
  withHeld
    | .limit o, n => .limit (withHeld o n)
    | .grid o, n => .grid (withHeld o n)
  counted
    | .limit o => counted o
    | .grid o => counted o
  held_withHeld t _ := by cases t <;> rfl
  withHeld_held t := by cases t <;> rfl
  withHeld_withHeld t _ _ := by cases t <;> rfl
  counted_withHeld t _ := by cases t <;> rfl

instance : LawfulKeeper AnyOrder where
  budget_of_counted t h := by
    cases t with
    | limit o => rfl
    | grid o => cases h
  budget_withHeld t _ := by cases t <;> rfl
  input_withHeld t _ := by cases t <;> rfl
  output_withHeld t _ := by cases t <;> rfl
  corrected t delta := by
    show t.withBudgetCorrected delta = _
    cases t with
    | limit o =>
      rw [AnyOrder.withBudgetCorrected, LimitOrder.withBudgetCorrected]
      show _ = _ <$> correctedBudget o.executionBudget delta
      cases correctedBudget o.executionBudget delta <;> rfl
    | grid o =>
      rw [AnyOrder.withBudgetCorrected, GridOrder.withBudgetCorrected]
      show _ = _ <$> correctedBudget o.remainingExecutionBudget delta
      cases correctedBudget o.remainingExecutionBudget delta <;> rfl

section Takes

variable {T : Type} [BudgetKeeper T]

/-- The budget that a correction of the take changes. -/
def heldBy (take : TakeInProgress T) : Nat :=
  match take.result with
  | .succ next => held next
  | .term term => term.remainingBudget

def holding (take : TakeInProgress T) (n : Nat) : TakeInProgress T :=
  match take.result with
  | .succ next => { take with result := .succ (withHeld next n) }
  | .term term => { take with result := .term { term with remainingBudget := n } }

/-- Whether what is consumed of the take's budget changes with it. -/
def Counts (take : TakeInProgress T) : Bool :=
  match take.result with
  | .succ next => counted next
  | .term _ => true

variable (take : TakeInProgress T) (n m : Nat)

@[simp] theorem target_holding : (holding take n).target = take.target := by
  unfold holding
  split <;> rfl

@[simp] theorem heldBy_holding : heldBy (holding take n) = n := by
  obtain ⟨target, next | term⟩ := take
  · exact BudgetKeeper.held_withHeld next n
  · rfl

@[simp] theorem counts_holding : Counts (holding take n) = Counts take := by
  obtain ⟨target, next | term⟩ := take
  · exact BudgetKeeper.counted_withHeld next n
  · rfl

@[simp] theorem holding_holding : holding (holding take n) m = holding take m := by
  obtain ⟨target, next | term⟩ := take
  · exact congrArg (fun next => (⟨target, .succ next⟩ : TakeInProgress T))
      (BudgetKeeper.withHeld_withHeld next n m)
  · rfl

@[simp] theorem holding_heldBy : holding take (heldBy take) = take := by
  obtain ⟨target, next | term⟩ := take
  · exact congrArg (fun next => (⟨target, .succ next⟩ : TakeInProgress T))
      (BudgetKeeper.withHeld_held next)
  · rfl

variable {U : Type} [MarketTaker T U] [CheckedTaker T] [LawfulKeeper T]

theorem remainingBudget_holding :
    remainingBudget (holding take n) = if Counts take then n else remainingBudget take := by
  obtain ⟨target, next | term⟩ := take
  · exact LawfulKeeper.budget_withHeld next n
  · rfl

variable {take} in
theorem remainingBudget_of_counts (h : Counts take) : remainingBudget take = heldBy take := by
  obtain ⟨target, next | term⟩ := take
  · exact LawfulKeeper.budget_of_counted next h
  · rfl

@[simp] theorem removedInput_holding : removedInput (holding take n) = removedInput take := by
  obtain ⟨target, next | term⟩ := take
  · exact congrArg (fun rest => Checked.unwrap (checkedSub (input target) rest))
      (LawfulKeeper.input_withHeld next n)
  · rfl

@[simp] theorem addedOutput_holding : addedOutput (holding take n) = addedOutput take := by
  obtain ⟨target, next | term⟩ := take
  · exact congrArg (fun out => Checked.unwrap (checkedSub out (output target)))
      (LawfulKeeper.output_withHeld next n)
  · rfl

/-- A correction of a budget by itself, as far as it lasts. -/
def adjusted (held : Nat) (delta : Int) : Checked (Int × Nat) := do
  let (deltaBudget, left) ← correctedBudget held (← negI64 delta)
  return (← negI64 deltaBudget, left)

include U in
theorem correctConsumedBudget_eq (delta : Int) : correctConsumedBudget take delta =
    Prod.map id (holding take) <$> adjusted (heldBy take) delta := by
  obtain ⟨target, next | term⟩ := take
  · simp only [correctConsumedBudget, adjusted, heldBy]
    cases negI64 delta with
    | error e => rfl
    | ok delta =>
      simp only [Checked.ok_bind, LawfulKeeper.corrected (U := U) next delta]
      cases correctedBudget (held next) delta with
      | error e => rfl
      | ok result =>
        show (negI64 result.1 >>= fun deltaBudget => _) = _ <$> (negI64 result.1 >>= fun _ => _)
        cases negI64 result.1 <;> rfl
  · simp only [correctConsumedBudget, adjusted, heldBy, Settling.withBudgetCorrected]
    cases negI64 delta with
    | error e => rfl
    | ok delta =>
      simp only [Checked.ok_bind]
      cases correctedBudget term.remainingBudget delta with
      | error e => rfl
      | ok result =>
        show (negI64 result.1 >>= fun deltaBudget => _) = _ <$> (negI64 result.1 >>= fun _ => _)
        cases negI64 result.1 <;> rfl

end Takes

end UtxoMonitor.Orders
