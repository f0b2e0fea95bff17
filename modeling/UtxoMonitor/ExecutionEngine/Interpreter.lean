import UtxoMonitor.LiquidityBook.LimitOrder
import UtxoMonitor.LiquidityBook.Recipe
import UtxoMonitor.Pools.Types

/-! How a recipe becomes a transaction whose fee its takes pay for. -/
namespace UtxoMonitor.ExecutionEngine

open Lib LiquidityBook Pools

abbrev Execution (T M : Type) := TakeInProgress T ⊕ MakeInProgress M

/-! ### Budgets of takes -/

section Takes

variable {T U : Type} [MarketTaker T U]

def remainingBudget (take : TakeInProgress T) : Nat :=
  match take.result with
  | .succ next => budget next
  | .term term => term.remainingBudget

def consumedBudget (take : TakeInProgress T) : Checked Nat :=
  Checked.unwrap (checkedSub (budget take.target) (remainingBudget take))

variable [TakerBehaviour T]

/-- Returns by how much more is consumed, and the take. -/
def correctConsumedBudget (take : TakeInProgress T) (delta : Int) : Int × TakeInProgress T :=
  match take.result with
  | .succ next =>
    (-(withBudgetCorrected next (-delta)).1,
      { take with result := .succ (withBudgetCorrected next (-delta)).2 })
  | .term term =>
    (-(term.withBudgetCorrected (-delta)).1,
      { take with result := .term (term.withBudgetCorrected (-delta)).2 })

def scaleConsumedBudget (take : TakeInProgress T) (scale : Ratio) :
    Checked (Int × TakeInProgress T) := do
  let oldVal ← consumedBudget take
  let newVal ← scale.share oldVal
  return correctConsumedBudget take (newVal - oldVal)

end Takes

/-! ### Fee balancing -/

section Balancing

variable {T M U : Type} [MarketTaker T U] [TakerBehaviour T]

/-- Scales the budgets, and returns what then is left of the mismatch. -/
def scaleBudgets (rescaleFactor : Ratio) (feeMismatch : Int) :
    List (Execution T M) → Checked (Int × List (Execution T M))
  | [] => return (feeMismatch, [])
  | .inr make :: rest => do
    let (feeMismatch, rest) ← scaleBudgets rescaleFactor feeMismatch rest
    return (feeMismatch, .inr make :: rest)
  | .inl take :: rest => do
    let (delta, take) ← scaleConsumedBudget take rescaleFactor
    let (feeMismatch, rest) ← scaleBudgets rescaleFactor (feeMismatch + delta) rest
    return (feeMismatch, .inl take :: rest)

/-- Corrects one budget after another while there is a mismatch. -/
def correctBudgets (feeMismatch : Int) : List (Execution T M) → List (Execution T M)
  | [] => []
  | .inr make :: rest => .inr make :: correctBudgets feeMismatch rest
  | .inl take :: rest =>
    if feeMismatch ≠ 0 then
      .inl (correctConsumedBudget take (-feeMismatch)).2 ::
        correctBudgets (feeMismatch + (correctConsumedBudget take (-feeMismatch)).1) rest
    else .inl take :: rest

def balanceFee (feeMismatch : Int) (rescaleFactor : Ratio) (instructions : List (Execution T M)) :
    Checked (List (Execution T M)) := do
  let (feeMismatch, instructions) ← scaleBudgets rescaleFactor feeMismatch instructions
  return correctBudgets feeMismatch instructions

omit [TakerBehaviour T] in
/-- What the takes reserve for the fee of the transaction while they are executed. -/
def reservedTxFee : List (Execution T M) → Checked Nat
  | [] => return 0
  | .inr _ :: rest => reservedTxFee rest
  | .inl take :: rest => do
    Checked.add 64 (← consumedBudget take) (← reservedTxFee rest)

/-- A pass after which the transaction is taken as it is. -/
structure Pass where
  reservedTxFee : Nat
  accumulatedResidue : Nat

/-- At most so many passes, each of which estimates the same fee; `none` if they do not suffice. -/
def executeRecipe (estimatedFee : Nat) : Nat → Bool → List (Execution T M) → Nat →
    Checked (Option Pass)
  | 0, _, _, _ => return none
  | passes + 1, takeResidualFee, instructions, accumulatedResidue => do
    let reserved ← reservedTxFee instructions
    let updatedTxFee ← Checked.sub reserved accumulatedResidue
    let feeMismatch : Int := updatedTxFee - estimatedFee
    if feeMismatch ≠ 0 then
      if takeResidualFee ∧ 0 < feeMismatch then
        let accumulatedResidue ← Checked.add 64 accumulatedResidue feeMismatch.natAbs
        executeRecipe estimatedFee passes false instructions accumulatedResidue
      else
        let feeRescaleFactor ← Ratio.new estimatedFee reserved
        let correctedRecipe ← balanceFee feeMismatch feeRescaleFactor instructions
        executeRecipe estimatedFee passes false correctedRecipe 0
    else return some ⟨reserved, accumulatedResidue⟩

end Balancing

end UtxoMonitor.ExecutionEngine
