import UtxoMonitor.ExecutionEngine.Interpreter
import UtxoMonitor.Orders.Limit

/-! Orders on words of 64 bits, and what the matchmaking expects of their trades. -/
namespace UtxoMonitor.Orders

open Lib LiquidityBook ExecutionEngine

/-! ### Settling a trade -/

/-- Budgets are corrected as signed words. -/
def correctedBudget (budgetRemainder : Nat) (delta : Int) : Checked (Int × Nat) := do
  let budgetRemainder := asI64 budgetRemainder
  let correctedRemainder ← toI64 (budgetRemainder + delta)
  let updatedBudgetRemainder := max correctedRemainder 0
  let realDelta ← toI64 (updatedBudgetRemainder - budgetRemainder)
  return (realDelta, updatedBudgetRemainder.toNat)

/-- What a trade is settled on. -/
class Settling (A : Type) where
  withOutputAdded : A → Nat → Checked A
  withFeeCharged : A → Nat → Checked A
  withBudgetCorrected : A → Int → Checked (Int × A)

instance : Settling TerminalTake where
  withOutputAdded term addedOutput := do
    return { term with accumulatedOutput := ← Checked.add 64 term.accumulatedOutput addedOutput }
  withFeeCharged term fee := do
    return { term with remainingFee := ← Checked.sub term.remainingFee fee }
  withBudgetCorrected term delta := do
    let (realDelta, remainingBudget) ← correctedBudget term.remainingBudget delta
    return (realDelta, { term with remainingBudget := remainingBudget })

/-- An order as a state machine. -/
class CheckedTaker (T : Type) extends Settling T where
  withAppliedTrade : T → Nat → Nat → Checked (Next T TerminalTake)
  tryTerminate : T → Next T TerminalTake

section Takes

def settle {A : Type} [Settling A] (a : A) (excess fee : Nat) (budget : Int) : Checked A := do
  let a ← Settling.withOutputAdded a excess
  let a ← Settling.withFeeCharged a fee
  let delta ← negI64 budget
  let (_, a) ← Settling.withBudgetCorrected a delta
  return a

variable {T U : Type} [MarketTaker T U]

def removedInput (take : TakeInProgress T) : Checked Nat :=
  Checked.unwrap <| checkedSub (input take.target) <|
    match take.result with
    | .succ next => input next
    | .term term => term.remainingInput

def addedOutput (take : TakeInProgress T) : Checked Nat :=
  Checked.unwrap <| checkedSub
    (match take.result with
    | .succ next => output next
    | .term term => term.accumulatedOutput) (output take.target)

variable [CheckedTaker T]

def finalized (take : TakeInProgress T) (excess : Nat) : Checked (TakeInProgress T) := do
  let removedInput ← removedInput take
  let fee := operatorFee take.target removedInput
  let budget := asI64 (consumableBudget take.target)
  match take.result with
  | .succ next => do
    let succ ← settle next excess fee budget
    return ⟨take.target, CheckedTaker.tryTerminate succ⟩
  | .term term => do
    let term ← settle term excess fee budget
    return ⟨take.target, .term term⟩

/-- The trade goes through, and the take tells what was traded and consumed. -/
def Meets (o : T) (removed added excess : Nat) : Prop :=
  ∃ next take, CheckedTaker.withAppliedTrade o removed added = .ok next ∧
    finalized ⟨o, next⟩ excess = .ok take ∧
    removedInput take = .ok removed ∧ addedOutput take = .ok (added + excess) ∧
    (consumableBudget o ≤ budget o → consumedBudget take = .ok (consumableBudget o))

end Takes

/-! ### Orders that settle as the takes they may end in -/

section Plain

variable {T U : Type} [MarketTaker T U]

def terminal (t : T) : TerminalTake where
  remainingInput := input t
  accumulatedOutput := output t
  remainingBudget := budget t
  remainingFee := fee t

/-- What an order stands at, whether or not it goes on. -/
def ending : Next T TerminalTake → TerminalTake
  | .succ next => terminal next
  | .term term => term

/-- Orders that trade what they are told to. -/
class PlainTaker (T : Type) {U : Type} [MarketTaker T U] [CheckedTaker T] : Prop where
  trade (t : T) (removed added : Nat) :
    ending <$> CheckedTaker.withAppliedTrade t removed added = do
      let input ← Checked.sub (input t) removed
      let output ← Checked.add 64 (output t) added
      return { terminal t with remainingInput := input, accumulatedOutput := output }
  outputAdded (t : T) (addedOutput : Nat) : terminal <$> Settling.withOutputAdded t addedOutput =
    Settling.withOutputAdded (terminal t) addedOutput
  feeCharged (t : T) (charged : Nat) :
    terminal <$> Settling.withFeeCharged t charged = Settling.withFeeCharged (terminal t) charged
  budgetCorrected (t : T) (delta : Int) : Prod.map id terminal <$> Settling.withBudgetCorrected t delta =
    Settling.withBudgetCorrected (terminal t) delta
  terminate (t : T) : ending (CheckedTaker.tryTerminate t) = terminal t

/-! ### When such orders meet what is expected -/

theorem removedInput_eq (take : TakeInProgress T) : removedInput take =
    Checked.unwrap (checkedSub (input take.target) (ending take.result).remainingInput) := by
  obtain ⟨target, next | term⟩ := take <;> rfl

theorem addedOutput_eq (take : TakeInProgress T) : addedOutput take =
    Checked.unwrap (checkedSub (ending take.result).accumulatedOutput (output take.target)) := by
  obtain ⟨target, next | term⟩ := take <;> rfl

theorem consumedBudget_eq (take : TakeInProgress T) : consumedBudget take =
    Checked.unwrap (checkedSub (budget take.target) (ending take.result).remainingBudget) := by
  obtain ⟨target, next | term⟩ := take <;> rfl

/-- What is left of a budget when another is consumed, both read as signed words. -/
def leftOf (remaining consumed : Nat) : Checked Nat := do
  let delta ← negI64 (asI64 consumed)
  let (_, left) ← correctedBudget remaining delta
  return left

theorem leftOf_eq_ok {b c : Nat} (hc : c ≤ b) (hb : b < 2 ^ 64) :
    leftOf b c = .ok (b - c) ↔ b < 2 ^ 63 ∨ 2 ^ 63 < c := by
  have hleft : leftOf b c = .ok (b - c) ↔ c ≠ 2 ^ 63 ∧
      (-2 ^ 63 ≤ asI64 b + -asI64 c ∧ asI64 b + -asI64 c < 2 ^ 63) ∧
      (-2 ^ 63 ≤ max (asI64 b + -asI64 c) 0 - asI64 b ∧
        max (asI64 b + -asI64 c) 0 - asI64 b < 2 ^ 63) ∧
      (max (asI64 b + -asI64 c) 0).toNat = b - c := by
    simp [leftOf, correctedBudget, negI64_asI64_eq_ok, toI64_eq_ok, Checked.map_eq_ok,
      and_assoc]
  rw [hleft, asI64, asI64]
  split <;> split <;> omega

theorem settle_terminal_eq_ok {term term' : TerminalTake} {excess fee c : Nat} :
    settle term excess fee (asI64 c) = .ok term' ↔
      term.accumulatedOutput + excess < 2 ^ 64 ∧ fee ≤ term.remainingFee ∧
      ∃ left, leftOf term.remainingBudget c = .ok left ∧ {
        remainingInput := term.remainingInput
        accumulatedOutput := term.accumulatedOutput + excess
        remainingBudget := left
        remainingFee := term.remainingFee - fee } = term' := by
  simp [settle, Settling.withOutputAdded, Settling.withFeeCharged, Settling.withBudgetCorrected,
    leftOf, Checked.map_eq_ok]
  intro _ _
  constructor
  · rintro ⟨delta, hdelta, realDelta, left, hleft, hterm⟩
    exact ⟨left, ⟨delta, hdelta, realDelta, hleft⟩, hterm⟩
  · rintro ⟨left, ⟨delta, hdelta, realDelta, hleft⟩, hterm⟩
    exact ⟨delta, hdelta, realDelta, left, hleft, hterm⟩

theorem unwrap_checkedSub_eq_ok {a b c : Nat} :
    Checked.unwrap (checkedSub a b) = .ok c ↔ b ≤ a ∧ a - b = c := by
  rw [Checked.unwrap_eq_ok, checkedSub, Option.ite_none_right_eq_some, Option.some.injEq]

variable [CheckedTaker T] [PlainTaker T] {t : T} {removed added excess fee' : Nat}
  {budget' : Int} {next : Next T TerminalTake} {take : TakeInProgress T} {term : TerminalTake}

theorem exists_trade : (∃ next, CheckedTaker.withAppliedTrade t removed added = .ok next ∧
      ending next = term) ↔
    removed ≤ input t ∧ output t + added < 2 ^ 64 ∧ { terminal t with
      remainingInput := input t - removed
      accumulatedOutput := output t + added } = term := by
  rw [← Checked.map_eq_ok, PlainTaker.trade]
  simp [Checked.map_eq_ok]

theorem terminal_settle (t : T) (excess fee : Nat) (budget : Int) :
    terminal <$> settle t excess fee budget = settle (terminal t) excess fee budget := by
  simp only [settle, ← PlainTaker.outputAdded, ← PlainTaker.feeCharged,
    ← PlainTaker.budgetCorrected, map_bind, bind_map_left]
  simp

theorem settle_ending : settle (terminal t) excess fee' budget' = .ok term ↔
    ∃ succ, settle t excess fee' budget' = .ok succ ∧
      ending (CheckedTaker.tryTerminate succ) = term := by
  simp only [PlainTaker.terminate]
  rw [← terminal_settle, Checked.map_eq_ok]

theorem exists_finalized : (∃ take, finalized ⟨t, next⟩ excess = .ok take ∧ take.target = t ∧
      ending take.result = term) ↔
    ∃ removed, removedInput ⟨t, next⟩ = .ok removed ∧
      settle (ending next) excess (operatorFee t removed) (asI64 (consumableBudget t)) =
        .ok term := by
  cases next with
  | succ next =>
    simp only [finalized, ending, settle_ending, Checked.bind_eq_ok, Checked.pure_eq_ok]
    constructor
    · rintro ⟨take, ⟨removed, hremoved, succ, hsucc, rfl⟩, _, hterm⟩
      exact ⟨removed, hremoved, succ, hsucc, hterm⟩
    · rintro ⟨removed, hremoved, succ, hsucc, hterm⟩
      exact ⟨_, ⟨removed, hremoved, succ, hsucc, rfl⟩, rfl, hterm⟩
  | term last =>
    simp only [finalized, ending, Checked.bind_eq_ok, Checked.pure_eq_ok]
    constructor
    · rintro ⟨take, ⟨removed, hremoved, succ, hsucc, rfl⟩, _, hterm⟩
      exact ⟨removed, hremoved, hsucc.trans (congrArg _ hterm)⟩
    · rintro ⟨removed, hremoved, hterm⟩
      exact ⟨_, ⟨removed, hremoved, term, hterm, rfl⟩, rfl, rfl⟩

omit [PlainTaker T] in
theorem target_finalized (h : finalized ⟨t, next⟩ excess = .ok take) : take.target = t := by
  cases next with
  | succ next =>
    simp only [finalized, Checked.bind_eq_ok, Checked.pure_eq_ok] at h
    obtain ⟨_, _, _, _, rfl⟩ := h
    rfl
  | term last =>
    simp only [finalized, Checked.bind_eq_ok, Checked.pure_eq_ok] at h
    obtain ⟨_, _, _, _, rfl⟩ := h
    rfl

/-- The trade goes through exactly if the output fits its word and the budgets do not change sign
when they are read as signed words. -/
theorem meets_iff (hremoved : removed ≤ input t) (hfee : operatorFee t removed ≤ fee t)
    (hbudget : consumableBudget t ≤ budget t) (hword : budget t < 2 ^ 64) :
    Meets t removed added excess ↔ output t + added + excess < 2 ^ 64 ∧
      (budget t < 2 ^ 63 ∨ 2 ^ 63 < consumableBudget t) := by
  rw [← leftOf_eq_ok hbudget hword]
  constructor
  · rintro ⟨next, take, htrade, hfinal, _, _, hconsumed⟩
    have htarget := target_finalized hfinal
    obtain ⟨_, _, htraded⟩ := exists_trade.mp ⟨next, htrade, rfl⟩
    obtain ⟨removed', _, hsettle⟩ := exists_finalized.mp ⟨take, hfinal, htarget, rfl⟩
    rw [← htraded] at hsettle
    obtain ⟨houtput, _, left, hleft, hsettled⟩ := settle_terminal_eq_ok.mp hsettle
    refine ⟨houtput, ?_⟩
    have hconsumed := hconsumed hbudget
    rw [consumedBudget_eq, htarget, ← hsettled, unwrap_checkedSub_eq_ok] at hconsumed
    have heq : left = budget t - consumableBudget t := by
      dsimp only at hconsumed
      omega
    rw [← heq]
    exact hleft
  · rintro ⟨houtput, hleft⟩
    have hadded : output t + added < 2 ^ 64 := by omega
    obtain ⟨next, htrade, htraded⟩ := exists_trade.mpr ⟨hremoved, hadded, rfl⟩
    have hinput : removedInput ⟨t, next⟩ = .ok removed := by
      rw [removedInput_eq, htraded, unwrap_checkedSub_eq_ok]
      dsimp only
      omega
    have hsettle : settle (ending next) excess (operatorFee t removed)
        (asI64 (consumableBudget t)) = .ok {
          remainingInput := input t - removed
          accumulatedOutput := output t + added + excess
          remainingBudget := budget t - consumableBudget t
          remainingFee := fee t - operatorFee t removed } := by
      rw [htraded]
      exact settle_terminal_eq_ok.mpr ⟨houtput, hfee, _, hleft, rfl⟩
    obtain ⟨take, hfinal, htarget, hending⟩ := exists_finalized.mpr ⟨removed, hinput, hsettle⟩
    refine ⟨next, take, htrade, hfinal, ?_, ?_, fun _ => ?_⟩
    · rw [removedInput_eq, htarget, hending, unwrap_checkedSub_eq_ok]
      dsimp only
      omega
    · rw [addedOutput_eq, htarget, hending, unwrap_checkedSub_eq_ok]
      dsimp only
      omega
    · rw [consumedBudget_eq, htarget, hending, unwrap_checkedSub_eq_ok]
      dsimp only
      omega

end Plain

/-! ### Limit orders -/

namespace LimitOrder

def withAppliedTrade (o : LimitOrder) (removedInput addedOutput : Nat) :
    Checked (Next LimitOrder TerminalTake) := do
  let inputAmount ← Checked.sub o.inputAmount removedInput
  let outputAmount ← Checked.add 64 o.outputAmount addedOutput
  let o := { o with inputAmount := inputAmount, outputAmount := outputAmount }
  if o.inputAmount = 0 then return .term o.terminal else return .succ o

def withBudgetCorrected (o : LimitOrder) (delta : Int) : Checked (Int × LimitOrder) := do
  let (realDelta, executionBudget) ← correctedBudget o.executionBudget delta
  return (realDelta, { o with executionBudget := executionBudget })

def withFeeCharged (o : LimitOrder) (fee : Nat) : Checked LimitOrder := do
  return { o with fee := ← Checked.sub o.fee fee }

def withOutputAdded (o : LimitOrder) (addedOutput : Nat) : Checked LimitOrder := do
  return { o with outputAmount := ← Checked.add 64 o.outputAmount addedOutput }

def tryTerminate (o : LimitOrder) : Next LimitOrder TerminalTake :=
  if o.executionBudget < o.maxCostPerExStep then .term o.terminal else .succ o

end LimitOrder

instance : MarketTaker LimitOrder ExUnits where
  side o := side o.toLimitOrder
  input o := input o.toLimitOrder
  output o := output o.toLimitOrder
  price o := price o.toLimitOrder
  operatorFee o := operatorFee o.toLimitOrder
  fee o := fee o.toLimitOrder
  budget o := budget o.toLimitOrder
  consumableBudget o := consumableBudget o.toLimitOrder
  marginalCostHint o := MarketTaker.marginalCostHint o.toLimitOrder
  minMarginalOutput o := minMarginalOutput o.toLimitOrder
  timeBounds o := timeBounds o.toLimitOrder

instance : CheckedTaker LimitOrder where
  withAppliedTrade := LimitOrder.withAppliedTrade
  withBudgetCorrected := LimitOrder.withBudgetCorrected
  withFeeCharged := LimitOrder.withFeeCharged
  withOutputAdded := LimitOrder.withOutputAdded
  tryTerminate := LimitOrder.tryTerminate

instance : PlainTaker LimitOrder where
  trade o removed added := by
    show ending <$> o.withAppliedTrade removed added = _
    rw [LimitOrder.withAppliedTrade]
    dsimp only [input, output]
    cases Checked.sub o.inputAmount removed with
    | error e => rfl
    | ok inputAmount =>
      cases Checked.add 64 o.outputAmount added with
      | error e => rfl
      | ok outputAmount =>
        show ending <$> (if inputAmount = 0 then _ else _) = _
        split <;> rfl
  outputAdded o addedOutput := by
    show terminal <$> o.withOutputAdded addedOutput = _
    rw [LimitOrder.withOutputAdded]
    dsimp only [Settling.withOutputAdded, terminal, output]
    cases Checked.add 64 o.outputAmount addedOutput <;> rfl
  feeCharged o charged := by
    show terminal <$> o.withFeeCharged charged = _
    rw [LimitOrder.withFeeCharged]
    dsimp only [Settling.withFeeCharged, terminal, fee]
    cases Checked.sub o.fee charged <;> rfl
  budgetCorrected o delta := by
    show Prod.map id terminal <$> o.withBudgetCorrected delta = _
    rw [LimitOrder.withBudgetCorrected]
    dsimp only [Settling.withBudgetCorrected, terminal, budget]
    cases correctedBudget o.executionBudget delta <;> rfl
  terminate o := by
    show ending o.tryTerminate = _
    rw [LimitOrder.tryTerminate]
    split <;> rfl

end UtxoMonitor.Orders
