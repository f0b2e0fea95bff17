import Mathlib.Order.Compare
import UtxoMonitor.LiquidityBook.Types

/-! Limit orders: the orders that a liquidity book is run with. -/
namespace UtxoMonitor.LiquidityBook

open Lib

/-! ### Assets and execution units -/

/-- The length of a name, and its bytes padded to 32. -/
structure AssetName where
  len : UInt8
  bytes : RawBytes 32
deriving DecidableEq

def AssetName.zero : AssetName := ⟨1, RawBytes.replicate 0⟩

structure Token where
  policyId : PolicyId
  assetName : AssetName
deriving DecidableEq

inductive AssetClass where
  | native
  | token (t : Token)
deriving DecidableEq

instance : Ord AssetName := ⟨compareLex (compareOn AssetName.len) (compareOn AssetName.bytes)⟩

instance : Ord Token := ⟨compareLex (compareOn Token.policyId) (compareOn Token.assetName)⟩

instance : Std.TransOrd AssetName := inferInstanceAs (Std.TransCmp (compareLex _ _))

instance : Std.TransOrd Token := inferInstanceAs (Std.TransCmp (compareLex _ _))

instance : Std.LawfulEqOrd AssetName where
  eq_of_compare {a b} h := by
    obtain ⟨hlen, hbytes⟩ := Ordering.then_eq_eq.mp h
    cases a
    cases b
    exact congrArg₂ AssetName.mk (Std.LawfulEqOrd.eq_of_compare hlen)
      (Std.LawfulEqOrd.eq_of_compare hbytes)

instance : Std.LawfulEqOrd Token where
  eq_of_compare {a b} h := by
    obtain ⟨hpolicy, hname⟩ := Ordering.then_eq_eq.mp h
    cases a
    cases b
    exact congrArg₂ Token.mk (Std.LawfulEqOrd.eq_of_compare hpolicy)
      (Std.LawfulEqOrd.eq_of_compare hname)

def AssetClass.cmp : AssetClass → AssetClass → Ordering
  | native, native => .eq
  | native, token _ => .lt
  | token _, native => .gt
  | token t, token u => compare t u

/-- Determine side of a trade relatively to canonical pair: who pays in the lesser asset asks. -/
def sideOf (input output : AssetClass) : Side :=
  if (input.cmp output).isLE then .ask else .bid

structure ExUnits where
  mem : Nat
  steps : Nat
deriving DecidableEq

namespace ExUnits

instance : Ord ExUnits := ⟨compareLex (compareOn mem) (compareOn steps)⟩

instance : Std.TransOrd ExUnits := inferInstanceAs (Std.TransCmp (compareLex _ _))

instance : Add ExUnits := ⟨fun a b => ⟨a.mem + b.mem, a.steps + b.steps⟩⟩

instance : Zero ExUnits := ⟨⟨0, 0⟩⟩

instance : LT ExUnits := ltOfOrd

instance : DecidableLT ExUnits := fun a b => inferInstanceAs (Decidable (compare a b = .lt))

end ExUnits

/-! ### Orders -/

/-- Composable limit order, as far as the matchmaking reads it. -/
structure LimitOrder where
  /-- Identifier of the order. -/
  beacon : PolicyId
  /-- What user pays. -/
  inputAsset : AssetClass
  /-- Remaining tradable input. -/
  inputAmount : Nat
  /-- What user receives. -/
  outputAsset : AssetClass
  /-- Accumulated output. -/
  outputAmount : Nat
  /-- Worst acceptable price (Output/Input). -/
  basePrice : ℚ≥0
  /-- Remaining ADA to facilitate execution. -/
  executionBudget : Nat
  /-- Fee reserved for whole swap. -/
  fee : Nat
  /-- Assumed cost (in Lovelace) of one step of execution. -/
  maxCostPerExStep : Nat
  /-- Minimal marginal output allowed per execution step. -/
  minMarginalOutput : Nat
  /-- How many execution units each order consumes. -/
  marginalCost : ExUnits
deriving DecidableEq

namespace LimitOrder

def side (o : LimitOrder) : Side := sideOf o.inputAsset o.outputAsset

/-- The price of a bid is in base per quote, so it is inverted. -/
def price (o : LimitOrder) : AbsolutePrice :=
  match o.side with
  | .bid => o.basePrice⁻¹
  | .ask => o.basePrice

def operatorFee (o : LimitOrder) (inputConsumed : Nat) : Nat :=
  min (o.fee * inputConsumed) (2 ^ 64 - 1) / o.inputAmount

def terminal (o : LimitOrder) : TerminalTake where
  remainingInput := o.inputAmount
  accumulatedOutput := o.outputAmount
  remainingBudget := o.executionBudget
  remainingFee := o.fee

def withAppliedTrade (o : LimitOrder) (removedInput addedOutput : Nat) :
    Next LimitOrder TerminalTake :=
  let o := { o with
    inputAmount := o.inputAmount - removedInput
    outputAmount := o.outputAmount + addedOutput }
  if o.inputAmount = 0 then .term o.terminal else .succ o

def withBudgetCorrected (o : LimitOrder) (delta : Int) : Int × LimitOrder :=
  let budgetRemainder : Int := o.executionBudget
  let updatedBudgetRemainder := max (budgetRemainder + delta) 0
  (updatedBudgetRemainder - budgetRemainder,
    { o with executionBudget := updatedBudgetRemainder.toNat })

def tryTerminate (o : LimitOrder) : Next LimitOrder TerminalTake :=
  if o.executionBudget < o.maxCostPerExStep then .term o.terminal else .succ o

def stableId (o : LimitOrder) : Token := ⟨o.beacon, .zero⟩

/-- Best price first, then the lighter order; identifiers break ties. -/
def cmp (o o' : LimitOrder) : Ordering :=
  let cmpByPrice := compare o.price o'.price
  let cmpByPrice := if o.side = .bid then cmpByPrice.swap else cmpByPrice
  let cmpByWeight := (compare o.fee o'.fee).then (compare o.marginalCost o'.marginalCost).swap
  (cmpByPrice.then cmpByWeight).then (compare o.stableId o'.stableId)

end LimitOrder

instance : Stable LimitOrder where
  StableId := Token
  decEqId := inferInstance
  stableId := LimitOrder.stableId

instance : MarketTaker LimitOrder ExUnits where
  side := LimitOrder.side
  input o := o.inputAmount
  output o := o.outputAmount
  price := LimitOrder.price
  operatorFee := LimitOrder.operatorFee
  fee o := o.fee
  budget o := o.executionBudget
  consumableBudget o := o.maxCostPerExStep
  marginalCostHint o := o.marginalCost
  minMarginalOutput o := o.minMarginalOutput
  timeBounds _ := .none

instance : TakerBehaviour LimitOrder where
  withAppliedTrade := LimitOrder.withAppliedTrade
  withBudgetCorrected := LimitOrder.withBudgetCorrected
  withFeeCharged o fee := { o with fee := o.fee - fee }
  withOutputAdded o addedOutput := { o with outputAmount := o.outputAmount + addedOutput }
  tryTerminate := LimitOrder.tryTerminate

instance : Ord LimitOrder := ⟨LimitOrder.cmp⟩

namespace LimitOrder

theorem cmp_eq (o o' : LimitOrder) : o.cmp o' =
    ((if o.side = .bid then compareOn price o' o else compareOn price o o').then
      ((compareOn fee o o').then (compareOn marginalCost o' o))).then (compareOn stableId o o') := by
  simp only [cmp, compareOn, Std.OrientedCmp.eq_swap (a := o'.price),
    Std.OrientedCmp.eq_swap (a := o'.marginalCost)]

/-- The order of a side. -/
def cmpOn (s : Side) : Sided LimitOrder s → Sided LimitOrder s → Ordering :=
  let cmpByPrice := match s with
    | .bid => fun a b => compareOn (price ·.val) b a
    | .ask => compareOn (price ·.val)
  compareLex (compareLex cmpByPrice
    (compareLex (compareOn (fee ·.val)) fun a b => compareOn (marginalCost ·.val) b a))
    (compareOn (stableId ·.val))

instance (s : Side) : Std.TransCmp (cmpOn s) := by
  cases s with
  | bid => exact inferInstanceAs (Std.TransCmp (compareLex (compareLex _ (compareLex _ _)) _))
  | ask => exact inferInstanceAs (Std.TransCmp (compareLex (compareLex _ (compareLex _ _)) _))

/-- Orders of one side are in a row; an ask and a bid may each come before the other. -/
instance : SideOrd LimitOrder where
  trans s := by
    have h : (fun a b : Sided LimitOrder s => compare a.val b.val) = cmpOn s := by
      funext a b
      have hside : a.val.side = s := a.property
      refine (cmp_eq a.val b.val).trans ?_
      rw [hside]
      cases s <;> rfl
    rw [h]
    infer_instance

theorem withAppliedTrade_succ {o next : LimitOrder} {removedInput addedOutput : Nat}
    (h : o.withAppliedTrade removedInput addedOutput = .succ next) :
    removedInput < o.inputAmount ∧ next = { o with
      inputAmount := o.inputAmount - removedInput
      outputAmount := o.outputAmount + addedOutput } := by
  unfold withAppliedTrade at h
  dsimp only at h
  split at h
  · cases h
  · cases h
    exact ⟨by omega, rfl⟩

end LimitOrder

instance : LawfulTaker LimitOrder where
  stableId_of_succ h := by
    rw [(LimitOrder.withAppliedTrade_succ h).2]
    rfl
  stableId_of_eq _ h :=
    @Std.LawfulEqOrd.eq_of_compare Token _ _ _ _ (Ordering.then_eq_eq.mp h).2

instance : SpendsInput LimitOrder where
  input_of_succ {t next removedInput addedOutput} h := by
    obtain ⟨hlt, rfl⟩ := LimitOrder.withAppliedTrade_succ h
    exact ⟨Nat.sub_pos_of_lt hlt, Nat.sub_add_cancel hlt.le⟩

end UtxoMonitor.LiquidityBook
