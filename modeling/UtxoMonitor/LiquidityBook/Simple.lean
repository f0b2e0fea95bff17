import Mathlib.Order.Compare
import UtxoMonitor.LiquidityBook.Types

/-! The order and the pool with which the book's own tests are run. -/
namespace UtxoMonitor.LiquidityBook

open Lib

/-- A token's identifier. -/
abbrev TokenId := RawBytes 28

structure SimpleOrderPF where
  source : TokenId
  side : Side
  input : Nat
  accumulatedOutput : Nat
  minMarginalOutput : Nat
  price : AbsolutePrice
  fee : Nat
  exBudget : Nat
  costHint : Nat
  bounds : TimeBounds
deriving DecidableEq

namespace SimpleOrderPF

def terminal (o : SimpleOrderPF) : TerminalTake where
  remainingInput := o.input
  accumulatedOutput := o.accumulatedOutput
  remainingBudget := o.exBudget
  remainingFee := o.fee

def tryTerminate (o : SimpleOrderPF) : Next SimpleOrderPF TerminalTake :=
  if 0 < o.input then .succ o else .term o.terminal

/-- The correction reports the decrease. -/
def withBudgetCorrected (o : SimpleOrderPF) (delta : Int) : Int × SimpleOrderPF :=
  let budgetRemainder : Int := o.exBudget
  let updatedBudgetRemainder := max (budgetRemainder + delta) 0
  (budgetRemainder - updatedBudgetRemainder, { o with exBudget := updatedBudgetRemainder.toNat })

instance : Stable SimpleOrderPF where
  StableId := TokenId
  decEqId := inferInstance
  stableId := source

instance : MarketTaker SimpleOrderPF Nat where
  side := side
  input := input
  output := accumulatedOutput
  price := price
  operatorFee o inputConsumed := o.fee * inputConsumed / o.input
  fee := fee
  budget := exBudget
  consumableBudget := exBudget
  marginalCostHint := costHint
  minMarginalOutput := minMarginalOutput
  timeBounds := bounds

instance : TakerBehaviour SimpleOrderPF where
  withAppliedTrade o removedInput addedOutput :=
    { o with
      input := o.input - removedInput
      accumulatedOutput := o.accumulatedOutput + addedOutput }.tryTerminate
  withBudgetCorrected := withBudgetCorrected
  withFeeCharged o fee := { o with fee := o.fee - fee }
  withOutputAdded o addedOutput := { o with accumulatedOutput := o.accumulatedOutput + addedOutput }
  tryTerminate := tryTerminate

instance : Ord SimpleOrderPF := ⟨compareLex (compareOn price) (compareOn source)⟩

instance : SideOrd SimpleOrderPF where
  trans s := inferInstanceAs (Std.TransCmp (compareLex
    (compareOn fun o : Sided SimpleOrderPF s => o.val.price) (compareOn (source ·.val))))

theorem withAppliedTrade_succ {o next : SimpleOrderPF} {removedInput addedOutput : Nat}
    (h : TakerBehaviour.withAppliedTrade o removedInput addedOutput = .succ next) :
    removedInput < o.input ∧ next = { o with
      input := o.input - removedInput
      accumulatedOutput := o.accumulatedOutput + addedOutput } := by
  change tryTerminate _ = _ at h
  unfold tryTerminate at h
  split at h
  · rename_i hpos
    cases h
    exact ⟨Nat.lt_of_sub_pos hpos, rfl⟩
  · cases h

instance : LawfulTaker SimpleOrderPF where
  stableId_of_succ h := by
    rw [(withAppliedTrade_succ h).2]
    rfl
  stableId_of_eq _ h :=
    @Std.LawfulEqOrd.eq_of_compare TokenId _ _ _ _ (Ordering.then_eq_eq.mp h).2

instance : SpendsInput SimpleOrderPF where
  input_of_succ {t next removedInput addedOutput} h := by
    obtain ⟨hlt, rfl⟩ := withAppliedTrade_succ h
    exact ⟨Nat.sub_pos_of_lt hlt, Nat.sub_add_cancel hlt.le⟩

end SimpleOrderPF

structure SimpleCFMMPool where
  poolId : TokenId
  reservesBase : Nat
  reservesQuote : Nat
  feeNum : Nat
deriving DecidableEq

namespace SimpleCFMMPool

def swapped (pool : SimpleCFMMPool) : OnSide Nat → SimpleCFMMPool
  | .bid quoteInput =>
    let baseOutput := pool.reservesBase * quoteInput * pool.feeNum /
      (pool.reservesQuote * 1000 + quoteInput * pool.feeNum)
    { pool with
      reservesQuote := pool.reservesQuote + quoteInput
      reservesBase := pool.reservesBase - baseOutput }
  | .ask baseInput =>
    let quoteOutput := pool.reservesQuote * baseInput * pool.feeNum /
      (pool.reservesBase * 1000 + baseInput * pool.feeNum)
    { pool with
      reservesBase := pool.reservesBase + baseInput
      reservesQuote := pool.reservesQuote - quoteOutput }

def liquidity (pool : SimpleCFMMPool) : AbsoluteReserves := ⟨pool.reservesBase, pool.reservesQuote⟩

def realPrice (pool : SimpleCFMMPool) (input : OnSide Nat) : Option AbsolutePrice :=
  let output := ((pool.liquidity.loss (pool.swapped input).liquidity).map OnSide.unwrap).getD 0
  match input with
  | .bid quoteInput => AbsolutePrice.new quoteInput output
  | .ask baseInput => AbsolutePrice.new output baseInput

instance : Stable SimpleCFMMPool where
  StableId := TokenId
  decEqId := inferInstance
  stableId := poolId

instance : MarketMaker SimpleCFMMPool Nat where
  staticPrice pool := pool.reservesQuote / pool.reservesBase
  realPrice := realPrice
  quality _ := 0
  marginalCostHint _ := 10
  liquidity := liquidity
  availableLiquidityOnSide _ _ := none
  isActive _ := true

instance : MakerBehavior SimpleCFMMPool where
  swap pool input := .succ (pool.swapped input)

end SimpleCFMMPool

/-- An order that waits for nothing and pays nothing. -/
def sampleOrder (source : UInt8) (side : Side) (price input minMarginalOutput : Nat) :
    SimpleOrderPF where
  source := RawBytes.replicate source
  side := side
  input := input
  accumulatedOutput := 0
  minMarginalOutput := minMarginalOutput
  price := price
  fee := 0
  exBudget := 0
  costHint := 10
  bounds := .none

def samplePool : SimpleCFMMPool where
  poolId := RawBytes.replicate 9
  reservesBase := 100
  reservesQuote := 100
  feeNum := 1000

end UtxoMonitor.LiquidityBook
