import Mathlib.Algebra.Order.Nonneg.Field
import Mathlib.Data.NNRat.Lemmas
import UtxoMonitor.Cardano.Types

/-! Sides, prices, and the orders and pools of one pair as the matchmaking sees them. -/
namespace UtxoMonitor

open Lib

instance (n : Nat) : Ord (RawBytes n) := ⟨fun a b => compare a.val b.val⟩

instance (n : Nat) : Std.TransOrd (RawBytes n) :=
  inferInstanceAs (Std.TransCmp (compareOn (Subtype.val : { bs : Bytes // bs.length = n } → Bytes)))

instance (n : Nat) : Std.LawfulEqOrd (RawBytes n) where
  eq_of_compare h := Subtype.ext (@Std.LawfulEqOrd.eq_of_compare Bytes _ _ _ _ h)

namespace LiquidityBook

inductive Side where
  | bid
  | ask
deriving DecidableEq

inductive OnSide (A : Type) where
  | bid (a : A)
  | ask (a : A)
deriving DecidableEq

namespace Side

def not : Side → Side
  | bid => ask
  | ask => bid

def wrap {A : Type} (s : Side) (a : A) : OnSide A :=
  match s with
  | bid => .bid a
  | ask => .ask a

@[simp] theorem not_ne (s : Side) : s.not ≠ s := by cases s <;> decide

end Side

/-- Price of base asset denominated in units of quote asset. -/
abbrev AbsolutePrice := ℚ≥0

def AbsolutePrice.new (numer denom : Nat) : Option AbsolutePrice :=
  if denom = 0 then none else some (numer / denom)

/-- Price of a swap of nothing in a pool. -/
abbrev SpotPrice := AbsolutePrice

namespace OnSide

variable {A : Type}

def unwrap : OnSide A → A
  | bid a => a
  | ask a => a

@[simp] theorem unwrap_wrap (s : Side) (a : A) : (s.wrap a).unwrap = a := by cases s <;> rfl

/-- Compare prices on opposite sides. -/
def overlaps : OnSide AbsolutePrice → AbsolutePrice → Bool
  | bid this, that => that ≤ this
  | ask this, that => this ≤ that

/-- Compare prices on the same side. -/
def betterThan : OnSide AbsolutePrice → AbsolutePrice → Bool
  | bid this, that => that ≤ this
  | ask this, that => this ≤ that

end OnSide

inductive TimeBounds where
  | until (t : Nat)
  | after (t : Nat)
  | within (t₀ t₁ : Nat)
  | none
deriving DecidableEq

def TimeBounds.lowerBound : TimeBounds → Option Nat
  | .after t => some t
  | .within t₀ _ => some t₀
  | .until _ => .none
  | .none => .none

/-- `u64::checked_sub`. -/
def checkedSub (a b : Nat) : Option Nat := if b ≤ a then some (a - b) else none

/-! ### Transitions -/

/-- Terminal state of a take that was fulfilled. -/
structure TerminalTake where
  remainingInput : Nat
  accumulatedOutput : Nat
  remainingBudget : Nat
  remainingFee : Nat
deriving DecidableEq

inductive Next (S E : Type) where
  | succ (next : S)
  | term (last : E)
deriving DecidableEq

/-- The successive state, if there is one. -/
def Next.succ? {S E : Type} : Next S E → Option S
  | succ next => some next
  | term _ => none

structure Trans (Init Cont Term : Type) where
  target : Init
  result : Next Cont Term
deriving DecidableEq

def Trans.combine {Init Cont Term : Type} (self other : Trans Init Cont Term) :
    Trans Init Cont Term where
  target := self.target
  result := other.result

abbrev TakeInProgress (T : Type) := Trans T T TerminalTake
abbrev MakeInProgress (M : Type) := Trans M M Empty

/-! ### Orders and pools -/

/-- Whatever keeps its identity from one state to the next. -/
class Stable (A : Type) where
  StableId : Type
  decEqId : DecidableEq StableId
  stableId : A → StableId

export Stable (StableId stableId)

instance {A : Type} [Stable A] : DecidableEq (StableId A) := Stable.decEqId

/-- An order at one point of its life: liquidity at a price on one side of the pair. -/
class MarketTaker (T : Type) (U : outParam Type) where
  side : T → Side
  /-- Amount of input asset remaining. -/
  input : T → Nat
  /-- Amount of output asset accumulated. -/
  output : T → Nat
  price : T → AbsolutePrice
  /-- Operator's part of the fee for the given input. -/
  operatorFee : T → Nat → Nat
  fee : T → Nat
  budget : T → Nat
  consumableBudget : T → Nat
  marginalCostHint : T → U
  minMarginalOutput : T → Nat
  timeBounds : T → TimeBounds

/-- An order as a state machine. -/
class TakerBehaviour (T : Type) where
  withAppliedTrade : T → Nat → Nat → Next T TerminalTake
  withBudgetCorrected : T → Int → Int × T
  withFeeCharged : T → Nat → T
  withOutputAdded : T → Nat → T
  tryTerminate : T → Next T TerminalTake

structure AbsoluteReserves where
  base : Nat
  quote : Nat
deriving DecidableEq

/-- What a pool has paid out of either reserve. -/
def AbsoluteReserves.loss (init succ : AbsoluteReserves) : Option (OnSide Nat) :=
  ((checkedSub init.base succ.base).map .bid).or ((checkedSub init.quote succ.quote).map .ask)

structure AvailableLiquidity where
  input : Nat
  output : Nat
deriving DecidableEq

class MarketMaker (M : Type) (U : outParam Type) where
  staticPrice : M → SpotPrice
  realPrice : M → OnSide Nat → Option AbsolutePrice
  quality : M → Nat
  marginalCostHint : M → U
  liquidity : M → AbsoluteReserves
  availableLiquidityOnSide : M → OnSide AbsolutePrice → Option AvailableLiquidity
  isActive : M → Bool

class MakerBehavior (M : Type) where
  swap : M → OnSide Nat → Next M Empty

export MarketTaker (side input output price operatorFee fee budget consumableBudget
  minMarginalOutput timeBounds)
export TakerBehaviour (withAppliedTrade withBudgetCorrected withFeeCharged withOutputAdded
  tryTerminate)
export MarketMaker (staticPrice realPrice quality liquidity availableLiquidityOnSide isActive)
export MakerBehavior (swap)

/-- The orders of one side. -/
abbrev Sided (T : Type) {U : Type} [MarketTaker T U] (s : Side) := { t : T // side t = s }

/-- The order of a book puts the orders of one side in a row. -/
class SideOrd (T : Type) {U : Type} [MarketTaker T U] [Ord T] : Prop where
  trans : ∀ s : Side, Std.TransCmp fun a b : Sided T s => compare a.val b.val

/-- A trade keeps an order's identifier, and the order of a book tells identifiers apart. -/
class LawfulTaker (T : Type) {U : Type} [Stable T] [MarketTaker T U] [TakerBehaviour T] [Ord T] :
    Prop where
  stableId_of_succ : ∀ {t next : T} {removedInput addedOutput : Nat},
    withAppliedTrade t removedInput addedOutput = .succ next → stableId next = stableId t
  stableId_of_eq : ∀ {t u : T}, side t = side u → compare t u = .eq → stableId t = stableId u

/-- A trade takes its input from the order, and nothing is left of an order without input. -/
class SpendsInput (T : Type) {U : Type} [MarketTaker T U] [TakerBehaviour T] : Prop where
  input_of_succ : ∀ {t next : T} {removedInput addedOutput : Nat},
    withAppliedTrade t removedInput addedOutput = .succ next →
      0 < input next ∧ input next + removedInput = input t

inductive StashingOption (T : Type) where
  | stash (ts : List T)
  | unstash

structure ExecutionCap (U : Type) where
  soft : U
  hard : U

structure ExecutionConfig (U : Type) where
  executionCap : ExecutionCap U
  /-- Whether orders may match orders. -/
  o2oAllowed : Bool
  baseStepBudget : Nat

end LiquidityBook

end UtxoMonitor
