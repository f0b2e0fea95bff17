import UtxoMonitor.Pools.Cfmm

/-! Balance pools: constant product with weights. -/
namespace UtxoMonitor.Pools

open Lib LiquidityBook

/-- The arithmetic of the numeric libraries that the pools compute with. -/
class Numerics where
  /-- The integral part of `(invariant / basePart) ^ (1 / weight)`, in `BigNumber`. -/
  balanceRoot : (invariant basePart weight : Nat) → Nat
  /-- What the input buys of a degen pool's tokens, in `BigDecimal`. -/
  curveBuy : (aNum bNum supply input : Nat) → Nat
  /-- What is paid for tokens of a degen pool, in `BigDecimal`. -/
  curveSell : (aNum bNum supply input : Nat) → Nat
  /-- A bound of the turns that the loops of a stable pool take. -/
  fuel : Nat

def adaWeight : Nat := 1

def tokenWeight : Nat := 4

def weightFeeDen : Nat := 5

/-- `U512` to a power. -/
def powU512 (a n : Nat) : Checked Nat :=
  if a ^ n < 2 ^ 512 then .ok (a ^ n) else .error .overflow

/-- The invariant after an output, the fee taken in 64 bits. -/
def calculateNewInvariantBnU (baseReserves baseWeight baseAmount quoteReserves quoteWeight
    quoteOutput : Nat) (poolFee : Ratio) : Checked Nat := do
  let additionalPart ← poolFee.share baseAmount
  let baseNewPart ← powU512 (← Checked.add 512 baseReserves additionalPart) baseWeight
  let quotePart ← powU512 (← Checked.sub quoteReserves quoteOutput) quoteWeight
  Checked.mul 512 baseNewPart quotePart

/-- `(base_reserves + base_amount * (poolFee / feeDen)) ^ base_weight` -/
def calculateBasePartWithFee (baseReserves baseWeight baseAmount : Nat) (poolFee : Ratio) :
    Checked Nat := do
  let traded ← Checked.div (← Checked.mul 512 baseAmount poolFee.numer) poolFee.denom
  powU512 (← Checked.add 512 baseReserves traded) baseWeight

/-- The largest output, from the first candidate down, that keeps the invariant. -/
def settleOutput (newInvariant : Nat → Checked Nat) (invariant : Nat) : Nat → Checked Nat
  | 0 => do
    if (← newInvariant 0) < invariant then .error .underflow else return 0
  | preOutput + 1 => do
    if (← newInvariant (preOutput + 1)) < invariant then
      settleOutput newInvariant invariant preOutput
    else return preOutput + 1

section

variable [Numerics]

/-- The output for an input of the base asset of a trade, in `U512` but for the first candidate. -/
def balanceQuoteAmount (baseReserves baseWeight quoteReserves quoteWeight baseAmount : Nat)
    (poolFee : Ratio) : Checked Nat := do
  let invariant ← Checked.mul 512 (← powU512 baseReserves baseWeight)
    (← powU512 quoteReserves quoteWeight)
  let baseNewPart ← calculateBasePartWithFee baseReserves baseWeight baseAmount poolFee
  let deltaYRounded := Numerics.balanceRoot invariant baseNewPart quoteWeight
  if baseNewPart = 0 then .error .divisionByZero
  else if deltaYRounded < 2 ^ 64 then
    settleOutput
      (calculateNewInvariantBnU baseReserves baseWeight baseAmount quoteReserves quoteWeight ·
        poolFee) invariant (← Checked.sub quoteReserves deltaYRounded)
  else .error .unwrap

def balanceCfmmOutputAmount (pair : Pair) (reservesX xWeight reservesY yWeight : Nat)
    (baseAsset : AssetClass) (baseAmount : Nat) (poolFeeX poolFeeY : Ratio) : Checked Nat :=
  if pair.x = baseAsset then
    balanceQuoteAmount reservesX xWeight reservesY yWeight baseAmount poolFeeX
  else balanceQuoteAmount reservesY yWeight reservesX xWeight baseAmount poolFeeY

end

inductive BalancePoolVer where
  | v1
  | v2
deriving DecidableEq

structure BalancePool where
  id : PoolId
  reservesX : Nat
  weightX : Nat
  reservesY : Nat
  weightY : Nat
  liquidity : Nat
  assetX : AssetClass
  assetY : AssetClass
  assetLq : AssetClass
  lpFeeX : Ratio
  lpFeeY : Ratio
  treasuryFee : Ratio
  treasuryX : Nat
  treasuryY : Nat
  ver : BalancePoolVer
  marginalCost : ExUnits
  minPoolLovelace : Nat
deriving DecidableEq

namespace BalancePool

def pair (p : BalancePool) : Pair := ⟨p.assetX, p.assetY⟩

def tradable (p : BalancePool) : AbsoluteReserves := p.pair.reserves p.reservesX p.reservesY

def staticPrice (p : BalancePool) : Checked SpotPrice := do
  let weightedX ← Checked.div
    (← Checked.mul 64 (← Checked.sub p.reservesX p.treasuryX) weightFeeDen) p.weightX
  let weightedY ← Checked.div
    (← Checked.mul 64 (← Checked.sub p.reservesY p.treasuryY) weightFeeDen) p.weightY
  return if p.pair.x = p.pair.base then weightedY / weightedX else weightedX / weightedY

def isActive (p : BalancePool) : Bool :=
  if p.assetX.isNative then p.minPoolLovelace ≤ p.reservesX
  else if p.assetY.isNative then p.minPoolLovelace ≤ p.reservesY
  else true

variable [Numerics]

def outputAmount (p : BalancePool) (baseAsset : AssetClass) (baseAmount : Nat) : Checked Nat := do
  balanceCfmmOutputAmount p.pair (← Checked.sub p.reservesX p.treasuryX) p.weightX
    (← Checked.sub p.reservesY p.treasuryY) p.weightY baseAsset baseAmount
    (← p.lpFeeX.sub p.treasuryFee) (← p.lpFeeY.sub p.treasuryFee)

def swap (p : BalancePool) (input : OnSide Nat) : Checked BalancePool := do
  let output ← p.outputAmount (p.pair.paid input) input.unwrap
  let reserves ← p.pair.move input output p.reservesX p.reservesY
  let treasury ← p.pair.collect input p.treasuryFee p.treasuryX p.treasuryY
  return { p with
    reservesX := reserves.1
    reservesY := reserves.2
    treasuryX := treasury.1
    treasuryY := treasury.2 }

def realPrice (p : BalancePool) (input : OnSide Nat) : Checked (Option AbsolutePrice) := do
  return priceOf input (← p.outputAmount (p.pair.paid input) input.unwrap)

variable {p p' : BalancePool} {input : OnSide Nat}

/-- A swap changes the reserves and the treasury, and nothing else. -/
theorem swap_spec (h : p.swap input = .ok p') : ∃ output,
    p.outputAmount (p.pair.paid input) input.unwrap = .ok output ∧
    p.pair.move input output p.reservesX p.reservesY = .ok (p'.reservesX, p'.reservesY) ∧
    p.pair.collect input p.treasuryFee p.treasuryX p.treasuryY =
      .ok (p'.treasuryX, p'.treasuryY) ∧
    p' = { p with
      reservesX := p'.reservesX
      reservesY := p'.reservesY
      treasuryX := p'.treasuryX
      treasuryY := p'.treasuryY } := by
  simp only [swap, Checked.bind_eq_ok, Checked.pure_eq_ok] at h
  obtain ⟨output, houtput, reserves, hmove, treasury, htreasury, rfl⟩ := h
  exact ⟨output, houtput, hmove, htreasury, rfl⟩

end BalancePool

end UtxoMonitor.Pools
