import UtxoMonitor.Pools.Balance

/-! Degen pools: a bonding curve that is quadratic in the supply. -/
namespace UtxoMonitor.Pools

open Lib LiquidityBook

def minAda : Nat := 3000000

def aDenom : Nat := 10 ^ 27

def bDenom : Nat := 10 ^ 6

def tokenEmission : Nat := 10 ^ 9

def t2tFeeNum : Nat := 1

def t2tFeeDenom : Nat := 100

def maxAllowedAdaExtrasPercentile : Nat := 1

def fullPercentile : Nat := 1000

inductive QuadraticPoolVer where
  | v1
  | v1T2t
deriving DecidableEq

structure QuadraticPool where
  id : PoolId
  reservesX : Nat
  reservesY : Nat
  assetX : AssetClass
  assetY : AssetClass
  aNum : Nat
  bNum : Nat
  /-- Lovelace in a pool of ADA, else tokens. -/
  capThr : Nat
  ver : QuadraticPoolVer
  accumulatedXFee : Nat
  xFeeNum : Nat
  marginalCost : ExUnits
  bounds : PoolValidation
  virgin : Bool
  capped : Bool
deriving DecidableEq

namespace QuadraticPool

/-- The input of x that is traded: what remains of it after the fee, less the rounding the contract
asks for. -/
def adjustedXInput (xFeeNum input : Nat) : Checked Nat := do
  let inputNum ← Checked.sub t2tFeeDenom xFeeNum
  let product ← Checked.mul 64 input inputNum
  Checked.sub (product / t2tFeeDenom) (if product % t2tFeeDenom = 0 then 2 else 1)

/-- The output of x that is paid after the fee. -/
def adjustXOutput (xFeeNum output : Nat) : Checked Nat := do
  let outputNum ← Checked.sub t2tFeeDenom xFeeNum
  let product ← Checked.mul 64 output outputNum
  Checked.sub (product / t2tFeeDenom) (if product % t2tFeeDenom = 0 then 1 else 0)

/-- The fee on an amount of x, rounded up. -/
def adjustXFee (xFeeNum input : Nat) : Checked Nat := do
  let product ← Checked.mul 64 input xFeeNum
  return product / t2tFeeDenom + if product % t2tFeeDenom = 0 then 0 else 1

def pair (p : QuadraticPool) : Pair := ⟨p.assetX, p.assetY⟩

/-- The tokens sold so far. -/
def supply (p : QuadraticPool) : Checked Nat := Checked.sub tokenEmission p.reservesY

/-- The reserves of ADA above the minimum, or the reserves of a token. -/
def availableReservesX (p : QuadraticPool) : Nat :=
  if p.assetX.isNative ∧ minAda ≤ p.reservesX then p.reservesX - minAda
  else if p.assetX.isNative then 0
  else p.reservesX

def tradable (p : QuadraticPool) : AbsoluteReserves :=
  p.pair.reserves p.availableReservesX p.reservesY

def staticPrice (p : QuadraticPool) : Checked SpotPrice := do
  let supply ← p.supply
  let square ← Checked.mul 128 (← Checked.mul 128 supply supply) p.aNum
  let priceNum ← Checked.add 128 (← Checked.mul 128 square bDenom) (← Checked.mul 128 aDenom p.bNum)
  let priceDenom ← Checked.mul 128 aDenom bDenom
  return if p.pair.x = p.pair.base then priceDenom / priceNum else priceNum / priceDenom

def quality (p : QuadraticPool) : Checked Nat :=
  if p.assetX.isNative ∧ minAda ≤ p.reservesX then return p.reservesX - minAda
  else if p.assetX.isNative then return 0
  else Checked.sub p.reservesX p.accumulatedXFee

def isActive (p : QuadraticPool) : Checked Bool := do
  let bound ← Checked.mul 64 p.capThr (maxAllowedAdaExtrasPercentile + fullPercentile)
  match p.ver with
  | .v1 => return p.reservesX < bound / fullPercentile
  | .v1T2t => return (← Checked.sub p.reservesX p.accumulatedXFee) < bound / fullPercentile

variable [Numerics]

/-- What does not fit 64 bits is read as nothing. -/
def outputAmount (p : QuadraticPool) (baseAsset : AssetClass) (baseAmount : Nat) :
    Checked Nat := do
  let supply ← p.supply
  let quoteAmount :=
    if baseAsset = p.assetX then Numerics.curveBuy p.aNum p.bNum supply baseAmount
    else Numerics.curveSell p.aNum p.bNum supply baseAmount
  return if quoteAmount < 2 ^ 64 then quoteAmount else 0

/-- The output that the reserves allow. -/
def safeOutput (ver : QuadraticPoolVer) (input : OnSide Nat) (candidate reserves : Nat) :
    Checked Nat :=
  match ver, input with
  | .v1, .bid _ => do
    return if (← Checked.add 64 candidate minAda) ≤ reserves then candidate else reserves
  | .v1T2t, .bid _ => return candidate
  | _, .ask _ => return min candidate reserves

/-- The reserves that a trade takes its output from. -/
def paidReserves (p : QuadraticPool) (input : OnSide Nat) : Nat :=
  if p.pair.entersX input then p.reservesY else p.reservesX

def swap (p : QuadraticPool) (input : OnSide Nat) : Checked QuadraticPool :=
  match p.ver with
  | .v1 => do
    let candidate ← p.outputAmount (p.pair.paid input) input.unwrap
    let output ← safeOutput .v1 input candidate (p.paidReserves input)
    let reserves ← p.pair.move input output p.reservesX p.reservesY
    return { p with reservesX := reserves.1, reservesY := reserves.2 }
  | .v1T2t =>
    -- The fee is taken from x, be it the input or the output.
    if p.pair.paid input = p.assetX then do
      let adjusted ← adjustedXInput p.xFeeNum input.unwrap
      let candidate ← p.outputAmount (p.pair.paid input) adjusted
      let output ← safeOutput .v1T2t input candidate (p.paidReserves input)
      let accumulatedXFee ← Checked.add 64 p.accumulatedXFee (← adjustXFee p.xFeeNum input.unwrap)
      let reserves ← p.pair.move input output p.reservesX p.reservesY
      return { p with
        reservesX := reserves.1
        reservesY := reserves.2
        accumulatedXFee := accumulatedXFee }
    else do
      let candidate ← p.outputAmount (p.pair.paid input) input.unwrap
      let output ← safeOutput .v1T2t input candidate (p.paidReserves input)
      let accumulatedXFee ← Checked.add 64 p.accumulatedXFee (← adjustXFee p.xFeeNum output)
      let reserves ← p.pair.move input (← adjustXOutput p.xFeeNum output) p.reservesX p.reservesY
      return { p with
        reservesX := reserves.1
        reservesY := reserves.2
        accumulatedXFee := accumulatedXFee }

/-- An ask that overfills the cap has no price. -/
def realPrice (p : QuadraticPool) (input : OnSide Nat) : Checked (Option AbsolutePrice) :=
  match input with
  | .bid amount => do
    return AbsolutePrice.new amount (← p.outputAmount p.pair.quote amount)
  | .ask amount => do
    let filled ← Checked.sub (← Checked.add 64 p.reservesX amount) p.accumulatedXFee
    if filled ≤ p.capThr then return AbsolutePrice.new (← p.outputAmount p.pair.base amount) amount
    else return none

variable {p p' : QuadraticPool} {input : OnSide Nat}

/-- What a swap pays for the input, and the fee collected after it. -/
inductive Pays (p : QuadraticPool) (input : OnSide Nat) : Nat → Nat → Prop where
  | v1 {candidate output : Nat} (ver : p.ver = .v1)
      (hcandidate : p.outputAmount (p.pair.paid input) input.unwrap = .ok candidate)
      (hsafe : safeOutput .v1 input candidate (p.paidReserves input) = .ok output) :
      Pays p input output p.accumulatedXFee
  | feeOnInput {adjusted candidate output fee : Nat} (ver : p.ver = .v1T2t)
      (paid : p.pair.paid input = p.assetX)
      (hadjusted : adjustedXInput p.xFeeNum input.unwrap = .ok adjusted)
      (hcandidate : p.outputAmount (p.pair.paid input) adjusted = .ok candidate)
      (hsafe : safeOutput .v1T2t input candidate (p.paidReserves input) = .ok output)
      (hfee : adjustXFee p.xFeeNum input.unwrap = .ok fee) :
      Pays p input output (p.accumulatedXFee + fee)
  | feeOnOutput {candidate output payout fee : Nat} (ver : p.ver = .v1T2t)
      (paid : p.pair.paid input ≠ p.assetX)
      (hcandidate : p.outputAmount (p.pair.paid input) input.unwrap = .ok candidate)
      (hsafe : safeOutput .v1T2t input candidate (p.paidReserves input) = .ok output)
      (hpayout : adjustXOutput p.xFeeNum output = .ok payout)
      (hfee : adjustXFee p.xFeeNum output = .ok fee) :
      Pays p input payout (p.accumulatedXFee + fee)

/-- A swap changes the reserves and the fee collected, and nothing else. -/
theorem swap_spec (h : p.swap input = .ok p') : ∃ output,
    p.Pays input output p'.accumulatedXFee ∧
    p.pair.move input output p.reservesX p.reservesY = .ok (p'.reservesX, p'.reservesY) ∧
    p' = { p with
      reservesX := p'.reservesX
      reservesY := p'.reservesY
      accumulatedXFee := p'.accumulatedXFee } := by
  unfold swap at h
  split at h
  · rename_i ver
    simp only [Checked.bind_eq_ok, Checked.pure_eq_ok] at h
    obtain ⟨candidate, hcandidate, output, hsafe, reserves, hmove, rfl⟩ := h
    exact ⟨output, .v1 ver hcandidate hsafe, hmove, rfl⟩
  · rename_i ver
    split at h
    · rename_i paid
      simp only [Checked.bind_eq_ok, Checked.pure_eq_ok, Checked.add_eq_ok] at h
      obtain ⟨adjusted, hadjusted, candidate, hcandidate, output, hsafe, fee, hfee, _, ⟨-, rfl⟩,
        reserves, hmove, rfl⟩ := h
      exact ⟨output, .feeOnInput ver paid hadjusted hcandidate hsafe hfee, hmove, rfl⟩
    · rename_i paid
      simp only [Checked.bind_eq_ok, Checked.pure_eq_ok, Checked.add_eq_ok] at h
      obtain ⟨candidate, hcandidate, output, hsafe, fee, hfee, _, ⟨-, rfl⟩, payout, hpayout,
        reserves, hmove, rfl⟩ := h
      exact ⟨payout, .feeOnOutput ver paid hcandidate hsafe hpayout hfee, hmove, rfl⟩

end QuadraticPool

end UtxoMonitor.Pools
