import UtxoMonitor.Pools.ConstFn
import UtxoMonitor.Pools.Stable
import UtxoMonitor.Pools.Quadratic

/-! The pools of every kind. -/
namespace UtxoMonitor.Pools

open Lib LiquidityBook

inductive ConstFnPool where
  | classic (pool : ClassicPool)
  | feeSwitch (pool : FeeSwitchPool)
  | royalty (pool : RoyaltyPool)
deriving DecidableEq

namespace ConstFnPool

def pair : ConstFnPool → Pair
  | classic pool => pool.pair
  | feeSwitch pool => pool.pair
  | royalty pool => pool.pair

def outputAmount (pool : ConstFnPool) (baseAsset : AssetClass) (baseAmount : Nat) : Checked Nat :=
  match pool with
  | classic pool => pool.outputAmount baseAsset baseAmount
  | feeSwitch pool => pool.outputAmount baseAsset baseAmount
  | royalty pool => pool.outputAmount baseAsset baseAmount

def swap (pool : ConstFnPool) (input : OnSide Nat) : Checked ConstFnPool :=
  match pool with
  | classic pool => do return classic (← pool.swap input)
  | feeSwitch pool => do return feeSwitch (← pool.swap input)
  | royalty pool => do return royalty (← pool.swap input)

def staticPrice : ConstFnPool → Checked SpotPrice
  | classic pool => return pool.staticPrice
  | feeSwitch pool => pool.staticPrice
  | royalty pool => pool.staticPrice

def realPrice (pool : ConstFnPool) (input : OnSide Nat) : Checked (Option AbsolutePrice) :=
  match pool with
  | classic pool => pool.realPrice input
  | feeSwitch pool => pool.realPrice input
  | royalty pool => pool.realPrice input

def quality : ConstFnPool → Nat
  | classic pool => pool.liquidity
  | feeSwitch pool => pool.liquidity
  | royalty pool => pool.liquidity

def marginalCost : ConstFnPool → ExUnits
  | classic pool => pool.marginalCost
  | feeSwitch pool => pool.marginalCost
  | royalty pool => pool.marginalCost

def tradable : ConstFnPool → AbsoluteReserves
  | classic pool => pool.tradable
  | feeSwitch pool => pool.tradable
  | royalty pool => pool.tradable

def isActive : ConstFnPool → Checked Bool
  | classic pool => pool.isActive
  | feeSwitch pool => pool.isActive
  | royalty pool => pool.isActive

def reservesX : ConstFnPool → Nat
  | classic pool => pool.reservesX
  | feeSwitch pool => pool.reservesX
  | royalty pool => pool.reservesX

def reservesY : ConstFnPool → Nat
  | classic pool => pool.reservesY
  | feeSwitch pool => pool.reservesY
  | royalty pool => pool.reservesY

def id : ConstFnPool → PoolId
  | classic pool => pool.id
  | feeSwitch pool => pool.id
  | royalty pool => pool.id

variable {pool pool' : ConstFnPool} {input : OnSide Nat}

theorem swap_spec (h : pool.swap input = .ok pool') : ∃ output,
    pool.outputAmount (pool.pair.paid input) input.unwrap = .ok output ∧
    pool.pair.move input output pool.reservesX pool.reservesY =
      .ok (pool'.reservesX, pool'.reservesY) ∧
    pool'.pair = pool.pair ∧ pool'.id = pool.id := by
  cases pool with
  | classic pool =>
    simp only [swap, Checked.bind_eq_ok, Checked.pure_eq_ok] at h
    obtain ⟨next, hswap, rfl⟩ := h
    obtain ⟨output, houtput, hmove, hrest⟩ := ClassicPool.swap_spec hswap
    exact ⟨output, houtput, hmove, by rw [hrest]; exact ⟨rfl, rfl⟩⟩
  | feeSwitch pool =>
    simp only [swap, Checked.bind_eq_ok, Checked.pure_eq_ok] at h
    obtain ⟨next, hswap, rfl⟩ := h
    obtain ⟨output, houtput, hmove, -, hrest⟩ := FeeSwitchPool.swap_spec hswap
    exact ⟨output, houtput, hmove, by rw [hrest]; exact ⟨rfl, rfl⟩⟩
  | royalty pool =>
    simp only [swap, Checked.bind_eq_ok, Checked.pure_eq_ok] at h
    obtain ⟨next, hswap, rfl⟩ := h
    obtain ⟨output, houtput, hmove, -, -, -, hrest⟩ := RoyaltyPool.swap_spec hswap
    exact ⟨output, houtput, hmove, by rw [hrest]; exact ⟨rfl, rfl⟩⟩

theorem tradable_eq (pool : ConstFnPool) :
    pool.tradable = pool.pair.reserves pool.reservesX pool.reservesY := by
  cases pool <;> rfl

end ConstFnPool

inductive AnyPool where
  | pureCfmm (pool : ConstFnPool)
  | balancedCfmm (pool : BalancePool)
  | stableCfmm (pool : StablePoolT2T)
deriving DecidableEq

/-- The makers that a book is run with: the pools with reserves, or the degen pools. -/
inductive Maker where
  | any (pool : AnyPool)
  | degen (pool : QuadraticPool)
deriving DecidableEq

namespace AnyPool

def pair : AnyPool → Pair
  | pureCfmm pool => pool.pair
  | balancedCfmm pool => pool.pair
  | stableCfmm pool => pool.pair

def tradable : AnyPool → AbsoluteReserves
  | pureCfmm pool => pool.tradable
  | balancedCfmm pool => pool.tradable
  | stableCfmm pool => pool.tradable

def quality : AnyPool → Nat
  | pureCfmm pool => pool.quality
  | balancedCfmm pool => pool.liquidity
  | stableCfmm pool => pool.liquidity

def marginalCost : AnyPool → ExUnits
  | pureCfmm pool => pool.marginalCost
  | balancedCfmm pool => pool.marginalCost
  | stableCfmm pool => pool.marginalCost

def isActive : AnyPool → Checked Bool
  | pureCfmm pool => pool.isActive
  | balancedCfmm pool => return pool.isActive
  | stableCfmm _ => return true

def reservesX : AnyPool → Nat
  | pureCfmm pool => pool.reservesX
  | balancedCfmm pool => pool.reservesX
  | stableCfmm pool => pool.reservesX

def reservesY : AnyPool → Nat
  | pureCfmm pool => pool.reservesY
  | balancedCfmm pool => pool.reservesY
  | stableCfmm pool => pool.reservesY

def id : AnyPool → PoolId
  | pureCfmm pool => pool.id
  | balancedCfmm pool => pool.id
  | stableCfmm pool => pool.id

variable [Numerics]

def outputAmount (pool : AnyPool) (baseAsset : AssetClass) (baseAmount : Nat) : Checked Nat :=
  match pool with
  | pureCfmm pool => pool.outputAmount baseAsset baseAmount
  | balancedCfmm pool => pool.outputAmount baseAsset baseAmount
  | stableCfmm pool => pool.outputAmount Numerics.fuel baseAsset baseAmount

def swap (pool : AnyPool) (input : OnSide Nat) : Checked AnyPool :=
  match pool with
  | pureCfmm pool => do return pureCfmm (← pool.swap input)
  | balancedCfmm pool => do return balancedCfmm (← pool.swap input)
  | stableCfmm pool => do return stableCfmm (← pool.swap Numerics.fuel input)

def realPrice (pool : AnyPool) (input : OnSide Nat) : Checked (Option AbsolutePrice) :=
  match pool with
  | pureCfmm pool => pool.realPrice input
  | balancedCfmm pool => pool.realPrice input
  | stableCfmm pool => pool.realPrice Numerics.fuel input

def staticPrice : AnyPool → Checked SpotPrice
  | pureCfmm pool => pool.staticPrice
  | balancedCfmm pool => pool.staticPrice
  | stableCfmm pool => pool.staticPrice Numerics.fuel

/-- The fees of a stable pool are taken from the output. -/
def takesFromOutput : AnyPool → Bool
  | pureCfmm _ => false
  | balancedCfmm _ => false
  | stableCfmm _ => true

variable {pool pool' : AnyPool} {input : OnSide Nat}

omit [Numerics] in
theorem tradable_eq (pool : AnyPool) :
    pool.tradable = pool.pair.reserves pool.reservesX pool.reservesY := by
  cases pool with
  | pureCfmm pool => exact pool.tradable_eq
  | balancedCfmm pool => rfl
  | stableCfmm pool => rfl

theorem swap_spec (h : pool.swap input = .ok pool') : ∃ candidate output,
    pool.outputAmount (pool.pair.paid input) input.unwrap = .ok candidate ∧
    (if pool.takesFromOutput then output < candidate else output = candidate) ∧
    pool.pair.move input output pool.reservesX pool.reservesY =
      .ok (pool'.reservesX, pool'.reservesY) ∧
    pool'.pair = pool.pair ∧ pool'.id = pool.id := by
  cases pool with
  | pureCfmm pool =>
    simp only [swap, Checked.bind_eq_ok, Checked.pure_eq_ok] at h
    obtain ⟨next, hswap, rfl⟩ := h
    obtain ⟨output, houtput, hmove, hsame⟩ := ConstFnPool.swap_spec hswap
    exact ⟨output, output, houtput, rfl, hmove, hsame⟩
  | balancedCfmm pool =>
    simp only [swap, Checked.bind_eq_ok, Checked.pure_eq_ok] at h
    obtain ⟨next, hswap, rfl⟩ := h
    obtain ⟨output, houtput, hmove, -, hrest⟩ := BalancePool.swap_spec hswap
    exact ⟨output, output, houtput, rfl, hmove, by rw [hrest]; exact ⟨rfl, rfl⟩⟩
  | stableCfmm pool =>
    simp only [swap, Checked.bind_eq_ok, Checked.pure_eq_ok] at h
    obtain ⟨next, hswap, rfl⟩ := h
    obtain ⟨candidate, fees, output, hcandidate, hfees, hsum, hmove, hrest⟩ :=
      StablePoolT2T.swap_spec hswap
    have hpos := StablePoolT2T.stableFees_pos hfees
    exact ⟨candidate, output, hcandidate, by simp only [takesFromOutput, if_true]; omega, hmove,
      by rw [hrest]; exact ⟨rfl, rfl⟩⟩

end AnyPool

namespace Maker

def pair : Maker → Pair
  | any pool => pool.pair
  | degen pool => pool.pair

def id : Maker → PoolId
  | any pool => pool.id
  | degen pool => pool.id

def tradable : Maker → AbsoluteReserves
  | any pool => pool.tradable
  | degen pool => pool.tradable

def quality : Maker → Checked Nat
  | any pool => return pool.quality
  | degen pool => pool.quality

def marginalCost : Maker → ExUnits
  | any pool => pool.marginalCost
  | degen pool => pool.marginalCost

def isActive : Maker → Checked Bool
  | any pool => pool.isActive
  | degen pool => pool.isActive

variable [Numerics]

def outputAmount (maker : Maker) (baseAsset : AssetClass) (baseAmount : Nat) : Checked Nat :=
  match maker with
  | any pool => pool.outputAmount baseAsset baseAmount
  | degen pool => pool.outputAmount baseAsset baseAmount

def swap (maker : Maker) (input : OnSide Nat) : Checked Maker :=
  match maker with
  | any pool => do return any (← pool.swap input)
  | degen pool => do return degen (← pool.swap input)

def staticPrice : Maker → Checked SpotPrice
  | any pool => pool.staticPrice
  | degen pool => pool.staticPrice

def realPrice (maker : Maker) (input : OnSide Nat) : Checked (Option AbsolutePrice) :=
  match maker with
  | any pool => pool.realPrice input
  | degen pool => pool.realPrice input

end Maker

end UtxoMonitor.Pools
