import UtxoMonitor.Pools.Cfmm

/-! Constant product pools: classic, with a treasury fee, and with royalties. -/
namespace UtxoMonitor.Pools

open Lib LiquidityBook

/-- Price of a swap of nothing: the price of equal reserves is one. -/
def spotPrice (pair : Pair) (availableX availableY : Nat) : SpotPrice :=
  if availableX = availableY then 1
  else if pair.x = pair.base then availableY / availableX
  else availableX / availableY

/-- A pool with enough ADA and liquidity is active. -/
def isActiveWithin (pair : Pair) (reservesX reservesY lqLowerBound minN2tLovelace : Nat) :
    Checked Bool := do
  let lqBound := lqLowerBound ≤ (← Checked.mul 64 reservesX 2)
  let nativeBound :=
    if pair.x.isNative then minN2tLovelace ≤ reservesX
    else if pair.y.isNative then minN2tLovelace ≤ reservesY
    else True
  return lqBound ∧ nativeBound

/-! ### Classic pools -/

inductive ClassicPoolVer where
  | v1
  | v2
deriving DecidableEq

structure ClassicPool where
  id : PoolId
  reservesX : Nat
  reservesY : Nat
  liquidity : Nat
  assetX : AssetClass
  assetY : AssetClass
  assetLq : AssetClass
  lpFee : Ratio
  lqLowerBound : Nat
  ver : ClassicPoolVer
  marginalCost : ExUnits
  bounds : PoolValidation
  stakePartScriptHash : Option ScriptHash
deriving DecidableEq

namespace ClassicPool

def pair (p : ClassicPool) : Pair := ⟨p.assetX, p.assetY⟩

def outputAmount (p : ClassicPool) (baseAsset : AssetClass) (baseAmount : Nat) : Checked Nat :=
  classicCfmmOutputAmount p.pair p.reservesX p.reservesY baseAsset baseAmount p.lpFee p.lpFee

def swap (p : ClassicPool) (input : OnSide Nat) : Checked ClassicPool := do
  let output ← p.outputAmount (p.pair.paid input) input.unwrap
  let reserves ← p.pair.move input output p.reservesX p.reservesY
  return { p with reservesX := reserves.1, reservesY := reserves.2 }

def staticPrice (p : ClassicPool) : SpotPrice := spotPrice p.pair p.reservesX p.reservesY

def realPrice (p : ClassicPool) (input : OnSide Nat) : Checked (Option AbsolutePrice) := do
  return priceOf input (← p.outputAmount (p.pair.paid input) input.unwrap)

def tradable (p : ClassicPool) : AbsoluteReserves := p.pair.reserves p.reservesX p.reservesY

def isActive (p : ClassicPool) : Checked Bool :=
  isActiveWithin p.pair p.reservesX p.reservesY p.lqLowerBound p.bounds.minN2tLovelace

variable {p p' : ClassicPool} {input : OnSide Nat}

/-- A swap changes the reserves and nothing else. -/
theorem swap_spec (h : p.swap input = .ok p') : ∃ output,
    p.outputAmount (p.pair.paid input) input.unwrap = .ok output ∧
    p.pair.move input output p.reservesX p.reservesY = .ok (p'.reservesX, p'.reservesY) ∧
    p' = { p with reservesX := p'.reservesX, reservesY := p'.reservesY } := by
  simp only [swap, Checked.bind_eq_ok, Checked.pure_eq_ok] at h
  obtain ⟨output, houtput, reserves, hmove, rfl⟩ := h
  exact ⟨output, houtput, hmove, rfl⟩

end ClassicPool

/-! ### Pools with a treasury fee -/

inductive FeeSwitchPoolVer where
  | v1
  | v2
  | biDirV1
deriving DecidableEq

structure FeeSwitchPool where
  id : PoolId
  reservesX : Nat
  reservesY : Nat
  liquidity : Nat
  assetX : AssetClass
  assetY : AssetClass
  assetLq : AssetClass
  lpFeeX : Ratio
  lpFeeY : Ratio
  treasuryFee : Ratio
  treasuryX : Nat
  treasuryY : Nat
  lqLowerBound : Nat
  ver : FeeSwitchPoolVer
  marginalCost : ExUnits
  bounds : PoolValidation
  nonce : Nat
  stakePartScriptHash : Option ScriptHash
deriving DecidableEq

namespace FeeSwitchPool

def pair (p : FeeSwitchPool) : Pair := ⟨p.assetX, p.assetY⟩

def outputAmount (p : FeeSwitchPool) (baseAsset : AssetClass) (baseAmount : Nat) : Checked Nat := do
  classicCfmmOutputAmount p.pair (← Checked.sub p.reservesX p.treasuryX)
    (← Checked.sub p.reservesY p.treasuryY) baseAsset baseAmount (← p.lpFeeX.sub p.treasuryFee)
    (← p.lpFeeY.sub p.treasuryFee)

def swap (p : FeeSwitchPool) (input : OnSide Nat) : Checked FeeSwitchPool := do
  let output ← p.outputAmount (p.pair.paid input) input.unwrap
  let reserves ← p.pair.move input output p.reservesX p.reservesY
  let treasury ← p.pair.collect input p.treasuryFee p.treasuryX p.treasuryY
  return { p with
    reservesX := reserves.1
    reservesY := reserves.2
    treasuryX := treasury.1
    treasuryY := treasury.2 }

def staticPrice (p : FeeSwitchPool) : Checked SpotPrice := do
  return spotPrice p.pair (← Checked.sub p.reservesX p.treasuryX)
    (← Checked.sub p.reservesY p.treasuryY)

def realPrice (p : FeeSwitchPool) (input : OnSide Nat) : Checked (Option AbsolutePrice) := do
  return priceOf input (← p.outputAmount (p.pair.paid input) input.unwrap)

def tradable (p : FeeSwitchPool) : AbsoluteReserves := p.pair.reserves p.reservesX p.reservesY

def isActive (p : FeeSwitchPool) : Checked Bool :=
  isActiveWithin p.pair p.reservesX p.reservesY p.lqLowerBound p.bounds.minN2tLovelace

variable {p p' : FeeSwitchPool} {input : OnSide Nat}

/-- A swap changes the reserves and the treasury, and nothing else. -/
theorem swap_spec (h : p.swap input = .ok p') : ∃ output,
    p.outputAmount (p.pair.paid input) input.unwrap = .ok output ∧
    p.pair.move input output p.reservesX p.reservesY = .ok (p'.reservesX, p'.reservesY) ∧
    p.pair.collect input p.treasuryFee p.treasuryX p.treasuryY =
      .ok (p'.treasuryX, p'.treasuryY) ∧
    p' = { p with
      reservesX := p'.reservesX
      reservesY := p'.reservesY
      treasuryX := p'.treasuryX
      treasuryY := p'.treasuryY } := by
  simp only [swap, Checked.bind_eq_ok, Checked.pure_eq_ok] at h
  obtain ⟨output, houtput, reserves, hmove, treasury, htreasury, rfl⟩ := h
  exact ⟨output, houtput, hmove, htreasury, rfl⟩

end FeeSwitchPool

/-! ### Pools with royalties -/

inductive RoyaltyPoolVer where
  | v1
  | v1LedgerFixed
  | v2
deriving DecidableEq

abbrev Ed25519PublicKey := RawBytes 32

structure RoyaltyPool where
  id : PoolId
  reservesX : Nat
  reservesY : Nat
  liquidity : Nat
  assetX : AssetClass
  assetY : AssetClass
  assetLq : AssetClass
  lpFee : Ratio
  treasuryFee : Ratio
  firstRoyaltyFee : Ratio
  secondRoyaltyFee : Ratio
  treasuryX : Nat
  treasuryY : Nat
  firstRoyaltyX : Nat
  firstRoyaltyY : Nat
  secondRoyaltyX : Nat
  secondRoyaltyY : Nat
  lqLowerBound : Nat
  adminAddress : ScriptHash
  treasuryAddress : ScriptHash
  firstRoyaltyPubKey : Ed25519PublicKey
  secondRoyaltyPubKey : Ed25519PublicKey
  ver : RoyaltyPoolVer
  marginalCost : ExUnits
  bounds : PoolValidation
  nonce : Nat
  stakePartScriptHash : Option ScriptHash
deriving DecidableEq

namespace RoyaltyPool

def pair (p : RoyaltyPool) : Pair := ⟨p.assetX, p.assetY⟩

/-- The reserves of x without what belongs to the treasury and to the owners of royalties. -/
def pureX (p : RoyaltyPool) : Checked Nat := do
  Checked.sub (← Checked.sub (← Checked.sub p.reservesX p.treasuryX) p.firstRoyaltyX)
    p.secondRoyaltyX

def pureY (p : RoyaltyPool) : Checked Nat := do
  Checked.sub (← Checked.sub (← Checked.sub p.reservesY p.treasuryY) p.firstRoyaltyY)
    p.secondRoyaltyY

/-- The part of the input that is traded. -/
def poolFee (p : RoyaltyPool) : Checked Ratio := do
  Ratio.sub (← Ratio.sub (← p.lpFee.sub p.treasuryFee) p.firstRoyaltyFee) p.secondRoyaltyFee

def outputAmount (p : RoyaltyPool) (baseAsset : AssetClass) (baseAmount : Nat) : Checked Nat := do
  classicCfmmOutputAmount p.pair (← p.pureX) (← p.pureY) baseAsset baseAmount (← p.poolFee)
    (← p.poolFee)

def swap (p : RoyaltyPool) (input : OnSide Nat) : Checked RoyaltyPool := do
  let output ← p.outputAmount (p.pair.paid input) input.unwrap
  let reserves ← p.pair.move input output p.reservesX p.reservesY
  let treasury ← p.pair.collect input p.treasuryFee p.treasuryX p.treasuryY
  let firstRoyalty ← p.pair.collect input p.firstRoyaltyFee p.firstRoyaltyX p.firstRoyaltyY
  let secondRoyalty ← p.pair.collect input p.secondRoyaltyFee p.secondRoyaltyX p.secondRoyaltyY
  return { p with
    reservesX := reserves.1
    reservesY := reserves.2
    treasuryX := treasury.1
    treasuryY := treasury.2
    firstRoyaltyX := firstRoyalty.1
    firstRoyaltyY := firstRoyalty.2
    secondRoyaltyX := secondRoyalty.1
    secondRoyaltyY := secondRoyalty.2 }

def staticPrice (p : RoyaltyPool) : Checked SpotPrice := do
  return spotPrice p.pair (← p.pureX) (← p.pureY)

def realPrice (p : RoyaltyPool) (input : OnSide Nat) : Checked (Option AbsolutePrice) := do
  return priceOf input (← p.outputAmount (p.pair.paid input) input.unwrap)

def tradable (p : RoyaltyPool) : AbsoluteReserves := p.pair.reserves p.reservesX p.reservesY

def isActive (p : RoyaltyPool) : Checked Bool :=
  isActiveWithin p.pair p.reservesX p.reservesY p.lqLowerBound p.bounds.minN2tLovelace

variable {p p' : RoyaltyPool} {input : OnSide Nat}

/-- A swap changes the reserves, the treasury and the royalties, and nothing else. -/
theorem swap_spec (h : p.swap input = .ok p') : ∃ output,
    p.outputAmount (p.pair.paid input) input.unwrap = .ok output ∧
    p.pair.move input output p.reservesX p.reservesY = .ok (p'.reservesX, p'.reservesY) ∧
    p.pair.collect input p.treasuryFee p.treasuryX p.treasuryY =
      .ok (p'.treasuryX, p'.treasuryY) ∧
    p.pair.collect input p.firstRoyaltyFee p.firstRoyaltyX p.firstRoyaltyY =
      .ok (p'.firstRoyaltyX, p'.firstRoyaltyY) ∧
    p.pair.collect input p.secondRoyaltyFee p.secondRoyaltyX p.secondRoyaltyY =
      .ok (p'.secondRoyaltyX, p'.secondRoyaltyY) ∧
    p' = { p with
      reservesX := p'.reservesX
      reservesY := p'.reservesY
      treasuryX := p'.treasuryX
      treasuryY := p'.treasuryY
      firstRoyaltyX := p'.firstRoyaltyX
      firstRoyaltyY := p'.firstRoyaltyY
      secondRoyaltyX := p'.secondRoyaltyX
      secondRoyaltyY := p'.secondRoyaltyY } := by
  simp only [swap, Checked.bind_eq_ok, Checked.pure_eq_ok] at h
  obtain ⟨output, houtput, reserves, hmove, treasury, htreasury, first, hfirst, second, hsecond,
    rfl⟩ := h
  exact ⟨output, houtput, hmove, htreasury, hfirst, hsecond, rfl⟩

end RoyaltyPool

end UtxoMonitor.Pools
