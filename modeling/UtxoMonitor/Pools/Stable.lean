import UtxoMonitor.Pools.Cfmm

/-! Stable pools of two tokens. The loops of the arithmetic in `U512` are bounded by fuel; a run that
uses it up ends in a fault, as every panic does. -/
namespace UtxoMonitor.Pools

open Lib LiquidityBook

/-! ### The invariant -/

def addU512 (a b : Nat) : Checked Nat := Checked.add 512 a b

def mulU512 (a b : Nat) : Checked Nat := Checked.mul 512 a b

/-- The cube, as it is folded from one. -/
def cubeU512 (d : Nat) : Checked Nat := do mulU512 (← mulU512 d d) d

def distance (a b : Nat) : Nat := if b < a then a - b else b - a

/-- A sequence continued until two values in a row agree. -/
def iterateU512 (next : Nat → Checked Nat) : (fuel : Nat) → Nat → Checked Nat
  | 0, _ => .error .overflow
  | fuel + 1, a => do
    let b ← next a
    if distance b a = 0 then return b else iterateU512 next fuel b

/-- The first value from `d` on that passes the test. -/
def searchUp (test : Nat → Checked Bool) : (fuel : Nat) → Nat → Checked Nat
  | 0, _ => .error .overflow
  | fuel + 1, d => do
    if ← test d then return d else searchUp test fuel (← addU512 d 1)

def calculateInvariantErrorSgnFromTotals (ann nnTotalProdCalc annTotalSumCalc d : Nat) :
    Checked Bool := do
  let invRight ← addU512 (← mulU512 d ann) (← Checked.div (← cubeU512 d) nnTotalProdCalc)
  let invLeft ← addU512 annTotalSumCalc d
  return invLeft ≤ invRight

def calculateInvariantErrorSgn (xCalc yCalc d nn ann : Nat) : Checked Bool := do
  let nnTotalProdCalc ← mulU512 (← mulU512 nn xCalc) yCalc
  let annTotalSumCalc ← mulU512 ann (← addU512 xCalc yCalc)
  calculateInvariantErrorSgnFromTotals ann nnTotalProdCalc annTotalSumCalc d

def invariantStep (ann s p dPrevious : Nat) : Checked Nat := do
  let dP ← Checked.div (← Checked.div (← cubeU512 dPrevious) 4) p
  let dNum ← mulU512 (← addU512 (← mulU512 ann s) (← mulU512 2 dP)) dPrevious
  let dDen ← addU512 (← mulU512 (← Checked.sub ann 1) dPrevious) (← mulU512 3 dP)
  Checked.div dNum dDen

def calculateInvariant (fuel xCalc yCalc an2n : Nat) : Checked (Option Nat) :=
  if xCalc = 0 ∨ yCalc = 0 ∨ an2n = 0 then return none
  else do
    let ann := an2n / 4
    let s ← addU512 xCalc yCalc
    let p ← mulU512 xCalc yCalc
    let d ← iterateU512 (invariantStep ann s p) fuel s
    let invErr ← calculateInvariantErrorSgn xCalc yCalc d 4 ann
    let invErrUpper ← calculateInvariantErrorSgn xCalc yCalc (← addU512 d 1) 4 ann
    if invErr && !invErrUpper then return some d
    else return some (← searchUp (fun d => calculateInvariantErrorSgn xCalc yCalc d 4 ann) fuel d)

/-- The terms of the exact invariant at a pair of reserves. -/
def exactTerms (an2n base quote : Nat) : Checked (Nat × Nat) := do
  let totalProdCalc ← mulU512 base quote
  let alpha ← mulU512 (← Checked.sub an2n 4) totalProdCalc
  let beta ← mulU512 (← mulU512 an2n totalProdCalc) (← addU512 base quote)
  return (alpha, beta)

def maxSwapError : Nat := 2

def checkExactInvariant (quoteMult baseBefore quoteBefore baseAfter quoteAfter d an2n : Nat) :
    Checked (Option Bool) := do
  let dn1 ← cubeU512 d
  let before ← exactTerms an2n baseBefore quoteBefore
  let after ← exactTerms an2n baseAfter quoteAfter
  let maxQuoteError ← mulU512 maxSwapError quoteMult
  if maxQuoteError ≤ quoteAfter then do
    let shifted ← exactTerms an2n baseAfter (quoteAfter - maxQuoteError)
    let left ← addU512 dn1 (← mulU512 before.1 d)
    if left < before.2 then return some false
    else do
      let left ← addU512 dn1 (← mulU512 after.1 d)
      if after.2 < left then return some false
      else do
        let left ← addU512 dn1 (← mulU512 shifted.1 d)
        return some (decide (shifted.2 ≤ left))
  else return none

/-! ### The output of a swap -/

def swapStep (b c d assetToPrevious : Nat) : Checked Nat := do
  let num ← addU512 (← mulU512 assetToPrevious assetToPrevious) c
  let denom ← Checked.sub (← addU512 (← mulU512 2 assetToPrevious) b) d
  Checked.div num denom

/-- The reserve from `assetTo` on, at most 255 further, at which the exact invariant holds. -/
def settleReserve (test : Nat → Checked (Option Bool)) : (counter : Nat) → Nat → Checked (Option Nat)
  | 0, assetTo => return some assetTo
  | counter + 1, assetTo => do
    let assetTo ← addU512 assetTo 1
    match ← test assetTo with
    | none => return none
    | some true => return some assetTo
    | some false => settleReserve test counter assetTo

/-- The output for an input of the base asset of a trade. -/
def stableQuoteAmount (fuel baseReserves baseMult quoteReserves quoteMult baseAmount an2n : Nat) :
    Checked (Option Nat) := do
  let quoteCalc ← Checked.mul 64 quoteReserves quoteMult
  let baseInitial ← Checked.mul 64 baseReserves baseMult
  let baseCalc ← addU512 baseInitial (← Checked.mul 64 baseAmount baseMult)
  let ann := an2n / 4
  match ← calculateInvariant fuel baseInitial quoteCalc an2n with
  | none => return none
  | some d =>
    let b ← addU512 baseCalc (← Checked.div d ann)
    let c ← Checked.div (← Checked.div (← Checked.div (← cubeU512 d) 4) baseCalc) ann
    let assetTo ← iterateU512 (swapStep b c d) fuel quoteCalc
    match ← calculateInvariant fuel baseCalc assetTo an2n with
    | none => return none
    | some dNew =>
      let test := fun assetTo =>
        checkExactInvariant quoteMult baseInitial quoteCalc baseCalc assetTo (max dNew d) an2n
      let settled ← match ← test assetTo with
        | none => pure none
        | some true => pure (some assetTo)
        | some false => settleReserve test 255 assetTo
      match settled with
      | none => return none
      | some assetTo =>
        let output ← Checked.div (← Checked.sub quoteCalc assetTo) quoteMult
        if output < 2 ^ 64 then return some output else .error .overflow

def calcStableSwap (fuel : Nat) (pair : Pair) (reservesX xMult reservesY yMult : Nat)
    (baseAsset : AssetClass) (baseAmount an2n : Nat) : Checked (Option Nat) :=
  if an2n = 0 ∧ xMult = 0 ∧ yMult = 0 then return none
  else if pair.x = baseAsset then
    stableQuoteAmount fuel reservesX xMult reservesY yMult baseAmount an2n
  else stableQuoteAmount fuel reservesY yMult reservesX xMult baseAmount an2n

/-! ### Pools -/

inductive StablePoolT2TVer where
  | v1
deriving DecidableEq

structure StablePoolT2T where
  id : PoolId
  an2n : Nat
  reservesX : Nat
  multiplierX : Nat
  reservesY : Nat
  multiplierY : Nat
  liquidity : Nat
  assetX : AssetClass
  assetY : AssetClass
  assetLq : AssetClass
  lpFeeX : Ratio
  lpFeeY : Ratio
  treasuryFee : Ratio
  treasuryX : Nat
  treasuryY : Nat
  ver : StablePoolT2TVer
  marginalCost : ExUnits
deriving DecidableEq

/-- The least treasury fee, from the rounded one up, that the contract accepts. It stays below the
output, which bounds the number of turns. -/
def validTreasuryFee (pureOutput lpFees fRev treasuryFeeNum : Nat) :
    (turns treasuryFee : Nat) → Checked Nat
  | 0, _ => .error .underflow
  | turns + 1, treasuryFee => do
    let treasuryFee ← Checked.add 64 treasuryFee 1
    let quoteTotalDelta ← Checked.sub (← Checked.sub pureOutput lpFees) treasuryFee
    let paid ← Checked.mul 64 treasuryFee fRev
    let due ← Checked.mul 64 quoteTotalDelta treasuryFeeNum
    if due ≤ paid then return treasuryFee
    else validTreasuryFee pureOutput lpFees fRev treasuryFeeNum turns treasuryFee

/-- The fees of liquidity providers and of the treasury on an output. -/
def stableFees (pureOutput : Nat) (lpFee treasuryFee : Ratio) : Checked (Nat × Nat) := do
  let lpFees ← Checked.add 64 (← lpFee.share pureOutput) 1
  let roundedFee ← treasuryFee.share pureOutput
  let fRev ← Checked.sub (← Checked.sub lpFee.denom treasuryFee.numer) lpFee.numer
  let quoteTotalDelta ← Checked.sub (← Checked.sub (← Checked.sub pureOutput lpFees) roundedFee) 1
  let paid ← Checked.mul 64 roundedFee fRev
  let due ← Checked.mul 64 quoteTotalDelta treasuryFee.numer
  if due ≤ paid ∨ treasuryFee.numer = 0 then return (lpFees, roundedFee)
  else
    return (lpFees,
      ← validTreasuryFee pureOutput lpFees fRev treasuryFee.numer pureOutput roundedFee)

namespace StablePoolT2T

def pair (p : StablePoolT2T) : Pair := ⟨p.assetX, p.assetY⟩

def tradable (p : StablePoolT2T) : AbsoluteReserves := p.pair.reserves p.reservesX p.reservesY

def outputAmount (fuel : Nat) (p : StablePoolT2T) (baseAsset : AssetClass) (baseAmount : Nat) :
    Checked Nat := do
  let output ← calcStableSwap fuel p.pair (← Checked.sub p.reservesX p.treasuryX) p.multiplierX
    (← Checked.sub p.reservesY p.treasuryY) p.multiplierY baseAsset baseAmount p.an2n
  return output.getD 0

/-- The treasury collects its fee from the output: of x on bids, of y on asks. -/
def swap (fuel : Nat) (p : StablePoolT2T) (input : OnSide Nat) : Checked StablePoolT2T := do
  let pureOutput ← p.outputAmount fuel (p.pair.paid input) input.unwrap
  let lpFee := if p.pair.x = p.pair.base then p.lpFeeY else p.lpFeeX
  let fees ← stableFees pureOutput lpFee p.treasuryFee
  let output ← Checked.sub (← Checked.sub pureOutput fees.2) fees.1
  let reserves ← p.pair.move input output p.reservesX p.reservesY
  let p := { p with reservesX := reserves.1, reservesY := reserves.2 }
  match input with
  | .bid _ => return { p with treasuryX := ← Checked.add 64 p.treasuryX fees.2 }
  | .ask _ => return { p with treasuryY := ← Checked.add 64 p.treasuryY fees.2 }

def realPrice (fuel : Nat) (p : StablePoolT2T) (input : OnSide Nat) :
    Checked (Option AbsolutePrice) := do
  return priceOf input (← p.outputAmount fuel (p.pair.paid input) input.unwrap)

/-- A ratio of the cube of the invariant, in 64 bits. -/
def priceTerm (d a b : Nat) : Checked Nat := do
  let quotient ← Checked.div (← cubeU512 d) (← mulU512 (← mulU512 4 (← mulU512 a a)) b)
  if quotient < 2 ^ 64 then return quotient else .error .overflow

def staticPrice (fuel : Nat) (p : StablePoolT2T) : Checked SpotPrice := do
  let xCalc ← Checked.mul 64 (← Checked.sub p.reservesX p.treasuryX) p.multiplierX
  let yCalc ← Checked.mul 64 (← Checked.sub p.reservesY p.treasuryY) p.multiplierY
  let ann := p.an2n / 4
  let d ← Checked.unwrap (← calculateInvariant fuel xCalc yCalc p.an2n)
  let priceNum ← Checked.add 64 ann (← priceTerm d xCalc yCalc)
  let priceDenom ← Checked.mul 64 p.treasuryFee.denom
    (← Checked.add 64 ann (← priceTerm d yCalc xCalc))
  if p.pair.x = p.pair.base then do
    let reversed ← Checked.sub (← Checked.sub p.treasuryFee.denom p.lpFeeX.numer)
      p.treasuryFee.numer
    Checked.unwrap (AbsolutePrice.new (← Checked.mul 64 priceNum reversed) priceDenom)
  else do
    let reversed ← Checked.sub (← Checked.sub p.treasuryFee.denom p.lpFeeY.numer)
      p.treasuryFee.numer
    Checked.unwrap (AbsolutePrice.new priceDenom (← Checked.mul 64 reversed priceNum))

variable {fuel : Nat} {p p' : StablePoolT2T} {input : OnSide Nat}

/-- The fee of the liquidity providers is rounded up. -/
theorem stableFees_pos {pureOutput : Nat} {lpFee treasuryFee : Ratio} {fees : Nat × Nat}
    (h : stableFees pureOutput lpFee treasuryFee = .ok fees) : 0 < fees.1 := by
  simp only [stableFees, Checked.bind_eq_ok, Checked.add_eq_ok] at h
  obtain ⟨share, -, lpFees, ⟨-, rfl⟩, _, -, _, -, _, -, _, -, _, -, _, -, _, -, _, -, h⟩ := h
  split at h
  · cases h
    exact Nat.succ_pos _
  · obtain ⟨_, -, h⟩ := Checked.bind_eq_ok.mp h
    cases h
    exact Nat.succ_pos _

/-- A swap changes the reserves and the treasury, and nothing else; the fees are taken from the
output. -/
theorem swap_spec (h : p.swap fuel input = .ok p') : ∃ pureOutput fees output,
    p.outputAmount fuel (p.pair.paid input) input.unwrap = .ok pureOutput ∧
    stableFees pureOutput (if p.pair.x = p.pair.base then p.lpFeeY else p.lpFeeX) p.treasuryFee =
      .ok fees ∧
    fees.1 + fees.2 + output = pureOutput ∧
    p.pair.move input output p.reservesX p.reservesY = .ok (p'.reservesX, p'.reservesY) ∧
    p' = { p with
      reservesX := p'.reservesX
      reservesY := p'.reservesY
      treasuryX := p'.treasuryX
      treasuryY := p'.treasuryY } := by
  simp only [swap, Checked.bind_eq_ok, Checked.sub_eq_ok] at h
  obtain ⟨pureOutput, hpure, fees, hfees, _, ⟨hle, rfl⟩, output, ⟨hle', houtput⟩, reserves, hmove,
    h⟩ := h
  refine ⟨pureOutput, fees, output, hpure, hfees, by omega, ?_⟩
  cases input with
  | bid amount =>
    simp only [Checked.bind_eq_ok, Checked.pure_eq_ok] at h
    obtain ⟨treasury, -, rfl⟩ := h
    exact ⟨hmove, rfl⟩
  | ask amount =>
    simp only [Checked.bind_eq_ok, Checked.pure_eq_ok] at h
    obtain ⟨treasury, -, rfl⟩ := h
    exact ⟨hmove, rfl⟩

end StablePoolT2T

end UtxoMonitor.Pools
