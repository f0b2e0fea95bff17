import UtxoMonitor.Pools.Types

/-! The integer arithmetic of constant product pools. -/
namespace UtxoMonitor.Pools

open Lib LiquidityBook

def untouchableLovelaceAmount : Nat := 3000000

/-- The amount of the quote reserves that the input buys, in 128 bits. -/
def cfmmQuoteAmount (baseReserves quoteReserves baseAmount : Nat) (poolFee : Ratio) :
    Checked Nat := do
  let num ← Checked.mul 128 (← Checked.mul 128 quoteReserves baseAmount) poolFee.numer
  let denom ← Checked.add 128 (← Checked.mul 128 baseReserves poolFee.denom)
    (← Checked.mul 128 baseAmount poolFee.numer)
  Checked.div num denom

/-- What an output in ADA leaves in the pool is no less than the untouchable amount. -/
def capLovelace (outputAsset : AssetClass) (liquidity quoteAmount : Nat) : Checked Nat :=
  if outputAsset.isNative then do
    if (← Checked.sub liquidity quoteAmount) < untouchableLovelaceAmount then
      Checked.sub liquidity untouchableLovelaceAmount
    else return quoteAmount
  else return quoteAmount

def classicCfmmOutputAmount (pair : Pair) (reservesX reservesY : Nat) (baseAsset : AssetClass)
    (baseAmount : Nat) (poolFeeX poolFeeY : Ratio) : Checked Nat :=
  if baseAsset = pair.x then do
    let quoteAmount ← cfmmQuoteAmount reservesX reservesY baseAmount poolFeeX
    capLovelace pair.y reservesY (quoteAmount % 2 ^ 64)
  else do
    let quoteAmount ← cfmmQuoteAmount reservesY reservesX baseAmount poolFeeY
    capLovelace pair.x reservesX (quoteAmount % 2 ^ 64)

/-- `u128::checked_div` -/
def checkedDiv (a b : Nat) : Option Nat := if b = 0 then none else some (a / b)

/-- The liquidity unlocked, and the change of x and of y. -/
def classicCfmmRewardLp (reservesX reservesY liquidity inXAmount inYAmount : Nat) :
    Checked (Option (Nat × Nat × Nat)) := do
  let byX ← Checked.mul 128 inXAmount liquidity
  let byY ← Checked.mul 128 inYAmount liquidity
  match checkedDiv byX reservesX, checkedDiv byY reservesY with
  | some minByX, some minByY =>
    let unlockedLq := min minByX minByY % 2 ^ 64
    if minByX = minByY then return some (unlockedLq, 0, 0)
    else if minByX < minByY then do
      let excess ← Checked.mul 128 (minByY - minByX) reservesY
      return (checkedDiv excess liquidity).map fun change => (unlockedLq, 0, change % 2 ^ 64)
    else do
      let excess ← Checked.mul 128 (minByX - minByY) reservesX
      return (checkedDiv excess liquidity).map fun change => (unlockedLq, change % 2 ^ 64, 0)
  | _, _ => return none

def classicCfmmSharesAmount (reservesX reservesY liquidity burnedLq : Nat) :
    Checked (Option (Nat × Nat)) := do
  let byX ← Checked.mul 128 burnedLq reservesX
  let byY ← Checked.mul 128 burnedLq reservesY
  match checkedDiv byX liquidity, checkedDiv byY liquidity with
  | some xAmount, some yAmount => return some (xAmount % 2 ^ 64, yAmount % 2 ^ 64)
  | _, _ => return none

/-- Two words are multiplied in 128 bits. -/
theorem mul_lt_u128 {a b : Nat} (ha : a < 2 ^ 64) (hb : b < 2 ^ 64) : a * b < 2 ^ 128 :=
  calc a * b ≤ a * 2 ^ 64 := Nat.mul_le_mul_left _ (Nat.le_of_lt hb)
    _ < 2 ^ 64 * 2 ^ 64 := by omega
    _ = 2 ^ 128 := by decide

/-! ### What the output amounts are -/

section Output

variable {baseReserves quoteReserves baseAmount liquidity quoteAmount output : Nat}
  {poolFee : Ratio} {outputAsset : AssetClass}

theorem cfmmQuoteAmount_eq_ok :
    cfmmQuoteAmount baseReserves quoteReserves baseAmount poolFee = .ok output ↔
      quoteReserves * baseAmount * poolFee.numer < 2 ^ 128 ∧
      quoteReserves * baseAmount < 2 ^ 128 ∧
      baseReserves * poolFee.denom + baseAmount * poolFee.numer < 2 ^ 128 ∧
      baseReserves * poolFee.denom + baseAmount * poolFee.numer ≠ 0 ∧
      quoteReserves * baseAmount * poolFee.numer /
        (baseReserves * poolFee.denom + baseAmount * poolFee.numer) = output := by
  simp only [cfmmQuoteAmount, Checked.bind_eq_ok, Checked.mul_eq_ok, Checked.add_eq_ok,
    Checked.div_eq_ok, and_assoc, exists_and_left, exists_eq_left']
  constructor
  · rintro ⟨h1, h2, -, -, h5, h6, rfl⟩
    exact ⟨h2, h1, h5, h6, rfl⟩
  · rintro ⟨h2, h1, h5, h6, rfl⟩
    exact ⟨h1, h2, by omega, by omega, h5, h6, rfl⟩

theorem cfmmQuoteAmount_le
    (h : cfmmQuoteAmount baseReserves quoteReserves baseAmount poolFee = .ok output) :
    output ≤ quoteReserves := by
  obtain ⟨-, -, -, -, rfl⟩ := cfmmQuoteAmount_eq_ok.mp h
  refine Nat.div_le_of_le_mul ?_
  rw [Nat.mul_assoc, Nat.mul_comm]
  exact Nat.mul_le_mul_right _ (Nat.le_add_left _ _)

/-- A capped output is the amount asked for, or what there is above the untouchable amount. -/
theorem capLovelace_le (h : capLovelace outputAsset liquidity quoteAmount = .ok output) :
    output ≤ quoteAmount := by
  unfold capLovelace at h
  split at h
  · obtain ⟨left, hleft, h⟩ := Checked.bind_eq_ok.mp h
    obtain ⟨-, rfl⟩ := Checked.sub_eq_ok.mp hleft
    split at h
    · obtain ⟨-, rfl⟩ := Checked.sub_eq_ok.mp h
      omega
    · exact (Checked.pure_eq_ok.mp h).ge
  · exact (Checked.pure_eq_ok.mp h).ge

end Output

end UtxoMonitor.Pools
