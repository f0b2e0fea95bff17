import Mathlib.Data.Nat.GCD.Basic
import UtxoMonitor.Lib.Checked
import UtxoMonitor.LiquidityBook.LimitOrder

/-! What the pools have in common: fees, pairs of assets, and how a trade moves two reserves. -/
namespace UtxoMonitor

open Lib

def LiquidityBook.AssetClass.isNative : LiquidityBook.AssetClass → Bool
  | .native => true
  | .token _ => false

/-- The amount of a trade, on either side. -/
@[simp] theorem LiquidityBook.OnSide.unwrap_bid {A : Type} (a : A) :
    (LiquidityBook.OnSide.bid a).unwrap = a := rfl

@[simp] theorem LiquidityBook.OnSide.unwrap_ask {A : Type} (a : A) :
    (LiquidityBook.OnSide.ask a).unwrap = a := rfl

namespace Pools

open LiquidityBook

/-! ### Fees -/

/-- `Ratio<u64>`, reduced or not. -/
structure Ratio where
  numer : Nat
  denom : Nat
deriving DecidableEq

namespace Ratio

def reduced (numer denom : Nat) : Ratio :=
  ⟨numer / Nat.gcd numer denom, denom / Nat.gcd numer denom⟩

def new (numer denom : Nat) : Checked Ratio :=
  if denom ≠ 0 then .ok (reduced numer denom) else .error .divisionByZero

def sub (a b : Ratio) : Checked Ratio :=
  if a.denom = b.denom then do
    new (← Checked.sub a.numer b.numer) b.denom
  else do
    let lcm ← Checked.mul 64 a.denom (b.denom / Nat.gcd a.denom b.denom)
    let lhsNumer ← Checked.mul 64 a.numer (← Checked.div lcm a.denom)
    let rhsNumer ← Checked.mul 64 b.numer (← Checked.div lcm b.denom)
    new (← Checked.sub lhsNumer rhsNumer) lcm

/-- The part of an amount that goes to a fee. -/
def share (fee : Ratio) (amount : Nat) : Checked Nat := do
  Checked.div (← Checked.mul 64 amount fee.numer) fee.denom

end Ratio

def feeDen : Nat := 100000

def maxLqCap : Nat := 0x7fffffffffffffff

/-! ### Pairs -/

abbrev PoolId := Token

structure PoolValidation where
  minN2tLovelace : Nat
  minT2tLovelace : Nat
deriving DecidableEq

/-- Two assets ordered so that the first is Base in the canonical pair and the second is Quote. -/
def orderCanonical (x y : AssetClass) : AssetClass × AssetClass :=
  if (x.cmp y).isLE then (x, y) else (y, x)

/-- The assets of a pool, and which of them is Base. -/
structure Pair where
  x : AssetClass
  y : AssetClass
deriving DecidableEq

namespace Pair

def base (p : Pair) : AssetClass := (orderCanonical p.x p.y).1

def quote (p : Pair) : AssetClass := (orderCanonical p.x p.y).2

/-- What is paid in a trade. -/
def paid (p : Pair) : OnSide Nat → AssetClass
  | .bid _ => p.quote
  | .ask _ => p.base

/-- Whether the input of a trade goes to the reserves of x. -/
def entersX (p : Pair) : OnSide Nat → Bool
  | .bid _ => p.x ≠ p.base
  | .ask _ => p.x = p.base

/-- The reserves of a pool as base and quote. -/
def reserves (p : Pair) (reservesX reservesY : Nat) : AbsoluteReserves :=
  if p.base = p.x then ⟨reservesX, reservesY⟩ else ⟨reservesY, reservesX⟩

/-- Moves the input of a trade into one of the reserves of x and y, and its output out of the
other. -/
def move (p : Pair) (input : OnSide Nat) (output reservesX reservesY : Nat) :
    Checked (Nat × Nat) :=
  if p.entersX input then do
    return (← Checked.add 64 reservesX input.unwrap, ← Checked.sub reservesY output)
  else do
    return (← Checked.sub reservesX output, ← Checked.add 64 reservesY input.unwrap)

/-- Adds the fee of a trade to what has been collected of x or y, on the side of its input. -/
def collect (p : Pair) (input : OnSide Nat) (fee : Ratio) (collectedX collectedY : Nat) :
    Checked (Nat × Nat) :=
  if p.entersX input then do
    return (← Checked.add 64 collectedX (← fee.share input.unwrap), collectedY)
  else do
    return (collectedX, ← Checked.add 64 collectedY (← fee.share input.unwrap))

variable {p : Pair} {input : OnSide Nat} {output x y x' y' share : Nat} {fee : Ratio}

theorem base_quote (p : Pair) :
    p.base = p.x ∧ p.quote = p.y ∨ p.base = p.y ∧ p.quote = p.x := by
  unfold base quote orderCanonical
  split
  · exact .inl ⟨rfl, rfl⟩
  · exact .inr ⟨rfl, rfl⟩

theorem entersX_iff (h : p.x ≠ p.y) : p.entersX input ↔ p.paid input = p.x := by
  obtain ⟨hbase, hquote⟩ | ⟨hbase, hquote⟩ := p.base_quote
  · cases input with
    | bid amount => simpa [entersX, paid, hbase, hquote] using h.symm
    | ask amount => simp [entersX, paid, hbase]
  · cases input with
    | bid amount => simpa [entersX, paid, hbase, hquote] using h
    | ask amount => simp [entersX, paid, hbase, eq_comm]

theorem move_eq_ok : p.move input output x y = .ok (x', y') ↔
    if p.entersX input then
      x + input.unwrap < 2 ^ 64 ∧ output ≤ y ∧ x' = x + input.unwrap ∧ y' = y - output
    else y + input.unwrap < 2 ^ 64 ∧ output ≤ x ∧ x' = x - output ∧ y' = y + input.unwrap := by
  unfold Pair.move
  split
  · simp only [Checked.bind_eq_ok, Checked.add_eq_ok, Checked.sub_eq_ok, Checked.pure_eq_ok,
      Prod.mk.injEq]
    grind
  · simp only [Checked.bind_eq_ok, Checked.add_eq_ok, Checked.sub_eq_ok, Checked.pure_eq_ok,
      Prod.mk.injEq]
    grind

theorem move_regular (h : output ≤ if p.entersX input then y else x) :
    Checked.Regular (p.move input output x y) := by
  unfold move
  split
  · rename_i hx
    rw [if_pos hx] at h
    exact Checked.regular_bind Checked.regular_add fun _ _ =>
      Checked.regular_bind (Checked.regular_sub h) fun _ _ => Checked.regular_pure
  · rename_i hx
    rw [if_neg hx] at h
    exact Checked.regular_bind (Checked.regular_sub h) fun _ _ =>
      Checked.regular_bind Checked.regular_add fun _ _ => Checked.regular_pure

end Pair

/-- The price at which a trade of the input has the output. -/
def priceOf (input : OnSide Nat) (output : Nat) : Option AbsolutePrice :=
  match input with
  | .bid input => AbsolutePrice.new input output
  | .ask input => AbsolutePrice.new output input

/-- A token of a policy of its own. -/
def sampleToken (b : UInt8) : Token := ⟨RawBytes.replicate b, AssetName.zero⟩

end Pools

end UtxoMonitor
