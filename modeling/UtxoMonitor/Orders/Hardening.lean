import Mathlib.Data.NNRat.Floor
import UtxoMonitor.Orders.Limit

/-! A hardened price pays a whole output for the whole input, and never less than the price. -/
namespace UtxoMonitor.Orders

open Lib Pools

/-- The numerator and the denominator that are kept of a price. -/
def lowestTerms (p : ℚ≥0) : Ratio := ⟨p.num, p.den⟩

/-- What a hardened price `q` promises of the price `p` of an order. -/
structure Hardens (p q : ℚ≥0) (input : Nat) : Prop where
  limit : p ≤ q
  whole : ⌈input * p⌉₊ < 2 ^ 64 → linearOutputRelative input (lowestTerms q) = some ⌈input * p⌉₊
  fills (k : Nat) (hk : k ≤ input) : ⌊k * p⌋₊ ≤ ⌊k * q⌋₊
  accepted (k : Nat) (hk : k ≤ input) (added : Nat) :
    (⌊k * q⌋₊ ≤ added → ⌊k * p⌋₊ ≤ added) ∧ (k * q ≤ added → k * p ≤ added)

theorem ceil_natCast_div (m : Nat) {d : Nat} (hd : 0 < d) :
    ⌈(m / d : ℚ≥0)⌉₊ = (m + d - 1) / d := by
  have hcast : (0 : ℚ≥0) < d := Nat.cast_pos.mpr hd
  apply eq_of_forall_ge_iff
  intro c
  have hmul : (m / d : ℚ≥0) ≤ c ↔ m ≤ c * d := by
    rw [div_le_iff₀ hcast]
    exact_mod_cast Iff.rfl
  have hdiv : (m + d - 1) / d ≤ c ↔ m + d - 1 < (c + 1) * d := by
    rw [← Nat.lt_succ_iff, Nat.div_lt_iff_lt_mul hd]
  rw [Nat.ceil_le, hmul, hdiv, Nat.succ_mul]
  omega

theorem linearOutputRelative_lowestTerms (input : Nat) (q : ℚ≥0) :
    linearOutputRelative input (lowestTerms q) =
      if ⌊input * q⌋₊ < 2 ^ 64 then some ⌊input * q⌋₊ else none := by
  have hexact : (input * q : ℚ≥0) = ((input * q.num : Nat) : ℚ≥0) / (q.den : Nat) := by
    rw [Nat.cast_mul, mul_div_assoc, NNRat.num_div_den]
  rw [hexact, NNRat.floor_natCast_div_natCast]
  rfl

/-- A price of a whole output for the input, which is not below `p`. -/
theorem Hardens.of_ceil {p : ℚ≥0} {input : Nat} (hinput : 0 < input) :
    Hardens p (⌈input * p⌉₊ / input) input := by
  have hcast : (0 : ℚ≥0) < input := Nat.cast_pos.mpr hinput
  have hlimit : p ≤ ⌈input * p⌉₊ / input := by
    rw [le_div_iff₀ hcast, mul_comm]
    exact Nat.le_ceil _
  have hscaled (k : Nat) : k * p ≤ k * (⌈input * p⌉₊ / input) :=
    mul_le_mul_of_nonneg_left hlimit zero_le
  constructor
  · exact hlimit
  · intro hfits
    rw [linearOutputRelative_lowestTerms, mul_div_cancel₀ _ hcast.ne', Nat.floor_natCast,
      if_pos hfits]
  · intro k _
    exact Nat.floor_le_floor (hscaled k)
  · intro k _ added
    exact ⟨(Nat.floor_le_floor (hscaled k)).trans, (hscaled k).trans⟩

theorem hardenPrice_eq {input n d : Nat} (hinput : 0 < input) (hn : 0 < n) (hd : 0 < d)
    (hfits : input * n < 2 ^ 128) :
    hardenPrice ⟨n, d⟩ input = .ok (⌈input * (n / d : ℚ≥0)⌉₊ / input) := by
  have hceil : ⌈input * (n / d : ℚ≥0)⌉₊ = (input * n + d - 1) / d := by
    rw [← ceil_natCast_div _ hd, Nat.cast_mul, mul_div_assoc]
  have hprod : 0 < input * n := Nat.mul_pos hinput hn
  have hpos : 0 < (input * n + d - 1) / d := Nat.div_pos (by omega) hd
  rw [hardenPrice, Checked.mul_eq_ok.mpr ⟨hfits, rfl⟩, hceil]
  exact if_pos hpos

/-- On words of 64 bits a price can always be hardened. -/
theorem hardened_price_keeps_limit {input n d : Nat} (hinput : 0 < input ∧ input < 2 ^ 64)
    (hn : 0 < n ∧ n < 2 ^ 64) (hd : 0 < d ∧ d < 2 ^ 64) :
    ∃ q, hardenPrice ⟨n, d⟩ input = .ok q ∧ Hardens (n / d) q input := by
  have hfits : input * n < 2 ^ 128 :=
    calc input * n < 2 ^ 64 * 2 ^ 64 := Nat.mul_lt_mul'' hinput.2 hn.2
      _ = 2 ^ 128 := by norm_num
  exact ⟨_, hardenPrice_eq hinput.1 hn.1 hd.1 hfits, .of_ceil hinput.1⟩

/-- Seven units at two thirds. -/
theorem hardened_price_of_seven :
    ∃ q, hardenPrice ⟨2, 3⟩ 7 = .ok q ∧ Hardens ((2 : Nat) / (3 : Nat)) q 7 :=
  hardened_price_keeps_limit (by decide) (by decide) (by decide)

end UtxoMonitor.Orders
