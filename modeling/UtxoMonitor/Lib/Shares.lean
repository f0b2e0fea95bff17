import Mathlib.Tactic.Linarith
import Mathlib.Tactic.Ring

/-! Reserves that are sold out of and held in shares, with every quotient rounded. -/
namespace Lib

section

variable {x y sold kept bought part whole reserves total burned paid minted inAmount change : Nat}

/-! ### Sales at a constant product -/

/-- What is sold for a part of the input is less than what there was. -/
theorem sale_lt (hx : 0 < x) (hy : 0 < y) : y * bought / (x + bought) < y := by
  apply Nat.div_lt_of_lt_mul
  rw [Nat.mul_comm (x + bought)]
  exact Nat.mul_lt_mul_of_pos_left (Nat.lt_add_of_pos_left hx) hy

/-- A sale does not lower the product of the reserves: `bought` parts of `whole` are traded, and at
least as much of the input is kept. -/
theorem product_le_of_sale (hwhole : 0 < whole) (hsold : sold ≤ y)
    (h : sold * (x * whole + bought) ≤ y * bought) (hkept : bought ≤ kept * whole) :
    x * y ≤ (x + kept) * (y - sold) := by
  obtain ⟨left, rfl⟩ := Nat.exists_eq_add_of_le hsold
  rw [Nat.add_sub_cancel_left]
  have hle : sold * x * whole ≤ left * kept * whole := by
    have hmul := Nat.mul_le_mul_left left hkept
    calc sold * x * whole ≤ left * bought := by linarith
      _ ≤ left * (kept * whole) := hmul
      _ = left * kept * whole := by ring
  have hcover : sold * x ≤ left * kept := Nat.le_of_mul_le_mul_right hle hwhole
  linarith

/-! ### Shares of a total -/

/-- Shares are covered by what was kept for them, so no other share loses. -/
theorem price_le_of_minted (h : minted * reserves ≤ kept * total) :
    reserves * (total + minted) ≤ (reserves + kept) * total := by
  linarith

/-- Shares are paid no more than their part, so no other share loses. -/
theorem price_le_of_burned (h : paid * total ≤ burned * reserves) (hpaid : paid ≤ reserves)
    (hburned : burned ≤ total) : reserves * (total - burned) ≤ (reserves - paid) * total := by
  obtain ⟨left, rfl⟩ := Nat.exists_eq_add_of_le hpaid
  obtain ⟨rest, rfl⟩ := Nat.exists_eq_add_of_le hburned
  rw [Nat.add_sub_cancel_left, Nat.add_sub_cancel_left]
  linarith

/-- Shares that are minted and burned again are paid no more than what was kept for them. -/
theorem paid_back_le (h : minted * reserves ≤ kept * total) :
    minted * (reserves + kept) / (total + minted) ≤ kept := by
  apply Nat.div_le_of_le_mul
  linarith

/-- The part that belongs to shares which an amount can mint is within the amount. -/
theorem part_le (hminted : minted ≤ inAmount * total / reserves) :
    minted * reserves / total ≤ inAmount := by
  apply Nat.div_le_of_le_mul
  calc minted * reserves ≤ inAmount * total / reserves * reserves := Nat.mul_le_mul_right _ hminted
    _ ≤ inAmount * total := Nat.div_mul_le_self _ _
    _ = total * inAmount := Nat.mul_comm _ _

/-- Shares that are minted for the integral part of what belongs to them are paid no more. -/
theorem part_paid_back_le (htotal : 0 < total) :
    minted * (reserves + minted * reserves / total) / (total + minted) ≤
      minted * reserves / total := by
  have hlt : minted * reserves < (minted * reserves / total + 1) * total :=
    Nat.lt_mul_of_div_lt (Nat.lt_succ_self _) htotal
  apply Nat.le_of_lt_succ
  apply Nat.div_lt_of_lt_mul
  linarith

/-- The change for the shares that an amount could have minted in excess is covered by it. -/
theorem minted_le_of_change
    (h : change * total ≤ (inAmount * total / reserves - minted) * reserves)
    (hminted : minted ≤ inAmount * total / reserves) :
    minted * reserves ≤ (inAmount - change) * total := by
  have hfloor : inAmount * total / reserves * reserves ≤ inAmount * total :=
    Nat.div_mul_le_self _ _
  rw [Nat.sub_mul] at h ⊢
  have hmul : minted * reserves ≤ inAmount * total / reserves * reserves :=
    Nat.mul_le_mul_right _ hminted
  omega

/-! ### Prices one after another -/

/-- Prices that do not fall in two steps do not fall in both together, if no shares come from
none. -/
theorem price_le_trans {price price' price'' total' total'' : Nat}
    (h : price * total' ≤ price' * total) (h' : price' * total'' ≤ price'' * total')
    (hzero : total' = 0 → total'' = 0) : price * total'' ≤ price'' * total := by
  rcases Nat.eq_zero_or_pos total' with hnone | hpos
  · rw [hzero hnone, Nat.mul_zero]
    exact Nat.zero_le _
  · apply Nat.le_of_mul_le_mul_right ?_ hpos
    calc price * total'' * total' = price * total' * total'' := Nat.mul_right_comm _ _ _
      _ ≤ price' * total * total'' := Nat.mul_le_mul_right _ h
      _ = price' * total'' * total := Nat.mul_right_comm _ _ _
      _ ≤ price'' * total' * total := Nat.mul_le_mul_right _ h'
      _ = price'' * total * total' := Nat.mul_right_comm _ _ _

/-- What shares have been paid is no more than their part, if the price of the others has not
fallen. -/
theorem paid_le_of_price (htotal : 0 < total) (hburned : burned ≤ total)
    (h : reserves * (total - burned) ≤ (reserves - paid) * total) (hpaid : paid ≤ reserves) :
    paid ≤ burned * reserves / total := by
  rw [Nat.le_div_iff_mul_le htotal]
  obtain ⟨left, rfl⟩ := Nat.exists_eq_add_of_le hpaid
  obtain ⟨rest, rfl⟩ := Nat.exists_eq_add_of_le hburned
  rw [Nat.add_sub_cancel_left, Nat.add_sub_cancel_left] at h
  linarith

end

/-! ### Fees charged step by step

A fee that is charged by the share of what is left that each step takes, rounded down. -/

section

variable {F N k f n r : Nat}

theorem min_div_le {fee removed input m : Nat} (h : removed ≤ input) :
    min (fee * removed) m / input ≤ fee := by
  apply Nat.div_le_of_le_mul
  calc min (fee * removed) m ≤ fee * removed := min_le_left _ _
    _ ≤ fee * input := Nat.mul_le_mul_left _ h
    _ = input * fee := Nat.mul_comm _ _

/-- A bound that the quotient does not reach does not change it. -/
theorem min_div_eq {a m : Nat} (h : a / n ≤ m / n) : min a m / n = a / n := by
  rcases Nat.le_total a m with hle | hle
  · rw [min_eq_left hle]
  · rw [min_eq_right hle]
    exact (Nat.div_le_div_right hle).antisymm h

/-- After `k` charges `f` is left of the fee `F`, for `n` that are left of `N`. -/
structure Prorata (F N k f n : Nat) : Prop where
  lower : F * n ≤ f * N
  upper : f * N ≤ F * n + k * N
  done : n = 0 → f = 0

theorem Prorata.start (hN : 0 < N) : Prorata F N 0 F N where
  lower := Nat.le_refl _
  upper := Nat.le_add_right _ _
  done h := absurd h hN.ne'

theorem Prorata.charge (h : Prorata F N k f n) (hr : r ≤ n) :
    Prorata F N (k + 1) (f - f * r / n) (n - r) := by
  obtain ⟨rest, rfl⟩ := Nat.exists_eq_add_of_le hr
  obtain ⟨hlower, hupper, hdone⟩ := h
  rw [Nat.add_sub_cancel_left]
  rcases Nat.eq_zero_or_pos (r + rest) with hzero | hpos
  · have hleft := hdone hzero
    have hrest : rest = 0 := by omega
    subst hleft hrest
    exact ⟨by simp, by simp, by simp⟩
  have hle : f * r / (r + rest) ≤ f := by
    apply Nat.div_le_of_le_mul
    rw [Nat.mul_comm]
    exact Nat.mul_le_mul_right f hr
  have hfloor : (r + rest) * (f * r / (r + rest)) ≤ f * r := Nat.mul_div_le _ _
  have hceil : f * r < (r + rest) * (f * r / (r + rest) + 1) :=
    Nat.lt_mul_of_div_lt (Nat.lt_succ_self _) hpos |>.trans_eq (Nat.mul_comm _ _)
  obtain ⟨left, hleft⟩ := Nat.exists_eq_add_of_le hle
  generalize f * r / (r + rest) = charged at *
  subst hleft
  rw [Nat.add_sub_cancel_left]
  -- What is left is the exact share of what is left of the input, rounded up.
  have hshare : (charged + left) * rest ≤ (r + rest) * left := by linarith
  have hround : (r + rest) * left ≤ (charged + left) * rest + (r + rest) := by linarith
  refine ⟨?_, ?_, ?_⟩
  · apply Nat.le_of_mul_le_mul_left _ hpos
    calc (r + rest) * (F * rest) = F * (r + rest) * rest := by ring
      _ ≤ (charged + left) * N * rest := Nat.mul_le_mul_right _ hlower
      _ = (charged + left) * rest * N := by ring
      _ ≤ (r + rest) * left * N := Nat.mul_le_mul_right _ hshare
      _ = (r + rest) * (left * N) := by ring
  · apply Nat.le_of_mul_le_mul_left _ hpos
    calc (r + rest) * (left * N) = (r + rest) * left * N := by ring
      _ ≤ ((charged + left) * rest + (r + rest)) * N := Nat.mul_le_mul_right _ hround
      _ = (charged + left) * N * rest + (r + rest) * N := by ring
      _ ≤ (F * (r + rest) + k * N) * rest + (r + rest) * N :=
        Nat.add_le_add_right (Nat.mul_le_mul_right _ hupper) _
      _ ≤ (F * (r + rest) + k * N) * rest + (r + rest) * N + k * N * r := Nat.le_add_right _ _
      _ = (r + rest) * (F * rest + (k + 1) * N) := by ring
  · rintro rfl
    rw [Nat.add_zero, Nat.mul_comm] at hceil
    have hlt := Nat.lt_of_mul_lt_mul_left hceil
    omega

theorem Prorata.le (h : Prorata F N k f n) : F * n / N ≤ f := by
  apply Nat.div_le_of_le_mul
  rw [Nat.mul_comm N]
  exact h.lower

theorem Prorata.le_add (h : Prorata F N k f n) (hN : 0 < N) : f ≤ F * n / N + k := by
  rw [← Nat.add_mul_div_right _ _ hN, Nat.le_div_iff_mul_le hN]
  exact h.upper

end

end Lib
