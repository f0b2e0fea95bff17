import Mathlib.Data.Rat.Lemmas
import Mathlib.Algebra.Order.Field.Rat
import UtxoMonitor.Lib.Checked

/-! Fractions of machine integers, whose operations stop where a part of the result has no room. -/
namespace Lib

/-- The integers of 128 bits, with a sign and without. -/
inductive Word where
  | i128
  | u128
deriving DecidableEq

def Word.Holds : Word → Int → Prop
  | i128, n => -2 ^ 127 ≤ n ∧ n < 2 ^ 127
  | u128, n => 0 ≤ n ∧ n < 2 ^ 128

instance (w : Word) (n : Int) : Decidable (w.Holds n) := by
  cases w <;> exact inferInstanceAs (Decidable (_ ∧ _))

/-- A fraction, not always in lowest terms. -/
structure Fraction where
  numer : Int
  denom : Nat
  denom_pos : 0 < denom

namespace Fraction

def value (r : Fraction) : ℚ := r.numer / r.denom

/-- The fraction in lowest terms. -/
def reduced (q : ℚ) : Fraction := ⟨q.num, q.den, q.den_pos⟩

/-- The fraction of two integers, in lowest terms. -/
def new (numer : Int) (denom : Nat) : Checked Fraction :=
  if 0 < denom then .ok (reduced (numer / denom)) else .error .divisionByZero

def ofInt (n : Int) : Fraction := ⟨n, 1, Nat.one_pos⟩

@[simp] theorem value_reduced (q : ℚ) : (reduced q).value = q := Rat.num_div_den q

@[simp] theorem value_ofInt (n : Int) : (ofInt n).value = n := by
  simp only [value, ofInt, Nat.cast_one, div_one]

/-- The numerator over a multiple of the denominator. -/
def scaled (r : Fraction) (lcm : Nat) : Int := r.numer * (lcm / r.denom : Nat)

/-- Both fractions have room over their least common denominator. -/
def CommonFits (w : Word) (a b : Fraction) : Prop :=
  w.Holds (a.denom.lcm b.denom) ∧ w.Holds (a.scaled (a.denom.lcm b.denom)) ∧
    w.Holds (b.scaled (a.denom.lcm b.denom))

def AddFits (w : Word) (a b : Fraction) : Prop :=
  CommonFits w a b ∧ w.Holds (a.scaled (a.denom.lcm b.denom) + b.scaled (a.denom.lcm b.denom))

def SubFits (w : Word) (a b : Fraction) : Prop :=
  CommonFits w a b ∧ w.Holds (a.scaled (a.denom.lcm b.denom) - b.scaled (a.denom.lcm b.denom))

/-- The factors that are left after cancelling crosswise have room. -/
def MulFits (w : Word) (a b : Fraction) : Prop :=
  w.Holds (a.numer / (a.numer.gcd b.denom : Nat) * (b.numer / (b.numer.gcd a.denom : Nat))) ∧
    w.Holds (a.denom / b.numer.gcd a.denom * (b.denom / a.numer.gcd b.denom) : Nat)

/-- What is left in lowest terms divides what was there. -/
theorem reduced_le {n : Int} {d : Nat} (hd : 0 < d) :
    (reduced (n / d)).numer.natAbs ≤ n.natAbs ∧ (reduced (n / d)).denom ≤ d := by
  have hd' : (d : Int) ≠ 0 := Int.natCast_ne_zero.mpr hd.ne'
  have hq : (n / d : ℚ) = Rat.divInt n d := by
    rw [Rat.divInt_eq_div, Int.cast_natCast]
  simp only [reduced, hq]
  constructor
  · by_cases hn : n = 0
    · rw [hn, Rat.zero_divInt]
      exact Nat.le_refl 0
    · exact Nat.le_of_dvd (Int.natAbs_pos.mpr hn) (Int.natAbs_dvd_natAbs.mpr (Rat.num_dvd n hd'))
  · exact Nat.le_of_dvd hd (Int.natCast_dvd_natCast.mp (Rat.den_dvd n d))

/-- Turning the sign needs no room but for the sign. -/
theorem mulFits_neg_one {w : Word} {r : Fraction} :
    r.MulFits w (ofInt (-1)) ↔ w.Holds (-r.numer) ∧ w.Holds r.denom := by
  have hleft : r.numer.gcd 1 = 1 := Int.gcd_one_right r.numer
  have hright : (-1 : Int).gcd r.denom = 1 := by rw [Int.neg_gcd, Int.one_gcd]
  simp only [MulFits, ofInt, hleft, hright, Nat.cast_one, Int.ediv_one, Nat.div_one, mul_neg_one,
    mul_one]

/-- The difference of two fractions that are not negative has room where both have. -/
theorem CommonFits.subFits {a b : Fraction} (h : CommonFits .i128 a b)
    (ha : 0 ≤ a.scaled (a.denom.lcm b.denom)) (hb : 0 ≤ b.scaled (a.denom.lcm b.denom)) :
    SubFits .i128 a b := by
  obtain ⟨-, hleft, hright⟩ := id h
  simp only [Word.Holds] at hleft hright
  refine ⟨h, ?_, ?_⟩ <;> omega

theorem scaled_div {r : Fraction} {lcm : Nat} (hdvd : r.denom ∣ lcm) (hpos : 0 < lcm) :
    (r.scaled lcm / lcm : ℚ) = r.value := by
  obtain ⟨k, rfl⟩ := hdvd
  have hk : (k : ℚ) ≠ 0 := Nat.cast_ne_zero.mpr (Nat.pos_of_mul_pos_left hpos).ne'
  have hdiv : r.denom * k / r.denom = k := Nat.mul_div_cancel_left k r.denom_pos
  rw [scaled, hdiv, value]
  push_cast
  exact mul_div_mul_right _ _ hk

theorem lcm_pos (a b : Fraction) : 0 < a.denom.lcm b.denom := Nat.lcm_pos a.denom_pos b.denom_pos

theorem value_add (a b : Fraction) :
    a.value + b.value = ((a.scaled (a.denom.lcm b.denom) + b.scaled (a.denom.lcm b.denom) : Int) : ℚ) /
      (a.denom.lcm b.denom : Nat) := by
  rw [Int.cast_add, add_div, scaled_div (Nat.dvd_lcm_left _ _) (lcm_pos a b),
    scaled_div (Nat.dvd_lcm_right _ _) (lcm_pos a b)]

theorem value_sub (a b : Fraction) :
    a.value - b.value = ((a.scaled (a.denom.lcm b.denom) - b.scaled (a.denom.lcm b.denom) : Int) : ℚ) /
      (a.denom.lcm b.denom : Nat) := by
  rw [Int.cast_sub, sub_div, scaled_div (Nat.dvd_lcm_left _ _) (lcm_pos a b),
    scaled_div (Nat.dvd_lcm_right _ _) (lcm_pos a b)]

/-- A sum that has room over the common denominator has it in lowest terms. -/
theorem AddFits.reduced_lt {a b : Fraction} (h : AddFits .i128 a b) :
    (reduced (a.value + b.value)).numer < 2 ^ 128 ∧ (reduced (a.value + b.value)).denom < 2 ^ 128 := by
  obtain ⟨⟨hlcm, -, -⟩, hsum⟩ := h
  obtain ⟨hnumer, hdenom⟩ := reduced_le (n := a.scaled (a.denom.lcm b.denom) +
    b.scaled (a.denom.lcm b.denom)) (lcm_pos a b)
  rw [← value_add] at hnumer hdenom
  simp only [Word.Holds] at hlcm hsum
  constructor <;> omega

theorem CommonFits.neg_sub {a b : Fraction} (h : CommonFits .i128 a b)
    (ha : 0 ≤ a.scaled (a.denom.lcm b.denom)) (hb : 0 ≤ b.scaled (a.denom.lcm b.denom)) :
    (reduced (a.value - b.value)).MulFits .i128 (ofInt (-1)) := by
  obtain ⟨hlcm, hleft, hright⟩ := h
  obtain ⟨hnumer, hdenom⟩ := reduced_le (n := a.scaled (a.denom.lcm b.denom) -
    b.scaled (a.denom.lcm b.denom)) (lcm_pos a b)
  rw [← value_sub] at hnumer hdenom
  simp only [Word.Holds] at hlcm hleft hright
  refine mulFits_neg_one.mpr ⟨⟨?_, ?_⟩, ?_, ?_⟩ <;> omega

instance (w : Word) (a b : Fraction) : Decidable (CommonFits w a b) :=
  inferInstanceAs (Decidable (_ ∧ _ ∧ _))

instance (w : Word) (a b : Fraction) : Decidable (AddFits w a b) :=
  inferInstanceAs (Decidable (_ ∧ _))

instance (w : Word) (a b : Fraction) : Decidable (SubFits w a b) :=
  inferInstanceAs (Decidable (_ ∧ _))

instance (w : Word) (a b : Fraction) : Decidable (MulFits w a b) :=
  inferInstanceAs (Decidable (_ ∧ _))

end Fraction

/-- Exact operations whose results are in lowest terms. Sums and differences are taken over the least
common denominator, products after cancelling crosswise. -/
class FractionArithmetic where
  add : Word → Fraction → Fraction → Checked Fraction
  sub : Word → Fraction → Fraction → Checked Fraction
  mul : Word → Fraction → Fraction → Checked Fraction
  add_eq_ok : ∀ {w a b r}, add w a b = .ok r ↔ a.AddFits w b ∧ .reduced (a.value + b.value) = r
  sub_eq_ok : ∀ {w a b r}, sub w a b = .ok r ↔ a.SubFits w b ∧ .reduced (a.value - b.value) = r
  mul_eq_ok : ∀ {w a b r}, mul w a b = .ok r ↔ a.MulFits w b ∧ .reduced (a.value * b.value) = r

/-- The operations as they are documented. -/
abbrev FractionArithmetic.documented : FractionArithmetic where
  add w a b := if a.AddFits w b then .ok (.reduced (a.value + b.value)) else .error .overflow
  sub w a b := if a.SubFits w b then .ok (.reduced (a.value - b.value)) else .error .overflow
  mul w a b := if a.MulFits w b then .ok (.reduced (a.value * b.value)) else .error .overflow
  add_eq_ok := Checked.ite_eq_ok
  sub_eq_ok := Checked.ite_eq_ok
  mul_eq_ok := Checked.ite_eq_ok

end Lib
