import Mathlib.Algebra.Ring.Int.Defs
import Mathlib.Algebra.Ring.Nat

/-! Machine arithmetic that stops at a value its words do not hold, and what a computation yields
that may fail, but not in some ways. -/
namespace Lib

/-- Why a computation panics. -/
inductive Fault where
  | overflow
  | underflow
  | divisionByZero
  | unwrap
deriving DecidableEq

abbrev Checked (A : Type) := Except Fault A

namespace Checked

variable {A B : Type} {w a b c : Nat}

def add (w a b : Nat) : Checked Nat := if a + b < 2 ^ w then .ok (a + b) else .error .overflow

def mul (w a b : Nat) : Checked Nat := if a * b < 2 ^ w then .ok (a * b) else .error .overflow

def sub (a b : Nat) : Checked Nat := if b ≤ a then .ok (a - b) else .error .underflow

def div (a b : Nat) : Checked Nat := if b = 0 then .error .divisionByZero else .ok (a / b)

def unwrap : Option A → Checked A
  | some a => .ok a
  | none => .error .unwrap

@[simp] theorem bind_eq_ok {x : Checked A} {f : A → Checked B} {b : B} :
    (x >>= f) = .ok b ↔ ∃ a, x = .ok a ∧ f a = .ok b := by
  cases x with
  | ok a => simp [bind, Except.bind]
  | error e => simp [bind, Except.bind]

theorem ok_bind {a : A} {f : A → Checked B} : ((.ok a : Checked A) >>= f) = f a := rfl

@[simp] theorem pure_eq_ok {a a' : A} : (pure a : Checked A) = .ok a' ↔ a = a' := by
  show Except.ok a = Except.ok a' ↔ a = a'
  rw [Except.ok.injEq]

theorem map_eq_ok {x : Checked A} {f : A → B} {b : B} :
    f <$> x = .ok b ↔ ∃ a, x = .ok a ∧ f a = b := by
  cases x with
  | ok a => simp
  | error e => simp

/-- A value that is computed under a condition. -/
theorem ite_eq_ok {p : Prop} [Decidable p] {e : Fault} {a' : A} {a : A} :
    (if p then Except.ok a else .error e) = .ok a' ↔ p ∧ a = a' := by
  by_cases h : p
  · rw [if_pos h, Except.ok.injEq, eq_true h, true_and]
  · simp only [h, if_false, reduceCtorEq, false_and]

theorem ite_pure_eq_ok {p : Prop} [Decidable p] {a a' : A} {x : Checked A} :
    (if p then pure a else x) = .ok a' ↔ if p then a = a' else x = .ok a' := by
  split
  · exact pure_eq_ok
  · exact Iff.rfl

@[simp] theorem add_eq_ok : add w a b = .ok c ↔ a + b < 2 ^ w ∧ a + b = c := ite_eq_ok

@[simp] theorem mul_eq_ok : mul w a b = .ok c ↔ a * b < 2 ^ w ∧ a * b = c := ite_eq_ok

@[simp] theorem sub_eq_ok : sub a b = .ok c ↔ b ≤ a ∧ a - b = c := ite_eq_ok

@[simp] theorem div_eq_ok : div a b = .ok c ↔ b ≠ 0 ∧ a / b = c := by
  unfold div
  by_cases h : b = 0
  · simp only [h, if_true, reduceCtorEq, ne_eq, not_true_eq_false, false_and]
  · rw [if_neg h, Except.ok.injEq, ne_eq, eq_true h, true_and]

@[simp] theorem unwrap_eq_ok {o : Option A} {a : A} : unwrap o = .ok a ↔ o = some a := by
  cases o <;> simp [unwrap]

/-! A computation that does not stop for one reason. -/

section

variable {e : Fault}

theorem bind_ne_error {x : Checked A} {f : A → Checked B} (hx : x ≠ .error e)
    (hf : ∀ a, x = .ok a → f a ≠ .error e) : (x >>= f) ≠ .error e := by
  cases x with
  | ok a => exact hf a rfl
  | error e' => simpa [bind, Except.bind] using hx

theorem pure_ne_error {a : A} : (pure a : Checked A) ≠ .error e := fun h => by cases h

theorem add_ne_underflow : add w a b ≠ .error .underflow := by
  unfold add
  split <;> exact fun h => by cases h

theorem mul_ne_underflow : mul w a b ≠ .error .underflow := by
  unfold mul
  split <;> exact fun h => by cases h

theorem sub_ne_error (h : b ≤ a) : sub a b ≠ .error e := by
  rw [sub, if_pos h]
  exact fun h => by cases h

end

/-! Computations that stop only where a value does not fit its words. -/

def Regular (x : Checked A) : Prop := ∀ e, e ≠ .overflow → x ≠ .error e

section

variable {x : Checked A} {f : A → Checked B}

theorem regular_bind (hx : Regular x) (hf : ∀ a, x = .ok a → Regular (f a)) :
    Regular (x >>= f) :=
  fun e he => bind_ne_error (hx e he) fun a ha => hf a ha e he

theorem Regular.of_bind (h : Regular (x >>= f)) : Regular x := by
  intro e he hx
  refine h e he ?_
  rw [hx]
  rfl

theorem regular_pure {a : A} : Regular (pure a : Checked A) := fun _ _ => pure_ne_error

theorem regular_add : Regular (add w a b) := by
  intro e he
  unfold add
  split
  · exact fun h => by cases h
  · exact fun h => he (Except.error.inj h).symm

theorem regular_mul : Regular (mul w a b) := by
  intro e he
  unfold mul
  split
  · exact fun h => by cases h
  · exact fun h => he (Except.error.inj h).symm

theorem regular_sub (h : b ≤ a) : Regular (sub a b) := fun _ _ => sub_ne_error h

theorem regular_div (h : b ≠ 0) : Regular (div a b) := by
  intro e _
  rw [div, if_neg h]
  exact fun h => by cases h

theorem Regular.le (h : Regular (sub a b)) : b ≤ a := by
  by_contra hlt
  exact h .underflow (fun h => by cases h) (if_neg hlt)

end

end Checked

/-! ### Signed words -/

/-- `as i64` -/
def asI64 (n : Nat) : Int := if n < 2 ^ 63 then n else n - 2 ^ 64

/-- The outcome of an operation on words of 64 bits with a sign. -/
def toI64 (n : Int) : Checked Int := if -2 ^ 63 ≤ n ∧ n < 2 ^ 63 then .ok n else .error .overflow

/-- `i64::neg` -/
def negI64 (n : Int) : Checked Int := if n = -2 ^ 63 then .error .overflow else .ok (-n)

theorem toI64_eq_ok {n m : Int} : toI64 n = .ok m ↔ (-2 ^ 63 ≤ n ∧ n < 2 ^ 63) ∧ n = m :=
  Checked.ite_eq_ok

theorem negI64_eq_ok {n m : Int} : negI64 n = .ok m ↔ n ≠ -2 ^ 63 ∧ -n = m := by
  unfold negI64
  split
  · rename_i h
    exact ⟨fun hm => (by cases hm), fun hm => absurd h hm.1⟩
  · rename_i h
    rw [Except.ok.injEq, ne_eq, eq_true h, true_and]

theorem asI64_injective {a b : Nat} (ha : a < 2 ^ 64) (hb : b < 2 ^ 64) (h : asI64 a = asI64 b) :
    a = b := by
  unfold asI64 at h
  split at h <;> split at h <;> omega

theorem negI64_asI64 {n : Nat} : negI64 (asI64 n) = if n = 2 ^ 63 then .error .overflow
    else .ok (-asI64 n) := by
  have h : asI64 n = -2 ^ 63 ↔ n = 2 ^ 63 := by
    unfold asI64
    split <;> omega
  simp only [negI64, h]

theorem negI64_asI64_eq_ok {n : Nat} {m : Int} :
    negI64 (asI64 n) = .ok m ↔ n ≠ 2 ^ 63 ∧ -asI64 n = m := by
  have h : asI64 n = -2 ^ 63 ↔ n = 2 ^ 63 := by
    unfold asI64
    split <;> omega
  rw [negI64_eq_ok, ne_eq, h]

/-! ### Failures that are left out -/

section

variable {E A B : Type} {Bad : E → Prop} {Q Q' : A → Prop} {R : B → Prop}

/-- The computation fails in no bad way, and what it returns has the property. -/
def Yields (Bad : E → Prop) (Q : A → Prop) : Except E A → Prop
  | .ok a => Q a
  | .error e => ¬ Bad e

namespace Yields

@[simp] theorem ok_iff {a : A} : Yields Bad Q (.ok a : Except E A) ↔ Q a := Iff.rfl

@[simp] theorem error_iff {e : E} : Yields Bad Q (.error e : Except E A) ↔ ¬ Bad e := Iff.rfl

theorem mono {m : Except E A} (hm : Yields Bad Q m) (h : ∀ a, Q a → Q' a) : Yields Bad Q' m := by
  cases m with
  | ok a => exact h a hm
  | error e => exact hm

theorem bind {m : Except E A} {f : A → Except E B} (hm : Yields Bad Q m)
    (hf : ∀ a, Q a → Yields Bad R (f a)) : Yields Bad R (m >>= f) := by
  cases m with
  | ok a => exact hf a hm
  | error e => exact hm

theorem map {m : Except E A} {f : A → B} (hm : Yields Bad Q m) (hf : ∀ a, Q a → R (f a)) :
    Yields Bad R (f <$> m) := by
  cases m with
  | ok a => exact hf a hm
  | error e => exact hm

/-- What one step of a fold keeps, the fold keeps. -/
theorem foldlM {f : A → B → Except E A} (hf : ∀ a b, Q a → Yields Bad Q (f a b)) (bs : List B) {a : A}
    (ha : Q a) : Yields Bad Q (bs.foldlM f a) := by
  induction bs generalizing a with
  | nil => exact ha
  | cons b bs ih =>
    rw [List.foldlM_cons]
    exact (hf a b ha).bind fun a' ha' => ih ha'

end Yields

end

end Lib
