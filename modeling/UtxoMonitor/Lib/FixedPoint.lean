import Mathlib.Dynamics.FixedPoints.Basic

/-! Iterations that stop where two values in a row agree. -/
namespace Lib

open Function

section

variable {A : Type} {f : A → A} {a : A} {S : A → Prop}

/-- The iteration comes to a value that it does not change. -/
def ReachesFixed (f : A → A) (a : A) : Prop := ∃ n, IsFixedPt f (f^[n] a)

theorem ReachesFixed.of_fixed (h : f a = a) : ReachesFixed f a := ⟨0, h⟩

theorem reachesFixed_iff : ReachesFixed f a ↔ f a = a ∨ ReachesFixed f (f a) := by
  constructor
  · rintro ⟨n, h⟩
    cases n with
    | zero => exact .inl h
    | succ n => exact .inr ⟨n, h⟩
  · rintro (h | ⟨n, h⟩)
    · exact .of_fixed h
    · exact ⟨n + 1, h⟩

theorem ReachesFixed.of_next (h : ReachesFixed f (f a)) : ReachesFixed f a :=
  reachesFixed_iff.mpr (.inr h)

/-- The first step of an iteration that has not come to an end yet, with what is left of it. -/
theorem ReachesFixed.induct {P : A → Prop} (h : ReachesFixed f a)
    (fixed : ∀ a, f a = a → P a) (next : ∀ a, f a ≠ a → P (f a) → P a) : P a := by
  obtain ⟨n, h⟩ := h
  induction n generalizing a with
  | zero => exact fixed a h
  | succ n ih =>
    by_cases hfixed : f a = a
    · exact fixed a hfixed
    · exact next a hfixed (ih h)

/-- Every value of an iteration moves, if it moves all that it leads to. -/
theorem not_reachesFixed (ha : S a) (hstep : ∀ b, S b → S (f b)) (hmove : ∀ b, S b → f b ≠ b) :
    ¬ ReachesFixed f a := by
  intro h
  have hend : ∀ b, ReachesFixed f b → ¬ S b := fun b hb => hb.induct
    (fun b hfixed hb => hmove b hb hfixed) (fun b _ hnext hb => hnext (hstep b hb))
  exact hend a h ha

end

section

variable {f : Nat → Nat} (bottom lo top : Nat)

/-- An iteration that descends to a few values settles where these settle. -/
theorem reachesFixed_of_descends (hdesc : ∀ n, lo < n → n ≤ top → f n < n)
    (hbottom : ∀ n, lo < n → n ≤ top → bottom ≤ f n)
    (hbase : ∀ n, bottom ≤ n → n ≤ lo → ReachesFixed f n) {n : Nat} (hle : bottom ≤ n)
    (htop : n ≤ top) : ReachesFixed f n := by
  induction n using Nat.strong_induction_on with
  | _ n ih =>
    rcases Nat.lt_or_ge lo n with hlt | hge
    · have hless := hdesc n hlt htop
      exact .of_next (ih _ hless (hbottom n hlt htop) (hless.le.trans htop))
    · exact hbase n hle hge

end

end Lib
