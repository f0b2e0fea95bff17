import Mathlib.Data.List.Basic
import Mathlib.Data.List.Induction

/-! Push and pop operations that name the element they act on, over a stack with its top at the
end of the list. -/
namespace Lib

inductive StackOp (α : Type) where
  | push (x : α)
  | pop (x : α)

/-- Every pop takes the element it names off the top. -/
inductive Stacks {α : Type} : List α → List (StackOp α) → List α → Prop where
  | nil (s : List α) : Stacks s [] s
  | push {s t : List α} {x : α} {ops : List (StackOp α)} :
      Stacks (s ++ [x]) ops t → Stacks s (.push x :: ops) t
  | pop {s t : List α} {x : α} {ops : List (StackOp α)} :
      Stacks s ops t → Stacks (s ++ [x]) (.pop x :: ops) t

namespace Stacks

variable {α : Type} {s t u : List α} {ops ops' : List (StackOp α)}

theorem append (h : Stacks s ops t) (h' : Stacks t ops' u) : Stacks s (ops ++ ops') u := by
  induction h with
  | nil s => exact h'
  | push _ ih => exact .push (ih h')
  | pop _ ih => exact .pop (ih h')

theorem pushes (s xs : List α) : Stacks s (xs.map .push) (s ++ xs) := by
  induction xs generalizing s with
  | nil => simpa using Stacks.nil s
  | cons x xs ih => exact .push (by simpa using ih (s ++ [x]))

theorem pops (s xs : List α) : Stacks (s ++ xs) (xs.reverse.map .pop) s := by
  induction xs using List.reverseRecOn with
  | nil => simpa using Stacks.nil s
  | append_singleton xs x ih =>
    rw [List.reverse_append, ← List.append_assoc]
    exact .pop ih

end Stacks

/-- The last operation on `x` has pushed it. -/
def Standing {α : Type} (ops : List (StackOp α)) (x : α) : Prop :=
  ∃ pre post, ops = pre ++ .push x :: post ∧ .pop x ∉ post

section Standing

variable {α : Type} {ops : List (StackOp α)} {x y : α}

@[simp] theorem not_standing_nil : ¬ Standing [] x := by
  rintro ⟨pre, post, h, -⟩
  cases pre <;> cases h

theorem standing_concat {op : StackOp α} :
    Standing (ops ++ [op]) x ↔ op = .push x ∨ (op ≠ .pop x ∧ Standing ops x) := by
  constructor
  · rintro ⟨pre, post, h, hpost⟩
    rcases List.eq_nil_or_concat' post with rfl | ⟨init, last, rfl⟩
    · obtain ⟨-, hop⟩ := List.append_inj' h rfl
      exact .inl (List.singleton_inj.mp hop)
    · rw [← List.cons_append, ← List.append_assoc] at h
      obtain ⟨hops, hop⟩ := List.append_inj' h rfl
      rw [List.singleton_inj.mp hop]
      simp only [List.mem_append, List.mem_singleton, not_or] at hpost
      exact .inr ⟨Ne.symm hpost.2, pre, init, hops, hpost.1⟩
  · rintro (rfl | ⟨hne, pre, post, rfl, hpost⟩)
    · exact ⟨ops, [], rfl, by simp⟩
    · refine ⟨pre, post ++ [op], by simp, ?_⟩
      simpa [hpost] using Ne.symm hne

@[simp] theorem standing_push : Standing (ops ++ [.push y]) x ↔ x = y ∨ Standing ops x := by
  simp [standing_concat, eq_comm]

@[simp] theorem standing_pop : Standing (ops ++ [.pop y]) x ↔ x ≠ y ∧ Standing ops x := by
  simp [standing_concat, eq_comm]

end Standing

end Lib
