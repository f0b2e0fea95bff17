import Mathlib.Data.List.Basic
import Mathlib.Data.List.Induction
import Mathlib.Logic.Relation

/-! Runs of a program: the properties of its trace that each further event keeps or breaks, and the
programs of which no run goes on for ever. -/
namespace Lib

section

variable {E : Type} (P : List E → Prop) (Ok : List E → E → Prop)

/-- When an event after a good trace keeps it good exactly if it is allowed there, a trace is good
all along exactly if all of its events are allowed. -/
theorem holds_along_iff (hnil : P []) (hstep : ∀ pre e, P pre → (P (pre ++ [e]) ↔ Ok pre e))
    (es : List E) :
    (∀ pre, pre <+: es → P pre) ↔ ∀ pre e, pre ++ [e] <+: es → Ok pre e := by
  constructor
  · intro h pre e hpre
    have hbefore := h pre ((List.prefix_append pre [e]).trans hpre)
    exact (hstep pre e hbefore).mp (h _ hpre)
  · intro h pre
    induction pre using List.reverseRecOn with
    | nil => exact fun _ => hnil
    | append_singleton pre e ih =>
      intro hpre
      have hbefore := ih ((List.prefix_append pre [e]).trans hpre)
      exact (hstep pre e hbefore).mpr (h pre e hpre)

theorem exists_take_of_snoc {A : Type} {pre es : List A} {e : A} (h : pre ++ [e] <+: es) :
    ∃ k : Fin es.length, pre = es.take k ∧ e = es[k] := by
  obtain ⟨post, rfl⟩ := h
  refine ⟨⟨pre.length, by simp⟩, ?_, ?_⟩
  · simp
  · simp

end

/-! ### Programs that stop, whichever of their steps they take -/

section

variable {S : Type} {next : S → S → Prop} {P : S → Prop} {a b : S}

/-- A program stops if each of its steps lowers a measure or leads where it stops anyway. -/
theorem acc_of_measure (m : S → Nat)
    (hstep : ∀ a b, P a → next b a → Acc next b ∨ (P b ∧ m b < m a)) (ha : P a) : Acc next a := by
  induction hm : m a using Nat.strongRecOn generalizing a with
  | ind n ih =>
    refine .intro a fun b hb => ?_
    rcases hstep a b ha hb with hacc | ⟨hP, hlt⟩
    · exact hacc
    · exact ih (m b) (hm ▸ hlt) hP rfl

theorem acc_of_reaches (h : Acc next a) (hreach : Relation.ReflTransGen next b a) : Acc next b := by
  rcases Relation.reflTransGen_iff_eq_or_transGen.mp hreach with rfl | htrans
  · exact h
  · exact h.inv_of_transGen htrans

/-- A program that can come back to where it is need not stop. -/
theorem not_acc_of_cycle (h : Relation.TransGen next a a) : ¬ Acc next a := by
  intro hacc
  have hirrefl : ∀ b, Acc (Relation.TransGen next) b → ¬ Relation.TransGen next b b := by
    intro b hb
    induction hb with
    | intro b _ ih => exact fun hcycle => ih b hcycle hcycle
  exact hirrefl a hacc.transGen h

end

end Lib
