import Mathlib.Data.Set.Card
import Mathlib.Logic.Relation

/-! Walks along links, of which everything has at most one. -/
namespace Lib

open Relation

variable {A : Type} (link : A → Option A)

def Linked (a b : A) : Prop := link a = some b

/-- The links of `a` lead into a circle. -/
def Circles (a : A) : Prop := ∃ b, ReflTransGen (Linked link) a b ∧ TransGen (Linked link) b b

/-- Whether the links of `a` lead to the target, unless the fuel is used up before that is known. -/
def seek [DecidableEq A] (target : A) : Nat → A → Option Bool
  | 0, _ => none
  | fuel + 1, a =>
    match link a with
    | none => some false
    | some b => if b = target then some true else seek target fuel b

variable {link} {a b target : A}

theorem Circles.of_linked (hab : link a = some b) (h : Circles link a) : Circles link b := by
  obtain ⟨c, hac, hcircle⟩ := h
  rcases hac.cases_head with rfl | ⟨b', hab', hbc⟩
  · obtain ⟨b', hab', hba⟩ := TransGen.head'_iff.mp hcircle
    cases hab.symm.trans hab'
    exact ⟨a, hba, hcircle⟩
  · cases hab.symm.trans hab'
    exact ⟨c, hbc, hcircle⟩

theorem eq_of_linked_self (haa : link a = some a) (h : TransGen (Linked link) a b) : b = a := by
  induction h with
  | single hab => exact Option.some.inj (hab.symm.trans haa)
  | tail _ hbc ih =>
    subst ih
    exact Option.some.inj (hbc.symm.trans haa)

section

variable [DecidableEq A] {fuel : Nat}

theorem of_seek_true (h : seek link target fuel a = some true) :
    TransGen (Linked link) a target := by
  induction fuel generalizing a with
  | zero => cases h
  | succ fuel ih =>
    rw [seek] at h
    split at h
    · cases h
    · rename_i b hab
      split at h
      · rename_i heq
        exact .single (heq ▸ hab)
      · exact .head hab (ih h)

theorem of_seek_false (h : seek link target fuel a = some false) :
    ¬ TransGen (Linked link) a target ∧ ¬ Circles link a := by
  induction fuel generalizing a with
  | zero => cases h
  | succ fuel ih =>
    rw [seek] at h
    split at h
    · rename_i hnone
      have hend {c : A} : ¬ TransGen (Linked link) a c := by
        intro htrans
        obtain ⟨b, hab, _⟩ := TransGen.head'_iff.mp htrans
        cases hnone.symm.trans hab
      refine ⟨hend, ?_⟩
      rintro ⟨c, hac, hcircle⟩
      rcases hac.cases_head with rfl | ⟨b, hab, _⟩
      · exact hend hcircle
      · exact hend (.single hab)
    · rename_i b hab
      split at h
      · cases h
      · rename_i hne
        obtain ⟨hreach, hcircles⟩ := ih h
        refine ⟨?_, fun hcircle => hcircles (hcircle.of_linked hab)⟩
        intro htrans
        obtain ⟨b', hab', hrest⟩ := TransGen.head'_iff.mp htrans
        cases hab.symm.trans hab'
        rcases reflTransGen_iff_eq_or_transGen.mp hrest with heq | hrest
        · exact hne heq.symm
        · exact hreach hrest

theorem exists_seek_true (h : TransGen (Linked link) a target) :
    ∃ fuel, seek link target fuel a = some true := by
  induction h using TransGen.head_induction_on with
  | single hab =>
    refine ⟨1, ?_⟩
    rw [seek, hab]
    exact if_pos rfl
  | @head a b hab _ ih =>
    obtain ⟨fuel, hfuel⟩ := ih
    refine ⟨fuel + 1, ?_⟩
    rw [seek, hab]
    by_cases heq : b = target
    · exact if_pos heq
    · exact (if_neg heq).trans hfuel

/-- A walk along finitely many links that do not lead into a circle comes to an end. -/
theorem exists_seek (hfinite : {a | link a ≠ none}.Finite) (h : ¬ Circles link a) :
    ∃ fuel found, seek link target fuel a = some found := by
  let ahead (a : A) : Set A := {b | ReflTransGen (Linked link) a b ∧ link b ≠ none}
  induction hn : (ahead a).ncard using Nat.strongRecOn generalizing a with
  | ind n ih =>
    cases hab : link a with
    | none => exact ⟨1, false, by rw [seek, hab]⟩
    | some b =>
      have hb : ¬ Circles link b := by
        rintro ⟨c, hbc, hcircle⟩
        exact h ⟨c, .head hab hbc, hcircle⟩
      have hsub : ahead b ⊂ ahead a := by
        refine ⟨fun c hc => ⟨.head hab hc.1, hc.2⟩, ?_⟩
        intro hback
        have hself : a ∈ ahead b := hback ⟨.refl, by simp [hab]⟩
        exact h ⟨a, .refl, TransGen.head' hab hself.1⟩
      have hlt := Set.ncard_lt_ncard hsub (hfinite.subset fun c hc => hc.2)
      obtain ⟨fuel, found, hfound⟩ := ih _ (hn ▸ hlt) hb rfl
      by_cases heq : b = target
      · exact ⟨1, true, by rw [seek, hab]; exact if_pos heq⟩
      · exact ⟨fuel + 1, found, by rw [seek, hab]; exact (if_neg heq).trans hfound⟩

/-- A walk ends at its target, or where there is no circle. -/
theorem seek_ends_iff (hfinite : {a | link a ≠ none}.Finite) :
    (∃ fuel found, seek link target fuel a = some found) ↔
      TransGen (Linked link) a target ∨ ¬ Circles link a := by
  constructor
  · rintro ⟨fuel, found, h⟩
    cases found with
    | true => exact .inl (of_seek_true h)
    | false => exact .inr (of_seek_false h).2
  · rintro (htarget | hcircle)
    · obtain ⟨fuel, h⟩ := exists_seek_true htarget
      exact ⟨fuel, true, h⟩
    · exact exists_seek hfinite hcircle

end

end Lib
