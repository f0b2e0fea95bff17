import Mathlib.Algebra.BigOperators.Group.List.Basic
import Mathlib.Algebra.BigOperators.Ring.List
import Mathlib.Algebra.Order.BigOperators.Group.List
import Mathlib.Algebra.Order.Ring.Nat
import Mathlib.Algebra.Order.Ring.Int
import Mathlib.Algebra.Ring.Int.Defs

/-! Totals over the items of one kind, in a list of items of two kinds, and what such items pay one
after another of an amount that is missing. -/
namespace Lib

variable {L R A : Type}

def lefts (items : List (L ⊕ R)) : List L := items.filterMap Sum.getLeft?

@[simp] theorem mem_lefts {l : L} {items : List (L ⊕ R)} : l ∈ lefts items ↔ .inl l ∈ items := by
  simp [lefts]

/-- What holds of every item of one kind and of what is before it. -/
theorem forall_split_cons {P : List (L ⊕ R) → L → Prop} {item : L ⊕ R} {rest : List (L ⊕ R)} :
    (∀ before l after, item :: rest = before ++ .inl l :: after → P before l) ↔
      (∀ l, item = .inl l → P [] l) ∧
        ∀ before l after, rest = before ++ .inl l :: after → P (item :: before) l := by
  constructor
  · intro h
    refine ⟨fun l hl => h [] l rest (by rw [hl]; rfl), fun before l after hrest => ?_⟩
    exact h (item :: before) l after (by rw [hrest]; rfl)
  · rintro ⟨hhead, hrest⟩ before l after heq
    cases before with
    | nil =>
      cases heq
      exact hhead l rfl
    | cons first before =>
      cases heq
      exact hrest before l after rfl

section Sums

variable [AddCommMonoid A] {f g : L → A} {items rest : List (L ⊕ R)} {l : L} {r : R}

def tally (f : L → A) (items : List (L ⊕ R)) : A := ((lefts items).map f).sum

@[simp] theorem tally_nil : tally f ([] : List (L ⊕ R)) = 0 := rfl

@[simp] theorem tally_inr : tally f (.inr r :: rest) = tally f rest := rfl

@[simp] theorem tally_inl : tally f (.inl l :: rest) = f l + tally f rest := by
  simp [tally, lefts]

@[simp] theorem tally_append : tally f (items ++ rest) = tally f items + tally f rest := by
  simp [tally, lefts]

theorem tally_add (items : List (L ⊕ R)) :
    tally (fun l => f l + g l) items = tally f items + tally g items :=
  List.sum_map_add

theorem tally_congr (h : ∀ l, .inl l ∈ items → f l = g l) : tally f items = tally g items := by
  rw [tally, List.map_congr_left fun l hl => h l (mem_lefts.mp hl), tally]

end Sums

section Orders

variable [AddCommMonoid A] [PartialOrder A] [IsOrderedAddMonoid A] {f g : L → A}
  {items : List (L ⊕ R)}

theorem tally_le (h : ∀ l, .inl l ∈ items → f l ≤ g l) : tally f items ≤ tally g items :=
  List.sum_le_sum fun l hl => h l (mem_lefts.mp hl)

omit [PartialOrder A] [IsOrderedAddMonoid A] in
theorem tally_zero : tally (fun _ => (0 : A)) items = 0 := by
  simp [tally]

theorem tally_nonneg (h : ∀ l, .inl l ∈ items → 0 ≤ f l) : 0 ≤ tally f items :=
  tally_zero.symm.trans_le (tally_le h)

theorem tally_nonpos (h : ∀ l, .inl l ∈ items → f l ≤ 0) : tally f items ≤ 0 :=
  (tally_le h).trans_eq tally_zero

end Orders

section Bounds

variable {f g : L → Nat} {items : List (L ⊕ R)} {l : L}

theorem le_tally (f : L → Nat) (hl : .inl l ∈ items) : f l ≤ tally f items :=
  List.single_le_sum (fun _ _ => Nat.zero_le _) _ (List.mem_map_of_mem (mem_lefts.mpr hl))

/-- The totals differ at least by what one item makes of a difference. -/
theorem tally_add_le {excess : Nat} (h : ∀ l, .inl l ∈ items → f l ≤ g l) (hl : .inl l ∈ items)
    (hexcess : f l + excess ≤ g l) : tally f items + excess ≤ tally g items := by
  obtain ⟨before, after, rfl⟩ := List.append_of_mem hl
  have hbefore : tally f before ≤ tally g before :=
    tally_le fun l' hl' => h l' (List.mem_append_left _ hl')
  have hafter : tally f after ≤ tally g after :=
    tally_le fun l' hl' => h l' (List.mem_append_right _ (List.mem_cons_of_mem _ hl'))
  simp only [tally_append, tally_inl]
  omega

theorem tally_mul (f : L → Nat) (n : Nat) (items : List (L ⊕ R)) :
    tally (fun l => f l * n) items = tally f items * n :=
  List.sum_map_mul_right _ _ _

theorem tally_one_le (items : List (L ⊕ R)) : tally (fun _ => 1) items ≤ items.length := by
  have hlength : tally (fun _ => 1) items = (lefts items).length := by
    simp [tally]
  rw [hlength]
  exact List.length_filterMap_le _ _

theorem tally_cast (f : L → Nat) (items : List (L ⊕ R)) :
    ((tally f items : Nat) : Int) = tally (fun l => (f l : Int)) items := by
  have h := map_list_sum (Nat.castAddMonoidHom Int) ((lefts items).map f)
  rw [List.map_map] at h
  exact h

end Bounds

/-! ### Payments -/

section Payments

variable {counts : L → Bool} {left : L → Nat} {missing : Nat} {l : L} {r : R}
  {rest : List (L ⊕ R)}

/-- What items that count pay of what is missing, when each pays what is left of it. -/
def raised (counts : L → Bool) (left : L → Nat) (missing : Nat) : List (L ⊕ R) → Nat
  | [] => 0
  | .inr _ :: rest => raised counts left missing rest
  | .inl l :: rest => (if counts l then min missing (left l) else 0) +
      raised counts left (missing - left l) rest

/-- What is left of items that count. -/
def spare (counts : L → Bool) (left : L → Nat) (l : L) : Nat := if counts l then left l else 0

/-- What is missing is paid for before an item that does not count is asked. -/
def PaidBefore (counts : L → Bool) (left : L → Nat) (missing : Nat) (items : List (L ⊕ R)) :
    Prop :=
  ∀ before l after, items = before ++ .inl l :: after → counts l = false → left l ≠ 0 →
    missing ≤ tally (spare counts left) before

theorem paidBefore_inr :
    PaidBefore counts left missing (.inr r :: rest) ↔ PaidBefore counts left missing rest := by
  rw [PaidBefore, forall_split_cons, and_iff_right (fun _ h => by cases h)]
  exact Iff.rfl

theorem paidBefore_inl : PaidBefore counts left missing (.inl l :: rest) ↔
    (counts l = false → left l ≠ 0 → missing = 0) ∧
      PaidBefore counts left (missing - spare counts left l) rest := by
  simp only [PaidBefore, forall_split_cons, tally_inl, tally_nil, Nat.le_zero,
    Nat.sub_le_iff_le_add']
  apply and_congr_left'
  constructor
  · intro h
    exact h l rfl
  · intro h l' hl
    cases hl
    exact h

theorem raised_le (missing : Nat) (items : List (L ⊕ R)) :
    raised counts left missing items ≤ missing := by
  induction items generalizing missing with
  | nil => exact Nat.zero_le _
  | cons item rest ih =>
    cases item with
    | inr r => exact ih missing
    | inl l =>
      have hrest := ih (missing - left l)
      rw [raised]
      split <;> omega

/-- All that is missing is paid for if it is paid for before the first item that does not count. -/
theorem raised_eq_iff (missing : Nat) (items : List (L ⊕ R)) :
    raised counts left missing items = missing ↔
      missing ≤ tally (spare counts left) items ∧ PaidBefore counts left missing items := by
  induction items generalizing missing with
  | nil =>
    have hnil : PaidBefore counts left missing ([] : List (L ⊕ R)) := by
      intro before l after heq
      cases before <;> cases heq
    rw [and_iff_left hnil, tally_nil, Nat.le_zero]
    exact eq_comm
  | cons item rest ih =>
    cases item with
    | inr r =>
      rw [paidBefore_inr]
      exact ih missing
    | inl l =>
      have hle : raised counts left (missing - left l) rest ≤ missing - left l := raised_le _ _
      rw [paidBefore_inl, tally_inl, raised, spare]
      cases hcounts : counts l with
      | true =>
        have hstep : min missing (left l) + raised counts left (missing - left l) rest = missing ↔
            raised counts left (missing - left l) rest = missing - left l := by
          omega
        rw [if_pos rfl, if_pos rfl, hstep, ih, Nat.sub_le_iff_le_add']
        simp
      | false =>
        simp only [Bool.false_eq_true, if_false, Nat.zero_add, Nat.sub_zero, forall_const]
        by_cases hleft : left l = 0
        · rw [hleft, Nat.sub_zero, ih]
          simp
        by_cases hmissing : missing = 0
        · subst hmissing
          refine iff_of_true (by omega) ⟨Nat.zero_le _, fun _ => rfl, ?_⟩
          exact fun _ _ _ _ _ _ => Nat.zero_le _
        · apply iff_of_false
          · omega
          · exact fun h => hmissing (h.2.1 hleft)

end Payments

end Lib
