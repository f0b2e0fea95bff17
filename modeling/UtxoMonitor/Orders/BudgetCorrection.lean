import Mathlib.Tactic.Linarith
import Mathlib.Tactic.Ring
import UtxoMonitor.Lib.Tallies
import UtxoMonitor.Orders.Budgets

/-! What the scaling and the correction of budgets do, on words of 64 bits. -/
namespace UtxoMonitor.Orders

open Lib LiquidityBook ExecutionEngine Pools

/-! ### One budget -/

section Words

variable {h c v left : Nat} {delta more : Int}

theorem adjusted_eq_ok (hword : h < 2 ^ 63) : adjusted h delta = .ok (more, left) ↔
    h - delta < 2 ^ 63 ∧ -2 ^ 63 ≤ h - delta ∧ left = (h - delta).toNat ∧ more = h - left := by
  simp only [adjusted, correctedBudget, asI64, if_pos hword, Checked.bind_eq_ok,
    Checked.pure_eq_ok, toI64_eq_ok, negI64_eq_ok, Prod.exists, Prod.mk.injEq]
  constructor
  · rintro ⟨_, ⟨_, rfl⟩, _, _, ⟨_, ⟨_, rfl⟩, _, ⟨_, rfl⟩, rfl, rfl⟩, _, ⟨_, rfl⟩, rfl, rfl⟩
    omega
  · rintro ⟨hlt, hle, rfl, rfl⟩
    refine ⟨_, ⟨by omega, rfl⟩, _, _, ⟨_, ⟨by omega, rfl⟩, _, ⟨by omega, rfl⟩, rfl, rfl⟩, _,
      ⟨by omega, rfl⟩, ?_, ?_⟩
    · omega
    · omega

/-- A budget that reads as a negative number is lost. -/
theorem adjusted_wrapped (hword : 2 ^ 63 ≤ h) (hdelta : (h : Int) - 2 ^ 64 ≤ delta)
    (hok : adjusted h delta = .ok (more, left)) :
    2 ^ 63 < h ∧ left = 0 ∧ more = h - 2 ^ 64 := by
  simp only [adjusted, correctedBudget, asI64, if_neg (Nat.not_lt.mpr hword), Checked.bind_eq_ok,
    Checked.pure_eq_ok, toI64_eq_ok, negI64_eq_ok, Prod.exists, Prod.mk.injEq] at hok
  obtain ⟨_, ⟨_, rfl⟩, _, _, ⟨_, ⟨_, rfl⟩, _, ⟨_, rfl⟩, rfl, rfl⟩, _, ⟨_, rfl⟩, rfl, rfl⟩ := hok
  omega

/-- The difference of two amounts that are read as signed words. -/
theorem delta_eq_ok {r e : Nat} (hr : r < 2 ^ 64) (hcr : c ≤ r) (hmismatch : (r : Int) - e < 2 ^ 63)
    (hmismatch' : -2 ^ 63 ≤ (r : Int) - e) (hv : v < 2 ^ 64)
    (hup : r ≤ e → c ≤ v ∧ v ≤ c + (e - r)) (hdown : e ≤ r → v ≤ c ∧ c ≤ v + (r - e)) :
    toI64 (asI64 v - asI64 c) = .ok delta ∧ delta ≠ -2 ^ 63 ↔
      (v < 2 ^ 63 ↔ c < 2 ^ 63) ∧ delta = v - c := by
  rw [toI64_eq_ok, asI64, asI64]
  rcases Nat.le_total r e with hle | hle
  · obtain ⟨hcv, hvc⟩ := hup hle
    split <;> split <;> omega
  · obtain ⟨hvc, hcv⟩ := hdown hle
    split <;> split <;> omega

end Words

/-! ### One take -/

section Takes

variable {T U : Type} [MarketTaker T U] [BudgetKeeper T]

/-- What the consumed budget is scaled to. -/
def amount (factor : Ratio) (take : TakeInProgress T) : Nat :=
  spent take * factor.numer / factor.denom

/-- What is left of the budget when it is scaled. -/
def leftAfter (factor : Ratio) (take : TakeInProgress T) : Nat :=
  if heldBy take < 2 ^ 63 then spent take + heldBy take - amount factor take else 0

/-- By how much more is reported to be consumed when the budget is scaled. -/
def report (factor : Ratio) (take : TakeInProgress T) : Int :=
  if heldBy take < 2 ^ 63 then heldBy take - leftAfter factor take else heldBy take - 2 ^ 64

def scaled (factor : Ratio) (take : TakeInProgress T) : TakeInProgress T :=
  holding take (leftAfter factor take)

/-- A take on words of 64 bits. Nothing is consumed of a budget that does not count. -/
structure Sound (take : TakeInProgress T) : Prop where
  spends : Spends take
  uncounted : Counts take = false → remainingBudget take = budget take.target
  budget_lt : budget take.target < 2 ^ 64
  held_lt : heldBy take < 2 ^ 64

/-- What the scaling forms is what its words hold. -/
structure Representable (factor : Ratio) (take : TakeInProgress T) : Prop where
  product : spent take * factor.numer < 2 ^ 64
  sides : amount factor take < 2 ^ 63 ↔ spent take < 2 ^ 63
  held : heldBy take < 2 ^ 63
  room : spent take + heldBy take < amount factor take + 2 ^ 63

/-- A fee that is to be consumed in place of what is reserved. -/
structure Rescales (factor : Ratio) (reserved estimated : Nat) : Prop where
  denom : factor.denom ≠ 0
  ratio : reserved * factor.numer = estimated * factor.denom
  reserved_pos : 0 < reserved
  reserved_lt : reserved < 2 ^ 64
  mismatch_lt : (reserved : Int) - estimated < 2 ^ 63
  mismatch_ge : -2 ^ 63 ≤ (reserved : Int) - estimated

variable {factor : Ratio} {r e : Nat} {take take' : TakeInProgress T} {more : Int}

omit [BudgetKeeper T] in
theorem amount_up (h : Rescales factor r e) (hle : spent take ≤ r) (hre : r ≤ e) :
    spent take ≤ amount factor take ∧ amount factor take ≤ spent take + (e - r) := by
  have hpos : 0 < factor.denom := Nat.pos_of_ne_zero h.denom
  obtain ⟨k, rfl⟩ := Nat.exists_eq_add_of_le hre
  have hratio := h.ratio
  obtain ⟨j, hj⟩ : ∃ j, factor.numer = factor.denom + j := by
    apply Nat.exists_eq_add_of_le
    apply Nat.le_of_mul_le_mul_left _ h.reserved_pos
    rw [hratio]
    exact Nat.mul_le_mul_right _ hre
  have hk : r * j = k * factor.denom := by
    rw [hj] at hratio
    linarith
  have hle' : spent take * j ≤ k * factor.denom := hk ▸ Nat.mul_le_mul_right j hle
  rw [amount, hj, Nat.add_sub_cancel_left]
  constructor
  · apply (Nat.le_div_iff_mul_le hpos).mpr
    exact Nat.mul_le_mul_left _ (Nat.le_add_right _ _)
  · apply Nat.div_le_of_le_mul
    linarith

omit [BudgetKeeper T] in
theorem amount_down (h : Rescales factor r e) (hle : spent take ≤ r) (her : e ≤ r) :
    amount factor take ≤ spent take ∧ spent take ≤ amount factor take + (r - e) := by
  have hpos : 0 < factor.denom := Nat.pos_of_ne_zero h.denom
  obtain ⟨k, rfl⟩ := Nat.exists_eq_add_of_le her
  have hratio := h.ratio
  obtain ⟨j, hj⟩ : ∃ j, factor.denom = factor.numer + j := by
    apply Nat.exists_eq_add_of_le
    apply Nat.le_of_mul_le_mul_left _ h.reserved_pos
    rw [hratio]
    exact Nat.mul_le_mul_right _ her
  have hk : (e + k) * j = k * factor.denom := by
    rw [hj] at hratio ⊢
    linarith
  have hle' : spent take * j ≤ k * factor.denom := hk ▸ Nat.mul_le_mul_right j hle
  rw [amount, Nat.add_sub_cancel_left]
  constructor
  · apply Nat.div_le_of_le_mul
    rw [hj]
    linarith [Nat.zero_le (j * spent take)]
  · rw [← Nat.sub_le_iff_le_add, Nat.le_div_iff_mul_le hpos, Nat.sub_mul]
    rw [Nat.sub_le_iff_le_add]
    calc spent take * factor.denom = spent take * factor.numer + spent take * j := by
          rw [hj]
          ring
      _ ≤ spent take * factor.numer + k * factor.denom := Nat.add_le_add_left hle' _

variable [CheckedTaker T] [LawfulKeeper T]

theorem Sound.held_of_counts (h : Sound take) (hcounts : Counts take) :
    spent take + heldBy take = budget take.target := by
  have hspends := h.spends
  rw [spent, ← remainingBudget_of_counts hcounts]
  rw [Spends] at hspends
  omega

omit [CheckedTaker T] [LawfulKeeper T] in
theorem Sound.spent_of_not_counts (h : Sound take) (hcounts : Counts take = false) :
    spent take = 0 := by
  rw [spent, h.uncounted hcounts, Nat.sub_self]

omit [CheckedTaker T] [LawfulKeeper T] in
theorem Sound.amount_of_not_counts (h : Sound take) (hcounts : Counts take = false) :
    amount factor take = 0 := by
  rw [amount, h.spent_of_not_counts hcounts, Nat.zero_mul, Nat.zero_div]

theorem Sound.total_lt (h : Sound take) : spent take + heldBy take < 2 ^ 64 := by
  cases hcounts : Counts take with
  | true =>
    rw [h.held_of_counts hcounts]
    exact h.budget_lt
  | false =>
    rw [h.spent_of_not_counts hcounts, Nat.zero_add]
    exact h.held_lt

theorem scaleConsumedBudget_eq_ok : scaleConsumedBudget take factor = .ok (more, take') ↔
    Spends take ∧ spent take * factor.numer < 2 ^ 64 ∧ factor.denom ≠ 0 ∧ ∃ delta left,
      toI64 (asI64 (amount factor take) - asI64 (spent take)) = .ok delta ∧
      adjusted (heldBy take) delta = .ok (more, left) ∧ holding take left = take' := by
  simp only [scaleConsumedBudget, Ratio.share, correctConsumedBudget_eq, Checked.bind_eq_ok,
    Checked.mul_eq_ok, Checked.div_eq_ok, Checked.map_eq_ok, consumedBudget_eq_ok, amount]
  constructor
  · rintro ⟨_, ⟨htake, rfl⟩, _, ⟨_, ⟨hfits, rfl⟩, hdenom, rfl⟩, delta, hdelta, ⟨_, left⟩, hleft,
      heq⟩
    cases heq
    exact ⟨htake, hfits, hdenom, delta, left, hdelta, hleft, rfl⟩
  · rintro ⟨htake, hfits, hdenom, delta, left, hdelta, hleft, rfl⟩
    exact ⟨_, ⟨htake, rfl⟩, _, ⟨_, ⟨hfits, rfl⟩, hdenom, rfl⟩, delta, hdelta, _, hleft, rfl⟩

omit [BudgetKeeper T] [CheckedTaker T] [LawfulKeeper T] in
theorem delta_of_rescales {delta : Int} (h : Rescales factor r e) (hle : spent take ≤ r)
    (hfits : spent take * factor.numer < 2 ^ 64) :
    toI64 (asI64 (amount factor take) - asI64 (spent take)) = .ok delta ∧ delta ≠ -2 ^ 63 ↔
      (amount factor take < 2 ^ 63 ↔ spent take < 2 ^ 63) ∧
        delta = amount factor take - spent take :=
  delta_eq_ok h.reserved_lt hle h.mismatch_lt h.mismatch_ge
    ((Nat.div_le_self _ _).trans_lt hfits) (amount_up h hle) (amount_down h hle)

theorem scale_of_representable (h : Rescales factor r e) (hle : spent take ≤ r)
    (hsound : Sound take) (hrep : Representable factor take) :
    scaleConsumedBudget take factor = .ok (report factor take, scaled factor take) := by
  obtain ⟨hdelta, _⟩ := (delta_of_rescales h hle hrep.product).mpr ⟨hrep.sides, rfl⟩
  refine scaleConsumedBudget_eq_ok.mpr ⟨hsound.spends, hrep.product, h.denom, _,
    leftAfter factor take, hdelta, ?_, rfl⟩
  have hroom := hrep.room
  have hmismatch := h.mismatch_ge
  have hmismatch' := h.mismatch_lt
  have hup := amount_up h hle
  have hdown := amount_down h hle
  rw [adjusted_eq_ok hrep.held, report, leftAfter, if_pos hrep.held, if_pos hrep.held]
  omega

/-- Unless the budget is read as a negative number, a take that can be scaled is representable. -/
theorem of_scale (h : Rescales factor r e) (hle : spent take ≤ r) (hsound : Sound take)
    (hok : scaleConsumedBudget take factor = .ok (more, take')) :
    more = report factor take ∧ take' = scaled factor take ∧
      leftAfter factor take < 2 ^ 63 ∧ heldBy take ≠ 2 ^ 63 ∧
      (heldBy take < 2 ^ 63 → Representable factor take) := by
  obtain ⟨_, hfits, _, delta, left, hdelta, hleft, rfl⟩ := scaleConsumedBudget_eq_ok.mp hok
  have hne : delta ≠ -2 ^ 63 := by
    intro heq
    simp only [adjusted, Checked.bind_eq_ok, negI64_eq_ok] at hleft
    obtain ⟨_, ⟨hne, _⟩, _⟩ := hleft
    exact hne heq
  obtain ⟨hsides, rfl⟩ := (delta_of_rescales h hle hfits).mp ⟨hdelta, hne⟩
  rw [scaled, report, leftAfter]
  by_cases hheld : heldBy take < 2 ^ 63
  · rw [adjusted_eq_ok hheld] at hleft
    obtain ⟨hroom, _, rfl, rfl⟩ := hleft
    simp only [if_pos hheld]
    refine ⟨by omega, by congr 1; omega, by omega, by omega, ?_⟩
    intro _
    exact ⟨hfits, hsides, hheld, by omega⟩
  · have htotal := hsound.total_lt
    obtain ⟨hgt, rfl, rfl⟩ := adjusted_wrapped (Nat.not_lt.mp hheld) (by omega) hleft
    simp only [if_neg hheld, true_and]
    exact ⟨by decide, by omega, fun hlt => absurd hlt hheld⟩

end Takes

/-! ### All takes -/

section Recipes

variable {T M U : Type} [MarketTaker T U]

theorem consumed_eq_tally (instructions : List (Execution T M)) :
    consumed instructions = tally spent instructions := by
  induction instructions with
  | nil => rfl
  | cons instruction rest ih =>
    cases instruction with
    | inr make => exact ih
    | inl take => rw [consumed, tally_inl, ih]

variable [BudgetKeeper T]

def scaledAll (factor : Ratio) (instructions : List (Execution T M)) : List (Execution T M) :=
  instructions.map (Sum.map (scaled factor) id)

variable [CheckedTaker T] [LawfulKeeper T] {factor : Ratio} {r e : Nat} {m m' : Int}
  {instructions instructions' : List (Execution T M)}

/-- Where the budgets all grow, or all shrink, the mismatch stays between its first and last
values. -/
theorem scaleBudgets_of_representable (h : Rescales factor r e)
    (hle : ∀ take, .inl take ∈ instructions → spent take ≤ r)
    (hsound : ∀ take, .inl take ∈ instructions → Sound take)
    (hrep : ∀ take, .inl take ∈ instructions → Representable factor take)
    (hsigns : (∀ take, .inl take ∈ instructions → 0 ≤ report factor take) ∨
      ∀ take, .inl take ∈ instructions → report factor take ≤ 0)
    (hm : -2 ^ 63 ≤ m ∧ m < 2 ^ 63) (hm' : -2 ^ 63 ≤ m + tally (report factor) instructions ∧
      m + tally (report factor) instructions < 2 ^ 63) :
    scaleBudgets factor m instructions =
      .ok (m + tally (report factor) instructions, scaledAll factor instructions) := by
  induction instructions generalizing m with
  | nil =>
    rw [tally_nil, add_zero]
    rfl
  | cons instruction rest ih =>
    have hmem (take : TakeInProgress T) (htake : .inl take ∈ rest) :
        .inl take ∈ instruction :: rest :=
      List.mem_cons_of_mem _ htake
    have hrest (m : Int) := ih (m := m) (fun take htake => hle take (hmem take htake))
      (fun take htake => hsound take (hmem take htake))
      (fun take htake => hrep take (hmem take htake))
      (hsigns.imp (fun hsign take htake => hsign take (hmem take htake))
        (fun hsign take htake => hsign take (hmem take htake)))
    cases instruction with
    | inr make =>
      simp only [scaleBudgets, Checked.bind_eq_ok, Checked.pure_eq_ok]
      exact ⟨_, hrest m hm hm', rfl⟩
    | inl take =>
      have hscale := scale_of_representable h (hle take List.mem_cons_self)
        (hsound take List.mem_cons_self) (hrep take List.mem_cons_self)
      rw [tally_inl, ← add_assoc] at hm' ⊢
      have hbetween : -2 ^ 63 ≤ m + report factor take ∧ m + report factor take < 2 ^ 63 := by
        rcases hsigns with hsign | hsign
        · have hfirst := hsign take List.mem_cons_self
          have hafter : 0 ≤ tally (report factor) rest :=
            tally_nonneg fun take htake => hsign take (hmem take htake)
          omega
        · have hfirst := hsign take List.mem_cons_self
          have hafter : tally (report factor) rest ≤ 0 :=
            tally_nonpos fun take htake => hsign take (hmem take htake)
          omega
      simp only [scaleBudgets, Checked.bind_eq_ok, Checked.pure_eq_ok]
      exact ⟨_, hscale, _, toI64_eq_ok.mpr ⟨hbetween, rfl⟩, _, hrest _ hbetween hm', rfl⟩

/-- A scaling that does not stop has the outcome of its takes. -/
theorem of_scaleBudgets (h : Rescales factor r e)
    (hle : ∀ take, .inl take ∈ instructions → spent take ≤ r)
    (hsound : ∀ take, .inl take ∈ instructions → Sound take)
    (hok : scaleBudgets factor m instructions = .ok (m', instructions'))
    (hm : -2 ^ 63 ≤ m) :
    m' = m + tally (report factor) instructions ∧ -2 ^ 63 ≤ m' ∧
      instructions' = scaledAll factor instructions ∧
      ∀ take, .inl take ∈ instructions → leftAfter factor take < 2 ^ 63 ∧ heldBy take ≠ 2 ^ 63 ∧
        (heldBy take < 2 ^ 63 → Representable factor take) := by
  induction instructions generalizing m m' instructions' with
  | nil =>
    cases hok
    exact ⟨by simp, hm, rfl, fun _ htake => absurd htake List.not_mem_nil⟩
  | cons instruction rest ih =>
    have hle' (take : TakeInProgress T) (htake : .inl take ∈ rest) :=
      hle take (List.mem_cons_of_mem _ htake)
    have hsound' (take : TakeInProgress T) (htake : .inl take ∈ rest) :=
      hsound take (List.mem_cons_of_mem _ htake)
    cases instruction with
    | inr make =>
      simp only [scaleBudgets, Checked.bind_eq_ok, Checked.pure_eq_ok, Prod.exists,
        Prod.mk.injEq] at hok
      obtain ⟨_, _, hrest, rfl, rfl⟩ := hok
      obtain ⟨hm', hm'', rfl, htakes⟩ := ih hle' hsound' hrest hm
      refine ⟨hm', hm'', rfl, fun take htake => ?_⟩
      rcases List.mem_cons.mp htake with heq | htake
      · cases heq
      · exact htakes take htake
    | inl take =>
      simp only [scaleBudgets, Checked.bind_eq_ok, Checked.pure_eq_ok, Prod.exists,
        Prod.mk.injEq, toI64_eq_ok] at hok
      obtain ⟨_, _, hscale, _, ⟨hbetween, rfl⟩, _, _, hrest, rfl, rfl⟩ := hok
      obtain ⟨rfl, rfl, htake'⟩ := of_scale h (hle take List.mem_cons_self)
        (hsound take List.mem_cons_self) hscale
      obtain ⟨rfl, hm'', rfl, htakes⟩ := ih hle' hsound' hrest hbetween.1
      refine ⟨by rw [tally_inl, add_assoc], hm'', rfl, fun other hother => ?_⟩
      rcases List.mem_cons.mp hother with heq | hother
      · cases heq
        exact htake'
      · exact htakes other hother

/-! ### The correction -/

/-- What is missing is taken from one budget after another, as long as they last. -/
def drained (missing : Nat) : List (Execution T M) → List (Execution T M)
  | [] => []
  | .inr make :: rest => .inr make :: drained missing rest
  | .inl take :: rest =>
    .inl (holding take (heldBy take - missing)) :: drained (missing - heldBy take) rest

omit [CheckedTaker T] in
theorem drained_zero (instructions : List (Execution T M)) :
    drained 0 instructions = instructions := by
  induction instructions with
  | nil => rfl
  | cons instruction rest ih =>
    cases instruction with
    | inr make => rw [drained, ih]
    | inl take => rw [drained, Nat.sub_zero, Nat.zero_sub, holding_heldBy, ih]

include U in
theorem correctBudgets_eq_drained {missing : Nat}
    (hheld : ∀ take, .inl take ∈ instructions → heldBy take < 2 ^ 63) (hlt : missing < 2 ^ 63) :
    correctBudgets (-missing) instructions = .ok (drained missing instructions) := by
  induction instructions generalizing missing with
  | nil => rfl
  | cons instruction rest ih =>
    have hrest {missing : Nat} (hlt : missing < 2 ^ 63) :
        correctBudgets (-missing) rest = .ok (drained missing rest) :=
      ih (fun take htake => hheld take (List.mem_cons_of_mem _ htake)) hlt
    cases instruction with
    | inr make =>
      simp only [correctBudgets, Checked.bind_eq_ok, Checked.pure_eq_ok]
      exact ⟨_, hrest hlt, rfl⟩
    | inl take =>
      have hheld' := hheld take List.mem_cons_self
      by_cases hzero : missing = 0
      · subst hzero
        rw [correctBudgets, if_neg (by simp), drained_zero]
        rfl
      · have hne : (-missing : Int) ≠ 0 := by omega
        have hneg : negI64 (-missing) = .ok missing := negI64_eq_ok.mpr ⟨by omega, by omega⟩
        have hcorrect : correctConsumedBudget take missing =
            .ok (heldBy take - (heldBy take - missing : Nat),
              holding take (heldBy take - missing)) := by
          rw [correctConsumedBudget_eq, Checked.map_eq_ok]
          exact ⟨(heldBy take - (heldBy take - missing : Nat), heldBy take - missing),
            (adjusted_eq_ok hheld').mpr ⟨by omega, by omega, by omega, rfl⟩, rfl⟩
        have hleft : (-missing : Int) + (heldBy take - (heldBy take - missing : Nat)) =
            -(missing - heldBy take : Nat) := by
          omega
        rw [correctBudgets, if_pos hne]
        simp only [Checked.bind_eq_ok, Checked.pure_eq_ok, toI64_eq_ok]
        refine ⟨_, hneg, _, hcorrect, _, ⟨?_, hleft⟩, _, hrest (by omega), rfl⟩
        omega

omit [BudgetKeeper T] in
/-- Nothing is corrected by the least of the signed words. -/
theorem missing_lt_of_correctBudgets {missing : Nat} {take : TakeInProgress T}
    (htake : .inl take ∈ instructions) (hle : missing ≤ 2 ^ 63)
    (hok : correctBudgets (-missing) instructions = .ok instructions') : missing < 2 ^ 63 := by
  induction instructions generalizing instructions' with
  | nil => cases htake
  | cons instruction rest ih =>
    cases instruction with
    | inr make =>
      simp only [correctBudgets, Checked.bind_eq_ok] at hok
      obtain ⟨_, hrest, _⟩ := hok
      rcases List.mem_cons.mp htake with heq | htake
      · cases heq
      · exact ih htake hrest
    | inl first =>
      by_contra hlt
      rw [correctBudgets, if_pos (by omega)] at hok
      simp only [Checked.bind_eq_ok, negI64_eq_ok] at hok
      obtain ⟨_, ⟨hne, _⟩, _⟩ := hok
      omega

theorem consumed_drained {missing : Nat}
    (hsound : ∀ take, .inl take ∈ instructions → Sound take) :
    consumed (drained missing instructions) =
      consumed instructions + raised Counts heldBy missing instructions := by
  induction instructions generalizing missing with
  | nil => rfl
  | cons instruction rest ih =>
    have hrest (missing : Nat) : consumed (drained missing rest) =
        consumed rest + raised Counts heldBy missing rest :=
      ih fun take htake => hsound take (List.mem_cons_of_mem _ htake)
    cases instruction with
    | inr make => exact hrest missing
    | inl take =>
      have htake := hsound take List.mem_cons_self
      have hspent : spent (holding take (heldBy take - missing)) =
          spent take + if Counts take then min missing (heldBy take) else 0 := by
        rw [spent, target_holding, remainingBudget_holding]
        cases hcounts : Counts take with
        | true =>
          have hheld := htake.held_of_counts hcounts
          simp only [if_true]
          omega
        | false => simp [spent]
      rw [drained, consumed, consumed, raised, hrest, hspent]
      omega

end Recipes

end UtxoMonitor.Orders
