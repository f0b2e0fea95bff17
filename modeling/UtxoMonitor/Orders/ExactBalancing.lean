import UtxoMonitor.Orders.BudgetCorrection

/-! When a recipe's consumed budgets are balanced to exactly the fee. -/
namespace UtxoMonitor.Orders

open Lib LiquidityBook ExecutionEngine Pools

section Recipes

variable {T M U : Type} [MarketTaker T U] [BudgetKeeper T] [CheckedTaker T] [LawfulKeeper T]
  {factor : Ratio} {e : Nat} {instructions : List (Execution T M)}

/-! ### The fee that is reached -/

/-- What is consumed of the budget when it is scaled. -/
def reached (factor : Ratio) (take : TakeInProgress T) : Nat :=
  min (amount factor take) (spent take + heldBy take)

/-- What the scaled budgets fall short of the fee. -/
def shortage (estimated : Nat) (factor : Ratio) (instructions : List (Execution T M)) : Nat :=
  estimated - tally (reached factor) instructions

omit [BudgetKeeper T] [CheckedTaker T] [LawfulKeeper T] in
theorem tally_amount_le (h : Rescales factor (consumed instructions) e) :
    tally (amount factor) instructions ≤ e := by
  apply Nat.le_of_mul_le_mul_right _ (Nat.pos_of_ne_zero h.denom)
  rw [← h.ratio, consumed_eq_tally, ← tally_mul, ← tally_mul]
  exact tally_le fun take _ => Nat.div_mul_le_self _ _

omit [BudgetKeeper T] [CheckedTaker T] [LawfulKeeper T] in
theorem le_tally_amount (h : Rescales factor (consumed instructions) e) :
    e ≤ tally (amount factor) instructions + instructions.length := by
  have hone := tally_one_le instructions
  have hpos := Nat.pos_of_ne_zero h.denom
  have hle : e ≤ tally (fun take => amount factor take + 1) instructions := by
    apply Nat.le_of_mul_le_mul_right _ hpos
    rw [← h.ratio, consumed_eq_tally, ← tally_mul, ← tally_mul]
    apply tally_le
    intro take _
    exact (Nat.lt_div_mul_add hpos).le.trans_eq (Nat.succ_mul _ _).symm
  rw [tally_add] at hle
  omega

omit [CheckedTaker T] [LawfulKeeper T] in
theorem tally_reached_le (h : Rescales factor (consumed instructions) e) :
    tally (reached factor) instructions ≤ e :=
  (tally_le fun _ _ => Nat.min_le_left _ _).trans (tally_amount_le h)

omit [BudgetKeeper T] [CheckedTaker T] [LawfulKeeper T] in
theorem spent_le_consumed {take : TakeInProgress T} (htake : .inl take ∈ instructions) :
    spent take ≤ consumed instructions := by
  rw [consumed_eq_tally]
  exact le_tally spent htake

omit [CheckedTaker T] [LawfulKeeper T] in
theorem report_eq {take : TakeInProgress T} (hheld : heldBy take < 2 ^ 63) :
    report factor take = reached factor take - spent take := by
  rw [report, reached, leftAfter, if_pos hheld, if_pos hheld]
  omega

omit [CheckedTaker T] [LawfulKeeper T] in
/-- The mismatch that is left is what is missing. -/
theorem mismatch_eq (h : Rescales factor (consumed instructions) e)
    (hheld : ∀ take, .inl take ∈ instructions → heldBy take < 2 ^ 63) :
    (consumed instructions : Int) - e + tally (report factor) instructions =
      -shortage e factor instructions := by
  have hreport : tally (fun take => report factor take + (spent take : Int)) instructions =
      tally (fun take => (reached factor take : Int)) instructions := by
    apply tally_congr
    intro take htake
    rw [report_eq (hheld take htake), sub_add_cancel]
  rw [tally_add, ← tally_cast, ← tally_cast, ← consumed_eq_tally] at hreport
  have hle := tally_reached_le h
  rw [shortage]
  omega

/-- Budgets are scaled to no more than the fee, also where some read as negative numbers. -/
theorem mismatch_nonpos (h : Rescales factor (consumed instructions) e)
    (hsound : ∀ take, .inl take ∈ instructions → Sound take) :
    (consumed instructions : Int) - e + tally (report factor) instructions ≤ 0 := by
  have hreport : tally (fun take => report factor take + (spent take : Int)) instructions ≤
      tally (fun take => (amount factor take : Int)) instructions := by
    apply tally_le
    intro take htake
    have htotal := (hsound take htake).total_lt
    rw [report, leftAfter]
    split <;> omega
  rw [tally_add, ← tally_cast, ← tally_cast, ← consumed_eq_tally] at hreport
  have hle := tally_amount_le h
  omega

omit [BudgetKeeper T] [CheckedTaker T] [LawfulKeeper T] in
theorem exists_take_of_consumed (h : 0 < consumed instructions) :
    ∃ take, .inl take ∈ instructions := by
  by_contra hnone
  rw [consumed_eq_tally] at h
  have hzero : tally spent instructions ≤ tally (fun _ => 0) instructions :=
    tally_le fun take htake => absurd ⟨take, htake⟩ hnone
  rw [tally_zero] at hzero
  omega

theorem sound_scaled {take : TakeInProgress T} (h : Sound take) :
    Sound (scaled factor take) ∧ spent (scaled factor take) =
      if Counts take then spent take + heldBy take - leftAfter factor take else 0 := by
  have hle : leftAfter factor take ≤ spent take + heldBy take := by
    unfold leftAfter
    split <;> omega
  have htotal := h.total_lt
  have htarget : (scaled factor take).target = take.target := target_holding _ _
  cases hcounts : Counts take with
  | true =>
    have hbudget := h.held_of_counts hcounts
    have hremaining : remainingBudget (scaled factor take) = leftAfter factor take := by
      rw [scaled, remainingBudget_holding, hcounts, if_pos rfl]
    refine ⟨⟨?_, ?_, ?_, ?_⟩, ?_⟩
    · rw [Spends, hremaining, htarget, ← hbudget]
      exact hle
    · intro hnot
      rw [scaled, counts_holding, hcounts] at hnot
      cases hnot
    · rw [htarget]
      exact h.budget_lt
    · rw [scaled, heldBy_holding]
      omega
    · rw [if_pos rfl, spent, hremaining, htarget, hbudget]
  | false =>
    have hremaining : remainingBudget (scaled factor take) = budget take.target := by
      rw [scaled, remainingBudget_holding, hcounts, if_neg Bool.false_ne_true,
        h.uncounted hcounts]
    refine ⟨⟨?_, ?_, ?_, ?_⟩, ?_⟩
    · rw [Spends, hremaining, htarget]
    · intro _
      rw [hremaining, htarget]
    · rw [htarget]
      exact h.budget_lt
    · rw [scaled, heldBy_holding]
      omega
    · rw [if_neg Bool.false_ne_true, spent, hremaining, htarget, Nat.sub_self]

/-- What is spent after the scaling is not less than both what was spent and its share. -/
theorem min_le_spent_scaled {take : TakeInProgress T} (h : Sound take) :
    min (spent take) (amount factor take) ≤ spent (scaled factor take) := by
  rw [(sound_scaled h).2]
  cases hcounts : Counts take with
  | true =>
    rw [if_pos rfl, leftAfter]
    split <;> omega
  | false =>
    rw [h.spent_of_not_counts hcounts]
    omega

omit [CheckedTaker T] [LawfulKeeper T] in
theorem mem_scaledAll {take : TakeInProgress T} :
    .inl take ∈ scaledAll factor instructions ↔
      ∃ before, .inl before ∈ instructions ∧ scaled factor before = take := by
  simp [scaledAll]

theorem sound_scaledAll (hsound : ∀ take, .inl take ∈ instructions → Sound take)
    {take : TakeInProgress T} (htake : .inl take ∈ scaledAll factor instructions) : Sound take := by
  obtain ⟨before, hbefore, rfl⟩ := mem_scaledAll.mp htake
  exact (sound_scaled (hsound before hbefore)).1

omit [CheckedTaker T] [LawfulKeeper T] in
theorem consumed_scaledAll : consumed (scaledAll factor instructions) =
    tally (fun take => spent (scaled factor take)) instructions := by
  induction instructions with
  | nil => rfl
  | cons instruction rest ih =>
    cases instruction with
    | inr make => exact ih
    | inl take =>
      rw [tally_inl, ← ih]
      rfl

omit [CheckedTaker T] [LawfulKeeper T] in
theorem raised_scaledAll (missing : Nat) :
    raised Counts heldBy missing (scaledAll factor instructions) =
      raised Counts (leftAfter factor) missing instructions := by
  induction instructions generalizing missing with
  | nil => rfl
  | cons instruction rest ih =>
    cases instruction with
    | inr make => exact ih missing
    | inl take =>
      show (if Counts (scaled factor take) then min missing (heldBy (scaled factor take)) else 0) +
        raised Counts heldBy (missing - heldBy (scaled factor take)) (scaledAll factor rest) = _
      rw [scaled, counts_holding, heldBy_holding, ih]
      rfl

/-- A budget that reads as a negative number is counted as spent, and no fee is reached. -/
theorem lt_consumed_of_wrapped (h : Rescales factor (consumed instructions) e)
    (hlength : instructions.length < 2 ^ 63)
    (hsound : ∀ take, .inl take ∈ instructions → Sound take)
    {wrapped : TakeInProgress T} (hmem : .inl wrapped ∈ instructions)
    (hcounts : Counts wrapped) (hwrapped : 2 ^ 63 < heldBy wrapped) :
    e < consumed (scaledAll factor instructions) := by
  have hgone : spent (scaled factor wrapped) = spent wrapped + heldBy wrapped := by
    rw [(sound_scaled (hsound wrapped hmem)).2, if_pos hcounts, leftAfter, if_neg (by omega),
      Nat.sub_zero]
  rw [consumed_scaledAll]
  rcases Nat.le_total (consumed instructions) e with hle | hle
  · have htally : tally spent instructions + heldBy wrapped ≤
        tally (fun take => spent (scaled factor take)) instructions := by
      apply tally_add_le _ hmem hgone.ge
      intro take htake
      obtain ⟨hup, _⟩ := amount_up h (spent_le_consumed htake) hle
      exact (le_min le_rfl hup).trans (min_le_spent_scaled (hsound take htake))
    have hmismatch := h.mismatch_ge
    rw [← consumed_eq_tally] at htally
    omega
  · have htally : tally (amount factor) instructions + heldBy wrapped ≤
        tally (fun take => spent (scaled factor take)) instructions := by
      apply tally_add_le _ hmem
      · obtain ⟨hdown, _⟩ := amount_down h (spent_le_consumed hmem) hle
        omega
      intro take htake
      obtain ⟨hdown, _⟩ := amount_down h (spent_le_consumed htake) hle
      exact (le_min hdown le_rfl).trans (min_le_spent_scaled (hsound take htake))
    have hamount := le_tally_amount h
    omega

/-! ### Balanced recipes -/

/-- What is traded stays as it is, whatever becomes of the budget. -/
inductive Untouched : Execution T M → Execution T M → Prop where
  | make (make : MakeInProgress M) : Untouched (.inr make) (.inr make)
  | take {take take' : TakeInProgress T} (target : take'.target = take.target)
      (input : removedInput take' = removedInput take)
      (output : addedOutput take' = addedOutput take) : Untouched (.inl take) (.inl take')

/-- The budgets of the takes are consumed to the amount of the fee. -/
structure BalancedTo (estimated : Nat) (instructions balanced : List (Execution T M)) : Prop where
  budgets : Recipe balanced
  consumed : consumed balanced = estimated
  untouched : List.Forall₂ Untouched instructions balanced

def BalancesExactly (estimated : Nat) (instructions : List (Execution T M)) : Prop :=
  ∃ balanced, balanceFee (consumed instructions - estimated)
      (.reduced estimated (consumed instructions)) instructions = .ok balanced ∧
    BalancedTo estimated instructions balanced

/-- All that is computed fits its words, and the budgets that count pay for the fee, before any is
asked that does not. -/
structure Balances (estimated : Nat) (factor : Ratio) (instructions : List (Execution T M)) :
    Prop where
  words : ∀ take, .inl take ∈ instructions → Representable factor take
  shortage_lt : shortage estimated factor instructions < 2 ^ 63
  funded : estimated ≤ tally (spare Counts fun take => budget take.target) instructions
  paid : PaidBefore Counts (leftAfter factor) (shortage estimated factor instructions) instructions

omit [BudgetKeeper T] [CheckedTaker T] [LawfulKeeper T] in
theorem rescales_of_words {estimated : Nat} (hreserved : 0 < consumed instructions)
    (hword : consumed instructions < 2 ^ 64)
    (hmismatch : -2 ^ 63 ≤ (consumed instructions : Int) - estimated ∧
      (consumed instructions : Int) - estimated < 2 ^ 63) :
    Rescales (.reduced estimated (consumed instructions)) (consumed instructions) estimated where
  denom := reduced_denom hreserved.ne'
  ratio := reduced_numer_mul _ _
  reserved_pos := hreserved
  reserved_lt := hword
  mismatch_lt := hmismatch.2
  mismatch_ge := hmismatch.1

variable (factor) in
theorem tally_spare (hsound : ∀ take, .inl take ∈ instructions → Sound take)
    (hheld : ∀ take, .inl take ∈ instructions → heldBy take < 2 ^ 63) :
    tally (spare Counts (leftAfter factor)) instructions + tally (reached factor) instructions =
      tally (spare Counts fun take => budget take.target) instructions := by
  rw [← tally_add]
  apply tally_congr
  intro take htake
  rw [spare, spare, reached, leftAfter, if_pos (hheld take htake)]
  cases hcounts : Counts take with
  | true =>
    have hbudget := (hsound take htake).held_of_counts hcounts
    simp only [if_true]
    omega
  | false => simp [(hsound take htake).amount_of_not_counts hcounts]

theorem consumed_scaledAll_eq (hsound : ∀ take, .inl take ∈ instructions → Sound take)
    (hheld : ∀ take, .inl take ∈ instructions → heldBy take < 2 ^ 63) :
    consumed (scaledAll factor instructions) = tally (reached factor) instructions := by
  rw [consumed_scaledAll]
  apply tally_congr
  intro take htake
  rw [(sound_scaled (hsound take htake)).2, reached, leftAfter, if_pos (hheld take htake)]
  cases hcounts : Counts take with
  | true =>
    simp only [if_true]
    omega
  | false => simp [(hsound take htake).amount_of_not_counts hcounts]

theorem untouched_drained (factor : Ratio) (missing : Nat) (instructions : List (Execution T M)) :
    List.Forall₂ Untouched instructions (drained missing (scaledAll factor instructions)) := by
  induction instructions generalizing missing with
  | nil => exact .nil
  | cons instruction rest ih =>
    cases instruction with
    | inr make => exact .cons (.make make) (ih missing)
    | inl take =>
      refine .cons ?_ (ih _)
      apply Untouched.take
      · rw [target_holding, scaled, target_holding]
      · rw [removedInput_holding, scaled, removedInput_holding]
      · rw [addedOutput_holding, scaled, addedOutput_holding]

theorem recipe_drained {missing : Nat} (hsound : ∀ take, .inl take ∈ instructions → Sound take) :
    Recipe (drained missing instructions) := by
  induction instructions generalizing missing with
  | nil => exact fun _ htake => absurd htake List.not_mem_nil
  | cons instruction rest ih =>
    have hrest (missing : Nat) : Recipe (drained missing rest) :=
      ih fun take htake => hsound take (List.mem_cons_of_mem _ htake)
    cases instruction with
    | inr make => exact recipe_inr.mpr (hrest missing)
    | inl take =>
      have htake := hsound take List.mem_cons_self
      refine recipe_inl.mpr ⟨?_, hrest _⟩
      rw [Spends, target_holding, remainingBudget_holding]
      split
      · rename_i hcounts
        have hbudget := htake.held_of_counts hcounts
        omega
      · exact htake.spends

/-- Where all fits its words, the budgets are scaled and what is missing is left over. -/
theorem scaleBudgets_of_balances (h : Rescales factor (consumed instructions) e)
    (hsound : ∀ take, .inl take ∈ instructions → Sound take)
    (hbalances : Balances e factor instructions) :
    scaleBudgets factor (consumed instructions - e) instructions =
      .ok (-shortage e factor instructions, scaledAll factor instructions) := by
  have hheld (take : TakeInProgress T) (htake : .inl take ∈ instructions) :
      heldBy take < 2 ^ 63 :=
    (hbalances.words take htake).held
  have hmismatch := mismatch_eq h hheld
  have hshortage := hbalances.shortage_lt
  rw [← hmismatch]
  apply scaleBudgets_of_representable h (fun take htake => spent_le_consumed htake) hsound
    hbalances.words _ ⟨h.mismatch_ge, h.mismatch_lt⟩ (by omega)
  rcases Nat.le_total (consumed instructions) e with hle | hle
  · left
    intro take htake
    obtain ⟨hup, _⟩ := amount_up h (spent_le_consumed htake) hle
    rw [report_eq (hheld take htake), reached]
    omega
  · right
    intro take htake
    obtain ⟨hdown, _⟩ := amount_down h (spent_le_consumed htake) hle
    rw [report_eq (hheld take htake), reached]
    omega

theorem balancesExactly_of_balances (h : Rescales factor (consumed instructions) e)
    (hsound : ∀ take, .inl take ∈ instructions → Sound take)
    (hbalances : Balances e factor instructions) :
    ∃ balanced, balanceFee (consumed instructions - e) factor instructions = .ok balanced ∧
      BalancedTo e instructions balanced := by
  have hheld (take : TakeInProgress T) (htake : .inl take ∈ instructions) :
      heldBy take < 2 ^ 63 :=
    (hbalances.words take htake).held
  have hsound' (take : TakeInProgress T) (htake : .inl take ∈ scaledAll factor instructions) :
      Sound take :=
    sound_scaledAll hsound htake
  have hcorrect : correctBudgets (-shortage e factor instructions) (scaledAll factor instructions) =
      .ok (drained (shortage e factor instructions) (scaledAll factor instructions)) := by
    apply correctBudgets_eq_drained _ hbalances.shortage_lt
    intro take htake
    obtain ⟨before, hbefore, rfl⟩ := mem_scaledAll.mp htake
    have hroom := (hbalances.words before hbefore).room
    rw [scaled, heldBy_holding, leftAfter, if_pos (hheld before hbefore)]
    omega
  refine ⟨drained (shortage e factor instructions) (scaledAll factor instructions), ?_,
    recipe_drained hsound', ?_, untouched_drained factor _ instructions⟩
  · simp only [balanceFee, Checked.bind_eq_ok]
    exact ⟨_, scaleBudgets_of_balances h hsound hbalances, hcorrect⟩
  · have hle := tally_reached_le h
    have hspare := tally_spare factor hsound hheld
    have hfunded := hbalances.funded
    have hraised : raised Counts (leftAfter factor) (shortage e factor instructions) instructions =
        shortage e factor instructions := by
      refine (raised_eq_iff _ _).mpr ⟨?_, hbalances.paid⟩
      rw [shortage]
      omega
    rw [consumed_drained hsound', consumed_scaledAll_eq hsound hheld, raised_scaledAll, hraised,
      shortage]
    omega

theorem balances_of_balancesExactly (h : Rescales factor (consumed instructions) e)
    (hlength : instructions.length < 2 ^ 63)
    (hsound : ∀ take, .inl take ∈ instructions → Sound take)
    (huncounted : ∀ take, .inl take ∈ instructions → Counts take = false → heldBy take < 2 ^ 63)
    {balanced : List (Execution T M)}
    (hok : balanceFee (consumed instructions - e) factor instructions = .ok balanced)
    (hbalanced : BalancedTo e instructions balanced) : Balances e factor instructions := by
  simp only [balanceFee, Checked.bind_eq_ok, Prod.exists] at hok
  obtain ⟨m, _, hscaled, hcorrect⟩ := hok
  obtain ⟨hm, hge, rfl, htakes⟩ := of_scaleBudgets h (fun take htake => spent_le_consumed htake)
    hsound hscaled h.mismatch_ge
  have hmissing : m ≤ 0 := by
    rw [hm]
    exact mismatch_nonpos h hsound
  obtain ⟨missing, rfl⟩ : ∃ missing : Nat, m = -missing := ⟨(-m).toNat, by omega⟩
  have hheld' (take : TakeInProgress T) (htake : .inl take ∈ scaledAll factor instructions) :
      heldBy take < 2 ^ 63 := by
    obtain ⟨before, hbefore, rfl⟩ := mem_scaledAll.mp htake
    rw [scaled, heldBy_holding]
    exact (htakes before hbefore).1
  obtain ⟨payer, hpayer⟩ := exists_take_of_consumed h.reserved_pos
  have hlt : missing < 2 ^ 63 :=
    missing_lt_of_correctBudgets (mem_scaledAll.mpr ⟨payer, hpayer, rfl⟩) (by omega) hcorrect
  cases (correctBudgets_eq_drained hheld' hlt).symm.trans hcorrect
  have hconsumed := hbalanced.consumed
  rw [consumed_drained fun take htake => sound_scaledAll hsound htake, raised_scaledAll]
    at hconsumed
  have hheld (take : TakeInProgress T) (htake : .inl take ∈ instructions) :
      heldBy take < 2 ^ 63 := by
    by_contra hwrapped
    cases hcounts : Counts take with
    | true =>
      have hne := (htakes take htake).2.1
      have hgt := lt_consumed_of_wrapped h hlength hsound htake hcounts (by omega)
      omega
    | false => exact hwrapped (huncounted take htake hcounts)
  rw [mismatch_eq h hheld] at hm
  obtain rfl : missing = shortage e factor instructions := by omega
  have hle := tally_reached_le h
  have hspare := tally_spare factor hsound hheld
  rw [consumed_scaledAll_eq hsound hheld] at hconsumed
  have hraised : raised Counts (leftAfter factor) (shortage e factor instructions) instructions =
      shortage e factor instructions := by
    rw [shortage] at hconsumed ⊢
    omega
  obtain ⟨hfunded, hpaid⟩ := (raised_eq_iff _ _).mp hraised
  refine ⟨fun take htake => (htakes take htake).2.2 (hheld take htake), hlt, ?_, hpaid⟩
  rw [shortage] at hfunded
  omega

/-- The consumed budgets are balanced to exactly the fee if all that is computed fits its words, and
the budgets that count pay for the fee before any is asked that does not; and, where no budget that
does not count reads as a negative number, in no other case. -/
theorem balance_fee_exact_iff (estimated : Nat) (instructions : List (Execution T M))
    (hlength : instructions.length < 2 ^ 63)
    (hsound : ∀ take, .inl take ∈ instructions → Sound take)
    (hreserved : 0 < consumed instructions) (hword : consumed instructions < 2 ^ 64)
    (hmismatch : -2 ^ 63 ≤ (consumed instructions : Int) - estimated ∧
      (consumed instructions : Int) - estimated < 2 ^ 63) :
    (Balances estimated (.reduced estimated (consumed instructions)) instructions →
      BalancesExactly estimated instructions) ∧
    ((∀ take, .inl take ∈ instructions → Counts take = false → heldBy take < 2 ^ 63) →
      BalancesExactly estimated instructions →
        Balances estimated (.reduced estimated (consumed instructions)) instructions) := by
  have h := rescales_of_words hreserved hword hmismatch
  constructor
  · exact balancesExactly_of_balances h hsound
  · rintro huncounted ⟨balanced, hok, hbalanced⟩
    exact balances_of_balancesExactly h hlength hsound huncounted hok hbalanced

end Recipes

/-- A trade consumes nothing of a grid order's budget for a step. -/
theorem GridOrder.uncounted {o : GridOrder} {removed added : Nat}
    {result : Next GridOrder TerminalTake} (h : o.withAppliedTrade removed added = .ok result) :
    remainingBudget (⟨o, result⟩ : TakeInProgress GridOrder) = budget o := by
  obtain ⟨paid, bought, remaining, next, hpaid, hbought, _, hnext, rfl⟩ :=
    withAppliedTrade_eq_ok.mp h
  have hpaid' : paid.maxExecutionBudgetPerStep = o.maxExecutionBudgetPerStep := by
    rcases withInputRemoved_eq_ok.mp hpaid with ⟨_, _, _, rfl⟩ | ⟨_, _, _, rfl⟩ <;> rfl
  have hbought' : bought.maxExecutionBudgetPerStep = paid.maxExecutionBudgetPerStep := by
    rcases withOutputAdded_eq_ok.mp hbought with ⟨_, _, _, rfl⟩ | ⟨_, _, _, rfl⟩ <;> rfl
  have hnext' : next.maxExecutionBudgetPerStep = bought.maxExecutionBudgetPerStep := by
    rw [turned] at hnext
    split at hnext <;> split at hnext
    · obtain ⟨_, _, hnext⟩ := Checked.bind_eq_ok.mp hnext
      cases hnext
      rfl
    · cases hnext
      rfl
    · obtain ⟨_, _, hnext⟩ := Checked.bind_eq_ok.mp hnext
      cases hnext
      rfl
    · cases hnext
      rfl
  exact hnext'.trans (hbought'.trans hpaid')

/-! ### A fee that is not reached -/

section Samples

open AnyOrder (sampleLimit sampleGridBid)

def paidTake (beacon : UInt8) (before after : Nat) : TakeInProgress AnyOrder where
  target := withHeld (sampleLimit beacon 5 0) before
  result := .succ (withHeld (sampleLimit beacon 5 0) after)

def gridTake : TakeInProgress AnyOrder where
  target := sampleGridBid 2 ⟨1, 2⟩
  result := .succ (withHeld (sampleGridBid 2 ⟨1, 2⟩) 500000)

/-- Two limit orders. -/
def twoPayers : List (Execution AnyOrder Empty) :=
  [.inl (paidTake 1 800000 699999), .inl (paidTake 3 800000 699998)]

theorem forall_twoPayers {P : TakeInProgress AnyOrder → Prop}
    (hfst : P (paidTake 1 800000 699999)) (hsnd : P (paidTake 3 800000 699998)) :
    ∀ take, .inl take ∈ twoPayers → P take := by
  intro take htake
  rcases List.mem_cons.mp htake with heq | htake
  · cases heq
    exact hfst
  · cases List.mem_singleton.mp htake
    exact hsnd

theorem sound_twoPayers : ∀ take, .inl take ∈ twoPayers → Sound take := by
  have hspends {beacon : UInt8} {before after : Nat} (h : after ≤ before) :
      Spends (paidTake beacon before after) := h
  apply forall_twoPayers
  · exact ⟨hspends (by decide), by decide +kernel, by decide +kernel, by decide +kernel⟩
  · exact ⟨hspends (by decide), by decide +kernel, by decide +kernel, by decide +kernel⟩

theorem balance_fee_exact_sample : BalancesExactly 150000 twoPayers := by
  apply (balance_fee_exact_iff 150000 twoPayers (by decide) sound_twoPayers (by decide +kernel)
    (by decide +kernel) (by decide +kernel)).1
  refine ⟨forall_twoPayers ?_ ?_, by decide +kernel, by decide +kernel, ?_⟩
  · exact ⟨by decide +kernel, by decide +kernel, by decide +kernel, by decide +kernel⟩
  · exact ⟨by decide +kernel, by decide +kernel, by decide +kernel, by decide +kernel⟩
  · intro before take after heq hcounts
    have hmem : .inl take ∈ twoPayers := by
      rw [heq]
      exact List.mem_append_right _ List.mem_cons_self
    have hall : ∀ take, .inl take ∈ twoPayers → Counts take = true := forall_twoPayers rfl rfl
    cases hcounts.symm.trans (hall take hmem)

/-- The same orders behind a grid order. -/
def behindGrid : List (Execution AnyOrder Empty) := .inl gridTake :: twoPayers

def largeBudget : List (Execution AnyOrder Empty) := [.inl (paidTake 1 6000000000 1000000000)]

/-- What rounding leaves is taken from the grid order, which consumes nothing of what it tells; and the
product of a large budget and fee does not fit its word. -/
theorem fee_not_reached :
    ¬ BalancesExactly 150000 behindGrid ∧ ¬ BalancesExactly 4000000001 largeBudget := by
  constructor
  · rintro ⟨balanced, hok, hbalanced⟩
    have hsum : consumed <$> balanceFee (consumed behindGrid - (150000 : Nat))
        (.reduced 150000 (consumed behindGrid)) behindGrid = .ok 149999 := by
      decide +kernel
    rw [hok] at hsum
    cases hbalanced.consumed.symm.trans (Except.ok.inj hsum)
  · rintro ⟨balanced, hok, hbalanced⟩
    have hfault : balanceFee (consumed largeBudget - (4000000001 : Nat))
        (.reduced 4000000001 (consumed largeBudget)) largeBudget = .error .overflow := by
      rfl
    cases hfault.symm.trans hok

end Samples

end UtxoMonitor.Orders
