import Mathlib.Data.Nat.GCD.Basic
import UtxoMonitor.ExecutionEngine.Interpreter

/-! When the balancing of a transaction's fee comes to an end. -/
namespace UtxoMonitor.ExecutionEngine

open Lib LiquidityBook Pools

/-- An order's budget is corrected as far as it lasts, and the correction is reported. -/
class CorrectsBudget (T : Type) {U : Type} [MarketTaker T U] [TakerBehaviour T] : Prop where
  budget_corrected : ∀ (t : T) (delta : Int),
    budget (withBudgetCorrected t delta).2 = (max (budget t + delta) 0).toNat
  reported : ∀ (t : T) (delta : Int),
    (withBudgetCorrected t delta).1 = max (budget t + delta) 0 - budget t

instance : CorrectsBudget LimitOrder where
  budget_corrected _ _ := rfl
  reported _ _ := rfl

section Budgets

variable {T U : Type} [MarketTaker T U]

/-- A take has no more budget left than its order has. -/
def Spends (take : TakeInProgress T) : Prop := remainingBudget take ≤ budget take.target

def spent (take : TakeInProgress T) : Nat := budget take.target - remainingBudget take

theorem consumedBudget_eq_ok {take : TakeInProgress T} {n : Nat} :
    consumedBudget take = .ok n ↔ Spends take ∧ spent take = n := by
  simp only [consumedBudget, Checked.unwrap_eq_ok, checkedSub, Spends, spent]
  split
  · rename_i h
    simp [h]
  · rename_i h
    simp [h]

variable [TakerBehaviour T] [CorrectsBudget T] {take : TakeInProgress T} {delta : Int}

theorem remainingBudget_correct (take : TakeInProgress T) (delta : Int) :
    remainingBudget (correctConsumedBudget take delta).2 =
      (max (remainingBudget take - delta) 0).toNat := by
  simp only [correctConsumedBudget, remainingBudget]
  cases take.result with
  | succ next => exact CorrectsBudget.budget_corrected next (-delta)
  | term term => rfl

omit [CorrectsBudget T] in
theorem target_correct (take : TakeInProgress T) (delta : Int) :
    (correctConsumedBudget take delta).2.target = take.target := by
  unfold correctConsumedBudget
  split <;> rfl

theorem reported_correct (take : TakeInProgress T) (delta : Int) :
    (correctConsumedBudget take delta).1 =
      remainingBudget take - max (remainingBudget take - delta) 0 := by
  simp only [correctConsumedBudget, remainingBudget]
  cases take.result with
  | succ next =>
    dsimp only
    rw [CorrectsBudget.reported (U := U) next (-delta)]
    omega
  | term term =>
    simp only [TerminalTake.withBudgetCorrected]
    omega

/-- Unless the correction gives back more than has been spent, as much more is spent as is
reported, up to the whole budget. -/
theorem correct_spec (h : Spends take) (delta : Int) (hdelta : 0 ≤ spent take + delta) :
    Spends (correctConsumedBudget take delta).2 ∧
      spent (correctConsumedBudget take delta).2 =
        min (spent take + delta).toNat (budget take.target) ∧
      (spent take : Int) + (correctConsumedBudget take delta).1 =
        spent (correctConsumedBudget take delta).2 := by
  simp only [Spends, spent, remainingBudget_correct, target_correct, reported_correct] at *
  omega

end Budgets

section Recipes

variable {T M U : Type} [MarketTaker T U]

/-- The budgets of the takes. -/
def available : List (Execution T M) → Nat
  | [] => 0
  | .inr _ :: rest => available rest
  | .inl take :: rest => budget take.target + available rest

/-- What the takes consume of their budgets. -/
def consumed : List (Execution T M) → Nat
  | [] => 0
  | .inr _ :: rest => consumed rest
  | .inl take :: rest => spent take + consumed rest

/-- The takes of a recipe that the matchmaking has made. -/
def Recipe (instructions : List (Execution T M)) : Prop :=
  ∀ take, .inl take ∈ instructions → Spends take

variable {instructions rest : List (Execution T M)} {take : TakeInProgress T}
  {make : MakeInProgress M}

theorem recipe_inr : Recipe (.inr make :: rest) ↔ Recipe rest := by
  simp [Recipe]

theorem recipe_inl : Recipe (.inl take :: rest) ↔ Spends take ∧ Recipe (M := M) rest := by
  simp [Recipe]

theorem consumed_le (h : Recipe instructions) : consumed instructions ≤ available instructions := by
  fun_induction available instructions with
  | case1 => exact Nat.le_refl 0
  | case2 make rest ih => exact ih (recipe_inr.mp h)
  | case3 take rest ih =>
    have hrest := ih (recipe_inl.mp h).2
    have htake : spent take ≤ budget take.target := Nat.sub_le _ _
    exact Nat.add_le_add htake hrest

theorem reservedTxFee_eq_ok (h : Recipe instructions) (hfits : consumed instructions < 2 ^ 64) :
    reservedTxFee instructions = .ok (consumed instructions) := by
  fun_induction reservedTxFee instructions with
  | case1 => rfl
  | case2 make rest ih => exact ih (recipe_inr.mp h) hfits
  | case3 take rest ih =>
    obtain ⟨htake, hrest⟩ := recipe_inl.mp h
    simp only [consumed] at hfits
    have hrest' := ih hrest (by omega)
    simp only [Checked.bind_eq_ok, consumedBudget_eq_ok, Checked.add_eq_ok]
    exact ⟨_, ⟨htake, rfl⟩, _, hrest', hfits, rfl⟩

variable [TakerBehaviour T] [CorrectsBudget T]

/-- What is missing is taken from the budgets one after another, as long as they last. -/
theorem correctBudgets_spec (h : Recipe instructions) (missing : Nat) :
    Recipe (correctBudgets (-missing : Int) instructions) ∧
      available (correctBudgets (-missing : Int) instructions) = available instructions ∧
      consumed (correctBudgets (-missing : Int) instructions) =
        min (consumed instructions + missing) (available instructions) := by
  induction instructions generalizing missing with
  | nil => simp [correctBudgets, available, consumed, Recipe]
  | cons instruction rest ih =>
    cases instruction with
    | inr make =>
      simp only [correctBudgets, recipe_inr, available, consumed]
      exact ih (recipe_inr.mp h) missing
    | inl take =>
      obtain ⟨htake, hrest⟩ := recipe_inl.mp h
      have hle := consumed_le hrest
      by_cases hmissing : missing = 0
      · subst hmissing
        have hspent : spent take ≤ budget take.target := Nat.sub_le _ _
        simp only [correctBudgets, Nat.cast_zero, neg_zero, ne_eq, not_true_eq_false, if_false,
          available, consumed, true_and]
        exact ⟨h, by omega⟩
      · have hne : (-missing : Int) ≠ 0 := by omega
        obtain ⟨hspends, hspent, hreported⟩ :=
          correct_spec htake missing (by omega)
        simp only [correctBudgets, hne, ne_eq, not_false_eq_true, if_true, neg_neg, recipe_inl,
          available, consumed, target_correct]
        have hspent' : spent take ≤ budget take.target := Nat.sub_le _ _
        have hleft : (-missing : Int) + (correctConsumedBudget take missing).1 =
            -((missing - (spent (correctConsumedBudget take missing).2 - spent take) : Nat) : Int) := by
          omega
        rw [hleft]
        obtain ⟨hrec, havail, hcons⟩ := ih hrest
          (missing - (spent (correctConsumedBudget take missing).2 - spent take))
        refine ⟨⟨hspends, hrec⟩, by rw [havail], ?_⟩
        rw [hcons]
        omega

omit [CorrectsBudget T] in
theorem scaleConsumedBudget_eq_ok {scale : Ratio} {result : Int × TakeInProgress T} :
    scaleConsumedBudget take scale = .ok result ↔
      Spends take ∧ spent take * scale.numer < 2 ^ 64 ∧ scale.denom ≠ 0 ∧
        correctConsumedBudget take
          ((spent take * scale.numer / scale.denom : Nat) - spent take) = result := by
  simp only [scaleConsumedBudget, Ratio.share, Checked.bind_eq_ok, Checked.mul_eq_ok,
    Checked.div_eq_ok, Checked.pure_eq_ok, consumedBudget_eq_ok]
  constructor
  · rintro ⟨_, ⟨htake, rfl⟩, _, ⟨_, ⟨hfits, rfl⟩, hdenom, rfl⟩, rfl⟩
    exact ⟨htake, hfits, hdenom, rfl⟩
  · rintro ⟨htake, hfits, hdenom, rfl⟩
    exact ⟨_, ⟨htake, rfl⟩, _, ⟨_, ⟨hfits, rfl⟩, hdenom, rfl⟩, rfl⟩

/-- The products that the scaling forms fit their words. -/
def Fits (scale : Ratio) (instructions : List (Execution T M)) : Prop :=
  ∀ take, .inl take ∈ instructions → spent take * scale.numer < 2 ^ 64

omit [TakerBehaviour T] [CorrectsBudget T] in
theorem fits_inr {scale : Ratio} : Fits scale (.inr make :: rest) ↔ Fits scale rest := by
  simp [Fits]

omit [TakerBehaviour T] [CorrectsBudget T] in
theorem fits_inl {scale : Ratio} : Fits scale (.inl take :: rest) ↔
    spent take * scale.numer < 2 ^ 64 ∧ Fits (M := M) scale rest := by
  simp [Fits]

/-- Scaling keeps track of the mismatch, and consumes at most the scaled amount. -/
theorem scaleBudgets_spec {scale : Ratio} (hdenom : scale.denom ≠ 0) (h : Recipe instructions)
    (hfits : Fits scale instructions) (mismatch : Int) :
    ∃ scaled, scaleBudgets scale mismatch instructions =
        .ok (mismatch + consumed scaled - consumed instructions, scaled) ∧
      Recipe scaled ∧ available scaled = available instructions ∧
      consumed scaled * scale.denom ≤ consumed instructions * scale.numer := by
  induction instructions generalizing mismatch with
  | nil =>
    refine ⟨[], ?_, h, rfl, by simp [consumed]⟩
    simp [scaleBudgets, consumed, pure, Except.pure]
  | cons instruction rest ih =>
    cases instruction with
    | inr make =>
      obtain ⟨scaled, hok, hrec, havail, hle⟩ :=
        ih (recipe_inr.mp h) (fits_inr.mp hfits) mismatch
      refine ⟨.inr make :: scaled, ?_, recipe_inr.mpr hrec, havail, hle⟩
      simp only [scaleBudgets, Checked.bind_eq_ok, Checked.pure_eq_ok, consumed]
      exact ⟨_, hok, rfl⟩
    | inl take =>
      obtain ⟨htake, hrest⟩ := recipe_inl.mp h
      obtain ⟨htakeFits, hrestFits⟩ := fits_inl.mp hfits
      obtain ⟨newVal, hnewVal⟩ : ∃ newVal, spent take * scale.numer / scale.denom = newVal := ⟨_, rfl⟩
      obtain ⟨hspends, hspent, hreported⟩ :=
        correct_spec htake (newVal - spent take) (by omega)
      set corrected := correctConsumedBudget take (newVal - spent take) with hcorrected
      have htakeLe : spent corrected.2 * scale.denom ≤ spent take * scale.numer := by
        have hle : spent corrected.2 ≤ spent take * scale.numer / scale.denom := by omega
        exact (Nat.mul_le_mul_right _ hle).trans (Nat.div_mul_le_self _ _)
      obtain ⟨scaled, hok, hrec, havail, hle⟩ := ih hrest hrestFits (mismatch + corrected.1)
      refine ⟨.inl corrected.2 :: scaled, ?_, recipe_inl.mpr ⟨hspends, hrec⟩, ?_, ?_⟩
      · simp only [scaleBudgets, Checked.bind_eq_ok, Checked.pure_eq_ok, consumed]
        refine ⟨corrected, scaleConsumedBudget_eq_ok.mpr ⟨htake, htakeFits, hdenom, ?_⟩, _, hok,
          ?_⟩
        · rw [hnewVal]
        rw [Prod.mk.injEq]
        exact ⟨by omega, rfl⟩
      · simp only [available, hcorrected, target_correct, havail]
      · simp only [consumed, Nat.add_mul]
        exact Nat.add_le_add htakeLe hle

omit [CorrectsBudget T] in
theorem fits_of_scaleBudgets {scale : Ratio} {mismatch : Int}
    {result : Int × List (Execution T M)}
    (h : scaleBudgets scale mismatch instructions = .ok result) : Fits scale instructions := by
  induction instructions generalizing mismatch result with
  | nil => simp [Fits]
  | cons instruction rest ih =>
    cases instruction with
    | inr make =>
      simp only [scaleBudgets, Checked.bind_eq_ok] at h
      obtain ⟨_, hok, _⟩ := h
      exact fits_inr.mpr (ih hok)
    | inl take =>
      simp only [scaleBudgets, Checked.bind_eq_ok, scaleConsumedBudget_eq_ok] at h
      obtain ⟨_, ⟨_, htake, _⟩, _, hok, _⟩ := h
      exact fits_inl.mpr ⟨htake, ih hok⟩

theorem reduced_denom {e r : Nat} (h : r ≠ 0) : (Ratio.reduced e r).denom ≠ 0 := by
  have hpos : 0 < Nat.gcd e r := Nat.gcd_pos_of_pos_right e (Nat.pos_of_ne_zero h)
  exact Nat.div_ne_zero_iff.mpr ⟨hpos.ne', Nat.gcd_le_right e (Nat.pos_of_ne_zero h)⟩

theorem reduced_numer_mul (e r : Nat) :
    r * (Ratio.reduced e r).numer = e * (Ratio.reduced e r).denom := by
  simp only [Ratio.reduced]
  rw [← Nat.mul_div_assoc _ (Nat.gcd_dvd_left e r), ← Nat.mul_div_assoc _ (Nat.gcd_dvd_right e r),
    Nat.mul_comm]

/-- Where something is consumed, balancing leaves the fee consumed, or the whole of the budgets. -/
theorem balanceFee_spec {e : Nat} (h : Recipe instructions) (hspent : consumed instructions ≠ 0)
    (hfits : Fits (.reduced e (consumed instructions)) instructions) :
    ∃ balanced, balanceFee (consumed instructions - e) (.reduced e (consumed instructions))
        instructions = .ok balanced ∧ Recipe balanced ∧
      available balanced = available instructions ∧
      consumed balanced = min e (available instructions) := by
  have hdenom := reduced_denom (e := e) hspent
  obtain ⟨scaled, hok, hrec, havail, hle⟩ :=
    scaleBudgets_spec hdenom h hfits (consumed instructions - e)
  rw [reduced_numer_mul] at hle
  have hscaled : consumed scaled ≤ e :=
    Nat.le_of_mul_le_mul_right hle (Nat.pos_of_ne_zero hdenom)
  obtain ⟨hrec', havail', hcons⟩ := correctBudgets_spec hrec (e - consumed scaled)
  refine ⟨_, ?_, hrec', havail'.trans havail, ?_⟩
  · have hleft : (consumed instructions - e + consumed scaled - consumed instructions : Int) =
        -((e - consumed scaled : Nat) : Int) := by omega
    rw [← hleft]
    simp only [balanceFee, hok, Checked.bind_eq_ok, Checked.pure_eq_ok]
    exact ⟨_, rfl, rfl⟩
  · rw [hcons, havail]
    omega

/-! ### Passes -/

variable {estimatedFee passes accumulatedResidue : Nat} {takeResidualFee : Bool} {pass : Pass}

omit [CorrectsBudget T] in
theorem executeRecipe_done (h : Recipe instructions) (hfits : consumed instructions < 2 ^ 64)
    (hfee : consumed instructions = estimatedFee + accumulatedResidue) :
    executeRecipe estimatedFee (passes + 1) takeResidualFee instructions accumulatedResidue =
      .ok (some ⟨consumed instructions, accumulatedResidue⟩) := by
  have hzero : ((consumed instructions - accumulatedResidue : Nat) - estimatedFee : Int) = 0 := by
    omega
  simp only [executeRecipe, Checked.bind_eq_ok, Checked.sub_eq_ok, reservedTxFee_eq_ok h hfits]
  refine ⟨_, rfl, _, ⟨by omega, rfl⟩, ?_⟩
  rw [hzero]
  rfl

omit [CorrectsBudget T] in
theorem executeRecipe_residue (h : Recipe instructions) (hfits : consumed instructions < 2 ^ 64)
    (hfee : estimatedFee < consumed instructions) :
    executeRecipe estimatedFee (passes + 1) true instructions 0 =
      executeRecipe estimatedFee passes false instructions (consumed instructions - estimatedFee) := by
  have hne : (consumed instructions - estimatedFee : Int) ≠ 0 := by omega
  have hpos : (0 : Int) < consumed instructions - estimatedFee := by omega
  have habs : (consumed instructions - estimatedFee : Int).natAbs =
      consumed instructions - estimatedFee := by omega
  have hadd : Checked.add 64 0 (consumed instructions - estimatedFee) =
      .ok (consumed instructions - estimatedFee) := by
    rw [Checked.add_eq_ok]
    omega
  simp only [executeRecipe, reservedTxFee_eq_ok h hfits, Checked.sub, Nat.zero_le, if_true,
    Nat.sub_zero, bind, Except.bind, hne, ne_eq, not_false_eq_true, hpos, and_self, habs, hadd]

omit [CorrectsBudget T] in
theorem executeRecipe_balance (h : Recipe instructions) (hfits : consumed instructions < 2 ^ 64)
    (hfee : consumed instructions ≠ estimatedFee)
    (hresidue : ¬ (takeResidualFee ∧ estimatedFee < consumed instructions)) :
    executeRecipe estimatedFee (passes + 1) takeResidualFee instructions 0 = (do
      let feeRescaleFactor ← Ratio.new estimatedFee (consumed instructions)
      let correctedRecipe ←
        balanceFee (consumed instructions - estimatedFee) feeRescaleFactor instructions
      executeRecipe estimatedFee passes false correctedRecipe 0) := by
  have hne : (consumed instructions - estimatedFee : Int) ≠ 0 := by omega
  have hresidue' : ¬ (takeResidualFee ∧ (0 : Int) < consumed instructions - estimatedFee) :=
    fun hpos => hresidue ⟨hpos.1, by omega⟩
  simp only [executeRecipe, reservedTxFee_eq_ok h hfits, Checked.sub, Nat.zero_le, if_true,
    Nat.sub_zero, bind, Except.bind, hne, ne_eq, not_false_eq_true, hresidue', if_false]

/-- A pass that goes on has scaled the budgets, of which some was consumed. -/
theorem balanced_of_ok (h : Recipe instructions) (hfits : consumed instructions < 2 ^ 64)
    (hfee : consumed instructions ≠ estimatedFee)
    (hresidue : ¬ (takeResidualFee ∧ estimatedFee < consumed instructions))
    (hok : executeRecipe estimatedFee (passes + 1) takeResidualFee instructions 0 =
      .ok (some pass)) :
    consumed instructions ≠ 0 ∧
      Fits (.reduced estimatedFee (consumed instructions)) instructions ∧
      ∃ balanced : List (Execution T M), Recipe balanced ∧
        available balanced = available instructions ∧ executeRecipe estimatedFee passes false balanced 0 = .ok (some pass) := by
  rw [executeRecipe_balance h hfits hfee hresidue] at hok
  simp only [Checked.bind_eq_ok, Ratio.new, Checked.ite_eq_ok] at hok
  obtain ⟨_, ⟨hspent, rfl⟩, balanced, hbalanced, hok⟩ := hok
  have hfits' : Fits (.reduced estimatedFee (consumed instructions)) instructions := by
    simp only [balanceFee, Checked.bind_eq_ok] at hbalanced
    obtain ⟨_, hscaled, _⟩ := hbalanced
    exact fits_of_scaleBudgets hscaled
  obtain ⟨balanced', hbalanced', hrec, havail, _⟩ := balanceFee_spec h hspent hfits'
  rw [hbalanced'] at hbalanced
  obtain rfl := Except.ok.inj hbalanced
  exact ⟨hspent, hfits', balanced', hrec, havail, hok⟩

/-- If the budgets do not pay for the fee, the passes go on for ever, or stop with a fault. -/
theorem not_ok_of_available_lt (h : Recipe instructions) (hfits : available instructions < 2 ^ 64)
    (hlt : available instructions < estimatedFee) :
    executeRecipe estimatedFee passes takeResidualFee instructions 0 ≠ .ok (some pass) := by
  intro hok
  induction passes generalizing takeResidualFee instructions with
  | zero => cases hok
  | succ passes ih =>
    have hle := consumed_le h
    obtain ⟨_, _, balanced, hrec, havail, hok⟩ :=
      balanced_of_ok h (by omega) (by omega) (fun hpos => by omega) hok
    exact ih hrec (by omega) (by omega) hok

/-- When the fee of a recipe can be balanced: its budgets pay for it, and if budgets have to be
scaled, then some is consumed from the start. -/
structure Balanceable (estimatedFee : Nat) (takeResidualFee : Bool)
    (instructions : List (Execution T M)) : Prop where
  funded : estimatedFee ≤ available instructions
  spent : estimatedFee ≠ 0 → consumed instructions ≠ 0
  fits : consumed instructions ≠ estimatedFee →
    ¬ (takeResidualFee ∧ estimatedFee < consumed instructions) →
      Fits (.reduced estimatedFee (consumed instructions)) instructions

end Recipes

/-! ### Recipes that cannot be balanced -/

section Samples

def samplePayer (executionBudget : Nat) : LimitOrder :=
  { beacon := RawBytes.replicate 7
    inputAsset := .native
    inputAmount := 105000000
    outputAsset := .token ⟨RawBytes.replicate 2, .zero⟩
    outputAmount := 0
    basePrice := 1
    executionBudget := executionBudget
    fee := 0
    maxCostPerExStep := 500000
    minMarginalOutput := 1
    marginalCost := ⟨1, 1⟩ }

/-- An order that had some budget, and has some left. -/
def sampleRecipe (initial remaining : Nat) : List (Execution LimitOrder Empty) :=
  [.inl ⟨samplePayer initial, .succ (samplePayer remaining)⟩]

theorem recipe_sample {initial remaining : Nat} (h : remaining ≤ initial) :
    Recipe (sampleRecipe initial remaining) := by
  intro take hmem
  cases List.mem_singleton.mp hmem
  exact h

/-- An exhausted budget is left as it is, pass after pass. -/
theorem executeRecipe_exhausted (passes : Nat) :
    executeRecipe 300000 passes false (sampleRecipe 200000 0) 0 = .ok none := by
  induction passes with
  | zero => rfl
  | succ passes ih =>
    have hbalance : balanceFee (consumed (sampleRecipe 200000 0) - (300000 : Nat))
        (.reduced 300000 (consumed (sampleRecipe 200000 0))) (sampleRecipe 200000 0) =
        .ok (sampleRecipe 200000 0) := rfl
    rw [executeRecipe_balance (recipe_sample (by decide)) (by decide) (by decide) (by decide),
      Ratio.new, if_pos (by decide)]
    simp only [bind, Except.bind, hbalance]
    exact ih

end Samples

end UtxoMonitor.ExecutionEngine
