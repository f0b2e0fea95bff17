import UtxoMonitor.Lib.Shares
import UtxoMonitor.Orders.Takers

/-! What the operator is paid of an order that is filled in many batches. -/
namespace UtxoMonitor.Orders

open Lib LiquidityBook

/-! ### Batches -/

/-- What the trades of a batch make of an order. -/
inductive Traded (o : LimitOrder) : Next LimitOrder TerminalTake → Prop
  | start : Traded o (.succ o)
  | trade {o₁ : LimitOrder} {next : Next LimitOrder TerminalTake} (removed added : Nat) :
      Traded o (.succ o₁) → CheckedTaker.withAppliedTrade o₁ removed added = .ok next →
        Traded o next

/-- An order at the start of a batch, and what the batch took of it. -/
structure Fill where
  fee : Nat
  input : Nat
  removed : Nat
  charged : Nat

/-- The product of the fee and the input is not cut short so far that the charge is less. -/
def Fill.Whole (f : Fill) : Prop := f.fee * f.removed / f.input ≤ (2 ^ 64 - 1) / f.input

def fillOf (o : LimitOrder) (removed : Nat) : Fill where
  fee := fee o
  input := input o
  removed := removed
  charged := operatorFee o removed

/-- The fills of an order in separate batches, newest first, and what they leave of it. Between two
batches it is read from the ledger, with the input and the fee it had. -/
inductive Charged (o : LimitOrder) : List Fill → Next LimitOrder TerminalTake → Prop
  | start : Charged o [] (.succ o)
  | batch {fills : List Fill} {o₁ o₂ : LimitOrder} {next : Next LimitOrder TerminalTake}
      {removed excess : Nat} {take : TakeInProgress LimitOrder} :
      Charged o fills (.succ o₁) → input o₂ = input o₁ ∧ fee o₂ = fee o₁ → Traded o₂ next →
        removedInput ⟨o₂, next⟩ = .ok removed → finalized ⟨o₂, next⟩ excess = .ok take →
          Charged o (fillOf o₂ removed :: fills) take.result

/-- The fee is paid by the share of the input that is filled, and paid in full at the end. -/
structure FeeConserved (o : LimitOrder) (fills : List Fill) (r : Next LimitOrder TerminalTake) :
    Prop where
  total : (fills.map Fill.charged).sum + (ending r).remainingFee = fee o
  at_end : (fills.map Fill.removed).sum = input o → (fills.map Fill.charged).sum = fee o
  lower : fee o * (ending r).remainingInput / input o ≤ (ending r).remainingFee
  upper : (ending r).remainingFee ≤
    fee o * (ending r).remainingInput / input o + fills.length
  /-- The next charge does not underflow. -/
  covered (o₁ : LimitOrder) (next : Next LimitOrder TerminalTake) (removed : Nat) :
    r = .succ o₁ → Traded o₁ next → removedInput ⟨o₁, next⟩ = .ok removed →
      operatorFee o₁ removed ≤ (ending next).remainingFee

section Steps

variable {o : LimitOrder} {next : Next LimitOrder TerminalTake} {removed excess : Nat}
  {take : TakeInProgress LimitOrder}

theorem Traded.ending (h : Traded o next) :
    (ending next).remainingFee = fee o ∧ (ending next).remainingInput ≤ input o := by
  induction h with
  | start => exact ⟨rfl, Nat.le_refl _⟩
  | trade removed added _ hstep ih =>
    obtain ⟨_, _, hending⟩ := exists_trade.mp ⟨_, hstep, rfl⟩
    rw [← hending]
    exact ⟨ih.1, (Nat.sub_le _ _).trans ih.2⟩

theorem remaining_of_removed (h : removedInput ⟨o, next⟩ = .ok removed) :
    removed ≤ input o ∧ ((ending next).remainingInput ≤ input o →
      (ending next).remainingInput = input o - removed) := by
  rw [removedInput_eq, unwrap_checkedSub_eq_ok] at h
  dsimp only at h
  omega

theorem operatorFee_eq (o : LimitOrder) (removed : Nat) :
    operatorFee o removed = min (fee o * removed) (2 ^ 64 - 1) / input o := rfl

theorem operatorFee_covered (h : Traded o next) (hremoved : removedInput ⟨o, next⟩ = .ok removed) :
    operatorFee o removed ≤ (ending next).remainingFee := by
  rw [h.ending.1, operatorFee_eq]
  exact min_div_le (remaining_of_removed hremoved).1

/-- A batch takes its input, and charges for it. -/
theorem ending_finalized (h : Traded o next) (hremoved : removedInput ⟨o, next⟩ = .ok removed)
    (hfinal : finalized ⟨o, next⟩ excess = .ok take) :
    removed ≤ input o ∧ (ending take.result).remainingInput = input o - removed ∧
      operatorFee o removed ≤ fee o ∧
      (ending take.result).remainingFee = fee o - operatorFee o removed := by
  obtain ⟨removed', hremoved', hsettle⟩ :=
    exists_finalized.mp ⟨take, hfinal, target_finalized hfinal, rfl⟩
  cases hremoved.symm.trans hremoved'
  obtain ⟨_, hcharge, left, _, hending⟩ := settle_terminal_eq_ok.mp hsettle
  obtain ⟨hfee, hinput⟩ := h.ending
  obtain ⟨hle, hremaining⟩ := remaining_of_removed hremoved
  rw [hfee] at hcharge hending
  rw [← hending]
  exact ⟨hle, hremaining hinput, hcharge, rfl⟩

end Steps

/-! ### Runs -/

section Runs

variable {o : LimitOrder} {fills : List Fill} {r : Next LimitOrder TerminalTake}

theorem Charged.sums (h : Charged o fills r) :
    (fills.map Fill.charged).sum + (ending r).remainingFee = fee o ∧
      (fills.map Fill.removed).sum + (ending r).remainingInput = input o := by
  induction h with
  | start => exact ⟨Nat.zero_add _, Nat.zero_add _⟩
  | @batch fills o₁ o₂ _ removed _ _ _ hread htraded hremoved hfinal ih =>
    obtain ⟨hle, hinput, hcharge, hfee⟩ := ending_finalized htraded hremoved hfinal
    have hleft : (ending (.succ o₁)).remainingFee = fee o₂ := hread.2.symm
    have hrest : (ending (.succ o₁)).remainingInput = input o₂ := hread.1.symm
    rw [hleft, hrest] at ih
    simp only [List.map_cons, List.sum_cons, fillOf, hinput, hfee]
    omega

theorem Charged.prorata (h : Charged o fills r) (hinput : 0 < input o)
    (hwhole : ∀ f ∈ fills, f.Whole) :
    Prorata (fee o) (input o) fills.length (ending r).remainingFee (ending r).remainingInput := by
  induction h with
  | start => exact .start hinput
  | @batch fills o₁ o₂ _ removed _ _ _ hread htraded hremoved hfinal ih =>
    obtain ⟨hle, hrest, _, hfee⟩ := ending_finalized htraded hremoved hfinal
    have hbefore : Prorata (fee o) (input o) fills.length (fee o₂) (input o₂) := by
      rw [hread.1, hread.2]
      exact ih fun f hf => hwhole f (List.mem_cons_of_mem _ hf)
    have hexact : operatorFee o₂ removed = fee o₂ * removed / input o₂ :=
      min_div_eq (hwhole (fillOf o₂ removed) List.mem_cons_self)
    rw [hrest, hfee, hexact]
    exact hbefore.charge hle

/-- The fee of an order is conserved over its batches, as long as no charge is cut short. -/
theorem operator_fee_conserved (h : Charged o fills r) (hinput : 0 < input o)
    (hwhole : ∀ f ∈ fills, f.Whole) : FeeConserved o fills r := by
  have hshare := h.prorata hinput hwhole
  obtain ⟨htotal, hremoved⟩ := h.sums
  refine ⟨htotal, ?_, hshare.le, hshare.le_add hinput, ?_⟩
  · intro hall
    have hdone := hshare.done (by omega)
    omega
  · rintro o₁ next removed rfl htraded hnext
    exact operatorFee_covered htraded hnext

end Runs

/-! ### Orders that are filled -/

section Samples

def sampleFilled (fee input : Nat) : LimitOrder where
  beacon := .replicate 7
  inputAsset := .native
  inputAmount := input
  outputAsset := .token ⟨.replicate 2, .zero⟩
  outputAmount := 0
  basePrice := 1
  feeAsset := .native
  executionBudget := 1500000
  fee := fee
  minMarginalOutput := 1
  maxCostPerExStep := 500000
  redeemerAddress := ⟨.pubKey (.replicate 3), none⟩
  cancellationPkh := .replicate 3
  requiresExecutorSig := false
  marginalCost := ⟨0, 0⟩
  virgin := false

/-- An order that is filled in one batch. -/
theorem charged_at_once {o : LimitOrder} {removed : Nat} {next : Next LimitOrder TerminalTake}
    {take : TakeInProgress LimitOrder}
    (htrade : CheckedTaker.withAppliedTrade o removed removed = .ok next)
    (hremoved : removedInput ⟨o, next⟩ = .ok removed)
    (hfinal : finalized ⟨o, next⟩ 0 = .ok take) :
    Charged o [fillOf o removed] take.result :=
  .batch .start ⟨rfl, rfl⟩ (.trade removed removed .start htrade) hremoved hfinal

/-- What is left of an order after a batch. -/
def sampleLeft (o : LimitOrder) (removed charged : Nat) : TerminalTake where
  remainingInput := o.inputAmount - removed
  accumulatedOutput := o.outputAmount + removed
  remainingBudget := o.executionBudget - o.maxCostPerExStep
  remainingFee := o.fee - charged

theorem charged_small : Charged (sampleFilled 7 3) [fillOf (sampleFilled 7 3) 3]
    (.term (sampleLeft (sampleFilled 7 3) 3 7)) := by
  have hfinal : finalized ⟨sampleFilled 7 3, .term ⟨0, 3, 1500000, 7⟩⟩ 0 =
      .ok ⟨sampleFilled 7 3, .term (sampleLeft (sampleFilled 7 3) 3 7)⟩ := rfl
  exact charged_at_once rfl rfl hfinal

/-- Two ADA are to be paid for ten million tokens with six decimals. -/
theorem charged_large : Charged (sampleFilled 2000000 10000000000000)
    [fillOf (sampleFilled 2000000 10000000000000) 10000000000000]
    (.term (sampleLeft (sampleFilled 2000000 10000000000000) 10000000000000 1844674)) := by
  have htrade : CheckedTaker.withAppliedTrade (sampleFilled 2000000 10000000000000)
      10000000000000 10000000000000 = .ok (.term ⟨0, 10000000000000, 1500000, 2000000⟩) := by
    decide +kernel
  have hfinal : finalized ⟨sampleFilled 2000000 10000000000000,
      .term ⟨0, 10000000000000, 1500000, 2000000⟩⟩ 0 = .ok ⟨sampleFilled 2000000 10000000000000,
        .term (sampleLeft (sampleFilled 2000000 10000000000000) 10000000000000 1844674)⟩ := rfl
  exact charged_at_once htrade rfl hfinal

theorem operator_fee_conserved_small : FeeConserved (sampleFilled 7 3)
    [fillOf (sampleFilled 7 3) 3] (.term (sampleLeft (sampleFilled 7 3) 3 7)) := by
  apply operator_fee_conserved charged_small (by decide)
  intro f hf
  rw [List.mem_singleton.mp hf]
  unfold Fill.Whole
  decide

/-- The product of the fee and the input does not fit its word, so the operator is paid less. -/
theorem operator_fee_cut_short : ∃ fills r,
    Charged (sampleFilled 2000000 10000000000000) fills r ∧
      ¬ FeeConserved (sampleFilled 2000000 10000000000000) fills r := by
  refine ⟨_, _, charged_large, ?_⟩
  intro h
  have hpaid := h.at_end rfl
  revert hpaid
  decide

end Samples

end UtxoMonitor.Orders
