import UtxoMonitor.LiquidityBook.Commit
import UtxoMonitor.LiquidityBook.LimitOrder

/-! The trades of a pass, and what they take out of an order and put into it. -/
namespace UtxoMonitor.LiquidityBook

open MarketTakers

/-! ### Orders that trade exactly -/

section Exact

variable {T U : Type} [MarketTaker T U]

/-- The input that a trade leaves. -/
def Next.remaining : Next T TerminalTake → Nat
  | succ next => input next
  | term last => last.remainingInput

/-- The output that has been accumulated after a trade. -/
def Next.received : Next T TerminalTake → Nat
  | succ next => output next
  | term last => last.accumulatedOutput

variable [TakerBehaviour T]

/-- A trade moves what it says, at the order's own price, and nothing else moves. -/
class ExactTaker (T : Type) {U : Type} [MarketTaker T U] [TakerBehaviour T] : Prop where
  remaining_applied : ∀ {t : T} {removedInput : Nat} (addedOutput : Nat), removedInput ≤ input t →
    (withAppliedTrade t removedInput addedOutput).remaining + removedInput = input t
  received_applied : ∀ {t : T} {removedInput : Nat} (addedOutput : Nat), removedInput ≤ input t →
    (withAppliedTrade t removedInput addedOutput).received = output t + addedOutput
  same_of_succ : ∀ {t next : T} {removedInput addedOutput : Nat},
    withAppliedTrade t removedInput addedOutput = .succ next →
      side next = side t ∧ price next = price t
  withOutputAdded : ∀ (t : T) (excess : Nat),
    input (withOutputAdded t excess) = input t ∧ output (withOutputAdded t excess) = output t + excess
  withFeeCharged : ∀ (t : T) (fee : Nat),
    input (withFeeCharged t fee) = input t ∧ output (withFeeCharged t fee) = output t
  withBudgetCorrected : ∀ (t : T) (delta : Int),
    input (withBudgetCorrected t delta).2 = input t ∧
      output (withBudgetCorrected t delta).2 = output t
  tryTerminate : ∀ t : T,
    (tryTerminate t).remaining = input t ∧ (tryTerminate t).received = output t

namespace TakeInProgress

variable {take : TakeInProgress T}

omit [TakerBehaviour T] in
theorem removedInput_eq (take : TakeInProgress T) :
    take.removedInput = input take.target - take.result.remaining := by
  unfold removedInput
  cases take.result <;> rfl

omit [TakerBehaviour T] in
theorem addedOutput_eq (take : TakeInProgress T) :
    take.addedOutput = take.result.received - output take.target := by
  unfold addedOutput
  cases take.result <;> rfl

/-- Making a take final adds the excess to its output. -/
theorem finalized_result [ExactTaker T] (take : TakeInProgress T) (excess : Nat) :
    (take.finalized excess).result.remaining = take.result.remaining ∧
      (take.finalized excess).result.received = take.result.received + excess := by
  unfold finalized
  cases take.result with
  | succ next =>
    have hadded := ExactTaker.withOutputAdded (U := U) next excess
    have hcharged := ExactTaker.withFeeCharged (U := U) (withOutputAdded next excess)
      (operatorFee take.target take.removedInput)
    have hcorrected := ExactTaker.withBudgetCorrected (U := U)
      (withFeeCharged (withOutputAdded next excess) (operatorFee take.target take.removedInput))
      (-(consumableBudget take.target : Int))
    have hended := ExactTaker.tryTerminate (U := U) (withBudgetCorrected
      (withFeeCharged (withOutputAdded next excess) (operatorFee take.target take.removedInput))
      (-(consumableBudget take.target : Int))).2
    exact ⟨hended.1.trans (hcorrected.1.trans (hcharged.1.trans hadded.1)),
      hended.2.trans (hcorrected.2.trans (hcharged.2.trans hadded.2))⟩
  | term last => exact ⟨rfl, rfl⟩

end TakeInProgress

/-- The take has only given input and gained output, at the price of its order. -/
structure ExactTake (take : TakeInProgress T) : Prop where
  remaining_le : take.result.remaining ≤ input take.target
  received_ge : output take.target ≤ take.result.received
  same : ∀ next, take.result = .succ next →
    side next = side take.target ∧ price next = price take.target

namespace ExactTake

variable {t u : T} {removedInput : Nat}

omit [TakerBehaviour T] in
theorem refl (t : T) : ExactTake ⟨t, .succ t⟩ where
  remaining_le := Nat.le_refl _
  received_ge := Nat.le_refl _
  same next h := by
    cases h
    exact ⟨rfl, rfl⟩

variable [ExactTaker T]

/-- Trades of one order add up. -/
theorem trade (h : ExactTake ⟨t, .succ u⟩) (hle : removedInput ≤ input u) (addedOutput : Nat) :
    ExactTake ⟨t, withAppliedTrade u removedInput addedOutput⟩ ∧
    TakeInProgress.removedInput ⟨t, withAppliedTrade u removedInput addedOutput⟩ =
      input t - input u + removedInput ∧
    TakeInProgress.addedOutput ⟨t, withAppliedTrade u removedInput addedOutput⟩ =
      output u - output t + addedOutput := by
  have hleft := ExactTaker.remaining_applied (U := U) addedOutput hle
  have hgiven := ExactTaker.received_applied (U := U) addedOutput hle
  obtain ⟨hremaining, hreceived, hsame⟩ := h
  simp only [Next.remaining, Next.received] at hremaining hreceived
  rw [TakeInProgress.removedInput_eq, TakeInProgress.addedOutput_eq]
  refine ⟨⟨?_, ?_, ?_⟩, ?_, ?_⟩
  · show (withAppliedTrade u removedInput addedOutput).remaining ≤ input t
    omega
  · show output t ≤ (withAppliedTrade u removedInput addedOutput).received
    omega
  · intro next hnext
    have hkept := ExactTaker.same_of_succ (U := U) hnext
    have hu := hsame u rfl
    exact ⟨hkept.1.trans hu.1, hkept.2.trans hu.2⟩
  · show input t - (withAppliedTrade u removedInput addedOutput).remaining = _
    omega
  · show (withAppliedTrade u removedInput addedOutput).received - output t = _
    omega

end ExactTake

end Exact

instance : ExactTaker LimitOrder where
  remaining_applied {t removedInput} addedOutput h := by
    dsimp only [withAppliedTrade, LimitOrder.withAppliedTrade]
    split <;> exact Nat.sub_add_cancel h
  received_applied {t removedInput} addedOutput h := by
    dsimp only [withAppliedTrade, LimitOrder.withAppliedTrade]
    split <;> rfl
  same_of_succ h := by
    rw [(LimitOrder.withAppliedTrade_succ h).2]
    exact ⟨rfl, rfl⟩
  withOutputAdded t excess := ⟨rfl, rfl⟩
  withFeeCharged t fee := ⟨rfl, rfl⟩
  withBudgetCorrected t delta := ⟨rfl, rfl⟩
  tryTerminate t := by
    dsimp only [tryTerminate, LimitOrder.tryTerminate]
    split <;> exact ⟨rfl, rfl⟩

/-! ### Settled prices -/

section Prices

variable {T U : Type} [MarketTaker T U] {low high : AbsolutePrice} {ask bid : T}

theorem clamp_mem (value : AbsolutePrice) (h : low ≤ high) :
    low ≤ clamp value low high ∧ clamp value low high ≤ high := by
  unfold clamp
  split
  · assumption
  · split
    · exact ⟨le_rfl, h⟩
    · exact ⟨h, le_rfl⟩

/-- Two orders that overlap settle between their limits. -/
theorem settlePrice_mem (h : price ask ≤ price bid) (indexPrice : Option SpotPrice) :
    price ask ≤ settlePrice ask bid indexPrice ∧ settlePrice ask bid indexPrice ≤ price bid :=
  clamp_mem _ h

/-- Nobody gives more than it has. -/
theorem tradedAmounts_le (ask bid : T) (settled : AbsolutePrice) :
    (tradedAmounts ask bid settled).1 ≤ input bid ∧
      (tradedAmounts ask bid settled).2 ≤ input ask := by
  unfold tradedAmounts
  dsimp only
  split
  · rename_i hlt
    exact ⟨Nat.le_refl _, hlt.le⟩
  split
  · rename_i hlt
    refine ⟨?_, Nat.le_refl _⟩
    simp only [linearOutputUnsafe] at hlt ⊢
    have hworth : input ask * settled.num ≤ input bid * settled.den :=
      calc input ask * settled.num
          ≤ input bid * settled.den / settled.num * settled.num := Nat.mul_le_mul_right _ hlt.le
        _ ≤ input bid * settled.den := Nat.div_mul_le_self _ _
    exact (Nat.div_le_div_right hworth).trans_eq (Nat.mul_div_cancel _ settled.den_pos)
  · rename_i hnlt hngt
    exact ⟨Nat.le_refl _, by omega⟩

end Prices

/-! ### The trade of a turn -/

variable {T M U : Type} [Stable T] [MarketTaker T U] [TakerBehaviour T] [Ord T] [SideOrd T]
  [Stable M] [MarketMaker M U] [MakerBehavior M]

namespace TLBState

variable {E : Type}

omit [Stable T] [TakerBehaviour T] [SideOrd T] [MarketMaker M U] [MakerBehavior M] in
theorem pools_pickMakerById (book : TLBState T M) (pid : StableId M) :
    (book.pickMakerById pid).2.pools = book.pools.take pid := by
  cases book <;> rfl

omit [Stable T] [TakerBehaviour T] [MarketMaker M U] [MakerBehavior M] in
theorem pools_preAddTaker (book : TLBState T M) (t : T) :
    (book.preAddTaker t).pools = book.pools := by
  rw [← (activeFragments_moveIntoPreview book).2.2]
  unfold preAddTaker
  dsimp only
  split
  · split <;> rfl
  · rfl

omit [Stable T] [TakerBehaviour T] [MarketMaker M U] [MakerBehavior M] in
theorem pools_onTake (book : TLBState T M) (res : Next T E) :
    (book.onTake res).pools = book.pools := by
  cases res with
  | succ next => exact pools_preAddTaker book next
  | term last => rfl

omit [Stable T] [TakerBehaviour T] [MakerBehavior M] in
theorem pools_preAddMaker (book : TLBState T M) (pool : M) :
    (book.preAddMaker pool).pools = book.pools.updatePool pool := by
  cases book <;> rfl

end TLBState

/-- What a turn trades: two orders with each other, or an order with a pool. -/
inductive Trade [Add U] (base : MarketTakers T) (optimized : Bool)
    (batch batch' : MatchmakingAttempt T M U) (book book' : TLBState T M) : Prop where
  | takers {ask bid : T} {settled : AbsolutePrice} (hask : Standing base batch ask)
      (hbid : Standing base batch bid) (askSide : side ask = .ask) (bidSide : side bid = .bid)
      (apart : stableId bid ≠ stableId ask) (low : price ask ≤ settled) (high : settled ≤ price bid)
      (hbatch : batch' = (batch.addTake ⟨ask, withAppliedTrade ask (tradedAmounts ask bid settled).2
        (tradedAmounts ask bid settled).1⟩).addTake ⟨bid, withAppliedTrade bid
          (tradedAmounts ask bid settled).1 (tradedAmounts ask bid settled).2⟩)
      (hpools : book'.pools = book.pools)
  | maker {target : T} {maker next : M} {fill : FillPreview} (standing : Standing base batch target)
      (stored : book.pools.values.lookup (stableId maker) = some maker)
      (fills : Fills (price target) (input target) (side target) optimized maker fill)
      (overlap : ((side target).wrap (price target)).overlaps fill.price)
      (hswap : swap maker ((side target).wrap fill.input) = .succ next)
      (hbatch : batch' = (batch.addMake ⟨maker, .succ next⟩).addTake
        (executeWithMaker target maker ((side target).wrap fill.input)).1)
      (hpools : book'.pools = (book.pools.take (stableId maker)).updatePool next)

section Turn

variable [Add U] {s : IdleState T M} {stashed : List T} {optimized : Bool}
  {batch batch' : MatchmakingAttempt T M U} {book book' : TLBState T M}

omit [TakerBehaviour T] [MarketMaker M U] [MakerBehavior M] [Add U] in
theorem Pass.standing_of_picked {t : T} {book₁ : TLBState T M} {held : Set T}
    (h : Pass s stashed batch book held) (hpick : Picked book t book₁) :
    Standing book.base.takers.active batch t :=
  (h.accounts.standing t).mpr (.inl hpick.spec.1)

theorem Pass.trade [LawfulTaker T] (hs : s.HoldsOnce) (h : Pass s stashed batch book ∅)
    (hcase : TradeCase optimized batch book (.next batch' book')) :
    Trade book.base.takers.active optimized batch batch' book book' := by
  cases hcase with
  | taker picked counterPicked opposite overlap matched =>
    rename_i target counter book₁ book₂ takes spotPrice
    have htarget := h.standing_of_picked picked
    have hcounter : Standing book.base.takers.active batch counter := by
      have hpicked := (h.pick picked).standing_of_picked counterPicked
      rwa [(picked.sound h.sound).2] at hpicked
    have hne : stableId counter ≠ stableId target := by
      intro hid
      obtain rfl := standing_distinct (h.splits.distinct hs) counter target hcounter htarget hid
      exact Side.not_ne _ opposite.symm
    have hpools : ((book₂.onTake takes.1.result).onTake takes.2.result).pools = book.pools := by
      rw [TLBState.pools_onTake, TLBState.pools_onTake, counterPicked.spec.2.2.2,
        picked.spec.2.2.2]
    cases hside : side target with
    | ask =>
      rw [hside] at opposite overlap
      have hoverlap : price target ≤ price counter := of_decide_eq_true overlap
      obtain ⟨low, high⟩ := settlePrice_mem hoverlap (some spotPrice)
      refine .takers htarget hcounter hside opposite hne low high ?_ hpools
      simp only [matched, executeWithTaker, hside]
    | bid =>
      rw [hside] at opposite overlap
      have hoverlap : price counter ≤ price target := of_decide_eq_true overlap
      obtain ⟨low, high⟩ := settlePrice_mem hoverlap (some spotPrice)
      refine .takers hcounter htarget opposite hside hne.symm low high ?_ hpools
      simp only [matched, executeWithTaker, hside]
  | maker picked stored fills overlap matched =>
    rename_i target maker book₁ fill pair
    have hresult : pair.2.result = swap maker ((side target).wrap fill.input) := by rw [matched]; rfl
    cases hswap : swap maker ((side target).wrap fill.input) with
    | term void => exact void.elim
    | succ next =>
      have hmake : pair.2 = ⟨maker, .succ next⟩ := by
        rw [matched, executeWithMaker, hswap]
      rw [picked.spec.2.2.2] at stored
      refine .maker (h.standing_of_picked picked) stored fills overlap hswap ?_ ?_
      · rw [hmake, matched]
      · rw [hmake]
        show (TLBState.preAddMaker _ next).pools = _
        rw [TLBState.pools_preAddMaker, TLBState.pools_onTake, TLBState.pools_pickMakerById,
          picked.spec.2.2.2]

end Turn

end UtxoMonitor.LiquidityBook
