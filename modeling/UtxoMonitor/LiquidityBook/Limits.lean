import Mathlib.Data.NNRat.Floor
import UtxoMonitor.LiquidityBook.Trades

/-! No order is executed worse than its limit. -/
namespace UtxoMonitor.LiquidityBook

open MarketTakers

/-! ### What a linear trade pays, as the integral part of an exact amount -/

section Linear

variable {amount output : Nat} {p : AbsolutePrice}

theorem linearOutputUnsafe_ask : linearOutputUnsafe amount (.ask p) = ⌊amount * p⌋₊ := by
  have hexact : (amount * p : ℚ≥0) = ((amount * p.num : Nat) : ℚ≥0) / (p.den : Nat) := by
    rw [Nat.cast_mul, mul_div_assoc, NNRat.num_div_den]
  rw [hexact, NNRat.floor_natCast_div_natCast, linearOutputUnsafe]

theorem linearOutputUnsafe_bid : linearOutputUnsafe amount (.bid p) = ⌊amount / p⌋₊ := by
  have hexact : (amount / p : ℚ≥0) = ((amount * p.den : Nat) : ℚ≥0) / (p.num : Nat) := by
    conv_lhs => rw [← NNRat.num_div_den p]
    rw [Nat.cast_mul, div_div_eq_mul_div]
  rw [hexact, NNRat.floor_natCast_div_natCast, linearOutputUnsafe]

/-- A linear trade at the price of an exact one pays what that one pays. -/
theorem linearOutputUnsafe_ask_of_price (h : AbsolutePrice.new output amount = some p)  :
    linearOutputUnsafe amount (.ask p) = output := by
  simp only [AbsolutePrice.new, Option.ite_none_left_eq_some, Option.some.injEq] at h
  obtain ⟨hne, rfl⟩ := h
  rw [linearOutputUnsafe_ask, mul_div_cancel₀ _ (Nat.cast_ne_zero.mpr hne), Nat.floor_natCast]

theorem linearOutputUnsafe_bid_of_price (h : AbsolutePrice.new amount output = some p)
    (hpos : amount ≠ 0) : linearOutputUnsafe amount (.bid p) = output := by
  simp only [AbsolutePrice.new, Option.ite_none_left_eq_some, Option.some.injEq] at h
  obtain ⟨hne, rfl⟩ := h
  rw [linearOutputUnsafe_bid, div_div_cancel₀ (Nat.cast_ne_zero.mpr hpos), Nat.floor_natCast]

end Linear

/-! ### Limits -/

def maxPriceDenom : Nat := 1125899906842624

/-- The least price at which an input is worth as much as at `p`, rounded up to a whole output. -/
def hardenPrice (p : ℚ≥0) (input : Nat) : ℚ≥0 :=
  let minOutput := (input * p.num + (p.den - 1)) / p.den
  if 0 < minOutput then minOutput / input else 1 / maxPriceDenom

section Limits

variable {T U : Type} [MarketTaker T U]

/-- The least output for a unit of input. -/
def relativePrice (t : T) : ℚ≥0 :=
  match side t with
  | .ask => price t
  | .bid => (price t)⁻¹

/-- The limit is a price, at which the whole input is worth a whole output. -/
structure Hardened (t : T) : Prop where
  pos : 0 < relativePrice t
  whole : ∃ minOutput : Nat, relativePrice t * input t = minOutput

/-- A hardened price makes a hardened order, unless the input is worth nothing. -/
theorem hardened_of_hardenPrice {t : T} {p : ℚ≥0} (hp : 0 < p) (hinput : 0 < input t)
    (h : relativePrice t = hardenPrice p (input t)) : Hardened t := by
  have hnum : 1 ≤ input t * p.num := Nat.mul_pos hinput (NNRat.num_pos.mpr hp)
  have hden : 0 < p.den := p.den_pos
  have hmin : 0 < (input t * p.num + (p.den - 1)) / p.den :=
    Nat.div_pos (by omega) hden
  have hcast : (0 : ℚ≥0) < input t := Nat.cast_pos.mpr hinput
  rw [hardenPrice, if_pos hmin] at h
  refine ⟨?_, (input t * p.num + (p.den - 1)) / p.den, ?_⟩
  · rw [h]
    exact div_pos (Nat.cast_pos.mpr hmin) hcast
  · rw [h, div_mul_cancel₀ _ hcast.ne']

/-- The take gives at least its limit for what it has removed. -/
structure FairTake (take : TakeInProgress T) : Prop extends ExactTake take where
  fair : relativePrice take.target * take.removedInput ≤ take.addedOutput

theorem relativePrice_congr {t u : T} (h : side u = side t ∧ price u = price t) :
    relativePrice u = relativePrice t := by
  rw [relativePrice, relativePrice, h.1, h.2]

/-- An order that is not traded is given all that it asks for. -/
theorem FairTake.refl (t : T) : FairTake ⟨t, .succ t⟩ where
  toExactTake := .refl t
  fair := by
    rw [TakeInProgress.removedInput_eq]
    simp only [Next.remaining, Nat.sub_self, Nat.cast_zero, mul_zero, zero_le]

variable [TakerBehaviour T]

/-- A trade at the limit or better; only one that fills the order may lose the part of its output
that is not whole. -/
inductive FairTrade (t : T) : Next T TerminalTake → Prop where
  | intro {removedInput addedOutput : Nat} (removed_le : removedInput ≤ input t)
      (fair : relativePrice t * removedInput ≤ addedOutput ∨
        removedInput = input t ∧ ⌊relativePrice t * removedInput⌋₊ ≤ addedOutput) :
      FairTrade t (withAppliedTrade t removedInput addedOutput)

variable [ExactTaker T] {t u : T} {res : Next T TerminalTake}

/-- The part that the last trade loses is made up for, since the whole input is worth a whole
output. -/
theorem FairTake.trade (ht : Hardened t) (h : FairTake ⟨t, .succ u⟩) (htrade : FairTrade u res) :
    FairTake ⟨t, res⟩ := by
  obtain ⟨hle, hfair⟩ := htrade
  rename_i removedInput addedOutput
  obtain ⟨hexact, hremoved, hadded⟩ := h.toExactTake.trade hle addedOutput
  refine ⟨hexact, ?_⟩
  have hleft : input u ≤ input t := h.remaining_le
  have hbefore := h.fair
  rw [TakeInProgress.removedInput_eq, TakeInProgress.addedOutput_eq] at hbefore
  rw [relativePrice_congr (h.same u rfl)] at hfair
  rw [hremoved, hadded, Nat.cast_add, Nat.cast_add, mul_add]
  rcases hfair with hfair | ⟨rfl, hfloor⟩
  · exact add_le_add hbefore hfair
  · obtain ⟨minOutput, hwhole⟩ := ht.whole
    have hsplit : relativePrice t * ((input t - input u : Nat) : ℚ≥0) +
        relativePrice t * input u = minOutput := by
      rw [← mul_add, ← Nat.cast_add, Nat.sub_add_cancel hleft, hwhole]
    rw [hsplit]
    have hneeded : minOutput ≤ output u - output t + ⌊relativePrice t * input u⌋₊ := by
      have hbound : (minOutput : ℚ≥0) ≤
          ((output u - output t : Nat) : ℚ≥0) + relativePrice t * input u := by
        rw [← hsplit]
        exact add_le_add hbefore le_rfl
      have hfl := Nat.floor_mono hbound
      rwa [Nat.floor_natCast, add_comm, Nat.floor_add_natCast zero_le, add_comm] at hfl
    exact_mod_cast hneeded.trans (Nat.add_le_add_left hfloor _)

/-! ### Trades between orders -/

variable {ask bid : T} {settled : AbsolutePrice}

omit [TakerBehaviour T] [ExactTaker T] in
/-- Whoever is not filled gives and gets whole amounts at the settled price or better. -/
theorem tradedAmounts_spec (ask bid : T) (hpos : 0 < settled) :
    (settled * (tradedAmounts ask bid settled).2 ≤ (tradedAmounts ask bid settled).1 ∨
      (tradedAmounts ask bid settled).2 = input ask ∧
        ⌊settled * (tradedAmounts ask bid settled).2⌋₊ ≤ (tradedAmounts ask bid settled).1) ∧
    (settled⁻¹ * (tradedAmounts ask bid settled).1 ≤ (tradedAmounts ask bid settled).2 ∨
      (tradedAmounts ask bid settled).1 = input bid ∧
        ⌊settled⁻¹ * (tradedAmounts ask bid settled).1⌋₊ ≤ (tradedAmounts ask bid settled).2) := by
  have hdemand : linearOutputUnsafe (input bid) (.bid settled) = ⌊settled⁻¹ * input bid⌋₊ := by
    rw [linearOutputUnsafe_bid, div_eq_inv_mul]
  have hexecuted : linearOutputUnsafe (input ask) (.ask settled) = ⌊settled * input ask⌋₊ := by
    rw [linearOutputUnsafe_ask, mul_comm]
  have hworth : settled * ⌊settled⁻¹ * input bid⌋₊ ≤ input bid := by
    calc settled * (⌊settled⁻¹ * input bid⌋₊ : ℚ≥0)
        ≤ settled * (settled⁻¹ * input bid) := mul_le_mul_right (Nat.floor_le zero_le) _
      _ = input bid := mul_inv_cancel_left₀ hpos.ne' _
  unfold tradedAmounts
  dsimp only
  rw [hdemand, hexecuted]
  split
  · rename_i hlt
    exact ⟨.inl hworth, .inr ⟨rfl, Nat.le_refl _⟩⟩
  split
  · rename_i hlt
    refine ⟨.inr ⟨rfl, Nat.le_refl _⟩, .inl ?_⟩
    calc settled⁻¹ * (⌊settled * input ask⌋₊ : ℚ≥0)
        ≤ settled⁻¹ * (settled * input ask) := mul_le_mul_right (Nat.floor_le zero_le) _
      _ = input ask := inv_mul_cancel_left₀ hpos.ne' _
  · rename_i hnlt hngt
    exact ⟨.inl hworth, .inr ⟨rfl, Nat.le_refl _⟩⟩

omit [TakerBehaviour T] [ExactTaker T] in
/-- What is fair at a price is fair at a lower one. -/
theorem fair_of_le {price limit : ℚ≥0} {removedInput whole addedOutput : Nat} (h : limit ≤ price)
    (hfair : price * removedInput ≤ addedOutput ∨
      removedInput = whole ∧ ⌊price * removedInput⌋₊ ≤ addedOutput) :
    limit * removedInput ≤ addedOutput ∨
      removedInput = whole ∧ ⌊limit * removedInput⌋₊ ≤ addedOutput := by
  have hle : limit * removedInput ≤ price * removedInput := mul_le_mul_left h _
  rcases hfair with hfair | ⟨hwhole, hfair⟩
  · exact .inl (hle.trans hfair)
  · exact .inr ⟨hwhole, (Nat.floor_mono hle).trans hfair⟩

omit [ExactTaker T] in
/-- Orders that settle between their limits trade fairly. -/
theorem fairTrade_takers (hside : side ask = .ask) (hside' : side bid = .bid) (hpos : 0 < price ask)
    (low : price ask ≤ settled) (high : settled ≤ price bid) :
    FairTrade ask (withAppliedTrade ask (tradedAmounts ask bid settled).2
      (tradedAmounts ask bid settled).1) ∧
    FairTrade bid (withAppliedTrade bid (tradedAmounts ask bid settled).1
      (tradedAmounts ask bid settled).2) := by
  have hsettled : 0 < settled := hpos.trans_le low
  have hle := tradedAmounts_le ask bid settled
  obtain ⟨hask, hbid⟩ := tradedAmounts_spec ask bid hsettled
  have hlimit : relativePrice ask ≤ settled := by rwa [relativePrice, hside]
  have hlimit' : relativePrice bid ≤ settled⁻¹ := by
    rw [relativePrice, hside']
    exact inv_anti₀ hsettled high
  exact ⟨.intro hle.2 (fair_of_le hlimit hask), .intro hle.1 (fair_of_le hlimit' hbid)⟩

omit [TakerBehaviour T] [ExactTaker T] in
/-- A pool that pays no less than the limit is a fair counterparty. -/
theorem fair_of_overlap {chunk paid : Nat} {realized : AbsolutePrice}
    (hprice : AvailableLiquidity.price ⟨chunk, paid⟩ (side t) = some realized)
    (overlap : ((side t).wrap (price t)).overlaps realized) : relativePrice t * chunk ≤ paid := by
  unfold relativePrice
  cases hside : side t with
  | ask =>
    rw [hside] at hprice overlap
    simp only [AvailableLiquidity.price, AbsolutePrice.new, Option.ite_none_left_eq_some,
      Option.some.injEq] at hprice
    obtain ⟨hne, rfl⟩ := hprice
    have hlimit : price t ≤ paid / chunk := of_decide_eq_true overlap
    calc price t * (chunk : ℚ≥0) ≤ paid / chunk * chunk := mul_le_mul_left hlimit _
      _ = paid := div_mul_cancel₀ _ (Nat.cast_ne_zero.mpr hne)
  | bid =>
    rw [hside] at hprice overlap
    simp only [AvailableLiquidity.price, AbsolutePrice.new, Option.ite_none_left_eq_some,
      Option.some.injEq] at hprice
    obtain ⟨hne, rfl⟩ := hprice
    have hlimit : (chunk : ℚ≥0) / paid ≤ price t := of_decide_eq_true overlap
    refine inv_mul_le_of_le_mul₀ zero_le zero_le ?_
    calc (chunk : ℚ≥0) = chunk / paid * paid := (div_mul_cancel₀ _ (Nat.cast_ne_zero.mpr hne)).symm
      _ ≤ price t * paid := mul_le_mul_left hlimit _

end Limits

/-! ### Pools that pay what they preview -/

section Previews

variable {M U : Type} [MarketMaker M U] [MakerBehavior M]

/-- What a swap of the input really pays. -/
def paidBy (maker : M) (input : OnSide Nat) : Nat :=
  ((MakeInProgress.loss ⟨maker, swap maker input⟩).map OnSide.unwrap).getD 0

/-- The previews of the pools in `P` are what their swaps really pay, also once swapped. -/
structure ExactPreviews (P : M → Prop) : Prop where
  closed : ∀ {maker next : M} {input : OnSide Nat}, P maker → swap maker input = .succ next → P next
  real : ∀ {maker : M} {s : Side} {amount : Nat} {realized : AbsolutePrice}, P maker →
    realPrice maker (s.wrap amount) = some realized →
      AvailableLiquidity.price ⟨amount, paidBy maker (s.wrap amount)⟩ s = some realized
  available : ∀ {maker : M} {s : Side} {limit : AbsolutePrice} {available : AvailableLiquidity},
    P maker → availableLiquidityOnSide maker (s.wrap limit) = some available →
      paidBy maker (s.wrap available.input) = available.output

theorem Fills.price_eq {P : M → Prop} {limit : AbsolutePrice} {demand : Nat} {s : Side}
    {optimized : Bool} {maker : M} {fill : FillPreview} (hP : ExactPreviews P) (hmaker : P maker)
    (h : Fills limit demand s optimized maker fill) :
    AvailableLiquidity.price ⟨fill.input, paidBy maker (s.wrap fill.input)⟩ s = some fill.price := by
  cases h with
  | whole hprice => exact hP.real hmaker hprice
  | part _ havailable hprice _ _ => rwa [hP.available hmaker havailable]

end Previews

/-! ### Runs -/

variable {T M U : Type} [Stable T] [MarketTaker T U] [TakerBehaviour T] [Ord T] [SideOrd T]
  [Stable M] [MarketMaker M U] [MakerBehavior M]

/-- Every take is fair to a hardened order, and every pool pays what it previews. -/
structure Fairly (P : M → Prop) (batch : MatchmakingAttempt T M U) (book : TLBState T M) : Prop where
  takes : ∀ {sid take}, batch.takes.lookup sid = some take → Hardened take.target ∧ FairTake take
  pools : ∀ {pid pool}, book.pools.values.lookup pid = some pool → P pool

section Trades

variable [Add U] [ExactTaker T] {P : M → Prop} {base : MarketTakers T} {optimized : Bool}
  {batch batch' : MatchmakingAttempt T M U} {book book' : TLBState T M}

omit [MarketMaker M U] [MakerBehavior M] [Add U] [ExactTaker T] [TakerBehaviour T] in
/-- An order is traded at the limit of the order that it is what is left of. -/
theorem relativePrice_pos_of_standing {t : T} (hbase : ∀ t ∈ base, Hardened t)
    (h : ∀ {sid take}, batch.takes.lookup sid = some take → Hardened take.target ∧ FairTake take)
    (hstands : Standing base batch t) : 0 < relativePrice t := by
  unfold Standing at hstands
  split at hstands
  · exact (hbase t hstands).pos
  · rename_i take hlookup
    obtain ⟨hhard, hfair⟩ := h hlookup
    rw [relativePrice_congr (hfair.same t hstands)]
    exact hhard.pos

omit [MarketMaker M U] [MakerBehavior M] in
theorem fair_addTake {take : TakeInProgress T} (hbase : ∀ t ∈ base, Hardened t)
    (h : ∀ {sid take}, batch.takes.lookup sid = some take → Hardened take.target ∧ FairTake take)
    (hstands : Standing base batch take.target) (htrade : FairTrade take.target take.result)
    {sid : StableId T} {take' : TakeInProgress T}
    (hlookup : (batch.addTake take).takes.lookup sid = some take') :
    Hardened take'.target ∧ FairTake take' := by
  rw [MatchmakingAttempt.lookup_addTake] at hlookup
  split at hlookup
  · rename_i hid
    subst hid
    unfold Standing at hstands
    split at hstands
    · rename_i hnone
      rw [hnone] at hlookup
      cases hlookup
      have hhard := hbase _ hstands
      exact ⟨hhard, (FairTake.refl take.target).trade hhard htrade⟩
    · rename_i existing hsome
      rw [hsome] at hlookup
      cases hlookup
      obtain ⟨hhard, hfair⟩ := h hsome
      have hexisting : existing = ⟨existing.target, .succ take.target⟩ := by rw [← hstands]
      rw [hexisting] at hfair
      exact ⟨hhard, hfair.trade hhard htrade⟩
  · exact h hlookup

theorem Fairly.trade (hP : ExactPreviews P) (hbase : ∀ t ∈ base, Hardened t)
    (h : Fairly P batch book) (htrade : Trade base optimized batch batch' book book') :
    Fairly P batch' book' := by
  cases htrade with
  | takers hask hbid askSide bidSide apart low high hbatch hpools =>
    rename_i ask bid settled
    have hpos := relativePrice_pos_of_standing hbase h.takes hask
    rw [relativePrice, askSide] at hpos
    obtain ⟨hfairAsk, hfairBid⟩ := fairTrade_takers askSide bidSide hpos low high
    subst hbatch
    refine ⟨fair_addTake hbase (fair_addTake hbase h.takes hask hfairAsk) ?_ hfairBid, ?_⟩
    · rw [standing_addTake, if_neg apart]
      exact hbid
    · rw [hpools]
      exact h.pools
  | maker standing stored fills overlap hswap hbatch hpools =>
    rename_i target maker next fill
    have hmaker := h.pools stored
    subst hbatch
    have htrade : FairTrade target
        (executeWithMaker target maker ((side target).wrap fill.input)).1.result := by
      rw [executeWithMaker, OnSide.unwrap_wrap]
      exact .intro fills.input_le (.inl (fair_of_overlap (fills.price_eq hP hmaker) overlap))
    refine ⟨fair_addTake hbase ?_ ?_ htrade, ?_⟩
    · rw [MatchmakingAttempt.takes_addMake]
      exact h.takes
    · rw [Standing, MatchmakingAttempt.takes_addMake]
      exact standing
    · intro pid pool hlookup
      rw [hpools] at hlookup
      simp only [MarketMakers.updatePool, MarketMakers.take] at hlookup
      by_cases hid : pid = stableId next
      · subst hid
        rw [AList.lookup_insert] at hlookup
        cases hlookup
        exact hP.closed hmaker hswap
      · rw [AList.lookup_insert_ne hid] at hlookup
        by_cases hid' : pid = stableId maker
        · subst hid'
          rw [AList.lookup_erase] at hlookup
          cases hlookup
        · rw [AList.lookup_erase_ne hid'] at hlookup
          exact h.pools hlookup

end Trades

section Runs

variable [Zero U] [Add U] [LT U] [LawfulTaker T] [ExactTaker T] {P : M → Prop} {s : IdleState T M}
  {stashed us ts : List T} {conf : ExecutionConfig U} {a b : Attempt T M U}

/-- Every take of the recipe is paid at least its limit. -/
def MatchmakingRecipe.Fair (recipe : MatchmakingRecipe T M) : Prop :=
  ∀ take, .inl take ∈ recipe.instructions →
    relativePrice take.target * take.removedInput ≤ take.addedOutput

def Attempt.Fair (P : M → Prop) : Attempt T M U → Prop
  | .matching _ batch book => Fairly P batch book
  | .formed _ batch book => Fairly P batch book
  | .returned recipe _ => ∀ r, recipe = some r → r.Fair

omit [Stable T] [Ord T] [SideOrd T] [Zero U] [Add U] [LT U] [LawfulTaker T] [MarketMaker M U]
  [MakerBehavior M] [Stable M] in
/-- What is left over can only add to what is paid. -/
theorem FairTake.finalized {take : TakeInProgress T} (h : FairTake take) (excess : Nat) :
    relativePrice (take.finalized excess).target * (take.finalized excess).removedInput ≤
      (take.finalized excess).addedOutput := by
  obtain ⟨hremaining, hreceived⟩ := take.finalized_result excess
  have hremoved : (take.finalized excess).removedInput = take.removedInput := by
    rw [TakeInProgress.removedInput_eq, TakeInProgress.removedInput_eq, hremaining]
    rfl
  have hadded : take.addedOutput ≤ (take.finalized excess).addedOutput := by
    rw [TakeInProgress.addedOutput_eq, TakeInProgress.addedOutput_eq, hreceived]
    exact Nat.sub_le_sub_right (Nat.le_add_right _ _) _
  rw [hremoved]
  exact h.fair.trans (Nat.cast_le.mpr hadded)

omit [SideOrd T] [Zero U] [Add U] [LT U] [LawfulTaker T] in
theorem Fairly.recipe {batch : MatchmakingAttempt T M U} {book : TLBState T M}
    {takes : List (TakeInProgress T)} {makes : List (MakeInProgress M)} {final : FinalRecipe T M}
    (h : Fairly P batch book) (walk : takes.Perm (batch.takes.entries.map Sigma.snd))
    (hfinal : batch.finalized takes makes = some final) :
    MatchmakingRecipe.Fair ⟨final.instructions⟩ := by
  intro take htake
  obtain ⟨excess, htakes⟩ := takes_of_finalized hfinal
  rw [inl_mem_instructions, htakes] at htake
  obtain ⟨take', hmem, share, rfl⟩ := exists_of_mem_balanceTakes excess htake
  obtain ⟨sid, hlookup⟩ := MatchmakingAttempt.mem_takes.mp (walk.mem_iff.mp hmem)
  exact (h.takes hlookup).2.finalized share

omit [TakerBehaviour T] [MakerBehavior M] [MarketMaker M U] [Add U] [LT U] [LawfulTaker T]
  [ExactTaker T] in
/-- A pass starts anew from the pools of the settled book. -/
theorem Fairly.restart {batch : MatchmakingAttempt T M U} {book : TLBState T M} {held : Set T}
    (h : Fairly P batch book) (hpass : Pass s stashed batch book held)
    (hmakers : ∀ maker ∈ s.makers.pools, P maker) :
    Fairly P (.empty : MatchmakingAttempt T M U) (book.rollback (.stash ts)) := by
  refine ⟨fun hlookup => (by cases hlookup), ?_⟩
  rcases book.rollback_stash ts with hback | ⟨hback, -⟩
  · have hpools : (book.base.stash ts).book.pools = s.makers := by
      rw [← hpass.splits.makers]
      unfold Base.book
      split <;> rfl
    intro pid pool hlookup
    rw [hback, hpools] at hlookup
    exact hmakers _ (MarketMakers.mem_pools hlookup)
  · rw [hback]
    exact h.pools

theorem Attempt.Fair.step (hs : s.HoldsOnce) (hP : ExactPreviews P)
    (hbase : ∀ t, s.Has t → Hardened t)
    (hmakers : ∀ maker ∈ s.makers.pools, P maker)
    (hkeeps : a.Keeps s stashed) (h : a.Fair P) (hstep : Step conf a us b) : b.Fair P := by
  cases hstep with
  | next room walk walk' hturn =>
    have htrade := hkeeps.1.trade hs (hturn ▸ turn_trade conf walk')
    exact Fairly.trade hP (fun t ht => hbase t (hkeeps.1.splits.has ht)) h htrade
  | stop room walk walk' hturn =>
    rename_i optimized batch book book' makers makers'
    have hcase : TradeCase optimized batch book (.stop book') := hturn ▸ turn_trade conf walk'
    cases hcase with
    | idle => exact h
    | unmatched picked =>
      refine ⟨h.takes, ?_⟩
      rw [TLBState.pools_preAddTaker, picked.spec.2.2.2]
      exact h.pools
  | full full => exact h
  | pass walk walk' hout =>
    rename_i optimized batch book takes makes outcome
    have hcase := outcome_case batch takes makes conf.baseStepBudget
    rw [hout] at hcase
    cases hcase with
    | failed =>
      intro r hr
      cases hr
    | ok complete hfinal =>
      intro r hr
      cases hr
      exact h.recipe walk hfinal
    | dissatisfiedTakers complete hfinal unsatisfied => exact h.restart hkeeps.1 hmakers
    | downgradeNeeded complete hfinal complex => exact h.restart hkeeps.1 hmakers

theorem Attempt.Fair.run (hs : s.HoldsOnce) (hP : ExactPreviews P)
    (hbase : ∀ t, s.Has t → Hardened t) (hmakers : ∀ maker ∈ s.makers.pools, P maker)
    (hrun : Run conf (start (.idle s)) stashed a) : a.Fair P := by
  induction hrun with
  | refl =>
    refine ⟨fun hlookup => (by cases hlookup), ?_⟩
    intro pid pool hlookup
    exact hmakers _ (MarketMakers.mem_pools hlookup)
  | step run hstep ih => exact ih.step hs hP hbase hmakers (Keeps.run hs run) hstep

/-- Every take of every recipe is paid at least its limit for what it gives, whatever it was matched
with and in however many parts. -/
theorem attempt_recipe_fair (hs : s.HoldsOnce) (hbase : ∀ t, s.Has t → Hardened t)
    (hP : ExactPreviews P) (hmakers : ∀ maker ∈ s.makers.pools, P maker)
    {recipe : MatchmakingRecipe T M} {book : TLBState T M}
    (hrun : Attempt.Run conf (.start (.idle s)) stashed (.returned (some recipe) book)) :
    recipe.Fair :=
  Attempt.Fair.run hs hP hbase hmakers hrun recipe rfl

end Runs

section Sample

instance : ExactTaker SimpleOrderPF where
  remaining_applied {t removedInput} addedOutput h := by
    dsimp only [withAppliedTrade, SimpleOrderPF.tryTerminate]
    split <;> exact Nat.sub_add_cancel h
  received_applied {t removedInput} addedOutput h := by
    dsimp only [withAppliedTrade, SimpleOrderPF.tryTerminate]
    split <;> rfl
  same_of_succ h := by
    rw [(SimpleOrderPF.withAppliedTrade_succ h).2]
    exact ⟨rfl, rfl⟩
  withOutputAdded t excess := ⟨rfl, rfl⟩
  withFeeCharged t fee := ⟨rfl, rfl⟩
  withBudgetCorrected t delta := ⟨rfl, rfl⟩
  tryTerminate t := by
    dsimp only [tryTerminate, SimpleOrderPF.tryTerminate]
    split <;> exact ⟨rfl, rfl⟩

/-- The pool of the tests previews its own swaps. -/
theorem exactPreviews_simple : ExactPreviews fun _ : SimpleCFMMPool => True where
  closed _ _ := trivial
  real {maker s amount realized} _ h := by
    cases s <;> exact h
  available _ h := by cases h

theorem hardened_sampleOrders {t : SimpleOrderPF} (h : t ∈ sampleOrders 0) : Hardened t := by
  simp only [sampleOrders, List.mem_cons, List.not_mem_nil, or_false] at h
  rcases h with rfl | rfl | rfl
  · exact ⟨by decide +kernel, 10000, by decide +kernel⟩
  · exact ⟨by decide +kernel, 1000, by decide +kernel⟩
  · exact ⟨by decide +kernel, 100, by decide +kernel⟩

theorem attempt_recipe_fair_sample : ∃ stashed recipe book,
    Attempt.Run sampleConf (.start (.idle (bookOf (sampleOrders 0)))) stashed
      (.returned (some recipe) book) ∧ recipe.Fair := by
  have hcheck : (Attempt.outcome sampleConf 2 (.idle (bookOf (sampleOrders 0)))).isSome := by
    decide +kernel
  obtain ⟨⟨stashed, batch, recipe, book⟩, houtcome⟩ := Option.isSome_iff_exists.mp hcheck
  obtain ⟨optimized, hrun, hstep⟩ := Attempt.run_of_outcome houtcome
  exact ⟨_, recipe, book, hrun.step hstep,
    attempt_recipe_fair (holdsOnce_bookOf (distinct_sampleOrders 0))
      (fun t ht => hardened_sampleOrders (mem_of_has_insertAll ht)) exactPreviews_simple
      (fun _ _ => trivial) (hrun.step hstep)⟩

end Sample

end UtxoMonitor.LiquidityBook
