import UtxoMonitor.LiquidityBook.Matching
import UtxoMonitor.LiquidityBook.Rollback

/-! What one turn of the matching loop can do, said once for everything that is proved of a run. -/
namespace UtxoMonitor.LiquidityBook

open MarketTakers

variable {T M U : Type} [Stable T] [MarketTaker T U] [TakerBehaviour T] [Ord T] [SideOrd T]
  [Stable M] [MarketMaker M U] [MakerBehavior M]

/-! ### Picks and additions -/

section Picks

omit [Stable T] [TakerBehaviour T] [MarketMaker M U] [MakerBehavior M]

/-- The order is taken out of the active ones. -/
def Picked (book : TLBState T M) (t : T) (book' : TLBState T M) : Prop :=
  ∃ f : Picker T, book.pickActiveTaker f.pick = (some t, book')

namespace TLBState

variable {book book' : TLBState T M} {t u : T} {s : Side}

/-- The orders added for later, with the time at which each becomes active. -/
def changeset : TLBState T M → List (Nat × T)
  | preview st => st.inactiveTakersChangeset
  | _ => []

theorem pickActiveTaker_cases (book : TLBState T M) (f : Picker T) :
    book.pickActiveTaker f.pick = (none, book) ∨ ∃ t ∈ book.activeFragments, ∃ book',
      book.pickActiveTaker f.pick = (some t, book') ∧
      book'.activeFragments = book.activeFragments.remove t ∧
      book'.changeset = book.changeset ∧ book'.pools = book.pools := by
  rcases f.takes book.activeFragments with hf | ⟨t, ht, hf⟩
  · refine .inl ?_
    cases book <;> (rw [activeFragments] at hf; rw [pickActiveTaker, hf])
  · refine .inr ⟨t, ht, ?_⟩
    cases book <;>
      (rw [activeFragments] at hf; rw [pickActiveTaker, hf]; exact ⟨_, rfl, rfl, rfl, rfl⟩)

theorem eq_of_pick_none {f : Picker T} (h : book.pickActiveTaker f.pick = (none, book')) :
    book' = book := by
  rcases book.pickActiveTaker_cases f with hf | ⟨t, -, next, hf, -⟩
  · exact (congrArg Prod.snd (hf.symm.trans h)).symm
  · rw [hf] at h
    cases h

/-- There is a counterparty whenever there is a best price, and the price is its own. -/
theorem tryPickTaker_of_price {p : OnSide AbsolutePrice} (h : book.bestTakerPrice s = some p) :
    ∃ t book', book.tryPickTaker s (fun _ => true) = (some t, book') ∧ side t = s ∧
      p = s.wrap (price t) := by
  obtain ⟨t, hfirst, hprice⟩ := Option.map_eq_some_iff.mp h
  have hpick : tryPickFr s (fun _ => true) book.activeFragments =
      (some t, book.activeFragments.remove t) := by
    rw [tryPickFr, popFirst_eq, hfirst]
    rfl
  refine ⟨t, (book.tryPickTaker s fun _ => true).2, ?_, (mem_of_first hfirst).2, hprice.symm⟩
  cases book <;>
    (rw [activeFragments] at hpick; rw [tryPickTaker, pickActiveTaker, hpick])

end TLBState

namespace Picked

variable {book book' : TLBState T M} {t : T}

theorem spec (h : Picked book t book') : t ∈ book.activeFragments ∧
    book'.activeFragments = book.activeFragments.remove t ∧
    book'.changeset = book.changeset ∧ book'.pools = book.pools := by
  obtain ⟨f, hf⟩ := h
  rcases book.pickActiveTaker_cases f with hnone | ⟨u, hu, next, hnext, hspec⟩
  · rw [hnone] at hf
    cases hf
  · rw [hnext] at hf
    cases hf
    exact ⟨hu, hspec⟩

theorem sound (h : Picked book t book') (hs : book.Sound) :
    book'.Sound ∧ book'.base = book.base := by
  obtain ⟨f, hf⟩ := h
  have hpick := hs.pickActiveTaker f
  rwa [hf] at hpick

end Picked

namespace TLBState

variable {book book' : TLBState T M}

theorem activeFragments_moveIntoPreview (book : TLBState T M) :
    book.moveIntoPreview.activeTakersPreview = book.activeFragments ∧
      book.moveIntoPreview.inactiveTakersChangeset = book.changeset ∧
      book.moveIntoPreview.makersPreview = book.pools := by
  cases book <;> exact ⟨rfl, rfl, rfl⟩

/-- A new order is active at once, or waits for its time. -/
theorem preAddTaker_cases (book : TLBState T M) (t : T) :
    ((book.preAddTaker t).activeFragments = book.activeFragments.insert t ∧
      (book.preAddTaker t).changeset = book.changeset) ∨
    ((book.preAddTaker t).activeFragments = book.activeFragments ∧
      ∃ time, (book.preAddTaker t).changeset = book.changeset ++ [(time, t)]) := by
  obtain ⟨hactive, hchangeset, -⟩ := book.activeFragments_moveIntoPreview
  rw [← hactive, ← hchangeset]
  unfold preAddTaker
  dsimp only
  split
  · rename_i time _
    split
    · exact .inr ⟨rfl, time, rfl⟩
    · exact .inl ⟨rfl, rfl⟩
  · exact .inl ⟨rfl, rfl⟩

omit [SideOrd T] in
theorem pickMakerById_spec (book : TLBState T M) (pid : StableId M) :
    (book.pickMakerById pid).1 = book.pools.values.lookup pid ∧
      (book.pickMakerById pid).2.activeFragments = book.activeFragments ∧
      (book.pickMakerById pid).2.changeset = book.changeset := by
  cases book <;> exact ⟨rfl, rfl, rfl⟩

theorem preAddMaker_spec [MarketMaker M U] (book : TLBState T M) (pool : M) :
    (book.preAddMaker pool).activeFragments = book.activeFragments ∧
      (book.preAddMaker pool).changeset = book.changeset := by
  cases book <;> exact ⟨rfl, rfl⟩

/-! ### What a trade leaves -/

/-- The book has changes that are not committed. -/
def Changed : TLBState T M → Prop
  | idle _ => False
  | partialPreview _ => True
  | preview _ => True

variable {E : Type} {t : T}

theorem changed_of_picked (h : Picked book t book') : book'.Changed := by
  obtain ⟨f, hf⟩ := h
  rcases f.takes book.activeFragments with hpick | ⟨u, -, hpick⟩
  · cases book <;> (rw [activeFragments] at hpick; rw [pickActiveTaker, hpick] at hf; cases hf)
  · cases book <;>
      (rw [activeFragments] at hpick; rw [pickActiveTaker, hpick] at hf; cases hf; trivial)

theorem changed_preAddTaker (book : TLBState T M) (t : T) : (book.preAddTaker t).Changed := by
  unfold preAddTaker
  dsimp only
  split
  · split <;> trivial
  · trivial

theorem Changed.onTake (h : book.Changed) (res : Next T E) : (book.onTake res).Changed := by
  cases res with
  | succ next => exact book.changed_preAddTaker next
  | term last => exact h

theorem Changed.onMake [MarketMaker M U] (h : book.Changed) (res : Next M E) :
    (book.onMake res).Changed := by
  cases res with
  | succ next => trivial
  | term last => exact h

omit [SideOrd T] in
theorem changed_pickMakerById (book : TLBState T M) (pid : StableId M) :
    (book.pickMakerById pid).2.Changed := by
  cases book <;> trivial

theorem Sound.onTake (h : book.Sound) (res : Next T E) :
    (book.onTake res).Sound ∧ (book.onTake res).base = book.base := by
  cases res with
  | succ next => exact book.preAddTaker_base next
  | term last => exact ⟨h, rfl⟩

theorem Sound.onMake [MarketMaker M U] (h : book.Sound) (res : Next M E) :
    (book.onMake res).Sound ∧ (book.onMake res).base = book.base := by
  cases res with
  | succ next => exact book.preAddMaker_base next
  | term last => exact ⟨h, rfl⟩

theorem onMake_spec [MarketMaker M U] (book : TLBState T M) (res : Next M E) :
    (book.onMake res).activeFragments = book.activeFragments ∧
      (book.onMake res).changeset = book.changeset := by
  cases res with
  | succ next => exact book.preAddMaker_spec next
  | term last => exact ⟨rfl, rfl⟩

end TLBState

omit [SideOrd T] in
theorem Base.book_spec (b : Base T M) :
    b.book.activeFragments = b.takers.active ∧ b.book.changeset = [] := by
  unfold Base.book
  split <;> exact ⟨rfl, rfl⟩

end Picks

/-! ### Turns -/

/-- The price at which liquidity is exchanged as a whole. -/
def AvailableLiquidity.price (available : AvailableLiquidity) : Side → Option AbsolutePrice
  | .bid => AbsolutePrice.new available.input available.output
  | .ask => AbsolutePrice.new available.output available.input

section Preselect

/-- What a pool fills of the demand, as the pool previews it. -/
inductive Fills (price : AbsolutePrice) (demand : Nat) (s : Side) (optimized : Bool) (maker : M) :
    FillPreview → Prop where
  | whole {realized : AbsolutePrice} (hprice : realPrice maker (s.wrap demand) = some realized) :
      Fills price demand s optimized maker ⟨realized, demand⟩
  | part {available : AvailableLiquidity} {realized : AbsolutePrice} (optimized_eq : optimized = true)
      (havailable : availableLiquidityOnSide maker (s.wrap price) = some available)
      (hprice : available.price s = some realized)
      (pos : 0 < available.input) (le : available.input ≤ demand) :
      Fills price demand s optimized maker ⟨realized, available.input⟩

variable {makers : List M} {p : AbsolutePrice} {demand : Nat} {s : Side} {optimized : Bool}
  {sid : StableId M} {fill : FillPreview} {maker : M}

omit [MakerBehavior M]

omit [Stable M] in
theorem Fills.input_le (h : Fills p demand s optimized maker fill) : fill.input ≤ demand := by
  cases h with
  | whole => exact Nat.le_refl _
  | part _ _ _ _ le => exact le

omit [Stable M] in
theorem Fills.demand_eq_zero (h : Fills p demand s optimized maker fill) (h0 : fill.input = 0) :
    demand = 0 := by
  cases h with
  | whole => exact h0
  | part _ _ _ pos _ => exact absurd h0 pos.ne'

omit [Stable M] in
theorem Fills.input_eq (h : Fills p demand s false maker fill) : fill.input = demand := by
  cases h with
  | whole => rfl
  | part optimized_eq => cases optimized_eq

/-- A preselected pool is one of those walked; it takes a part of the demand, and all of it outside
the optimized mode. -/
theorem preselect_spec
    (h : preselectMarketMaker makers p demand s optimized = some (sid, fill)) :
    ∃ maker ∈ makers, stableId maker = sid ∧ Fills p demand s optimized maker fill := by
  have hdummy : ∀ maker : M, dummySwap demand s maker = some (sid, fill) →
      stableId maker = sid ∧ Fills p demand s optimized maker fill := by
    intro maker hfill
    obtain ⟨price, hprice, heq⟩ := Option.map_eq_some_iff.mp hfill
    cases heq
    exact ⟨rfl, .whole hprice⟩
  have hoptimized : ∀ maker : M, optimized = true → tryOptimizedSwap p demand s maker =
      some (sid, fill) → stableId maker = sid ∧ Fills p demand s optimized maker fill := by
    intro maker ho hfill
    obtain ⟨available, havailable, hfill⟩ := Option.bind_eq_some_iff.mp hfill
    obtain ⟨price, hprice, hfill⟩ := Option.bind_eq_some_iff.mp hfill
    split at hfill
    · rename_i hroom
      cases hfill
      refine ⟨rfl, .part ho havailable ?_ hroom.1 hroom.2⟩
      cases s <;> exact hprice
    · cases hfill
  have hmem : (sid, fill) ∈ (makers.filter fun pool => isActive pool).filterMap fun p' =>
      if optimized then (tryOptimizedSwap p demand s p').or (dummySwap demand s p')
      else dummySwap demand s p' := by
    cases s with
    | bid => exact mem_of_minByKey h
    | ask => exact mem_of_maxByKey h
  obtain ⟨maker, hmaker, hfill⟩ := List.mem_filterMap.mp hmem
  refine ⟨maker, List.mem_of_mem_filter hmaker, ?_⟩
  cases optimized with
  | false => exact hdummy maker hfill
  | true =>
    rw [if_pos rfl, Option.or_eq_some_iff] at hfill
    rcases hfill with hfill | ⟨-, hfill⟩
    · exact hoptimized maker rfl hfill
    · exact hdummy maker hfill

end Preselect

section Execute

variable {target counter : T}

omit [Stable T] [Ord T] [SideOrd T]

/-- An ask and a bid trade, each of them one of the two orders. -/
theorem executeWithTaker_spec (opposite : side counter = (side target).not)
    (matchmaker : T → T → AbsolutePrice) :
    ∃ ask bid price, executeWithTaker target counter matchmaker =
        (⟨ask, withAppliedTrade ask (tradedAmounts ask bid price).2 (tradedAmounts ask bid price).1⟩,
          ⟨bid, withAppliedTrade bid (tradedAmounts ask bid price).1
            (tradedAmounts ask bid price).2⟩) ∧
      side bid ≠ side ask ∧ (ask = target ∧ bid = counter ∨ ask = counter ∧ bid = target) := by
  cases hside : side target with
  | ask =>
    refine ⟨target, counter, matchmaker target counter, ?_, ?_, .inl ⟨rfl, rfl⟩⟩
    · simp only [executeWithTaker, hside]
    · rw [opposite]
      exact Side.not_ne _
  | bid =>
    refine ⟨counter, target, matchmaker counter target, ?_, ?_, .inr ⟨rfl, rfl⟩⟩
    · simp only [executeWithTaker, hside]
    · rw [opposite]
      exact (Side.not_ne _).symm

end Execute

section KeepsId

omit [SideOrd T]

/-- What is left of the order keeps its identifier. -/
def KeepsId (take : TakeInProgress T) : Prop :=
  ∀ next, take.result = .succ next → stableId next = stableId take.target

variable [LawfulTaker T] {target counter : T}

theorem keepsId_executeWithTaker
    (opposite : side counter = (side target).not) (matchmaker : T → T → AbsolutePrice) :
    KeepsId (executeWithTaker target counter matchmaker).1 ∧
      KeepsId (executeWithTaker target counter matchmaker).2 := by
  obtain ⟨ask, bid, price, htakes, -⟩ := executeWithTaker_spec opposite matchmaker
  rw [htakes]
  exact ⟨fun _ => LawfulTaker.stableId_of_succ U, fun _ => LawfulTaker.stableId_of_succ U⟩

omit [Stable M] in
theorem keepsId_executeWithMaker (target : T) (maker : M)
    (chunkSize : OnSide Nat) : KeepsId (executeWithMaker target maker chunkSize).1 :=
  fun _ => LawfulTaker.stableId_of_succ U

end KeepsId

section Turns

variable [Add U]

/-- The attempt and the book that a turn leaves satisfy `P`. -/
def Turn.All (P : MatchmakingAttempt T M U → TLBState T M → Prop)
    (batch : MatchmakingAttempt T M U) : Turn T M U → Prop
  | .next batch' book' => P batch' book'
  | .stop book' => P batch book'

/-- What a turn of the loop does to the attempt and the book. -/
inductive TurnCase (optimized : Bool) (batch : MatchmakingAttempt T M U) (book : TLBState T M) :
    Turn T M U → Prop where
  /-- There is no price, or no order to serve. -/
  | idle : TurnCase optimized batch book (.stop book)
  /-- The order to serve finds no match. -/
  | unmatched {target : T} {book₁ : TLBState T M} (picked : Picked book target book₁) :
      TurnCase optimized batch book (.stop (book₁.preAddTaker target))
  | taker {target counter : T} {book₁ book₂ : TLBState T M} {takes : TakeInProgress T × _}
      {matchmaker : T → T → AbsolutePrice} (picked : Picked book target book₁)
      (counterPicked : Picked book₁ counter book₂) (opposite : side counter = (side target).not)
      (matched : takes = executeWithTaker target counter matchmaker) :
      TurnCase optimized batch book (.next ((batch.addTake takes.1).addTake takes.2)
        ((book₂.onTake takes.1.result).onTake takes.2.result))
  | maker {target : T} {maker : M} {book₁ : TLBState T M} {chunk : Nat}
      {pair : TakeInProgress T × MakeInProgress M} (picked : Picked book target book₁)
      (chunk_le : chunk ≤ input target) (chunk_zero : chunk = 0 → input target = 0)
      (whole : optimized = false → chunk = input target)
      (matched : pair = executeWithMaker target maker ((side target).wrap chunk)) :
      TurnCase optimized batch book (.next ((batch.addMake pair.2).addTake pair.1)
        (((book₁.pickMakerById (stableId maker)).2.onTake pair.1.result).onMake pair.2.result))

/-- What a turn of the loop does, with the prices that have decided it. -/
inductive TradeCase (optimized : Bool) (batch : MatchmakingAttempt T M U) (book : TLBState T M) :
    Turn T M U → Prop where
  /-- There is no price, or no order to serve. -/
  | idle : TradeCase optimized batch book (.stop book)
  /-- The order to serve finds no match. -/
  | unmatched {target : T} {book₁ : TLBState T M} (picked : Picked book target book₁) :
      TradeCase optimized batch book (.stop (book₁.preAddTaker target))
  | taker {target counter : T} {book₁ book₂ : TLBState T M} {takes : TakeInProgress T × _}
      {spotPrice : SpotPrice} (picked : Picked book target book₁)
      (counterPicked : Picked book₁ counter book₂) (opposite : side counter = (side target).not)
      (overlap : ((side target).wrap (price target)).overlaps (price counter))
      (matched : takes = executeWithTaker target counter fun ask bid =>
        settlePrice ask bid (some spotPrice)) :
      TradeCase optimized batch book (.next ((batch.addTake takes.1).addTake takes.2)
        ((book₂.onTake takes.1.result).onTake takes.2.result))
  | maker {target : T} {maker : M} {book₁ : TLBState T M} {fill : FillPreview}
      {pair : TakeInProgress T × MakeInProgress M} (picked : Picked book target book₁)
      (stored : book₁.pools.values.lookup (stableId maker) = some maker)
      (fills : Fills (price target) (input target) (side target) optimized maker fill)
      (overlap : ((side target).wrap (price target)).overlaps fill.price)
      (matched : pair = executeWithMaker target maker ((side target).wrap fill.input)) :
      TradeCase optimized batch book (.next ((batch.addMake pair.2).addTake pair.1)
        (((book₁.pickMakerById (stableId maker)).2.onTake pair.1.result).onMake pair.2.result))

variable {optimized : Bool} {batch : MatchmakingAttempt T M U} {book book₁ : TLBState T M}
  {target : T} {spotPrice : SpotPrice}

theorem TradeCase.turnCase {next : Turn T M U} (h : TradeCase optimized batch book next) :
    TurnCase optimized batch book next := by
  cases h with
  | idle => exact .idle
  | unmatched picked => exact .unmatched picked
  | taker picked counterPicked opposite overlap matched =>
    exact .taker picked counterPicked opposite matched
  | maker picked stored fills overlap matched =>
    refine .maker picked fills.input_le fills.demand_eq_zero (fun ho => ?_) matched
    subst ho
    exact fills.input_eq

theorem matchWithTaker_case (picked : Picked book target book₁) {p : OnSide AbsolutePrice}
    (hprice : book₁.bestTakerPrice (side target).not = some p)
    (hoverlap : ((side target).wrap (price target)).overlaps p.unwrap) :
    TradeCase optimized batch book (matchWithTaker batch book₁ target spotPrice) := by
  obtain ⟨counter, book₂, hpick, hside, rfl⟩ := book₁.tryPickTaker_of_price hprice
  rw [OnSide.unwrap_wrap] at hoverlap
  rw [matchWithTaker, hpick]
  exact .taker picked ⟨Picker.tryPickFr _ _, hpick⟩ hside hoverlap rfl

theorem matchWithMaker_case (picked : Picked book target book₁) {maker : M} {fill : FillPreview}
    (hmaker : book₁.pools.values.lookup (stableId maker) = some maker)
    (hfills : Fills (price target) (input target) (side target) optimized maker fill)
    (hoverlap : ((side target).wrap (price target)).overlaps fill.price) :
    TradeCase optimized batch book (matchWithMaker batch book₁ target (stableId maker) fill) := by
  obtain ⟨hfst, -⟩ := book₁.pickMakerById_spec (stableId maker)
  have hpick : book₁.pickMakerById (stableId maker) =
      (some maker, (book₁.pickMakerById (stableId maker)).2) := Prod.ext (hfst.trans hmaker) rfl
  rw [matchWithMaker, hpick]
  exact .maker picked hmaker hfills hoverlap rfl

omit [MarketMaker M U] [MakerBehavior M] [Add U] in
theorem prefersTaker_spec {conf : ExecutionConfig U} {targetPrice : OnSide AbsolutePrice}
    {priceCounterTaker : Option (OnSide AbsolutePrice)}
    {priceMaker : Option (StableId M × FillPreview)}
    (h : prefersTaker conf targetPrice priceCounterTaker priceMaker) :
    ∃ p, priceCounterTaker = some p ∧ targetPrice.overlaps p.unwrap := by
  unfold prefersTaker at h
  split at h
  · rename_i p _ _
    simp only [Bool.and_eq_true] at h
    exact ⟨p, rfl, h.1.2⟩
  · cases h

theorem matchTaker_case {conf : ExecutionConfig U} (picked : Picked book target book₁)
    {priceMaker : Option (StableId M × FillPreview)}
    (hpre : ∀ sid fill, priceMaker = some (sid, fill) →
      ∃ maker, book₁.pools.values.lookup (stableId maker) = some maker ∧ stableId maker = sid ∧
        Fills (price target) (input target) (side target) optimized maker fill) :
    TradeCase optimized batch book (matchTaker conf batch book₁ target spotPrice priceMaker) := by
  unfold matchTaker
  dsimp only
  split
  · rename_i hprefers
    obtain ⟨p, hprice, hoverlap⟩ := prefersTaker_spec hprefers
    exact matchWithTaker_case picked hprice hoverlap
  split
  · rename_i sid fill _
    obtain ⟨maker, hmaker, rfl, hfills⟩ := hpre sid fill rfl
    split
    · rename_i hoverlap
      exact matchWithMaker_case picked hmaker hfills hoverlap
    · exact .unmatched picked
  · exact .unmatched picked

theorem turn_trade (conf : ExecutionConfig U) {makers makers' : List M}
    (walk' : makers'.Perm book.pools.pools) :
    TradeCase optimized batch book (turn conf optimized makers makers' batch book) := by
  unfold turn
  split
  · exact .idle
  rename_i bestMaker _
  dsimp only
  have hpicker := book.pickActiveTaker_cases
    (Picker.maxByDistanceToSpot (staticPrice bestMaker) book.allowedPriceRange)
  split
  · rename_i book' hpick
    rw [TLBState.eq_of_pick_none (f := Picker.maxByDistanceToSpot _ _) hpick]
    exact .idle
  · rename_i target book₁ hpick
    have picked : Picked book target book₁ := ⟨Picker.maxByDistanceToSpot _ _, hpick⟩
    apply matchTaker_case picked
    intro sid fill hfill
    obtain ⟨maker, hmaker, hid, hfills⟩ := preselect_spec hfill
    refine ⟨maker, ?_, hid, hfills⟩
    rw [picked.spec.2.2.2]
    exact MarketMakers.exists_lookup_of_mem (walk'.mem_iff.mp hmaker)

theorem turn_case (conf : ExecutionConfig U) {makers makers' : List M}
    (walk' : makers'.Perm book.pools.pools) :
    TurnCase optimized batch book (turn conf optimized makers makers' batch book) :=
  (turn_trade conf walk').turnCase

theorem TurnCase.changed_of_next {batch' : MatchmakingAttempt T M U} {book' : TLBState T M}
    (h : TurnCase optimized batch book (.next batch' book')) :
    book'.Changed := by
  cases h with
  | taker picked counterPicked opposite matched =>
    exact ((TLBState.changed_of_picked counterPicked).onTake _).onTake _
  | maker picked chunk_le chunk_zero whole matched =>
    exact ((TLBState.changed_pickMakerById _ _).onTake _).onMake _

theorem TurnCase.changed_of_stop {book' : TLBState T M}
    (h : TurnCase optimized batch book (.stop book'))
    (hchanged : book.Changed) : book'.Changed := by
  cases h with
  | idle => exact hchanged
  | unmatched picked => exact TLBState.changed_preAddTaker _ _

end Turns

/-! ### Steps -/

section Steps

variable [Zero U] [Add U] [LT U]

/-- What a step of `attempt` does. -/
inductive Attempt.StepCase (conf : ExecutionConfig U) :
    Attempt T M U → List T → Attempt T M U → Prop where
  | next {optimized : Bool} {batch batch' : MatchmakingAttempt T M U} {book book' : TLBState T M}
      (hturn : TurnCase optimized batch book (.next batch' book')) :
      StepCase conf (.matching optimized batch book) [] (.matching optimized batch' book')
  | stop {optimized : Bool} {batch : MatchmakingAttempt T M U} {book book' : TLBState T M}
      (hturn : TurnCase optimized batch book (.stop book')) :
      StepCase conf (.matching optimized batch book) [] (.formed optimized batch book')
  | full {optimized : Bool} {batch : MatchmakingAttempt T M U} {book : TLBState T M} :
      StepCase conf (.matching optimized batch book) [] (.formed optimized batch book)
  | failed {optimized : Bool} {batch : MatchmakingAttempt T M U} {book : TLBState T M} :
      StepCase conf (.formed optimized batch book) [] (.returned none (book.rollback .unstash))
  | ok {optimized : Bool} {batch : MatchmakingAttempt T M U} {book : TLBState T M}
      {recipe : MatchmakingRecipe T M} (madeOf : MadeOf recipe batch) :
      StepCase conf (.formed optimized batch book) [] (.returned (some recipe) book)
  | dissatisfiedTakers {optimized : Bool} {batch : MatchmakingAttempt T M U}
      {book : TLBState T M} {ts : List T} (complete : batch.isComplete) (hne : ts ≠ [])
      (hts : ∀ t ∈ ts, t ∈ batch.targets) :
      StepCase conf (.formed optimized batch book) ts
        (.matching optimized .empty (book.rollback (.stash ts)))
  | downgradeNeeded {optimized : Bool} {batch : MatchmakingAttempt T M U} {book : TLBState T M}
      {takes : List (TakeInProgress T)} {makes : List (MakeInProgress M)}
      (walk : takes.Perm (batch.takes.entries.map Sigma.snd))
      (walk' : makes.Perm (batch.makes.entries.map Sigma.snd))
      (hout : MatchmakingRecipe.tryFrom batch takes makes conf.baseStepBudget =
        .error .downgradeNeeded) (complete : batch.isComplete) :
      StepCase conf (.formed optimized batch book) []
        (.matching false .empty (book.rollback (.stash [])))

theorem Attempt.step_case {conf : ExecutionConfig U} {a b : Attempt T M U} {ts : List T}
    (h : Step conf a ts b) : StepCase conf a ts b := by
  cases h with
  | next room walk walk' hturn => exact .next (hturn ▸ turn_case conf walk')
  | stop room walk walk' hturn => exact .stop (hturn ▸ turn_case conf walk')
  | full full => exact .full
  | pass walk walk' hout =>
    rename_i optimized batch book takes makes outcome
    have hcase := outcome_case batch takes makes conf.baseStepBudget
    rw [hout] at hcase
    cases hcase with
    | failed => exact .failed
    | ok complete hfinal => exact .ok (madeOf_of_finalized walk hfinal)
    | dissatisfiedTakers complete hfinal unsatisfied =>
      refine .dissatisfiedTakers complete unsatisfied fun t ht => ?_
      rw [MatchmakingAttempt.targets, ← (walk.map Trans.target).mem_iff,
        ← targets_finalized hfinal]
      exact mem_targets_of_unsatisfied ht
    | downgradeNeeded complete hfinal complex => exact .downgradeNeeded walk walk' hout complete

end Steps

end UtxoMonitor.LiquidityBook
