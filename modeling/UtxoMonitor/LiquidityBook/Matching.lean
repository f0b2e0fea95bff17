import UtxoMonitor.LiquidityBook.Queries
import UtxoMonitor.LiquidityBook.Recipe

/-! The matchmaking of a book: passes over its orders until there is a recipe or none. -/
namespace UtxoMonitor.LiquidityBook

/-! ### Swaps -/

structure FillPreview where
  price : AbsolutePrice
  input : Nat

section Makers

variable {M U : Type} [Stable M] [MarketMaker M U]

def dummySwap (demand : Nat) (s : Side) (maker : M) : Option (StableId M × FillPreview) :=
  (realPrice maker (s.wrap demand)).map fun price => (stableId maker, ⟨price, demand⟩)

def tryOptimizedSwap (price : AbsolutePrice) (demand : Nat) (s : Side) (maker : M) :
    Option (StableId M × FillPreview) :=
  (availableLiquidityOnSide maker (s.wrap price)).bind fun available =>
    let absolutePrice := match s with
      | .bid => AbsolutePrice.new available.input available.output
      | .ask => AbsolutePrice.new available.output available.input
    absolutePrice.bind fun absolutePrice =>
      if 0 < available.input ∧ available.input ≤ demand then
        some (stableId maker, ⟨absolutePrice, available.input⟩)
      else none

/-- The pool with the best price among those walked, and how much of the demand it fills. -/
def preselectMarketMaker (makers : List M) (price : AbsolutePrice) (demand : Nat) (s : Side)
    (optimized : Bool) : Option (StableId M × FillPreview) :=
  let pools := (makers.filter fun pool => isActive pool).filterMap fun p =>
    if optimized then (tryOptimizedSwap price demand s p).or (dummySwap demand s p)
    else dummySwap demand s p
  match s with
  | .bid => minByKey (fun fill => fill.2.price) pools
  | .ask => maxByKey (fun fill => fill.2.price) pools

end Makers

section Takers

variable {T U : Type} [MarketTaker T U]

def clamp (value low high : AbsolutePrice) : AbsolutePrice :=
  if low ≤ value ∧ value ≤ high then value
  else if value < low then low else high

/-- Settle execution price for two interleaving orders: the index price within their limits, moved
by at most 3% in favour of the one that pays more. -/
def settlePrice (ask bid : T) (indexPrice : Option SpotPrice) : AbsolutePrice :=
  let pivotalPrice := match indexPrice with
    | some indexPrice => clamp indexPrice (price ask) (price bid)
    | none => price ask + (price bid - price ask) / (2 : Nat)
  let feeAsk : Int := fee ask
  let feeBid : Int := fee bid
  let biasPercent : Int :=
    if feeAsk < feeBid then (-feeAsk * 100).tdiv feeBid else (feeBid * 100).tdiv feeAsk
  let maxDeviation : AbsolutePrice := pivotalPrice * (3 / 100)
  let deviation : ℚ := maxDeviation * (biasPercent / 100)
  clamp (pivotalPrice + deviation).toNNRat (price ask) (price bid)

/-- What a linear trade pays for the input. -/
def linearOutputUnsafe (input : Nat) : OnSide AbsolutePrice → Nat
  | .bid price => input * price.den / price.num
  | .ask price => input * price.num / price.den

variable [TakerBehaviour T]

omit [TakerBehaviour T] in
/-- The amounts of quote and of base that an ask and a bid exchange. -/
def tradedAmounts (ask bid : T) (price : AbsolutePrice) : Nat × Nat :=
  let quoteInput := input bid
  let demandBase := linearOutputUnsafe quoteInput (.bid price)
  let supplyBase := input ask
  if demandBase < supplyBase then (quoteInput, demandBase)
  else if supplyBase < demandBase then
    (linearOutputUnsafe supplyBase (.ask price), supplyBase)
  else (quoteInput, demandBase)

/-- The ask's take, then the bid's. -/
def executeWithTaker (targetTaker counterTaker : T) (matchmaker : T → T → AbsolutePrice) :
    TakeInProgress T × TakeInProgress T :=
  let ask := match side targetTaker with
    | .ask => targetTaker
    | .bid => counterTaker
  let bid := match side targetTaker with
    | .ask => counterTaker
    | .bid => targetTaker
  let traded := tradedAmounts ask bid (matchmaker ask bid)
  (⟨ask, withAppliedTrade ask traded.2 traded.1⟩, ⟨bid, withAppliedTrade bid traded.1 traded.2⟩)

def executeWithMaker {M : Type} [MarketMaker M U] [MakerBehavior M] (targetTaker : T) (maker : M)
    (chunkSize : OnSide Nat) : TakeInProgress T × MakeInProgress M :=
  let make : MakeInProgress M := ⟨maker, swap maker chunkSize⟩
  let tradeOutput := (make.loss.map OnSide.unwrap).getD 0
  (⟨targetTaker, withAppliedTrade targetTaker chunkSize.unwrap tradeOutput⟩, make)

end Takers

/-! ### The book -/

variable {T M U : Type} [Stable T] [MarketTaker T U] [TakerBehaviour T] [Ord T] [SideOrd T]
  [Stable M] [MarketMaker M U] [MakerBehavior M]

namespace TLBState

section Takers

omit [Stable T] [TakerBehaviour T] [MarketMaker M U] [MakerBehavior M]

def allowedPriceRange (self : TLBState T M) : AllowedPriceRange where
  maxAskPrice := (self.stashed.filterMap fun tk =>
    if side tk = .ask then some (price tk) else none).min?
  minBidPrice := (self.stashed.filterMap fun tk =>
    if side tk = .bid then some (price tk) else none).max?

def bestTakerPrice (self : TLBState T M) (s : Side) : Option (OnSide AbsolutePrice) :=
  (self.activeFragments.first s).map fun fr => s.wrap (price fr)

def tryPickTaker (self : TLBState T M) (s : Side) (test : T → Bool) : Option T × TLBState T M :=
  self.pickActiveTaker (tryPickFr s test)

def onTake {E : Type} (self : TLBState T M) : Next T E → TLBState T M
  | .succ next => self.preAddTaker next
  | .term _ => self

end Takers

omit [Stable T] [TakerBehaviour T] [MakerBehavior M] in
def onMake {E : Type} (self : TLBState T M) : Next M E → TLBState T M
  | .succ next => self.preAddMaker next
  | .term _ => self

end TLBState

/-! ### One turn of the matching loop -/

section Turn

variable [Add U]

/-- What one turn of the loop leaves: the loop goes on, or it is over. -/
inductive Turn (T M U : Type) [Stable T] [MarketTaker T U] [Ord T] [Stable M] where
  | next (batch : MatchmakingAttempt T M U) (book : TLBState T M)
  | stop (book : TLBState T M)

/-- The picked order is matched with the best order of the other side. -/
def matchWithTaker (batch : MatchmakingAttempt T M U) (book : TLBState T M) (targetTaker : T)
    (spotPrice : SpotPrice) : Turn T M U :=
  match book.tryPickTaker (side targetTaker).not fun _ => true with
  | (some counterTaker, book) =>
    let takes := executeWithTaker targetTaker counterTaker fun ask bid =>
      settlePrice ask bid (some spotPrice)
    .next ((batch.addTake takes.1).addTake takes.2)
      ((book.onTake takes.1.result).onTake takes.2.result)
  | (none, book) => .stop book

/-- The picked order is matched with a pool. -/
def matchWithMaker (batch : MatchmakingAttempt T M U) (book : TLBState T M) (targetTaker : T)
    (makerSid : StableId M) (fill : FillPreview) : Turn T M U :=
  match book.pickMakerById makerSid with
  | (some maker, book) =>
    let matched := executeWithMaker targetTaker maker ((side targetTaker).wrap fill.input)
    .next ((batch.addMake matched.2).addTake matched.1)
      ((book.onTake matched.1.result).onMake matched.2.result)
  | (none, book) => .stop book

omit [Add U] [Stable T] [MarketTaker T U] [TakerBehaviour T] [Ord T] [SideOrd T] [MarketMaker M U]
  [MakerBehavior M] in
/-- An order of the other side overlaps and is no worse than the best pool. -/
def prefersTaker (conf : ExecutionConfig U) (targetPrice : OnSide AbsolutePrice)
    (priceCounterTaker : Option (OnSide AbsolutePrice))
    (priceMaker : Option (StableId M × FillPreview)) : Bool :=
  match priceCounterTaker, priceMaker with
  | some priceCounterTaker, some (_, fill) =>
    conf.o2oAllowed && targetPrice.overlaps priceCounterTaker.unwrap &&
      priceCounterTaker.betterThan fill.price
  | _, _ => false

/-- The picked order finds its match, or goes back. -/
def matchTaker (conf : ExecutionConfig U) (batch : MatchmakingAttempt T M U) (book : TLBState T M)
    (targetTaker : T) (spotPrice : SpotPrice) (priceMaker : Option (StableId M × FillPreview)) :
    Turn T M U :=
  let targetPrice := (side targetTaker).wrap (price targetTaker)
  if prefersTaker conf targetPrice (book.bestTakerPrice (side targetTaker).not) priceMaker then
    matchWithTaker batch book targetTaker spotPrice
  else
    match priceMaker with
    | some (makerSid, fill) =>
      if targetPrice.overlaps fill.price then matchWithMaker batch book targetTaker makerSid fill
      else .stop (book.preAddTaker targetTaker)
    | none => .stop (book.preAddTaker targetTaker)

/-- A turn of the loop, the pools walked in the given orders: once for the spot price, once for the
best pool. -/
def turn (conf : ExecutionConfig U) (optimized : Bool) (makers makers' : List M)
    (batch : MatchmakingAttempt T M U) (book : TLBState T M) : Turn T M U :=
  match maxByKey quality makers with
  | none => .stop book
  | some bestMaker =>
    let spotPrice := staticPrice bestMaker
    match book.pickActiveTaker (maxByDistanceToSpot spotPrice book.allowedPriceRange) with
    | (none, book) => .stop book
    | (some targetTaker, book) =>
      matchTaker conf batch book targetTaker spotPrice
        (preselectMarketMaker makers' (price targetTaker) (input targetTaker) (side targetTaker)
          optimized)

end Turn

/-! ### Attempts -/

/-- Where a run of `attempt` is. -/
inductive Attempt (T M U : Type) [Stable T] [MarketTaker T U] [Ord T] [Stable M] where
  /-- At the head of the matching loop. -/
  | matching (optimized : Bool) (batch : MatchmakingAttempt T M U) (book : TLBState T M)
  /-- After the loop. -/
  | formed (optimized : Bool) (batch : MatchmakingAttempt T M U) (book : TLBState T M)
  | returned (recipe : Option (MatchmakingRecipe T M)) (book : TLBState T M)

variable [Zero U] [Add U] [LT U]

/-- The loop has room for another match. -/
def Continues (conf : ExecutionConfig U) (batch : MatchmakingAttempt T M U) : Prop :=
  batch.executionUnitsConsumed < conf.executionCap.soft ∧ batch.numTakes < 15

/-- How the outcome of a pass goes on. -/
def Attempt.afterPass (optimized : Bool) (book : TLBState T M) :
    Except (NoRecipe T) (MatchmakingRecipe T M) → Attempt T M U
  | .ok recipe => .returned (some recipe) book
  | .error .failed => .returned none (book.rollback .unstash)
  | .error (.dissatisfiedTakers unsatisfied) =>
    .matching optimized .empty (book.rollback (.stash unsatisfied))
  | .error .downgradeNeeded => .matching false .empty (book.rollback (.stash []))

/-- The orders that the outcome of a pass puts aside. -/
def putAside : Except (NoRecipe T) (MatchmakingRecipe T M) → List T
  | .error (.dissatisfiedTakers unsatisfied) => unsatisfied
  | _ => []

/-- A step of `attempt`, with the orders that it puts aside. The maps are walked in any order. -/
inductive Attempt.Step (conf : ExecutionConfig U) :
    Attempt T M U → List T → Attempt T M U → Prop where
  | next {optimized : Bool} {batch batch' : MatchmakingAttempt T M U} {book book' : TLBState T M}
      {makers makers' : List M} (room : Continues conf batch)
      (walk : makers.Perm book.pools.pools) (walk' : makers'.Perm book.pools.pools)
      (hturn : turn conf optimized makers makers' batch book = .next batch' book') :
      Step conf (.matching optimized batch book) [] (.matching optimized batch' book')
  | stop {optimized : Bool} {batch : MatchmakingAttempt T M U} {book book' : TLBState T M}
      {makers makers' : List M} (room : Continues conf batch)
      (walk : makers.Perm book.pools.pools) (walk' : makers'.Perm book.pools.pools)
      (hturn : turn conf optimized makers makers' batch book = .stop book') :
      Step conf (.matching optimized batch book) [] (.formed optimized batch book')
  | full {optimized : Bool} {batch : MatchmakingAttempt T M U} {book : TLBState T M}
      (full : ¬ Continues conf batch) :
      Step conf (.matching optimized batch book) [] (.formed optimized batch book)
  | pass {optimized : Bool} {batch : MatchmakingAttempt T M U} {book : TLBState T M}
      {takes : List (TakeInProgress T)} {makes : List (MakeInProgress M)}
      {outcome : Except (NoRecipe T) (MatchmakingRecipe T M)}
      (walk : takes.Perm (batch.takes.entries.map Sigma.snd))
      (walk' : makes.Perm (batch.makes.entries.map Sigma.snd))
      (hout : MatchmakingRecipe.tryFrom batch takes makes conf.baseStepBudget = outcome) :
      Step conf (.formed optimized batch book) (putAside outcome) (.afterPass optimized book outcome)

def Attempt.start (book : TLBState T M) : Attempt T M U := .matching true .empty book

/-- A run of `attempt` from `a`, with the orders put aside on the way. -/
inductive Attempt.Run (conf : ExecutionConfig U) (a : Attempt T M U) :
    List T → Attempt T M U → Prop where
  | refl : Run conf a [] a
  | step {ts us : List T} {b c : Attempt T M U} (run : Run conf a ts b)
      (hstep : Step conf b us c) : Run conf a (ts ++ us) c

/-! ### The maps walked as they are stored -/

section Advance

variable [DecidableLT U]

instance (conf : ExecutionConfig U) (batch : MatchmakingAttempt T M U) :
    Decidable (Continues conf batch) :=
  inferInstanceAs (Decidable (_ ∧ _))

/-- One of the steps that `attempt` can take. -/
def Attempt.advance (conf : ExecutionConfig U) : Attempt T M U → Option (List T × Attempt T M U)
  | .matching optimized batch book =>
    if Continues conf batch then
      match turn conf optimized book.pools.pools book.pools.pools batch book with
      | .next batch book => some ([], .matching optimized batch book)
      | .stop book => some ([], .formed optimized batch book)
    else some ([], .formed optimized batch book)
  | .formed optimized batch book =>
    let outcome := MatchmakingRecipe.tryFrom batch (batch.takes.entries.map Sigma.snd)
      (batch.makes.entries.map Sigma.snd) conf.baseStepBudget
    some (putAside outcome, .afterPass optimized book outcome)
  | .returned _ _ => none

theorem Attempt.advance_step {conf : ExecutionConfig U} {a b : Attempt T M U} {ts : List T}
    (h : a.advance conf = some (ts, b)) : Step conf a ts b := by
  cases a with
  | matching optimized batch book =>
    rw [advance] at h
    split at h
    · rename_i room
      split at h
      · rename_i hturn
        cases h
        exact .next room (.refl _) (.refl _) hturn
      · rename_i hturn
        cases h
        exact .stop room (.refl _) (.refl _) hturn
    · rename_i full
      cases h
      exact .full full
  | formed optimized batch book =>
    cases h
    exact .pass (.refl _) (.refl _) rfl
  | returned recipe book => cases h

/-- The first `n` steps. -/
def Attempt.advances (conf : ExecutionConfig U) : Nat → Attempt T M U → List T × Attempt T M U
  | 0, a => ([], a)
  | n + 1, a =>
    let (ts, b) := a.advances conf n
    match b.advance conf with
    | some (us, c) => (ts ++ us, c)
    | none => (ts, b)

theorem Attempt.run_advances (conf : ExecutionConfig U) (a : Attempt T M U) (n : Nat) :
    Run conf a (a.advances conf n).1 (a.advances conf n).2 := by
  induction n with
  | zero => exact .refl
  | succ n ih =>
    rw [advances]
    cases hadvance : (a.advances conf n).2.advance conf with
    | none => simpa only [hadvance] using ih
    | some step =>
      simp only [hadvance]
      exact ih.step (advance_step hadvance)

/-- What the first pass to form a recipe has put aside, matched and left, if it is formed in `n`
steps. -/
def Attempt.outcome (conf : ExecutionConfig U) (n : Nat) (book : TLBState T M) :
    Option (List T × MatchmakingAttempt T M U × MatchmakingRecipe T M × TLBState T M) :=
  match (start book).advances conf n with
  | (stashed, .formed _ batch book) =>
    match MatchmakingRecipe.tryFrom batch (batch.takes.entries.map Sigma.snd)
      (batch.makes.entries.map Sigma.snd) conf.baseStepBudget with
    | .ok recipe => some (stashed, batch, recipe, book)
    | .error _ => none
  | _ => none

theorem Attempt.run_of_outcome {conf : ExecutionConfig U} {n : Nat} {book book' : TLBState T M}
    {stashed : List T} {batch : MatchmakingAttempt T M U} {recipe : MatchmakingRecipe T M}
    (h : outcome conf n book = some (stashed, batch, recipe, book')) :
    ∃ optimized, Run conf (start book) stashed (.formed optimized batch book') ∧
      Step conf (.formed optimized batch book') [] (.returned (some recipe) book') := by
  have hrun := run_advances conf (start book) n
  unfold outcome at h
  split at h
  · rename_i stashed optimized batch book hformed
    split at h
    · rename_i recipe hrecipe
      cases h
      rw [hformed] at hrun
      exact ⟨optimized, hrun, .pass (.refl _) (.refl _) hrecipe⟩
    · cases h
  · cases h

end Advance

end UtxoMonitor.LiquidityBook
