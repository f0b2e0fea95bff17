import UtxoMonitor.Orders.Takers

/-! Grid orders: orders that turn from buying to selling and back. -/
namespace UtxoMonitor.Orders

open Lib LiquidityBook Domain Pools

/-! ### Orders -/

abbrev RelativeSide := LiquidityBook.Side

/-- Open Grid Order. -/
structure GridOrder where
  beacon : PolicyId
  baseAsset : AssetClass
  quoteAsset : AssetClass
  buyShiftFactor : Ratio
  sellShiftFactor : Ratio
  baseReserves : Nat
  quoteReserves : Nat
  quoteOffer : Nat
  /-- Quote/Base price relative to order. -/
  price : Ratio
  /-- Side relative to the order. -/
  side : RelativeSide
  /-- Minimal marginal output of base asset allowed per execution step. -/
  minMarginalOutputBase : Nat
  /-- Minimal marginal output of quote asset allowed per execution step. -/
  minMarginalOutputQuote : Nat
  /-- Lovelace allowed to be utilized at once to cover TX fee. -/
  maxExecutionBudgetPerStep : Nat
  remainingExecutionBudget : Nat
  /-- Where the output from the order must go. -/
  redeemerAddress : PlutusAddress
  /-- How many execution units each order consumes. -/
  marginalCost : ExUnits
deriving DecidableEq

namespace GridOrder

/-- Relative input, output assets of the order. -/
def relativeIo (o : GridOrder) : AssetClass × AssetClass :=
  match o.side with
  | .bid => (o.quoteAsset, o.baseAsset)
  | .ask => (o.baseAsset, o.quoteAsset)

/-- The side in the canonical pair. -/
def absoluteSide (o : GridOrder) : LiquidityBook.Side := sideOf o.relativeIo.1 o.relativeIo.2

/-- Canonical input, output assets of the order. -/
def absoluteIo (o : GridOrder) : AssetClass × AssetClass :=
  let relativeSide := o.side
  let absoluteSide := o.absoluteSide
  if absoluteSide = relativeSide then
    match relativeSide with
    | .bid => (o.quoteAsset, o.baseAsset)
    | .ask => (o.baseAsset, o.quoteAsset)
  else match relativeSide with
    | .ask => (o.quoteAsset, o.baseAsset)
    | .bid => (o.baseAsset, o.quoteAsset)

def input (o : GridOrder) : Nat :=
  match o.side with
  | .bid => o.quoteOffer
  | .ask => o.baseReserves

def output (o : GridOrder) : Nat :=
  match o.side with
  | .ask => o.quoteReserves
  | .bid => o.baseReserves

def absolutePrice (o : GridOrder) : AbsolutePrice :=
  if o.side = o.absoluteSide then o.price.numer / o.price.denom
  else (o.price.numer / o.price.denom : ℚ≥0)⁻¹

/-- A price once the order has turned. -/
def shifted (price factor : Ratio) : Checked Ratio := do
  return ⟨← Checked.mul 128 price.numer factor.numer, ← Checked.mul 128 price.denom factor.denom⟩

/-- `u64::MAX`, in place of an offer of the base asset. -/
def mock : Nat := 2 ^ 64 - 1

/-- The side by which input and output are told apart when an order is traded. -/
def tradedSide (o : GridOrder) : LiquidityBook.Side :=
  let relativeSide := o.side
  let absoluteSide := o.absoluteSide
  if relativeSide = absoluteSide then relativeSide
  else match relativeSide with
    | .ask => .bid
    | .bid => .ask

/-- The reserves and the offer that a trade takes from. -/
def withInputRemoved (o : GridOrder) (removedInput : Nat) : Checked GridOrder :=
  match o.tradedSide with
  | .bid => do
    let quoteReserves ← Checked.sub o.quoteReserves removedInput
    let _mock ← Checked.sub mock removedInput
    return { o with quoteReserves := quoteReserves }
  | .ask => do
    let baseReserves ← Checked.sub o.baseReserves removedInput
    let quoteOffer ← Checked.sub o.quoteOffer removedInput
    return { o with baseReserves := baseReserves, quoteOffer := quoteOffer }

def withOutputAdded (o : GridOrder) (addedOutput : Nat) : Checked GridOrder :=
  match o.tradedSide with
  | .bid => do
    let baseReserves ← Checked.add 64 o.baseReserves addedOutput
    let quoteOffer ← Checked.add 64 o.quoteOffer addedOutput
    return { o with baseReserves := baseReserves, quoteOffer := quoteOffer }
  | .ask => do
    let quoteReserves ← Checked.add 64 o.quoteReserves addedOutput
    let _mock ← Checked.add 64 mock addedOutput
    return { o with quoteReserves := quoteReserves }

/-- An order with nothing left to buy with sells, and one with nothing left to sell buys. -/
def turned (o : GridOrder) : Checked GridOrder :=
  match o.side with
  | .bid =>
    if o.quoteReserves = 0 then do
      return { o with side := .ask, price := ← shifted o.price o.buyShiftFactor }
    else return o
  | .ask =>
    if o.quoteOffer = 0 then do
      return { o with side := .bid, price := ← shifted o.price o.sellShiftFactor }
    else return o

def withAppliedTrade (o : GridOrder) (removedInput addedOutput : Nat) :
    Checked (Next GridOrder TerminalTake) := do
  let o ← o.withInputRemoved removedInput
  let o ← o.withOutputAdded addedOutput
  let budgetUsed := o.maxExecutionBudgetPerStep
  let remainingExecutionBudget ← Checked.sub o.remainingExecutionBudget budgetUsed
  return .succ (← turned { o with remainingExecutionBudget := remainingExecutionBudget })

def withBudgetCorrected (o : GridOrder) (delta : Int) : Checked (Int × GridOrder) := do
  let (realDelta, remainingExecutionBudget) ← correctedBudget o.remainingExecutionBudget delta
  return (realDelta, { o with remainingExecutionBudget := remainingExecutionBudget })

end GridOrder

instance : MarketTaker GridOrder ExUnits where
  side := GridOrder.absoluteSide
  input := GridOrder.input
  output := GridOrder.output
  price := GridOrder.absolutePrice
  operatorFee _ _ := 0
  fee _ := 0
  budget o := o.maxExecutionBudgetPerStep
  consumableBudget o := o.maxExecutionBudgetPerStep
  marginalCostHint o := o.marginalCost
  minMarginalOutput o := o.minMarginalOutputBase
  timeBounds _ := .none

instance : CheckedTaker GridOrder where
  withAppliedTrade := GridOrder.withAppliedTrade
  withBudgetCorrected := GridOrder.withBudgetCorrected
  withFeeCharged o _ := return o
  withOutputAdded := GridOrder.withOutputAdded
  tryTerminate o := .succ o

/-! ### How they are read -/

namespace GridOrder

structure DatumNative where
  beacon : PolicyId
  token : AssetClass
  buyShiftFactor : Ratio
  sellShiftFactor : Ratio
  maxLovelaceOffer : Nat
  lovelaceOffer : Nat
  price : Ratio
  side : RelativeSide
  budgetPerTransaction : Nat
  minMarginalOutputLovelace : Nat
  minMarginalOutputToken : Nat
  redeemerAddress : PlutusAddress
  cancellationPkh : Ed25519KeyHash

/-- `TryFromPData for bool` -/
def boolTryFromPd (data : PlutusData) : Option Bool := do
  let (alternative, _) ← data.intoConstrPd
  match alternative with
  | 0 => return false
  | 1 => return true
  | _ => none

def DatumNative.tryFromPd (data : PlutusData) : Option DatumNative := do
  let (_, fields) ← data.intoConstrPd
  return {
    beacon := ← RawBytes.fromRawBytes (← bytesAt fields 0)
    token := ← assetAt fields 1
    buyShiftFactor := ← ratioTryFromPd (← takeField fields 2)
    sellShiftFactor := ← ratioTryFromPd (← takeField fields 3)
    maxLovelaceOffer := ← u64At fields 4
    lovelaceOffer := ← u64At fields 5
    price := ← ratioTryFromPd (← takeField fields 6)
    side := if ← boolTryFromPd (← takeField fields 7) then .bid else .ask
    budgetPerTransaction := ← u64At fields 8
    minMarginalOutputLovelace := ← u64At fields 9
    minMarginalOutputToken := ← u64At fields 10
    redeemerAddress := ← PlutusAddress.tryFromPd (← takeField fields 11)
    cancellationPkh := ← RawBytes.fromRawBytes (← bytesAt fields 12) }

/-- `RelativeSide::into_pd` -/
def sideIntoPd : RelativeSide → PlutusData
  | .bid => .constr 1 []
  | .ask => .constr 0 []

def unsafeUpdateDatum (data : PlutusData) (lovelaceOffer : Nat) (price : Ratio)
    (relativeSide : RelativeSide) : PlutusData :=
  setField 7 (sideIntoPd relativeSide)
    (setField 6 (.constr 0 [.integer price.numer, .integer price.denom])
      (setField 5 (.integer lovelaceOffer) data))

def hardenPrice (p : Ratio) (side : RelativeSide) : Checked Ratio :=
  match side with
  | .bid => do return ⟨p.numer, ← Checked.add 128 p.denom 1⟩
  | .ask => do return ⟨← Checked.add 128 p.numer 1, p.denom⟩

def minRealLovelace (gridOrder : GridOrder) : Checked Nat :=
  match gridOrder.side with
  | .bid => Checked.add 64 gridOrder.quoteOffer gridOrder.remainingExecutionBudget
  | .ask => return gridOrder.remainingExecutionBudget

def withConsistencyVerifiedNative (gridOrder : GridOrder) : Checked (Option GridOrder) := do
  let minRealLovelace ← gridOrder.minRealLovelace
  if minRealLovelace ≤ gridOrder.quoteReserves then return some gridOrder else return none

/-- `TryFromLedger for GridOrder` -/
def tryFromLedger (gridOrderNative : DeployedScriptInfo) (repr : Pools.TransactionOutput) :
    Checked (Option GridOrder) :=
  if testAddress repr.address gridOrderNative then
    match repr.intoPd.bind DatumNative.tryFromPd with
    | some conf => do
      let price ← GridOrder.hardenPrice conf.price conf.side
      withConsistencyVerifiedNative {
        beacon := conf.beacon
        baseAsset := conf.token
        quoteAsset := .native
        buyShiftFactor := conf.buyShiftFactor
        sellShiftFactor := conf.sellShiftFactor
        baseReserves := (repr.value.amountOf conf.token).getD 0
        quoteReserves := repr.value.coin
        quoteOffer := conf.lovelaceOffer
        price := price
        side := conf.side
        minMarginalOutputBase := conf.minMarginalOutputToken
        minMarginalOutputQuote := conf.minMarginalOutputLovelace
        maxExecutionBudgetPerStep := conf.budgetPerTransaction
        remainingExecutionBudget := conf.budgetPerTransaction
        redeemerAddress := conf.redeemerAddress
        marginalCost := gridOrderNative.marginalCost }
    | none => return none
  else return none

end GridOrder

/-! ### Trades of orders that are read -/

namespace GridOrder

variable {o next : GridOrder} {removed added excess : Nat}

/-- What an order that is read is known to be. -/
structure Parsed (o : GridOrder) : Prop where
  quoteAsset : o.quoteAsset = .native
  remainingExecutionBudget : o.remainingExecutionBudget = o.maxExecutionBudgetPerStep
  backed : o.side = .bid → o.quoteOffer ≤ o.quoteReserves
  baseReserves : o.baseAsset = .native → o.baseReserves = o.quoteReserves
  baseReserves_lt : o.baseReserves < 2 ^ 64
  quoteReserves_lt : o.quoteReserves < 2 ^ 64

theorem parsed {gridOrderNative : DeployedScriptInfo} {repr : Pools.TransactionOutput}
    (h : tryFromLedger gridOrderNative repr = .ok (some o)) : o.Parsed := by
  rw [tryFromLedger] at h
  split at h
  · split at h
    · rename_i conf _
      obtain ⟨price, _, h⟩ := Checked.bind_eq_ok.mp h
      rw [withConsistencyVerifiedNative] at h
      obtain ⟨minRealLovelace, hmin, h⟩ := Checked.bind_eq_ok.mp h
      split at h
      · rename_i hconsistent
        cases h
        refine ⟨rfl, rfl, ?_, ?_, ?_, repr.value.coin_lt⟩
        · intro hside
          rw [GridOrder.minRealLovelace, hside] at hmin
          obtain ⟨_, rfl⟩ := Checked.add_eq_ok.mp hmin
          omega
        · intro hnative
          dsimp only at hnative ⊢
          rw [hnative]
          rfl
        · dsimp only
          cases hamount : repr.value.amountOf conf.token with
          | none => simp
          | some amount => exact Value.amountOf_lt hamount
      · cases h
    · cases h
  · cases h

theorem tradedSide_bid (hquote : o.quoteAsset = .native) (hside : o.side = .bid) :
    o.tradedSide = .ask := by
  cases hbase : o.baseAsset <;>
    simp [tradedSide, absoluteSide, relativeIo, hside, hquote, hbase, sideOf, AssetClass.cmp]

theorem tradedSide_ask (hquote : o.quoteAsset = .native) (hside : o.side = .ask) :
    o.tradedSide = if o.baseAsset = .native then .ask else .bid := by
  cases hbase : o.baseAsset <;>
    simp [tradedSide, absoluteSide, relativeIo, hside, hquote, hbase, sideOf, AssetClass.cmp]

/-- What is taken from an order. -/
theorem withInputRemoved_eq_ok : o.withInputRemoved removed = .ok next ↔
    (o.tradedSide = .bid ∧ removed ≤ o.quoteReserves ∧ removed ≤ mock ∧
        { o with quoteReserves := o.quoteReserves - removed } = next) ∨
      (o.tradedSide = .ask ∧ removed ≤ o.baseReserves ∧ removed ≤ o.quoteOffer ∧
        { o with
          baseReserves := o.baseReserves - removed
          quoteOffer := o.quoteOffer - removed } = next) := by
  rw [withInputRemoved]
  cases o.tradedSide <;> simp [Checked.map_eq_ok]

theorem withOutputAdded_eq_ok : o.withOutputAdded added = .ok next ↔
    (o.tradedSide = .bid ∧ o.baseReserves + added < 2 ^ 64 ∧ o.quoteOffer + added < 2 ^ 64 ∧
        { o with
          baseReserves := o.baseReserves + added
          quoteOffer := o.quoteOffer + added } = next) ∨
      (o.tradedSide = .ask ∧ o.quoteReserves < 2 ^ 64 ∧ added = 0 ∧ o = next) := by
  rw [withOutputAdded]
  cases o.tradedSide with
  | bid => simp [Checked.map_eq_ok]
  | ask =>
    simp only [Checked.bind_eq_ok, Checked.add_eq_ok, Checked.pure_eq_ok, mock, reduceCtorEq,
      false_and, true_and, false_or]
    constructor
    · rintro ⟨_, ⟨hfits, rfl⟩, _, ⟨hmock, rfl⟩, rfl⟩
      obtain rfl : added = 0 := by omega
      exact ⟨hfits, rfl, rfl⟩
    · rintro ⟨hfits, rfl, rfl⟩
      exact ⟨_, ⟨hfits, rfl⟩, _, ⟨by decide, rfl⟩, rfl⟩

theorem turned_bid (hside : o.side = .bid) (hquote : o.quoteReserves ≠ 0) :
    o.turned = .ok o := by
  simp only [turned, hside, if_neg hquote]
  rfl

theorem of_turned_ask (h : o.turned = .ok next) (hside : o.side = .ask) :
    (o.quoteOffer ≠ 0 ∧ o = next) ∨
      (o.quoteOffer = 0 ∧ ∃ price, shifted o.price o.sellShiftFactor = .ok price ∧
        { o with side := .bid, price := price } = next) := by
  simp only [turned, hside] at h
  split at h
  · rename_i hoffer
    obtain ⟨price, hprice, hnext⟩ := Checked.bind_eq_ok.mp h
    exact Or.inr ⟨hoffer, price, hprice, Checked.pure_eq_ok.mp hnext⟩
  · rename_i hoffer
    exact Or.inl ⟨hoffer, Checked.pure_eq_ok.mp h⟩

theorem shifted_eq_ok {price factor price' : Ratio} : shifted price factor = .ok price' ↔
    price.numer * factor.numer < 2 ^ 128 ∧ price.denom * factor.denom < 2 ^ 128 ∧
      ⟨price.numer * factor.numer, price.denom * factor.denom⟩ = price' := by
  simp [shifted, Checked.map_eq_ok]

/-- What the settlement leaves of an order whose trade is applied. -/
theorem finalized_succ {take : TakeInProgress GridOrder}
    (h : finalized ⟨o, .succ next⟩ excess = .ok take) :
    ∃ added left, next.withOutputAdded excess = .ok added ∧
      take = ⟨o, .succ { added with remainingExecutionBudget := left }⟩ := by
  simp only [finalized, settle, Checked.bind_eq_ok, Checked.pure_eq_ok] at h
  obtain ⟨_, _, succ, ⟨added, hadded, charged, hcharged, delta, _, corrected, hcorrected, rfl⟩,
    rfl⟩ := h
  obtain rfl : added = charged := Checked.pure_eq_ok.mp hcharged
  obtain ⟨⟨realDelta, left⟩, _, hcorrected⟩ := Checked.bind_eq_ok.mp hcorrected
  obtain rfl := Checked.pure_eq_ok.mp hcorrected
  exact ⟨added, left, hadded, rfl⟩

theorem withAppliedTrade_eq_ok {result : Next GridOrder TerminalTake} :
    o.withAppliedTrade removed added = .ok result ↔ ∃ paid bought remaining next,
      o.withInputRemoved removed = .ok paid ∧ paid.withOutputAdded added = .ok bought ∧
      Checked.sub bought.remainingExecutionBudget bought.maxExecutionBudgetPerStep =
        .ok remaining ∧
      turned { bought with remainingExecutionBudget := remaining } = .ok next ∧
      .succ next = result := by
  simp only [withAppliedTrade, Checked.bind_eq_ok, Checked.pure_eq_ok]
  constructor
  · rintro ⟨paid, hpaid, bought, hbought, remaining, hremaining, next, hnext, rfl⟩
    exact ⟨paid, bought, remaining, next, hpaid, hbought, hremaining, hnext, rfl⟩
  · rintro ⟨paid, bought, remaining, next, hpaid, hbought, hremaining, hnext, rfl⟩
    exact ⟨paid, hpaid, bought, hbought, remaining, hremaining, next, hnext, rfl⟩

/-- The only trades that add up: a sale for nothing, by an order that has no budget. -/
def Trades (o : GridOrder) (removed added excess : Nat) : Prop :=
  o.side = .ask ∧ o.maxExecutionBudgetPerStep = 0 ∧ added = 0 ∧ excess = 0 ∧
    (o.baseAsset = .native ∧ removed < o.quoteOffer ∨
      o.baseAsset ≠ .native ∧ o.quoteOffer = 0 ∧ removed = o.baseReserves ∧
        o.quoteReserves = o.baseReserves ∧ o.price.numer * o.sellShiftFactor.numer < 2 ^ 128 ∧
        o.price.denom * o.sellShiftFactor.denom < 2 ^ 128)

/-- What a trade that adds up went through, and where it left the order. -/
theorem of_meets (h : Meets o removed added excess) :
    ∃ paid bought remaining next final, o.withInputRemoved removed = .ok paid ∧
      paid.withOutputAdded added = .ok bought ∧
      turned { bought with remainingExecutionBudget := remaining } = .ok next ∧
      next.withOutputAdded excess = .ok final ∧
      (final.input ≤ o.input ∧ o.input - final.input = removed) ∧
      (o.output ≤ final.output ∧ final.output - o.output = added + excess) ∧
      (final.maxExecutionBudgetPerStep ≤ o.maxExecutionBudgetPerStep ∧
        o.maxExecutionBudgetPerStep - final.maxExecutionBudgetPerStep =
          o.maxExecutionBudgetPerStep) := by
  obtain ⟨result, take, htrade, hfinal, hremoved, houtput, hconsumed⟩ := h
  obtain ⟨paid, bought, remaining, next, hpaid, hbought, -, hnext, rfl⟩ :=
    withAppliedTrade_eq_ok.mp htrade
  obtain ⟨final, left, hsettled, rfl⟩ := finalized_succ hfinal
  exact ⟨paid, bought, remaining, next, final, hpaid, hbought, hnext, hsettled,
    unwrap_checkedSub_eq_ok.mp hremoved, unwrap_checkedSub_eq_ok.mp houtput,
    unwrap_checkedSub_eq_ok.mp (hconsumed le_rfl)⟩

/-- An order that buys pays with what it is to get. -/
theorem not_meets_bid (h : o.Parsed) (hside : o.side = .bid) (hpos : 0 < removed)
    (hinput : removed ≤ o.input) : ¬ Meets o removed added excess := by
  intro hmeets
  obtain ⟨paid, bought, remaining, next, final, hpaid, hbought, hnext, hsettled, -,
    ⟨hle, -⟩, -⟩ := of_meets hmeets
  have htraded := tradedSide_bid h.quoteAsset hside
  have hbacked := h.backed hside
  have hoffer : removed ≤ o.quoteOffer := by
    rw [GridOrder.input, hside] at hinput
    exact hinput
  rcases withInputRemoved_eq_ok.mp hpaid with ⟨hbid, _⟩ | ⟨_, hbase, _, rfl⟩
  · cases hbid.symm.trans htraded
  rcases withOutputAdded_eq_ok.mp hbought with ⟨hbid, _⟩ | ⟨_, _, rfl, rfl⟩
  · cases hbid.symm.trans htraded
  have hstays : o.quoteReserves ≠ 0 := by omega
  cases hnext.symm.trans (turned_bid hside hstays)
  rcases withOutputAdded_eq_ok.mp hsettled with ⟨hbid, _⟩ | ⟨_, _, rfl, rfl⟩
  · cases hbid.symm.trans htraded
  simp only [GridOrder.output, hside] at hle
  omega

/-- Nothing is settled where there is no excess and no budget. -/
theorem finalized_idle {input : Nat} (hinput : removedInput ⟨o, .succ next⟩ = .ok input)
    (hadded : next.withOutputAdded 0 = .ok next) (hmax : o.maxExecutionBudgetPerStep = 0)
    (hremaining : next.remainingExecutionBudget = 0) :
    finalized ⟨o, .succ next⟩ 0 = .ok ⟨o, .succ next⟩ := by
  have hcorrected : next.withBudgetCorrected 0 = .ok (0, next) := by
    have hsame : { next with remainingExecutionBudget := 0 } = next := by
      rw [← hremaining]
    simp [withBudgetCorrected, correctedBudget, hremaining, asI64, toI64, hsame]
  have hconsumable : negI64 (asI64 (consumableBudget o)) = .ok 0 := by
    rw [negI64_asI64_eq_ok]
    simp [consumableBudget, hmax, asI64]
  simp only [finalized, settle, Checked.bind_eq_ok, Checked.pure_eq_ok]
  exact ⟨_, hinput, next, ⟨next, hadded, next, rfl, 0, hconsumable, _, hcorrected, rfl⟩, rfl⟩

/-- A sale for nothing adds up, if there is no budget and settling it changes nothing. -/
theorem meets_of_idle {paid : GridOrder} (h : o.Parsed) (hmax : o.maxExecutionBudgetPerStep = 0)
    (hpaid : o.withInputRemoved removed = .ok paid) (hbought : paid.withOutputAdded 0 = .ok paid)
    (hpaidMax : paid.maxExecutionBudgetPerStep = o.maxExecutionBudgetPerStep)
    (hpaidBudget : paid.remainingExecutionBudget = o.remainingExecutionBudget)
    (hturned : turned { paid with remainingExecutionBudget := 0 } = .ok next)
    (hidle : next.remainingExecutionBudget = 0)
    (hmaxKept : next.maxExecutionBudgetPerStep = o.maxExecutionBudgetPerStep)
    (hkept : next.withOutputAdded 0 = .ok next)
    (hinput : next.input ≤ o.input ∧ o.input - next.input = removed)
    (houtput : next.output = o.output) : Meets o removed 0 0 := by
  have hremaining :
      Checked.sub paid.remainingExecutionBudget paid.maxExecutionBudgetPerStep = .ok 0 := by
    rw [hpaidMax, hpaidBudget, h.remainingExecutionBudget, Checked.sub_eq_ok]
    omega
  have htrade : o.withAppliedTrade removed 0 = .ok (.succ next) :=
    withAppliedTrade_eq_ok.mpr ⟨paid, paid, 0, next, hpaid, hbought, hremaining, hturned, rfl⟩
  have hremoved : removedInput ⟨o, .succ next⟩ = .ok removed := unwrap_checkedSub_eq_ok.mpr hinput
  refine ⟨.succ next, ⟨o, .succ next⟩, htrade, finalized_idle hremoved hkept hmax hidle, hremoved,
    unwrap_checkedSub_eq_ok.mpr ?_, fun _ => unwrap_checkedSub_eq_ok.mpr ?_⟩
  · show o.output ≤ next.output ∧ next.output - o.output = 0 + 0
    omega
  · simp [ExecutionEngine.remainingBudget, budget, consumableBudget, hmax, hmaxKept]

/-- An order that sells ADA for ADA keeps its accounts as long as it does not turn. -/
theorem meets_ask_native (h : o.Parsed) (hside : o.side = .ask) (hnative : o.baseAsset = .native)
    (hpos : 0 < removed) (hinput : removed ≤ o.input) :
    Meets o removed added excess ↔ o.maxExecutionBudgetPerStep = 0 ∧ added = 0 ∧ excess = 0 ∧
      removed < o.quoteOffer := by
  have htraded := tradedSide_ask h.quoteAsset hside
  rw [if_pos hnative] at htraded
  have hreserves := h.baseReserves hnative
  have hbase : removed ≤ o.baseReserves := by
    rw [GridOrder.input, hside] at hinput
    exact hinput
  constructor
  · intro hmeets
    obtain ⟨paid, bought, remaining, next, final, hpaid, hbought, hnext, hsettled, -,
      ⟨hle, -⟩, hbudget⟩ := of_meets hmeets
    rcases withInputRemoved_eq_ok.mp hpaid with ⟨hbid, _⟩ | ⟨_, _, hoffer, rfl⟩
    · cases hbid.symm.trans htraded
    rcases withOutputAdded_eq_ok.mp hbought with ⟨hbid, _⟩ | ⟨_, _, rfl, rfl⟩
    · cases hbid.symm.trans htraded
    rcases of_turned_ask hnext hside with ⟨hstays, rfl⟩ | ⟨_, price, _, rfl⟩
    · rcases withOutputAdded_eq_ok.mp hsettled with ⟨hbid, _⟩ | ⟨_, _, rfl, rfl⟩
      · cases hbid.symm.trans htraded
      dsimp only at hstays hbudget
      exact ⟨by omega, rfl, rfl, by omega⟩
    · have hturned : tradedSide { o with side := .bid } = .ask := tradedSide_bid h.quoteAsset rfl
      rcases withOutputAdded_eq_ok.mp hsettled with ⟨hbid, _⟩ | ⟨_, _, _, rfl⟩
      · cases hbid.symm.trans hturned
      simp only [GridOrder.output, hside] at hle
      omega
  · rintro ⟨hmax, rfl, rfl, hoffer⟩
    let paid := { o with
      baseReserves := o.baseReserves - removed
      quoteOffer := o.quoteOffer - removed }
    let next := { paid with remainingExecutionBudget := 0 }
    have hkept : ∀ kept : GridOrder, kept.tradedSide = .ask → kept.quoteReserves = o.quoteReserves →
        kept.withOutputAdded 0 = .ok kept := by
      intro kept hask hquote
      exact withOutputAdded_eq_ok.mpr (Or.inr ⟨hask, hquote ▸ h.quoteReserves_lt, rfl, rfl⟩)
    have hturned : next.turned = .ok next := by
      have hstays : o.quoteOffer - removed ≠ 0 := by omega
      simp only [next, paid, turned, hside, if_neg hstays]
      rfl
    apply meets_of_idle h hmax (withInputRemoved_eq_ok.mpr (Or.inr ⟨htraded, hbase, hoffer.le, rfl⟩))
      (hkept paid htraded rfl) rfl rfl hturned rfl rfl
      (hkept next htraded rfl)
    · simp only [GridOrder.input, next, paid, hside]
      omega
    · simp [GridOrder.output, next, paid, hside]

/-- An order that sells a token gets more of what it sells, unless it turns. -/
theorem meets_ask_token (h : o.Parsed) (hside : o.side = .ask) (htoken : o.baseAsset ≠ .native)
    (hpos : 0 < removed) (hinput : removed ≤ o.input) :
    Meets o removed added excess ↔ o.maxExecutionBudgetPerStep = 0 ∧ added = 0 ∧ excess = 0 ∧
      o.quoteOffer = 0 ∧ removed = o.baseReserves ∧ o.quoteReserves = o.baseReserves ∧
        o.price.numer * o.sellShiftFactor.numer < 2 ^ 128 ∧
        o.price.denom * o.sellShiftFactor.denom < 2 ^ 128 := by
  have htraded := tradedSide_ask h.quoteAsset hside
  rw [if_neg htoken] at htraded
  have hbase : removed ≤ o.baseReserves := by
    rw [GridOrder.input, hside] at hinput
    exact hinput
  constructor
  · intro hmeets
    obtain ⟨paid, bought, remaining, next, final, hpaid, hbought, hnext, hsettled,
      ⟨hpaidInput, hremoved⟩, ⟨hle, houtput⟩, hbudget⟩ := of_meets hmeets
    rcases withInputRemoved_eq_ok.mp hpaid with ⟨_, hquote, _, rfl⟩ | ⟨hask, _⟩
    swap
    · cases hask.symm.trans htraded
    rcases withOutputAdded_eq_ok.mp hbought with ⟨_, _, _, rfl⟩ | ⟨hask, _⟩
    swap
    · cases hask.symm.trans htraded
    rcases of_turned_ask hnext hside with ⟨_, rfl⟩ | ⟨hoffer, price, hprice, rfl⟩
    · -- It still sells, and has got more of what it sells.
      rcases withOutputAdded_eq_ok.mp hsettled with ⟨_, _, _, rfl⟩ | ⟨hask, _⟩
      · simp only [GridOrder.input, hside] at hpaidInput hremoved
        omega
      · cases hask.symm.trans htraded
    · have hturned : tradedSide { o with side := .bid } = .ask :=
        tradedSide_bid h.quoteAsset rfl
      obtain ⟨hnumer, hdenom, _⟩ := shifted_eq_ok.mp hprice
      rcases withOutputAdded_eq_ok.mp hsettled with ⟨hbid, _⟩ | ⟨_, _, rfl, rfl⟩
      · cases hbid.symm.trans hturned
      · simp only [GridOrder.input, hside] at hpaidInput hremoved
        simp only [GridOrder.output, hside] at hle houtput
        dsimp only at hoffer hnumer hdenom hbudget
        exact ⟨by omega, by omega, rfl, by omega, by omega, by omega, hnumer, hdenom⟩
  · rintro ⟨hmax, rfl, rfl, hoffer, rfl, hquote, hnumer, hdenom⟩
    let paid := { o with quoteReserves := o.quoteReserves - o.baseReserves }
    let next := { paid with
      remainingExecutionBudget := 0
      side := .bid
      price := ⟨o.price.numer * o.sellShiftFactor.numer, o.price.denom * o.sellShiftFactor.denom⟩ }
    have hpaid : o.withInputRemoved o.baseReserves = .ok paid := by
      refine withInputRemoved_eq_ok.mpr (Or.inl ⟨htraded, hquote.ge, ?_, rfl⟩)
      have hlt := h.baseReserves_lt
      rw [mock]
      omega
    have hbought : paid.withOutputAdded 0 = .ok paid := by
      refine withOutputAdded_eq_ok.mpr (Or.inl ⟨htraded, h.baseReserves_lt, ?_, rfl⟩)
      simp [paid, hoffer]
    have hkept : next.withOutputAdded 0 = .ok next := by
      refine withOutputAdded_eq_ok.mpr (Or.inr ⟨tradedSide_bid h.quoteAsset rfl, ?_, rfl, rfl⟩)
      simp [next, paid, hquote]
    have hturned : turned { paid with remainingExecutionBudget := 0 } = .ok next := by
      have hprice := shifted_eq_ok.mpr ⟨hnumer, hdenom, rfl⟩
      simp only [paid, turned, hside]
      rw [if_pos hoffer]
      exact Checked.bind_eq_ok.mpr ⟨_, hprice, rfl⟩
    apply meets_of_idle h hmax hpaid hbought rfl rfl hturned rfl rfl hkept
    · simp [GridOrder.input, next, paid, hside, hoffer]
    · simp [GridOrder.output, next, paid, hside, hquote]

/-- Grid orders meet what is expected in no trade that gets them anything. -/
theorem meets_iff_trades (h : o.Parsed) (hpos : 0 < removed) (hinput : removed ≤ o.input) :
    Meets o removed added excess ↔ o.Trades removed added excess := by
  rw [Trades]
  cases hside : o.side with
  | bid =>
    constructor
    · intro hmeets
      exact absurd hmeets (not_meets_bid h hside hpos hinput)
    · rintro ⟨hask, _⟩
      cases hask
  | ask =>
    by_cases hnative : o.baseAsset = .native
    · simp [meets_ask_native h hside hnative hpos hinput, hnative]
    · simp [meets_ask_token h hside hnative hpos hinput, hnative]

end GridOrder

end UtxoMonitor.Orders
