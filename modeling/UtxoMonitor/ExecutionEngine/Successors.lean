import UtxoMonitor.ExecutionEngine.Takes

/-! What the executor goes on with after a partial fill, and what is read of the output that is
left. -/
namespace UtxoMonitor.Orders

open Lib LiquidityBook Pools

/-! ### Datums -/

/-- The fields that a datum is read from. -/
structure Datum.ReadsAs (fields : List PlutusData) (conf : Datum) : Prop where
  beacon : (bytesAt fields DatumMapping.beacon).bind RawBytes.fromRawBytes = some conf.beacon
  input : assetAt fields DatumMapping.input = some conf.input
  tradableInput : u64At fields DatumMapping.tradableInput = some conf.tradableInput
  costPerExStep : u64At fields DatumMapping.costPerExStep = some conf.costPerExStep
  minMarginalOutput : u64At fields DatumMapping.minMarginalOutput = some conf.minMarginalOutput
  output : assetAt fields DatumMapping.output = some conf.output
  basePrice : (takeField fields DatumMapping.basePrice).bind ratioTryFromPd = some conf.basePrice
  fee : u64At fields DatumMapping.fee = some conf.fee
  redeemerAddress : (takeField fields DatumMapping.redeemerAddress).bind PlutusAddress.tryFromPd =
    some conf.redeemerAddress
  cancellationPkh : (bytesAt fields DatumMapping.cancellationPkh).bind RawBytes.fromRawBytes =
    some conf.cancellationPkh
  permittedExecutors : (takeField fields DatumMapping.permittedExecutors).bind
    (PlutusData.intoVecPd keyHashFromPd) = some conf.permittedExecutors

theorem Datum.tryFromPd_eq_some {data : PlutusData} {conf : Datum} :
    Datum.tryFromPd data = some conf ↔
      ∃ alternative fields, data = .constr alternative fields ∧ ReadsAs fields conf := by
  constructor
  · intro h
    obtain ⟨⟨alternative, fields⟩, hconstr, h⟩ := Option.bind_eq_some_iff.mp h
    have hdata : data = .constr alternative fields := by
      cases data <;> cases hconstr
      rfl
    obtain ⟨beaconBytes, hbeaconBytes, h⟩ := Option.bind_eq_some_iff.mp h
    obtain ⟨beacon, hbeacon, h⟩ := Option.bind_eq_some_iff.mp h
    obtain ⟨input, hinput, h⟩ := Option.bind_eq_some_iff.mp h
    obtain ⟨tradableInput, htradable, h⟩ := Option.bind_eq_some_iff.mp h
    obtain ⟨cost, hcost, h⟩ := Option.bind_eq_some_iff.mp h
    obtain ⟨minMarginalOutput, hmin, h⟩ := Option.bind_eq_some_iff.mp h
    obtain ⟨output, houtput, h⟩ := Option.bind_eq_some_iff.mp h
    obtain ⟨priceData, hpriceData, h⟩ := Option.bind_eq_some_iff.mp h
    obtain ⟨price, hprice, h⟩ := Option.bind_eq_some_iff.mp h
    obtain ⟨fee, hfee, h⟩ := Option.bind_eq_some_iff.mp h
    obtain ⟨addressData, haddressData, h⟩ := Option.bind_eq_some_iff.mp h
    obtain ⟨address, haddress, h⟩ := Option.bind_eq_some_iff.mp h
    obtain ⟨pkhBytes, hpkhBytes, h⟩ := Option.bind_eq_some_iff.mp h
    obtain ⟨pkh, hpkh, h⟩ := Option.bind_eq_some_iff.mp h
    obtain ⟨executorsData, hexecutorsData, h⟩ := Option.bind_eq_some_iff.mp h
    obtain ⟨executors, hexecutors, h⟩ := Option.bind_eq_some_iff.mp h
    cases h
    exact ⟨alternative, fields, hdata, {
      beacon := Option.bind_eq_some_iff.mpr ⟨_, hbeaconBytes, hbeacon⟩
      input := hinput
      tradableInput := htradable
      costPerExStep := hcost
      minMarginalOutput := hmin
      output := houtput
      basePrice := Option.bind_eq_some_iff.mpr ⟨_, hpriceData, hprice⟩
      fee := hfee
      redeemerAddress := Option.bind_eq_some_iff.mpr ⟨_, haddressData, haddress⟩
      cancellationPkh := Option.bind_eq_some_iff.mpr ⟨_, hpkhBytes, hpkh⟩
      permittedExecutors := Option.bind_eq_some_iff.mpr ⟨_, hexecutorsData, hexecutors⟩ }⟩
  · rintro ⟨alternative, fields, rfl, h⟩
    obtain ⟨beaconBytes, hbeaconBytes, hbeacon⟩ := Option.bind_eq_some_iff.mp h.beacon
    obtain ⟨priceData, hpriceData, hprice⟩ := Option.bind_eq_some_iff.mp h.basePrice
    obtain ⟨addressData, haddressData, haddress⟩ := Option.bind_eq_some_iff.mp h.redeemerAddress
    obtain ⟨pkhBytes, hpkhBytes, hpkh⟩ := Option.bind_eq_some_iff.mp h.cancellationPkh
    obtain ⟨executorsData, hexecutorsData, hexecutors⟩ :=
      Option.bind_eq_some_iff.mp h.permittedExecutors
    refine Option.bind_eq_some_iff.mpr ⟨_, hbeaconBytes, Option.bind_eq_some_iff.mpr
      ⟨_, hbeacon, ?_⟩⟩
    refine Option.bind_eq_some_iff.mpr ⟨_, h.input, Option.bind_eq_some_iff.mpr
      ⟨_, h.tradableInput, Option.bind_eq_some_iff.mpr ⟨_, h.costPerExStep, ?_⟩⟩⟩
    refine Option.bind_eq_some_iff.mpr ⟨_, h.minMarginalOutput, Option.bind_eq_some_iff.mpr
      ⟨_, h.output, Option.bind_eq_some_iff.mpr ⟨_, hpriceData, ?_⟩⟩⟩
    refine Option.bind_eq_some_iff.mpr ⟨_, hprice, Option.bind_eq_some_iff.mpr ⟨_, h.fee, ?_⟩⟩
    refine Option.bind_eq_some_iff.mpr ⟨_, haddressData, Option.bind_eq_some_iff.mpr
      ⟨_, haddress, Option.bind_eq_some_iff.mpr ⟨_, hpkhBytes, ?_⟩⟩⟩
    exact Option.bind_eq_some_iff.mpr ⟨_, hpkh, Option.bind_eq_some_iff.mpr
      ⟨_, hexecutorsData, Option.bind_eq_some_iff.mpr ⟨_, hexecutors, rfl⟩⟩⟩

theorem Datum.amounts_lt {data : PlutusData} {conf : Datum} (h : Datum.tryFromPd data = some conf) :
    conf.tradableInput < 2 ^ 64 ∧ conf.fee < 2 ^ 64 := by
  obtain ⟨-, fields, -, hreads⟩ := Datum.tryFromPd_eq_some.mp h
  exact ⟨u64At_lt hreads.tradableInput, u64At_lt hreads.fee⟩

theorem takeField_set {fields : List PlutusData} {value : PlutusData} {i j : Nat} (h : i ≠ j) :
    takeField (fields.set i value) j = takeField fields j := List.getElem?_set_ne h

theorem u64At_set {fields : List PlutusData} {i n m : Nat} (h : u64At fields i = some m)
    (hn : n < 2 ^ 64) : u64At (fields.set i (.integer n)) i = some n := by
  obtain ⟨pd, hpd, -⟩ := Option.bind_eq_some_iff.mp h
  obtain ⟨hlt, -⟩ := List.getElem?_eq_some_iff.mp hpd
  refine Option.bind_eq_some_iff.mpr ⟨_, List.getElem?_set_self hlt, ?_⟩
  rw [PlutusData.intoU64, if_pos (by omega), Int.toNat_natCast]

/-- The update of a datum is read back, and all else is read as before. -/
theorem Datum.tryFromPd_unsafeUpdateDatum {data : PlutusData} {conf : Datum}
    (h : Datum.tryFromPd data = some conf) {tradableInput fee : Nat}
    (hinput : tradableInput < 2 ^ 64) (hfee : fee < 2 ^ 64) : Datum.tryFromPd (unsafeUpdateDatum data tradableInput fee) =
      some { conf with tradableInput := tradableInput, fee := fee } := by
  obtain ⟨alternative, fields, rfl, hreads⟩ := Datum.tryFromPd_eq_some.mp h
  have hother : ∀ i, DatumMapping.tradableInput ≠ i → DatumMapping.fee ≠ i →
      takeField ((fields.set DatumMapping.tradableInput (.integer tradableInput)).set
        DatumMapping.fee (.integer fee)) i = takeField fields i :=
    fun i hi hi' => (takeField_set hi').trans (takeField_set hi)
  have hfields : u64At (fields.set DatumMapping.tradableInput (.integer tradableInput))
      DatumMapping.fee = some conf.fee := by
    rw [u64At, takeField_set (by decide)]
    exact hreads.fee
  refine Datum.tryFromPd_eq_some.mpr ⟨alternative, _, rfl, ?_⟩
  constructor
  · rw [bytesAt, hother _ (by decide) (by decide)]
    exact hreads.beacon
  · rw [assetAt, hother _ (by decide) (by decide)]
    exact hreads.input
  · rw [u64At, takeField_set (by decide)]
    exact u64At_set hreads.tradableInput hinput
  · rw [u64At, hother _ (by decide) (by decide)]
    exact hreads.costPerExStep
  · rw [u64At, hother _ (by decide) (by decide)]
    exact hreads.minMarginalOutput
  · rw [assetAt, hother _ (by decide) (by decide)]
    exact hreads.output
  · rw [hother _ (by decide) (by decide)]
    exact hreads.basePrice
  · exact u64At_set hfields hfee
  · rw [hother _ (by decide) (by decide)]
    exact hreads.redeemerAddress
  · rw [bytesAt, hother _ (by decide) (by decide)]
    exact hreads.cancellationPkh
  · rw [hother _ (by decide) (by decide)]
    exact hreads.permittedExecutors

/-! ### Orders and their outputs -/

section

variable {config : LimitOrderConfig} {repr : Pools.TransactionOutput} {conf : Datum}
  {order : LimitOrder} {state : Option OrderState}

/-- What an order takes from its datum and from the value of its output. -/
structure OfDatum (repr : Pools.TransactionOutput) (conf : Datum) (order : LimitOrder) : Prop where
  assets : order.inputAsset = conf.input ∧ order.outputAsset = conf.output
  feeAsset : order.feeAsset = .native
  inputAmount : order.inputAmount = conf.tradableInput
  fee : order.fee = conf.fee
  outputAmount : order.outputAmount = (repr.value.amountOf conf.output).getD 0
  budget : executionBudget conf repr.value.coin = some order.executionBudget
  price : hardenPrice conf.basePrice conf.tradableInput = .ok order.basePrice

theorem ofDatum_fields (h : LimitOrder.ofDatum config repr conf state = .ok (some order)) :
    OfDatum repr conf order := by
  rw [LimitOrder.ofDatum] at h
  split at h
  · rename_i total budget baseOutput _ hbudget _
    split at h
    · obtain ⟨basePrice, hprice, heq⟩ := Checked.bind_eq_ok.mp h
      cases heq
      exact ⟨⟨rfl, rfl⟩, rfl, rfl, rfl, rfl, hbudget, hprice⟩
    · cases h
  · cases h

theorem fields_of_parsed [Serialization] {ctx : OrderContext}
    (h : LimitOrder.tryFromLedger config repr ctx = .ok (some order)) : ∃ datum conf,
      repr.datum = some (.datum datum) ∧ Datum.tryFromPd datum = some conf ∧
      OfDatum repr conf order := by
  obtain ⟨-, datum, conf, hdatum, hconf, hof⟩ := tryFromLedger_eq_ok_some.mp h
  refine ⟨datum, conf, ?_, hconf, ofDatum_fields hof⟩
  obtain ⟨option, hoption, hintoPd⟩ := Option.bind_eq_some_iff.mp hdatum
  cases option with
  | hash digest => cases hintoPd
  | datum pd =>
    cases hintoPd
    exact hoption

/-- ADA that is not reserved, neither for the fee nor for the trade. -/
theorem executionBudget_eq_some {coin budget : Nat} : executionBudget conf coin = some budget ↔
    (reservedAndTradable conf).1 + conf.fee + (reservedAndTradable conf).2 + budget = coin := by
  simp only [executionBudget, LiquidityBook.checkedSub, Option.bind_eq_bind, Option.bind_eq_some_iff,
    Option.ite_none_right_eq_some, Option.some.injEq]
  constructor
  · rintro ⟨_, ⟨hreserved, rfl⟩, _, ⟨hfee, rfl⟩, hbudget, rfl⟩
    omega
  · intro h
    exact ⟨_, ⟨by omega, rfl⟩, _, ⟨by omega, rfl⟩, by omega, by omega⟩

theorem OfDatum.coin (h : OfDatum repr conf order) :
    (reservedAndTradable conf).1 + conf.fee + (reservedAndTradable conf).2 + order.executionBudget =
      repr.value.coin :=
  executionBudget_eq_some.mp h.budget

end

/-! ### Fills -/

/-- What the matchmaking and the balancing of fees make of an order that goes on. -/
inductive Filled (order : LimitOrder) : LimitOrder → Prop
  | refl : Filled order order
  | trade {o o' : LimitOrder} (removed added : Nat) : Filled order o →
      CheckedTaker.withAppliedTrade o removed added = .ok (.succ o') → Filled order o'
  | output {o o' : LimitOrder} (added : Nat) : Filled order o →
      Settling.withOutputAdded o added = .ok o' → Filled order o'
  | fee {o o' : LimitOrder} (charged : Nat) : Filled order o →
      Settling.withFeeCharged o charged = .ok o' → Filled order o'
  | budget {o o' : LimitOrder} (delta realDelta : Int) : Filled order o →
      Settling.withBudgetCorrected o delta = .ok (realDelta, o') → Filled order o'

/-- An order that differs in its amounts alone. -/
structure SameTerms (order next : LimitOrder) : Prop where
  assets : next.inputAsset = order.inputAsset ∧ next.outputAsset = order.outputAsset
  price : next.basePrice = order.basePrice

theorem Filled.sameTerms {order next : LimitOrder} (h : Filled order next) : SameTerms order next := by
  induction h with
  | refl => exact ⟨⟨rfl, rfl⟩, rfl⟩
  | trade removed added _ htrade ih =>
    obtain ⟨_, -, htrade⟩ := Checked.bind_eq_ok.mp htrade
    obtain ⟨_, -, htrade⟩ := Checked.bind_eq_ok.mp htrade
    dsimp only at htrade
    split at htrade
    · cases htrade
    · cases htrade
      exact ⟨ih.assets, ih.price⟩
  | output added _ hadded ih =>
    obtain ⟨_, -, hadded⟩ := Checked.bind_eq_ok.mp hadded
    cases hadded
    exact ⟨ih.assets, ih.price⟩
  | fee charged _ hcharged ih =>
    obtain ⟨_, -, hcharged⟩ := Checked.bind_eq_ok.mp hcharged
    cases hcharged
    exact ⟨ih.assets, ih.price⟩
  | budget delta realDelta _ hcorrected ih =>
    obtain ⟨⟨_, _⟩, -, hcorrected⟩ := Checked.bind_eq_ok.mp hcorrected
    cases hcorrected
    exact ⟨ih.assets, ih.price⟩

/-- What the matchmaking hands over at its end, too, is made of an order in these ways. -/
theorem Filled.finalized {order o next : LimitOrder} (h : Filled order o) {excess : Nat}
    (hfinal : finalized ⟨order, .succ o⟩ excess = .ok ⟨order, .succ next⟩) : Filled order next := by
  obtain ⟨removed, -, hfinal⟩ := Checked.bind_eq_ok.mp hfinal
  obtain ⟨settled, hsettled, hfinal⟩ := Checked.bind_eq_ok.mp hfinal
  obtain ⟨paid, hadded, hsettled⟩ := Checked.bind_eq_ok.mp hsettled
  obtain ⟨charged, hcharged, hsettled⟩ := Checked.bind_eq_ok.mp hsettled
  obtain ⟨delta, -, hsettled⟩ := Checked.bind_eq_ok.mp hsettled
  obtain ⟨⟨realDelta, corrected⟩, hcorrected, hsettled⟩ := Checked.bind_eq_ok.mp hsettled
  cases hsettled
  have hfilled := ((h.output _ hadded).fee _ hcharged).budget _ _ hcorrected
  have hgoes : LimitOrder.tryTerminate settled = .succ next :=
    congrArg (fun take => take.result) (Except.ok.inj hfinal)
  unfold LimitOrder.tryTerminate at hgoes
  split at hgoes
  · cases hgoes
  · cases hgoes
    exact hfilled

end UtxoMonitor.Orders

namespace UtxoMonitor.ExecutionEngine

open Lib LiquidityBook Pools Orders

open EventSink (FinalizedTxOut)

/-! ### Execution of a fill -/

section

variable {state state' : ExecutionState} {order next successor read : Orders.LimitOrder}
  {consumedOut : FinalizedTxOut} {old : Bundled Orders.LimitOrder FinalizedTxOut}
  {produced : Pools.TransactionOutput} {value value' : Pools.Value}

/-- What a fill takes out of the output of an order and puts into it. -/
structure Moves (order next : Orders.LimitOrder) (value value' : Pools.Value) : Prop where
  input : next.inputAmount ≤ order.inputAmount
  output : order.outputAmount ≤ next.outputAmount
  budget : next.executionBudget ≤ order.executionBudget
  fee : next.fee ≤ order.fee
  held : ∀ asset, value'.held asset +
      (if asset = order.feeAsset then
        order.executionBudget - next.executionBudget + (order.fee - next.fee) else 0) +
      (if asset = order.inputAsset then order.inputAmount - next.inputAmount else 0) =
    value.held asset +
      if asset = order.outputAsset then next.outputAmount - order.outputAmount else 0

theorem LimitOrder.exec_spec [ValueArithmetic]
    (h : LimitOrder.exec state ⟨order, .succ next⟩ consumedOut =
      .ok (state', .updated old ⟨successor, produced⟩)) :
    next = successor ∧ ∃ value, Moves order next consumedOut.out.value value ∧
      produced = { consumedOut.out with value := value }.dataMut
        fun data => unsafeUpdateDatum data next.inputAmount next.fee := by
  obtain ⟨removed, hremoved, h⟩ := Checked.bind_eq_ok.mp h
  obtain ⟨added, hadded, h⟩ := Checked.bind_eq_ok.mp h
  obtain ⟨consumed, hconsumed, h⟩ := Checked.bind_eq_ok.mp h
  obtain ⟨charged, hcharged, h⟩ := Checked.bind_eq_ok.mp h
  obtain ⟨spent, hspent, h⟩ := Checked.bind_eq_ok.mp h
  obtain ⟨paid, hpaid, h⟩ := Checked.bind_eq_ok.mp h
  obtain ⟨traded, htraded, h⟩ := Checked.bind_eq_ok.mp h
  obtain ⟨candidate, hcandidate, h⟩ := Checked.bind_eq_ok.mp h
  obtain ⟨settled, -, h⟩ := Checked.bind_eq_ok.mp h
  cases h
  obtain ⟨-, rfl⟩ := Checked.add_eq_ok.mp hspent
  obtain ⟨hinput, rfl⟩ : next.inputAmount ≤ order.inputAmount ∧
      order.inputAmount - next.inputAmount = removed := unwrap_checkedSub_eq_ok.mp hremoved
  obtain ⟨houtput, rfl⟩ : order.outputAmount ≤ next.outputAmount ∧
      next.outputAmount - order.outputAmount = added := unwrap_checkedSub_eq_ok.mp hadded
  obtain ⟨hbudget, rfl⟩ : next.executionBudget ≤ order.executionBudget ∧
      order.executionBudget - next.executionBudget = consumed :=
    unwrap_checkedSub_eq_ok.mp hconsumed
  obtain ⟨hfee, rfl⟩ : next.fee ≤ order.fee ∧ order.fee - next.fee = charged :=
    unwrap_checkedSub_eq_ok.mp hcharged
  obtain ⟨hpaidOut, hpaidHeld⟩ := Pools.TransactionOutput.held_of_subAsset hpaid
  obtain ⟨htradedOut, htradedHeld⟩ := Pools.TransactionOutput.held_of_subAsset htraded
  obtain ⟨hcandidateOut, hcandidateHeld⟩ := Pools.TransactionOutput.held_of_addAsset hcandidate
  refine ⟨rfl, candidate.value, ⟨hinput, houtput, hbudget, hfee, fun asset => ?_⟩, ?_⟩
  · have hsum := hpaidHeld asset
    rw [htradedHeld asset] at hsum
    rw [hcandidateHeld asset, hsum]
    dsimp only
    omega
  · rw [hcandidateOut, htradedOut, hpaidOut]

theorem Moves.coin (h : Moves order next value value') (hfee : order.feeAsset = .native) :
    value'.coin + (order.executionBudget - next.executionBudget + (order.fee - next.fee)) +
      (if order.inputAsset = .native then order.inputAmount - next.inputAmount else 0) =
    value.coin +
      if order.outputAsset = .native then next.outputAmount - order.outputAmount else 0 := by
  have hheld := h.held .native
  rw [if_pos hfee.symm] at hheld
  simpa only [Value.held_native, eq_comm (a := order.inputAsset), eq_comm (a := order.outputAsset)]
    using hheld

/-! ### Reading what is produced -/

/-- The order that is read of the output of a fill has the input and the fee of the successor. Its
output and its budget are read of the balance, its price is hardened against what is left of the
input. -/
structure ReadBack (price : Ratio) (order successor read : Orders.LimitOrder) : Prop where
  input : read.inputAmount = successor.inputAmount
  fee : read.fee = successor.fee
  output : read.outputAmount +
      (if order.outputAsset = .native then
        order.executionBudget - successor.executionBudget + (order.fee - successor.fee) else 0) +
      (if order.outputAsset = order.inputAsset then
        order.inputAmount - successor.inputAmount else 0) =
    successor.outputAmount
  budget : read.executionBudget = successor.executionBudget +
    if order.outputAsset = .native then successor.outputAmount - order.outputAmount else 0
  priceKept : hardenPrice price order.inputAmount = .ok successor.basePrice
  priceRead : hardenPrice price successor.inputAmount = .ok read.basePrice

theorem ReadBack.of_moves {repr repr' : Pools.TransactionOutput} {conf : Datum}
    (hof : OfDatum repr conf order) (hsame : SameTerms order successor)
    (hmoves : Moves order successor repr.value repr'.value)
    (hread : OfDatum repr'
      { conf with tradableInput := successor.inputAmount, fee := successor.fee } read) :
    ReadBack conf.basePrice order successor read := by
  have hassets := hof.assets
  have hcoin := hmoves.coin hof.feeAsset
  have hbudget := hof.coin
  have hbudget' := hread.coin
  have hinput := hmoves.input
  have houtput := hmoves.output
  have hspent := hmoves.budget
  have hfee := hmoves.fee
  have hprice : hardenPrice conf.basePrice order.inputAmount = .ok successor.basePrice :=
    hsame.price ▸ hof.inputAmount ▸ hof.price
  refine ⟨hread.inputAmount, hread.fee, ?_, ?_, hprice, hread.price⟩
  · have hheld := hmoves.held conf.output
    have hbefore : order.outputAmount = repr.value.held conf.output := hof.outputAmount
    have hafter : read.outputAmount = repr'.value.held conf.output := hread.outputAmount
    rw [hof.feeAsset, hassets.2, if_pos rfl] at hheld
    rw [hassets.2]
    omega
  · rw [hassets.1, hassets.2, hof.inputAmount, hof.fee] at hcoin
    rw [hof.inputAmount] at hinput
    rw [hof.fee] at hfee
    rw [hassets.2]
    -- by the asset that is traded away and the one that is bought
    rcases hin : conf.input with _ | input <;> rcases hout : conf.output with _ | output <;>
      simp only [reservedAndTradable, hin, hout, reduceCtorEq, if_true, if_false] at * <;> omega

/-- Whatever of an order is filled, this is how the order read of the produced output relates to the
successor. -/
theorem LimitOrder.read_back [ValueArithmetic] [Serialization] {config : LimitOrderConfig}
    {ctx ctx' : OrderContext}
    (horder : LimitOrder.tryFromLedger config consumedOut.out ctx = .ok (some order))
    (hfilled : Filled order next)
    (hexec : LimitOrder.exec state ⟨order, .succ next⟩ consumedOut =
      .ok (state', .updated old ⟨successor, produced⟩))
    (hread : LimitOrder.tryFromLedger config produced ctx' = .ok (some read)) :
    ∃ conf, consumedOut.out.intoPd.bind Datum.tryFromPd = some conf ∧
      ReadBack conf.basePrice order successor read := by
  obtain ⟨rfl, value, hmoves, rfl⟩ := LimitOrder.exec_spec hexec
  obtain ⟨data, conf, hdata, hconf, hof⟩ := fields_of_parsed horder
  have hdatum : ({ consumedOut.out with value := value } : Pools.TransactionOutput).datum =
      some (.datum data) := hdata
  rw [Pools.TransactionOutput.dataMut_eq hdatum] at hread
  obtain ⟨data', conf', hdata', hconf', hof'⟩ := fields_of_parsed hread
  obtain ⟨hinputLt, hfeeLt⟩ := Datum.amounts_lt hconf
  cases hdata'
  have hupdated := Datum.tryFromPd_unsafeUpdateDatum hconf
    (hmoves.input.trans_lt (hof.inputAmount ▸ hinputLt)) (hmoves.fee.trans_lt (hof.fee ▸ hfeeLt))
  obtain rfl := Option.some.inj (hconf'.symm.trans hupdated)
  refine ⟨conf, ?_, ReadBack.of_moves hof hfilled.sameTerms hmoves hof'⟩
  rw [Pools.TransactionOutput.intoPd, hdata]
  exact hconf

end

/-! ### Half of an order -/

/-- An order for ten million units at a price of one, with half an ADA of fee. -/
def partialOutput (input output : PlutusData) (value : Pools.Value) : Pools.TransactionOutput where
  address := .enterprise (.script (.replicate 100))
  value := value
  datum := some (.datum (.constr 0 [
    .bytes [0],
    .bytes (List.replicate 28 6),
    input,
    .integer 10000000,
    .integer 500000,
    .integer 5000000,
    output,
    .constr 0 [.integer 1, .integer 1],
    .integer 500000,
    PlutusAddress.intoPd ⟨.pubKey (.replicate 7), some ⟨.pubKey (.replicate 8)⟩⟩,
    .bytes (List.replicate 28 7),
    .list []]))

def partialConfig : LimitOrderConfig :=
  ⟨.replicate 9, ⟨.replicate 100, ⟨0, 0⟩⟩, ⟨500000, 500000⟩⟩

/-- The order's beacon is among what the transaction spends. -/
def partialContext (index : UInt64) : OrderContext where
  outputRef := ⟨.replicate 1, index⟩
  consumedInputs := ⟨[⟨.replicate 2, 0⟩], by decide⟩
  consumedIdentifiers := ⟨[⟨.replicate 6, AssetName.zero⟩], by decide⟩

def partialOrder (input output : AssetClass) (outputAmount executionBudget : Nat) :
    Orders.LimitOrder where
  beacon := .replicate 6
  inputAsset := input
  inputAmount := 10000000
  outputAsset := output
  outputAmount := outputAmount
  basePrice := 1
  executionBudget := executionBudget
  feeAsset := .native
  redeemerAddress := ⟨.pubKey (.replicate 7), some ⟨.pubKey (.replicate 8)⟩⟩
  cancellationPkh := .replicate 7
  marginalCost := ⟨0, 0⟩
  virgin := false
  fee := 500000
  maxCostPerExStep := 500000
  minMarginalOutput := 5000000
  requiresExecutorSig := false

abbrev partialSerialization : Serialization := ⟨indefiniteCbor, fun _ => .replicate 0⟩

/-- Half of an order is filled. -/
def partialNext (order : Orders.LimitOrder) : Orders.LimitOrder :=
  { order with
    inputAmount := 5000000, outputAmount := order.outputAmount + 5000000, fee := 250000
    executionBudget := order.executionBudget - 500000 }

/-- The output that is left of a half-filled order. -/
def partialProduced (out : Pools.TransactionOutput) : Pools.TransactionOutput :=
  out.dataMut fun data => unsafeUpdateDatum data 5000000 250000

def partialInput (out : Pools.TransactionOutput) : FinalizedTxOut := ⟨out, ⟨.replicate 2, 0⟩⟩

/-- What is set aside of an order, and its output before and after. -/
def partialState (out out' : Pools.TransactionOutput) : ExecutionState :=
  ⟨[(partialInput out, out')], 500000, 250000⟩

/-- Buys tokens for ADA. -/
def adaOutput (coin : UInt64) (tokens : List (Token × UInt64)) : Pools.TransactionOutput :=
  partialOutput (.constr 0 [.bytes [], .bytes []]) (sampleToken 2).intoPd (.ofTokens coin tokens)

def adaOrder : Orders.LimitOrder := partialOrder .native (.token (sampleToken 2)) 0 1500000

/-- Sells tokens for ADA. -/
def tokenOutput (coin : UInt64) (tokens : UInt64) : Pools.TransactionOutput :=
  partialOutput (sampleToken 2).intoPd (.constr 0 [.bytes [], .bytes []])
    (.ofTokens coin [(sampleToken 2, tokens)])

def tokenOrder : Orders.LimitOrder := partialOrder (.token (sampleToken 2)) .native 2500000 2000000

theorem partialNext_filled :
    ∀ order ∈ [adaOrder, tokenOrder], Filled order (partialNext order) := by
  have htrade : ∀ order ∈ [adaOrder, tokenOrder],
      CheckedTaker.withAppliedTrade order 5000000 5000000 = .ok (.succ { order with
        inputAmount := 5000000, outputAmount := order.outputAmount + 5000000 }) := by
    decide +kernel
  have hfee : ∀ order ∈ [adaOrder, tokenOrder],
      Settling.withFeeCharged { order with
        inputAmount := 5000000, outputAmount := order.outputAmount + 5000000 } 250000 =
      .ok { partialNext order with executionBudget := order.executionBudget } := by
    decide +kernel
  have hbudget : ∀ order ∈ [adaOrder, tokenOrder],
      Settling.withBudgetCorrected
        { partialNext order with executionBudget := order.executionBudget } (-500000) =
      .ok (-500000, partialNext order) := by
    decide +kernel
  intro order h
  have htraded := Filled.trade 5000000 5000000 .refl (htrade order h)
  exact .budget (-500000) (-500000) (.fee 250000 htraded (hfee order h)) (hbudget order h)

theorem LimitOrder.read_back_sample :
    ∃ conf, (adaOutput 13500000 []).intoPd.bind Datum.tryFromPd = some conf ∧
      ReadBack conf.basePrice adaOrder (partialNext adaOrder) (partialNext adaOrder) :=
  let produced := partialProduced (adaOutput 7750000 [(sampleToken 2, 5000000)])
  @LimitOrder.read_back .new (partialState (adaOutput 13500000 []) produced) adaOrder
    (partialNext adaOrder) (partialNext adaOrder) (partialNext adaOrder)
    (partialInput (adaOutput 13500000 [])) ⟨adaOrder, partialInput (adaOutput 13500000 [])⟩ produced
    Value.arithmetic partialSerialization partialConfig (partialContext 0) (partialContext 1)
    (by decide +kernel) (partialNext_filled _ (by decide)) rfl (by decide +kernel)

/-- The ADA received is read as budget too, and what was consumed of the budget and of the fee is no
longer read as output. -/
theorem LimitOrder.token_to_ada_differs :
    ¬ ∀ (_ : ValueArithmetic) (_ : Serialization) (config : LimitOrderConfig)
      (ctx ctx' : OrderContext) (state state' : ExecutionState)
      (order next successor read : Orders.LimitOrder)
      (consumedOut : FinalizedTxOut) (old : Bundled Orders.LimitOrder FinalizedTxOut)
      (produced : Pools.TransactionOutput),
      LimitOrder.tryFromLedger config consumedOut.out ctx = .ok (some order) → Filled order next →
      LimitOrder.exec state ⟨order, .succ next⟩ consumedOut =
        .ok (state', .updated old ⟨successor, produced⟩) →
      LimitOrder.tryFromLedger config produced ctx' = .ok (some read) →
      read.inputAmount = successor.inputAmount ∧ read.outputAmount = successor.outputAmount ∧
      read.fee = successor.fee ∧ read.executionBudget = successor.executionBudget ∧
      read.basePrice = successor.basePrice := by
  intro h
  let produced := partialProduced (tokenOutput 6750000 5000000)
  let read : Orders.LimitOrder :=
    { partialNext tokenOrder with outputAmount := 6750000, executionBudget := 6500000 }
  have hread : @LimitOrder.tryFromLedger partialSerialization partialConfig produced
      (partialContext 1) = .ok (some read) := by
    decide +kernel
  have hsame := h Value.arithmetic partialSerialization partialConfig (partialContext 0)
    (partialContext 1) .new (partialState (tokenOutput 2500000 10000000) produced) tokenOrder
    (partialNext tokenOrder) (partialNext tokenOrder) _ (partialInput (tokenOutput 2500000 10000000))
    ⟨tokenOrder, partialInput (tokenOutput 2500000 10000000)⟩ produced (by decide +kernel)
    (partialNext_filled _ (by decide)) rfl hread
  exact absurd hsame.2.1 (by decide)

end UtxoMonitor.ExecutionEngine
