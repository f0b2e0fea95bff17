import UtxoMonitor.Domain
import UtxoMonitor.Pools.Ledger

/-! How limit orders are read from the outputs of transactions. -/
namespace UtxoMonitor.Orders

open Lib LiquidityBook Domain Pools

/-- Composable limit order, with what the matchmaking does not read. -/
structure LimitOrder extends LiquidityBook.LimitOrder where
  /-- Currency used to pay for execution. -/
  feeAsset : AssetClass
  redeemerAddress : PlutusAddress
  cancellationPkh : Ed25519KeyHash
  /-- Is executor's signature required. -/
  requiresExecutorSig : Bool
  /-- If this state is untouched. -/
  virgin : Bool
deriving DecidableEq

abbrev PairId := AssetClass × AssetClass

def LimitOrder.pairId (o : LimitOrder) : PairId := orderCanonical o.inputAsset o.outputAsset

/-! ### Datums -/

structure Datum where
  beacon : PolicyId
  input : AssetClass
  tradableInput : Nat
  costPerExStep : Nat
  minMarginalOutput : Nat
  output : AssetClass
  basePrice : Ratio
  fee : Nat
  redeemerAddress : PlutusAddress
  cancellationPkh : Ed25519KeyHash
  permittedExecutors : List Ed25519KeyHash

namespace DatumMapping

def beacon : Nat := 1
def input : Nat := 2
def tradableInput : Nat := 3
def costPerExStep : Nat := 4
def minMarginalOutput : Nat := 5
def output : Nat := 6
def basePrice : Nat := 7
def fee : Nat := 8
def redeemerAddress : Nat := 9
def cancellationPkh : Nat := 10
def permittedExecutors : Nat := 11

end DatumMapping

def intoU128 : PlutusData → Option Nat
  | .integer n => if 0 ≤ n ∧ n < 2 ^ 128 then some n.toNat else none
  | _ => none

/-- `TryFromPData for Ratio<u128>` -/
def ratioTryFromPd (data : PlutusData) : Option Ratio := do
  let (_, fields) ← data.intoConstrPd
  let denom ← intoU128 (← takeField fields 1)
  if denom ≠ 0 then return ⟨← intoU128 (← takeField fields 0), denom⟩ else none

def keyHashFromPd (pd : PlutusData) : Option Ed25519KeyHash :=
  pd.intoBytes.bind RawBytes.fromRawBytes

def Datum.tryFromPd (data : PlutusData) : Option Datum := do
  let (_, fields) ← data.intoConstrPd
  return {
    beacon := ← RawBytes.fromRawBytes (← bytesAt fields DatumMapping.beacon)
    input := ← assetAt fields DatumMapping.input
    tradableInput := ← u64At fields DatumMapping.tradableInput
    costPerExStep := ← u64At fields DatumMapping.costPerExStep
    minMarginalOutput := ← u64At fields DatumMapping.minMarginalOutput
    output := ← assetAt fields DatumMapping.output
    basePrice := ← ratioTryFromPd (← takeField fields DatumMapping.basePrice)
    fee := ← u64At fields DatumMapping.fee
    redeemerAddress :=
      ← PlutusAddress.tryFromPd (← takeField fields DatumMapping.redeemerAddress)
    cancellationPkh := ← RawBytes.fromRawBytes (← bytesAt fields DatumMapping.cancellationPkh)
    permittedExecutors := ← PlutusData.intoVecPd keyHashFromPd
      (← takeField fields DatumMapping.permittedExecutors) }

/-- `set_field` of a constructor -/
def setField (index : Nat) (value : PlutusData) : PlutusData → PlutusData
  | .constr alternative fields => .constr alternative (fields.set index value)
  | data => data

def unsafeUpdateDatum (data : PlutusData) (tradableInput fee : Nat) : PlutusData :=
  setField DatumMapping.fee (.integer fee)
    (setField DatumMapping.tradableInput (.integer tradableInput) data)

/-! ### Beacons -/

def withErasedBeaconUnsafe (data : PlutusData) (index : Nat) : PlutusData :=
  setField index (.bytes (List.replicate 28 0)) data

/-- What a fresh beacon is the digest of. -/
def beaconPreimage (someInputOref : OutputRef) (datumHash : RawBytes 28) (orderIndex : UInt64) :
    Bytes :=
  someInputOref.txHash.toRawBytes ++ bigEndian 8 someInputOref.index.toNat ++
    bigEndian 8 orderIndex.toNat ++ datumHash.toRawBytes

section Reading

variable [Serialization]

def beaconFromOref (someInputOref : OutputRef) (datumHash : RawBytes 28) (orderIndex : UInt64) :
    PolicyId :=
  Serialization.blake2b224 (beaconPreimage someInputOref datumHash orderIndex)

def minLovelace : Nat := 1500000

inductive OrderState where
  | new
  | subsequent
deriving DecidableEq

/-- What the reading of an order looks at in its transaction. -/
structure OrderContext where
  outputRef : OutputRef
  consumedInputs : SmallVec OutputRef
  consumedIdentifiers : SmallVec Token

/-- The digest of a datum without its beacon. -/
def datumHash (datum : PlutusData) (beaconIndex : Nat) : RawBytes 28 :=
  Serialization.blake2b224 (Serialization.toCborBytes (withErasedBeaconUnsafe datum beaconIndex))

def orderState (beacon : PolicyId) (datum : PlutusData) (beaconIndex : Nat) (ctx : OrderContext) :
    Option OrderState :=
  let validFreshBeacon := ctx.consumedInputs.exists_ fun o =>
    beaconFromOref o (datumHash datum beaconIndex) ctx.outputRef.index = beacon
  let consumedBeacons := ctx.consumedIdentifiers.count fun b => b.policyId = beacon
  if consumedBeacons = 1 then some .subsequent
  else if validFreshBeacon ∧ ctx.consumedIdentifiers.isEmpty then some .new
  else none

/-! ### Orders -/

structure LimitOrderValidation where
  minCostPerExStep : Nat
  minFeeLovelace : Nat

/-- What the reading of limit orders takes from the configuration. -/
structure LimitOrderConfig where
  executorCred : Ed25519KeyHash
  limitOrder : DeployedScriptInfo
  validation : LimitOrderValidation

def maxPriceDenom : Nat := 1125899906842624

/-- The price that pays a whole number of units for the whole input. -/
def hardenPrice (p : Ratio) (input : Nat) : Checked ℚ≥0 := do
  let scaled ← Checked.mul 128 input p.numer
  let minOutput := (scaled + p.denom - 1) / p.denom
  if minOutput > 0 then return minOutput / input else return 1 / maxPriceDenom

def linearOutputRelative (input : Nat) (price : Ratio) : Option Nat :=
  let output := input * price.numer / price.denom
  if output < 2 ^ 64 then some output else none

/-- ADA that is reserved, and ADA that is traded. -/
def reservedAndTradable (conf : Datum) : Nat × Nat :=
  match conf.input, conf.output with
  | .native, _ => (minLovelace, conf.tradableInput)
  | _, .native => (0, 0)
  | _, _ => (minLovelace, 0)

def executionBudget (conf : Datum) (totalAdaInput : Nat) : Option Nat := do
  let (reservedLovelace, tradableLovelace) := reservedAndTradable conf
  let lov ← checkedSub totalAdaInput reservedLovelace
  let lov ← checkedSub lov conf.fee
  checkedSub lov tradableLovelace

/-- What is checked of an order besides its beacon. -/
def LimitOrder.valid (conf : Datum) (config : LimitOrderConfig)
    (totalInputAssetAmount executionBudget baseOutput : Nat) (state : Option OrderState) : Prop :=
  let minMarginalOutput := min conf.minMarginalOutput baseOutput
  conf.tradableInput ≤ totalInputAssetAmount ∧
  (minMarginalOutput ≠ 0 ∧ conf.costPerExStep ≠ 0 ∧
    baseOutput / minMarginalOutput ≤ executionBudget / conf.costPerExStep) ∧
  (state ≠ some .subsequent → config.validation.minFeeLovelace ≤ conf.fee) ∧
  (conf.permittedExecutors = [] ∨ config.executorCred ∈ conf.permittedExecutors) ∧
  (config.validation.minCostPerExStep ≤ conf.costPerExStep ∧
    conf.costPerExStep ≤ executionBudget)

instance (conf : Datum) (config : LimitOrderConfig) (total budget baseOutput : Nat)
    (state : Option OrderState) :
    Decidable (LimitOrder.valid conf config total budget baseOutput state) :=
  inferInstanceAs (Decidable (_ ∧ _ ∧ _ ∧ _ ∧ _))

/-- What is made of a datum, once its beacon has been looked at. -/
def LimitOrder.ofDatum (config : LimitOrderConfig) (repr : Pools.TransactionOutput) (conf : Datum)
    (state : Option OrderState) : Checked (Option LimitOrder) :=
  match repr.value.amountOf conf.input, executionBudget conf repr.value.coin,
    linearOutputRelative conf.tradableInput conf.basePrice with
  | some totalInputAssetAmount, some executionBudget, some baseOutput =>
    if LimitOrder.valid conf config totalInputAssetAmount executionBudget baseOutput state ∧
        state.isSome then do
      let basePrice ← hardenPrice conf.basePrice conf.tradableInput
      return some {
        beacon := conf.beacon
        inputAsset := conf.input
        inputAmount := conf.tradableInput
        outputAsset := conf.output
        outputAmount := (repr.value.amountOf conf.output).getD 0
        basePrice := basePrice
        feeAsset := .native
        executionBudget := executionBudget
        fee := conf.fee
        minMarginalOutput := min conf.minMarginalOutput baseOutput
        maxCostPerExStep := conf.costPerExStep
        redeemerAddress := conf.redeemerAddress
        cancellationPkh := conf.cancellationPkh
        requiresExecutorSig := ¬ conf.permittedExecutors = []
        marginalCost := config.limitOrder.marginalCost
        virgin := state = some .new }
    else return none
  | _, _, _ => return none

/-- `TryFromLedger for LimitOrder` -/
def LimitOrder.tryFromLedger (config : LimitOrderConfig) (repr : Pools.TransactionOutput)
    (ctx : OrderContext) : Checked (Option LimitOrder) :=
  if testAddress repr.address config.limitOrder then
    match repr.intoPd with
    | some datum =>
      match Datum.tryFromPd datum with
      | some conf =>
        LimitOrder.ofDatum config repr conf (orderState conf.beacon datum DatumMapping.beacon ctx)
      | none => return none
    | none => return none
  else return none

/-- An order can be made of the datum, of an output in the given state. -/
def LimitOrder.WellFormed (config : LimitOrderConfig) (repr : Pools.TransactionOutput)
    (conf : Datum) (state : OrderState) : Prop :=
  ∃ total budget baseOutput price, repr.value.amountOf conf.input = some total ∧
    executionBudget conf repr.value.coin = some budget ∧
    linearOutputRelative conf.tradableInput conf.basePrice = some baseOutput ∧
    LimitOrder.valid conf config total budget baseOutput (some state) ∧
    hardenPrice conf.basePrice conf.tradableInput = .ok price

/-! ### What is read -/

variable {config : LimitOrderConfig} {repr : Pools.TransactionOutput} {conf : Datum}
  {ctx : OrderContext} {order : LimitOrder} {state : Option OrderState} {datum : PlutusData}
  {beacon : PolicyId} {index : Nat}

omit [Serialization] in
theorem ofDatum_spec (h : LimitOrder.ofDatum config repr conf state = .ok (some order)) :
    state.isSome ∧ order.beacon = conf.beacon := by
  rw [LimitOrder.ofDatum] at h
  split at h
  · split at h
    · rename_i hvalid
      obtain ⟨basePrice, _, heq⟩ := Checked.bind_eq_ok.mp h
      cases heq
      exact ⟨hvalid.2, rfl⟩
    · cases h
  · cases h

omit [Serialization] in
theorem exists_ofDatum {st : OrderState} :
    (∃ order, LimitOrder.ofDatum config repr conf (some st) = .ok (some order)) ↔
      LimitOrder.WellFormed config repr conf st := by
  rw [LimitOrder.WellFormed]
  constructor
  · rintro ⟨order, h⟩
    rw [LimitOrder.ofDatum] at h
    split at h
    · rename_i total budget baseOutput htotal hbudget hbase
      split at h
      · rename_i hvalid
        obtain ⟨price, hprice, _⟩ := Checked.bind_eq_ok.mp h
        exact ⟨total, budget, baseOutput, price, htotal, hbudget, hbase, hvalid.1, hprice⟩
      · cases h
    · cases h
  · rintro ⟨total, budget, baseOutput, price, htotal, hbudget, hbase, hvalid, hprice⟩
    simp only [LimitOrder.ofDatum, htotal, hbudget, hbase]
    rw [if_pos ⟨hvalid, rfl⟩, hprice]
    exact ⟨_, rfl⟩

theorem tryFromLedger_eq_ok_some :
    LimitOrder.tryFromLedger config repr ctx = .ok (some order) ↔
      testAddress repr.address config.limitOrder ∧ ∃ datum conf, repr.intoPd = some datum ∧
        Datum.tryFromPd datum = some conf ∧ LimitOrder.ofDatum config repr conf
          (orderState conf.beacon datum DatumMapping.beacon ctx) = .ok (some order) := by
  rw [LimitOrder.tryFromLedger]
  by_cases haddr : testAddress repr.address config.limitOrder
  · rw [if_pos haddr]
    cases hdatum : repr.intoPd with
    | none => simp
    | some datum =>
      cases hconf : Datum.tryFromPd datum with
      | none => simp [hconf]
      | some conf => simp [haddr, hconf]
  · simp [haddr]

theorem orderState_subsequent : orderState beacon datum index ctx = some .subsequent ↔
    ctx.consumedIdentifiers.count (fun b => b.policyId = beacon) = 1 := by
  rw [orderState]
  split
  · rename_i h
    simpa using h
  · rename_i h
    split
    · simpa using h
    · simpa using h

theorem of_orderState_new (h : orderState beacon datum index ctx = some .new) :
    (∃ o ∈ ctx.consumedInputs.val,
      beaconFromOref o (datumHash datum index) ctx.outputRef.index = beacon) ∧
    ctx.consumedIdentifiers.count (fun b => b.policyId = beacon) ≠ 1 := by
  rw [orderState] at h
  split at h
  · cases h
  · rename_i hcount
    split at h
    · rename_i hfresh
      refine ⟨?_, hcount⟩
      simpa [SmallVec.exists_] using hfresh.1
    · cases h

omit [Serialization] in
/-- A beacon says which output was spent for it, and where the order stood. -/
theorem beaconPreimage_inj {o o' : OutputRef} {h h' : RawBytes 28} {ix ix' : UInt64}
    (heq : beaconPreimage o h ix = beaconPreimage o' h' ix') : o = o' ∧ ix = ix' := by
  simp only [beaconPreimage, List.append_assoc] at heq
  obtain ⟨hhash, heq⟩ := List.append_inj heq (by simp)
  obtain ⟨hindex, heq⟩ := List.append_inj heq (by simp)
  obtain ⟨hix, _⟩ := List.append_inj heq (by simp)
  rw [bigEndian_inj o.index.toNat_lt o'.index.toNat_lt] at hindex
  rw [bigEndian_inj ix.toNat_lt ix'.toNat_lt] at hix
  obtain ⟨txHash, index⟩ := o
  obtain ⟨txHash', index'⟩ := o'
  obtain rfl := RawBytes.toRawBytes_injective hhash
  obtain rfl := UInt64.toNat_inj.mp hindex
  exact ⟨rfl, UInt64.toNat_inj.mp hix⟩

end Reading

end UtxoMonitor.Orders
