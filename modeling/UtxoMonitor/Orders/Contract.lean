import UtxoMonitor.Lib.Shares
import UtxoMonitor.Orders.Grid
import UtxoMonitor.Orders.Instant

/-! What the matchmaking expects of a trade, and which orders meet it. -/
namespace UtxoMonitor.Orders

open Lib LiquidityBook Pools

/-! ### Orders as they are read -/

/-- A limit order can pay for a step of its execution. -/
theorem LimitOrder.affordable [Serialization] {config : LimitOrderConfig}
    {repr : Pools.TransactionOutput} {ctx : OrderContext} {o : LimitOrder}
    (h : LimitOrder.tryFromLedger config repr ctx = .ok (some o)) :
    o.maxCostPerExStep ≤ o.executionBudget ∧ o.executionBudget < 2 ^ 64 := by
  obtain ⟨_, datum, conf, _, _, h⟩ := tryFromLedger_eq_ok_some.mp h
  rw [LimitOrder.ofDatum] at h
  split at h
  · rename_i budget _ _ hbudget _
    split at h
    · rename_i hvalid
      obtain ⟨price, _, h⟩ := Checked.bind_eq_ok.mp h
      cases h
      refine ⟨hvalid.1.2.2.2.2.2, ?_⟩
      have hcoin := repr.value.coin_lt
      have hle : budget ≤ repr.value.coin := by
        simp only [executionBudget, checkedSub, Option.bind_eq_bind, Option.bind_eq_some_iff,
          Option.ite_none_right_eq_some, Option.some.injEq] at hbudget
        obtain ⟨_, ⟨_, rfl⟩, _, ⟨_, rfl⟩, _, rfl⟩ := hbudget
        omega
      exact hle.trans_lt hcoin
    · cases h
  · cases h

/-- The budget of an instant order is a word. -/
theorem InstantOrder.executionBudget_lt {config : InstantOrderConfig}
    {repr : Pools.TransactionOutput} {outputRef : OutputRef} {o : InstantOrder}
    (h : InstantOrder.tryFromLedger config repr outputRef = .ok (some o)) :
    o.executionBudget < 2 ^ 64 := by
  rw [InstantOrder.tryFromLedger] at h
  split at h
  · split at h
    · rw [InstantOrder.ofDatum] at h
      split at h
      · obtain ⟨input, _, h⟩ := Checked.bind_eq_ok.mp h
        split at h
        · obtain ⟨sufficientFee, hsufficient, h⟩ := Checked.bind_eq_ok.mp h
          split at h
          · obtain ⟨price, _, h⟩ := Checked.bind_eq_ok.mp h
            obtain ⟨fee, _, h⟩ := Checked.bind_eq_ok.mp h
            cases h
            obtain ⟨hlt, _⟩ := Checked.add_eq_ok.mp hsufficient
            dsimp only
            omega
          · cases h
        · cases h
      · cases h
    · cases h
  · cases h

theorem AdhocOrder.executionBudget_lt {config : AdhocOrderConfig}
    {repr : Pools.TransactionOutput} {outputRef : OutputRef} {added : Domain.SmallVec Ed25519KeyHash}
    {o : AdhocOrder}
    (h : AdhocOrder.tryFromLedger config repr outputRef added = .ok (some o)) :
    o.order.executionBudget < 2 ^ 64 := by
  rw [AdhocOrder.tryFromLedger] at h
  obtain ⟨read, hread, h⟩ := Checked.bind_eq_ok.mp h
  cases read with
  | none => cases h
  | some io =>
    obtain ⟨virtualInputAmount, _, h⟩ := Checked.bind_eq_ok.mp h
    split at h
    · cases h
    · split at h
      · cases h
        have hlt : io.executionBudget < 2 ^ 64 := InstantOrder.executionBudget_lt hread
        exact hlt
      · cases h

/-- The output of the trade fits a word, and neither budget changes its sign when read as a signed
word. -/
def Fits {T U : Type} [MarketTaker T U] (o : T) (added excess : Nat) : Prop :=
  output o + added + excess < 2 ^ 64 ∧ (budget o < 2 ^ 63 ∨ 2 ^ 63 < consumableBudget o)

/-- Limit, instant and ad-hoc orders meet what is expected of every trade that fits its words, grid
orders in next to none. -/
theorem taker_contract {removed : Nat} (hpos : 0 < removed) (added excess : Nat) :
    (∀ [Serialization] (config : LimitOrderConfig) (repr : Pools.TransactionOutput)
      (ctx : OrderContext) (o : LimitOrder),
      LimitOrder.tryFromLedger config repr ctx = .ok (some o) → removed ≤ input o →
        (Meets o removed added excess ↔ Fits o added excess)) ∧
    (∀ (config : InstantOrderConfig) (repr : Pools.TransactionOutput) (outputRef : OutputRef)
      (o : InstantOrder), InstantOrder.tryFromLedger config repr outputRef = .ok (some o) →
        removed ≤ input o → (Meets o removed added excess ↔ Fits o added excess)) ∧
    (∀ (config : AdhocOrderConfig) (repr : Pools.TransactionOutput) (outputRef : OutputRef)
      (destinations : Domain.SmallVec Ed25519KeyHash) (o : AdhocOrder),
      AdhocOrder.tryFromLedger config repr outputRef destinations = .ok (some o) →
        removed ≤ input o → (Meets o removed added excess ↔ Fits o added excess)) ∧
    ∀ (gridOrderNative : DeployedScriptInfo) (repr : Pools.TransactionOutput) (o : GridOrder),
      GridOrder.tryFromLedger gridOrderNative repr = .ok (some o) → removed ≤ input o →
        (Meets o removed added excess ↔ o.Trades removed added excess) := by
  refine ⟨?_, ?_, ?_, ?_⟩
  · intro _ config repr ctx o horder hinput
    obtain ⟨hbudget, hword⟩ := LimitOrder.affordable horder
    exact meets_iff hinput (min_div_le hinput) hbudget hword
  · intro config repr outputRef o horder hinput
    have hword := InstantOrder.executionBudget_lt horder
    exact meets_iff hinput (min_div_le hinput) le_rfl hword
  · intro config repr outputRef destinations o horder hinput
    have hword := AdhocOrder.executionBudget_lt horder
    exact meets_iff hinput (min_div_le hinput) le_rfl hword
  · intro gridOrderNative repr o horder hinput
    exact GridOrder.meets_iff_trades (GridOrder.parsed horder) hpos hinput

/-! ### Two orders -/

def sampleInstantOutput : Pools.TransactionOutput where
  address := .enterprise (.script (.replicate 100))
  value := .ofTokens 23000000 []
  datum := some (.datum (.constr 0 [
    .bytes [0],
    PlutusAddress.intoPd ⟨.pubKey (.replicate 7), some ⟨.pubKey (.replicate 8)⟩⟩,
    .constr 0 [.bytes [], .bytes []],
    (sampleToken 2).intoPd,
    .constr 0 [.integer 1, .integer 1],
    .integer 1500000,
    .integer 1500000,
    .bytes (List.replicate 28 9),
    .integer 0,
    .bytes (List.replicate 28 7)]))

def sampleInstantConfig : InstantOrderConfig :=
  ⟨.replicate 9, ⟨.replicate 100, ⟨0, 0⟩⟩, ⟨1500000, 500000, 1000000⟩⟩

def sampleInstant : InstantOrder where
  beacon := InstantOrder.beaconFromOref ⟨.replicate 1, 0⟩
  inputAsset := .native
  inputAmount := 20000000
  outputAsset := .token (sampleToken 2)
  outputAmount := 0
  basePrice := 1
  executionBudget := 1000000
  feeAsset := .native
  redeemerAddress := ⟨.pubKey (.replicate 7), some ⟨.pubKey (.replicate 8)⟩⟩
  cancellationPkh := .replicate 7
  marginalCost := ⟨0, 0⟩
  virgin := true
  cancellationAfter := 0
  fee := 500000

theorem taker_contract_instant : Meets sampleInstant 20000000 20000000 5 :=
  ((taker_contract (by decide) 20000000 5).2.1 sampleInstantConfig sampleInstantOutput
    ⟨.replicate 1, 0⟩ sampleInstant (by decide +kernel) (by decide)).mpr (by
      rw [Fits]
      decide)

/-- An order to buy with 20 ADA. -/
def sampleGridOutput : Pools.TransactionOutput where
  address := .enterprise (.script (.replicate 100))
  value := .ofTokens 30000000 []
  datum := some (.datum (.constr 0 [
    .bytes (List.replicate 28 6),
    (sampleToken 2).intoPd,
    .constr 0 [.integer 1005, .integer 1000],
    .constr 0 [.integer 1000, .integer 995],
    .integer 20000000,
    .integer 20000000,
    .constr 0 [.integer 43, .integer 100],
    .constr 1 [],
    .integer 500000,
    .integer 5000000,
    .integer 10000000,
    PlutusAddress.intoPd ⟨.pubKey (.replicate 7), some ⟨.pubKey (.replicate 8)⟩⟩,
    .bytes (List.replicate 28 7)]))

def sampleGrid : GridOrder where
  beacon := .replicate 6
  baseAsset := .token (sampleToken 2)
  quoteAsset := .native
  buyShiftFactor := ⟨1005, 1000⟩
  sellShiftFactor := ⟨1000, 995⟩
  baseReserves := 0
  quoteReserves := 30000000
  quoteOffer := 20000000
  price := ⟨43, 101⟩
  side := .bid
  minMarginalOutputBase := 10000000
  minMarginalOutputQuote := 5000000
  maxExecutionBudgetPerStep := 500000
  remainingExecutionBudget := 500000
  redeemerAddress := ⟨.pubKey (.replicate 7), some ⟨.pubKey (.replicate 8)⟩⟩
  marginalCost := ⟨0, 0⟩

/-- Half of the offer is traded, for a token worth as much. -/
theorem grid_order_trade_fails :
    ¬ ∀ (gridOrderNative : DeployedScriptInfo) (repr : Pools.TransactionOutput) (o : GridOrder)
      (removed added excess : Nat), GridOrder.tryFromLedger gridOrderNative repr = .ok (some o) →
      0 < removed → removed ≤ input o → Fits o added excess → Meets o removed added excess := by
  intro h
  have hread : GridOrder.tryFromLedger ⟨.replicate 100, ⟨0, 0⟩⟩ sampleGridOutput =
      .ok (some sampleGrid) := by
    decide +kernel
  have hmeets := h _ _ sampleGrid 10000000 23400000 0 hread (by decide) (by decide)
    (by rw [Fits]; decide)
  exact GridOrder.not_meets_bid (GridOrder.parsed hread) rfl (by decide) (by decide) hmeets

end UtxoMonitor.Orders
