import UtxoMonitor.Orders.Instant

/-! Which outputs can be read as orders that are executed at once, and what such orders stand on. -/
namespace UtxoMonitor.Orders

open Lib LiquidityBook Domain Pools

/-- An amount, if it is of ADA. -/
def lovelaceOf (asset : AssetClass) (amount : Nat) : Nat := if asset = .native then amount else 0

theorem exists_hardenPrice {p : Ratio} {input : Nat} :
    (∃ q, hardenPrice p input = .ok q) ↔ input * p.numer < 2 ^ 128 := by
  constructor
  · rintro ⟨q, h⟩
    obtain ⟨scaled, hscaled, _⟩ := Checked.bind_eq_ok.mp h
    exact (Checked.mul_eq_ok.mp hscaled).1
  · intro hfits
    rw [hardenPrice, Checked.mul_eq_ok.mpr ⟨hfits, rfl⟩, Checked.ok_bind]
    dsimp only
    split <;> exact ⟨_, rfl⟩

namespace InstantOrder

variable {config : InstantOrderConfig} {repr : Pools.TransactionOutput} {outputRef : OutputRef}
  {conf : InstantOrder.Datum} {total coin : Nat} {o : InstantOrder}
  {read : Option InstantOrder}

/-! ### Datums -/

/-- What is left to trade when a datum is taken at its word. -/
def Datum.tradable (conf : InstantOrder.Datum) (coin total : Nat) : Nat :=
  if conf.input = .native then coin - conf.fee - conf.minLovelace else total

/-- The fee and the ADA that is to stay are there. -/
def Datum.Covered (conf : InstantOrder.Datum) (coin : Nat) : Prop :=
  conf.fee + conf.minLovelace ≤ coin

/-- What is looked at before an order is made of a datum. -/
structure Datum.Accepted (config : InstantOrderConfig) (conf : InstantOrder.Datum) (tradable : Nat) :
    Prop where
  output : (linearOutputRelative tradable conf.basePrice).isSome
  executable : conf.permittedExecutor = config.executorCred
  configuration : config.validation.minLovelace ≤ conf.minLovelace

theorem tradableInput_eq_ok {amount : Nat} : tradableInput conf coin total = .ok amount ↔
    (conf.input = .native → conf.Covered coin) ∧ conf.tradable coin total = amount := by
  rw [tradableInput, Datum.tradable, Datum.Covered]
  cases conf.input with
  | native =>
    simp only [Checked.bind_eq_ok, Checked.sub_eq_ok, if_true, forall_const]
    constructor
    · rintro ⟨rest, ⟨hfee, rfl⟩, hrest, hamount⟩
      exact ⟨by omega, hamount⟩
    · rintro ⟨hcovered, hamount⟩
      exact ⟨_, ⟨by omega, rfl⟩, by omega, hamount⟩
  | token t => simp

theorem tradable_le_total (htotal : repr.value.amountOf conf.input = some total) :
    conf.tradable repr.value.coin total ≤ total := by
  rw [Datum.tradable]
  split
  · rename_i hnative
    rw [hnative] at htotal
    cases htotal
    omega
  · exact Nat.le_refl total

/-- The ADA that is traded, the fee and the ADA that is to stay make up what is held. -/
theorem lovelaceOf_tradable (hcovered : conf.Covered coin) :
    lovelaceOf conf.input (conf.tradable coin total) + conf.fee + conf.minLovelace ≤ coin := by
  rw [Datum.Covered] at hcovered
  rw [lovelaceOf, Datum.tradable]
  split <;> omega

/-! ### Orders -/

/-- What an order has of its datum and of the configuration. -/
structure ReadOf (config : InstantOrderConfig) (conf : InstantOrder.Datum) (tradable : Nat)
    (o : InstantOrder) : Prop where
  inputAsset : o.inputAsset = conf.input
  inputAmount : o.inputAmount = tradable
  feeAsset : o.feeAsset = .native
  executionBudget : o.executionBudget = config.validation.minExecutionBudgetLovelace
  fee : o.fee + o.executionBudget = conf.fee

/-- The words that are made of a datum fit, and nothing is taken of the fee that is not there. -/
structure Datum.Readable (config : InstantOrderConfig) (conf : InstantOrder.Datum)
    (coin tradable : Nat) : Prop where
  covered : conf.input = .native → conf.Covered coin
  sufficient : (linearOutputRelative tradable conf.basePrice).isSome →
    config.validation.minExecutionBudgetLovelace + config.validation.minFeeLovelace < 2 ^ 64
  priced : conf.Accepted config tradable → tradable * conf.basePrice.numer < 2 ^ 128
  budgeted : conf.Accepted config tradable →
    config.validation.minExecutionBudgetLovelace ≤ conf.fee

theorem of_ofDatum (htotal : repr.value.amountOf conf.input = some total)
    (h : ofDatum config repr outputRef conf = .ok read) :
    conf.Readable config repr.value.coin (conf.tradable repr.value.coin total) ∧
      (conf.Accepted config (conf.tradable repr.value.coin total) → ∃ o, read = some o) ∧
      ∀ o, read = some o → conf.Accepted config (conf.tradable repr.value.coin total) ∧
        ReadOf config conf (conf.tradable repr.value.coin total) o := by
  simp only [ofDatum, htotal] at h
  obtain ⟨tradable, htradable, h⟩ := Checked.bind_eq_ok.mp h
  obtain ⟨hcovered, rfl⟩ := tradableInput_eq_ok.mp htradable
  split at h
  · rename_i hsome
    obtain ⟨minimal, hminimal, h⟩ := Checked.bind_eq_ok.mp h
    have hminimal := (Checked.add_eq_ok.mp hminimal).1
    split at h
    · rename_i hvalid
      obtain ⟨_, hexecutable, hconfiguration⟩ := hvalid
      obtain ⟨price, hprice, h⟩ := Checked.bind_eq_ok.mp h
      obtain ⟨fee, hfee, h⟩ := Checked.bind_eq_ok.mp h
      obtain ⟨hle, rfl⟩ := Checked.sub_eq_ok.mp hfee
      cases h
      refine ⟨⟨hcovered, fun _ => hminimal, fun _ => exists_hardenPrice.mp ⟨price, hprice⟩,
        fun _ => hle⟩, fun _ => ⟨_, rfl⟩, ?_⟩
      rintro o ⟨⟩
      exact ⟨⟨hsome, hexecutable, hconfiguration⟩, rfl, rfl, rfl, rfl, Nat.sub_add_cancel hle⟩
    · rename_i hinvalid
      cases h
      have hnot : ¬ conf.Accepted config (conf.tradable repr.value.coin total) :=
        fun haccepted => hinvalid
          ⟨tradable_le_total htotal, haccepted.executable, haccepted.configuration⟩
      refine ⟨⟨hcovered, fun _ => hminimal, fun haccepted => (hnot haccepted).elim,
        fun haccepted => (hnot haccepted).elim⟩, fun haccepted => (hnot haccepted).elim, ?_⟩
      rintro o ⟨⟩
  · rename_i hnone
    cases h
    refine ⟨⟨hcovered, fun hsome => (hnone hsome).elim, fun haccepted => (hnone haccepted.output).elim,
      fun haccepted => (hnone haccepted.output).elim⟩,
      fun haccepted => (hnone haccepted.output).elim, ?_⟩
    rintro o ⟨⟩

theorem exists_ofDatum (htotal : repr.value.amountOf conf.input = some total)
    (h : conf.Readable config repr.value.coin (conf.tradable repr.value.coin total)) :
    ∃ read, ofDatum config repr outputRef conf = .ok read := by
  simp only [ofDatum, htotal]
  rw [tradableInput_eq_ok.mpr ⟨h.covered, rfl⟩, Checked.ok_bind]
  split
  · rename_i hsome
    rw [Checked.add_eq_ok.mpr ⟨h.sufficient hsome, rfl⟩, Checked.ok_bind]
    split
    · rename_i hvalid
      have haccepted : conf.Accepted config (conf.tradable repr.value.coin total) :=
        ⟨hsome, hvalid.2.1, hvalid.2.2⟩
      obtain ⟨price, hprice⟩ := exists_hardenPrice.mpr (h.priced haccepted)
      rw [hprice, Checked.ok_bind, Checked.sub_eq_ok.mpr ⟨h.budgeted haccepted, rfl⟩]
      exact ⟨_, rfl⟩
    · exact ⟨none, rfl⟩
  · exact ⟨none, rfl⟩

/-- The address is that of the orders, and the output holds what the datum names. -/
structure Names (config : InstantOrderConfig) (repr : Pools.TransactionOutput)
    (conf : InstantOrder.Datum) (total : Nat) : Prop where
  address : testAddress repr.address config.instantOrder
  datum : repr.intoPd.bind Datum.tryFromPd = some conf
  total : repr.value.amountOf conf.input = some total

theorem Names.tryFromLedger_eq (h : Names config repr conf total) :
    tryFromLedger config repr outputRef = ofDatum config repr outputRef conf := by
  rw [tryFromLedger, if_pos h.address, h.datum]

/-- An output that does not name an order is not read. -/
theorem names_or_tryFromLedger_eq (config : InstantOrderConfig) (repr : Pools.TransactionOutput)
    (outputRef : OutputRef) :
    (∃ conf total, Names config repr conf total) ∨
      tryFromLedger config repr outputRef = .ok none := by
  rw [tryFromLedger]
  split
  · rename_i haddress
    cases hdatum : repr.intoPd.bind Datum.tryFromPd with
    | none => exact .inr rfl
    | some conf =>
      cases htotal : repr.value.amountOf conf.input with
      | none =>
        right
        simp only [ofDatum, htotal]
        rfl
      | some total => exact .inl ⟨conf, total, haddress, hdatum, htotal⟩
  · exact .inr rfl

theorem names_of_tryFromLedger (h : tryFromLedger config repr outputRef = .ok (some o)) :
    ∃ conf total, Names config repr conf total := by
  rcases names_or_tryFromLedger_eq config repr outputRef with hnames | hnone
  · exact hnames
  · rw [hnone] at h
    cases h

end InstantOrder

/-! ### Orders with an ad-hoc fee -/

namespace AdhocOrder

variable {config : AdhocOrderConfig} {repr : Pools.TransactionOutput} {outputRef : OutputRef}
  {added : SmallVec Ed25519KeyHash} {io : InstantOrder} {o : AdhocOrder}
  {readInstant : Option InstantOrder} {read : Option AdhocOrder}

/-- A share of the input does not leave the words it is computed in. -/
def FeeFits (config : AdhocOrderConfig) (io : InstantOrder) : Prop :=
  io.inputAsset = .native → io.inputAmount * config.feeStructure.relativeFeePercent < 2 ^ 64

/-- An order with an ad-hoc fee trades what the fee leaves of the input. -/
structure Splits (io : InstantOrder) (o : AdhocOrder) : Prop where
  order : o.order = { io with inputAmount := o.order.inputAmount }
  input : o.order.inputAmount + o.adhocFeeInput = io.inputAmount
  fee : io.inputAsset ≠ .native → o.adhocFeeInput = 0

/-- A share of at most all of it. -/
theorem fee_le {feeStructure : AdhocFeeStructure} {body fee : Nat}
    (h : feeStructure.fee body = .ok fee) : fee ≤ body := by
  obtain ⟨product, hproduct, h⟩ := Checked.bind_eq_ok.mp h
  obtain ⟨-, rfl⟩ := Checked.mul_eq_ok.mp hproduct
  cases h
  have hpercent : (feeStructure.relativeFeePercent : Nat) ≤ 100 :=
    Nat.lt_succ_iff.mp feeStructure.relativeFeePercent.isLt
  calc body * feeStructure.relativeFeePercent / 100 ≤ body * 100 / 100 :=
        Nat.div_le_div_right (Nat.mul_le_mul_left body hpercent)
    _ = body := Nat.mul_div_cancel body (by decide)

theorem of_virtualInputAmount {amount : Nat}
    (h : virtualInputAmount io config.feeStructure = .ok amount) :
    FeeFits config io ∧ amount ≤ io.inputAmount ∧
      (io.inputAsset ≠ .native → amount = io.inputAmount) := by
  rw [virtualInputAmount] at h
  split at h
  · rename_i hnative
    obtain ⟨fee, hfee, h⟩ := Checked.bind_eq_ok.mp h
    obtain ⟨-, rfl⟩ := Checked.sub_eq_ok.mp h
    obtain ⟨product, hproduct, -⟩ := Checked.bind_eq_ok.mp hfee
    exact ⟨fun _ => (Checked.mul_eq_ok.mp hproduct).1, Nat.sub_le _ _,
      fun hne => (hne hnative).elim⟩
  · rename_i hne
    cases h
    exact ⟨fun hnative => (hne hnative).elim, Nat.le_refl _, fun _ => rfl⟩

theorem exists_virtualInputAmount (h : FeeFits config io) :
    ∃ amount, virtualInputAmount io config.feeStructure = .ok amount := by
  rw [virtualInputAmount]
  split
  · rename_i hnative
    have hfee : config.feeStructure.fee io.inputAmount =
        .ok (io.inputAmount * config.feeStructure.relativeFeePercent / 100) := by
      rw [AdhocFeeStructure.fee, Checked.mul_eq_ok.mpr ⟨h hnative, rfl⟩]
      rfl
    rw [subtractAdhocFee, hfee, Checked.ok_bind]
    exact ⟨_, Checked.sub_eq_ok.mpr ⟨fee_le hfee, rfl⟩⟩
  · exact ⟨_, rfl⟩

theorem adhocFeeInputOf_eq {amount : Nat} (hle : amount ≤ io.inputAmount)
    (htoken : io.inputAsset ≠ .native → amount = io.inputAmount) :
    adhocFeeInputOf io amount = some (io.inputAmount - amount) := by
  rw [adhocFeeInputOf]
  split
  · exact if_pos hle
  · rename_i hne
    rw [htoken hne, Nat.sub_self]

theorem of_tryFromLedger (h : AdhocOrder.tryFromLedger config repr outputRef added = .ok read) :
    ∃ readInstant,
      InstantOrder.tryFromLedger config.toInstantOrderConfig repr outputRef = .ok readInstant ∧
      (∀ io, readInstant = some io → FeeFits config io) ∧
      ∀ o, read = some o → ∃ io, readInstant = some io ∧ Splits io o := by
  obtain ⟨readInstant, hinstant, h⟩ := Checked.bind_eq_ok.mp h
  refine ⟨readInstant, hinstant, ?_⟩
  cases readInstant with
  | none =>
    cases h
    constructor
    · rintro io ⟨⟩
    · rintro o ⟨⟩
  | some io =>
    obtain ⟨amount, hamount, h⟩ := Checked.bind_eq_ok.mp h
    obtain ⟨hfits, hle, htoken⟩ := of_virtualInputAmount hamount
    rw [adhocFeeInputOf_eq hle htoken] at h
    constructor
    · rintro _ ⟨⟩
      exact hfits
    · rintro o rfl
      refine ⟨io, rfl, ?_⟩
      dsimp only at h
      split at h
      · cases h
        refine ⟨rfl, Nat.add_sub_cancel' hle, fun hne => ?_⟩
        show io.inputAmount - amount = 0
        rw [htoken hne, Nat.sub_self]
      · cases h

theorem exists_tryFromLedger
    (h : InstantOrder.tryFromLedger config.toInstantOrderConfig repr outputRef = .ok readInstant)
    (hfits : ∀ io, readInstant = some io → FeeFits config io) :
    ∃ read, AdhocOrder.tryFromLedger config repr outputRef added = .ok read := by
  rw [AdhocOrder.tryFromLedger, h, Checked.ok_bind]
  cases readInstant with
  | none => exact ⟨none, rfl⟩
  | some io =>
    obtain ⟨amount, hamount⟩ := exists_virtualInputAmount (hfits io rfl)
    obtain ⟨-, hle, htoken⟩ := of_virtualInputAmount hamount
    dsimp only
    rw [hamount, Checked.ok_bind, adhocFeeInputOf_eq hle htoken]
    dsimp only
    split <;> exact ⟨_, rfl⟩

end AdhocOrder

end UtxoMonitor.Orders
