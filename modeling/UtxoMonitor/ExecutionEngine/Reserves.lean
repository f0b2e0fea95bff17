import UtxoMonitor.ExecutionEngine.Takes
import UtxoMonitor.Orders.Contract
import UtxoMonitor.Orders.InstantReading

/-! What orders that are executed at once leave of the ADA in their outputs. -/
namespace UtxoMonitor.ExecutionEngine

open Lib LiquidityBook Domain Pools Orders

open EventSink (FinalizedTxOut)

variable {feeStructure : AdhocFeeStructure} {take : TakeInProgress AdhocOrder} {amounts : Amounts}
  {o : AdhocOrder} {out candidate : Pools.TransactionOutput}

/-! ### Amounts -/

/-- The fee on ADA that is received, which is taken of it. -/
def feeOnReceived (o : AdhocOrder) (amounts : Amounts) : Nat :=
  if o.order.inputAsset = .native then 0 else amounts.proportionalFee

/-- No more is taken of an order than it has, and its fee is a share of the ADA it pays or gets. -/
structure Amounts.Within (amounts : Amounts) (o : AdhocOrder) : Prop where
  input : amounts.removedInput ≤ o.order.inputAmount
  budget : amounts.consumedBudget ≤ o.order.executionBudget
  fee : amounts.consumedFee ≤ o.order.fee
  paid : o.order.inputAsset = .native → amounts.proportionalFee ≤ o.adhocFeeInput
  received : o.order.inputAsset ≠ .native →
    amounts.proportionalFee ≤ lovelaceOf o.order.outputAsset amounts.addedOutput

theorem proportionalFee_le {full removed share : Nat} (hle : removed ≤ o.order.inputAmount)
    (h : proportionalFee o full removed = .ok share) : share ≤ full := by
  obtain ⟨quotient, hquotient, h⟩ := Checked.bind_eq_ok.mp h
  obtain ⟨hne, rfl⟩ := Checked.div_eq_ok.mp hquotient
  cases h
  calc full * removed / o.order.inputAmount % 2 ^ 64 ≤ full * removed / o.order.inputAmount :=
        Nat.mod_le _ _
    _ ≤ full * o.order.inputAmount / o.order.inputAmount :=
        Nat.div_le_div_right (Nat.mul_le_mul_left full hle)
    _ = full := Nat.mul_div_cancel full (Nat.pos_of_ne_zero hne)

theorem fullAdhocFee_paid {added full : Nat} (hnative : o.order.inputAsset = .native)
    (h : fullAdhocFee feeStructure o added = .ok full) : full = o.adhocFeeInput := by
  rw [fullAdhocFee, hnative] at h
  exact (Checked.pure_eq_ok.mp h).symm

theorem fullAdhocFee_received {added full : Nat} (hne : o.order.inputAsset ≠ .native)
    (h : fullAdhocFee feeStructure o added = .ok full) :
    full ≤ lovelaceOf o.order.outputAsset added := by
  rw [fullAdhocFee] at h
  cases hinput : o.order.inputAsset with
  | native => exact (hne hinput).elim
  | token t =>
    rw [hinput] at h
    cases houtput : o.order.outputAsset with
    | native =>
      rw [houtput] at h
      exact AdhocOrder.fee_le h
    | token t' =>
      rw [houtput] at h
      cases h
      exact Nat.zero_le _

theorem amounts_within (h : AdhocOrder.amounts feeStructure take = .ok amounts) :
    amounts.Within take.target := by
  obtain ⟨removed, hremoved, h⟩ := Checked.bind_eq_ok.mp h
  obtain ⟨added, -, h⟩ := Checked.bind_eq_ok.mp h
  obtain ⟨consumed, hconsumed, h⟩ := Checked.bind_eq_ok.mp h
  obtain ⟨charged, hcharged, h⟩ := Checked.bind_eq_ok.mp h
  obtain ⟨full, hfull, h⟩ := Checked.bind_eq_ok.mp h
  obtain ⟨share, hshare, h⟩ := Checked.bind_eq_ok.mp h
  cases h
  rw [removedInput_eq] at hremoved
  obtain ⟨-, rfl⟩ := unwrap_checkedSub_eq_ok.mp hremoved
  rw [consumedBudget_eq] at hconsumed
  obtain ⟨-, rfl⟩ := unwrap_checkedSub_eq_ok.mp hconsumed
  obtain ⟨-, rfl⟩ : remainingFee take ≤ fee take.target ∧
      fee take.target - remainingFee take = charged := unwrap_checkedSub_eq_ok.mp hcharged
  have hle : share ≤ full := proportionalFee_le (Nat.sub_le _ _) hshare
  constructor
  · exact Nat.sub_le _ _
  · exact Nat.sub_le _ _
  · exact Nat.sub_le _ _
  · intro hnative
    exact hle.trans_eq (fullAdhocFee_paid hnative hfull)
  · intro hne
    exact hle.trans (fullAdhocFee_received hne hfull)

/-! ### What is left -/

/-- ADA that backs an order: what it trades, the ad-hoc fee on it, the fee, the budget, and what is to
stay. -/
structure Backed (o : AdhocOrder) (coin minLovelace : Nat) : Prop where
  feeAsset : o.order.feeAsset = .native
  coin : lovelaceOf o.order.inputAsset (o.order.inputAmount + o.adhocFeeInput) + o.order.fee +
    o.order.executionBudget + minLovelace ≤ coin

/-- Whatever is taken of an order, the ADA that is to stay does stay. -/
theorem Amounts.Within.reserve (h : amounts.Within o) {coin minLovelace : Nat}
    (hbacked : Backed o coin minLovelace) :
    lovelaceOf o.order.inputAsset amounts.removedInput + amounts.consumedBudget +
      amounts.consumedFee + amounts.proportionalFee + minLovelace ≤
        coin + feeOnReceived o amounts := by
  have hinput := h.input
  have hbudget := h.budget
  have hfee := h.fee
  have hcoin := hbacked.coin
  rw [lovelaceOf] at hcoin
  rw [lovelaceOf, feeOnReceived]
  by_cases hnative : o.order.inputAsset = .native
  · have hpaid := h.paid hnative
    rw [if_pos hnative] at hcoin ⊢
    rw [if_pos hnative]
    omega
  · rw [if_neg hnative] at hcoin ⊢
    rw [if_neg hnative]
    omega

theorem Amounts.Within.feeOnReceived_le (h : amounts.Within o) :
    feeOnReceived o amounts ≤ lovelaceOf o.order.outputAsset amounts.addedOutput := by
  rw [feeOnReceived]
  split
  · exact Nat.zero_le _
  · rename_i hne
    exact h.received hne

theorem settle_scriptIo {state state' : ExecutionState} {consumedBudget interest : Nat}
    {input : FinalizedTxOut} {output : Pools.TransactionOutput}
    (h : state.settle consumedBudget interest input output = .ok state') :
    state'.scriptIo = state.scriptIo ++ [(input, output)] := by
  obtain ⟨state₁, h₁, h⟩ := Checked.bind_eq_ok.mp h
  obtain ⟨state₂, h₂, h⟩ := Checked.bind_eq_ok.mp h
  obtain ⟨reserved, -, h₁⟩ := Checked.bind_eq_ok.mp h₁
  obtain ⟨earned, -, h₂⟩ := Checked.bind_eq_ok.mp h₂
  cases h₁
  cases h₂
  cases h
  rfl

/-- The ADA of an output before and after an execution. -/
def Balances (o : AdhocOrder) (amounts : Amounts) (coin coin' : Nat) : Prop :=
  coin' + lovelaceOf o.order.inputAsset amounts.removedInput + amounts.consumedBudget +
    amounts.consumedFee + amounts.proportionalFee =
      coin + lovelaceOf o.order.outputAsset amounts.addedOutput

/-! ### What is read -/

/-- An order pays the least fee, and the output it is read of holds what it stands on. An instant
order is one without an ad-hoc fee. -/
structure Admissible (config : InstantOrderConfig) (repr : Pools.TransactionOutput)
    (conf : InstantOrder.Datum) (o : AdhocOrder) : Prop where
  minFee : config.validation.minFeeLovelace ≤ o.order.fee
  sufficientFee :
    config.validation.minExecutionBudgetLovelace + config.validation.minFeeLovelace ≤ conf.fee
  backed : Backed o repr.value.coin conf.minLovelace

/-- What would have to be checked of a datum: that its words fit, that the fee of an accepted order is
sufficient, and that the ADA for the fee and the ADA that is to stay are there. -/
structure Checkable (config : AdhocOrderConfig) (conf : InstantOrder.Datum) (coin tradable : Nat) :
    Prop extends conf.Readable config.toInstantOrderConfig coin tradable where
  minimal : conf.Accepted config.toInstantOrderConfig tradable →
    config.validation.minExecutionBudgetLovelace + config.validation.minFeeLovelace ≤ conf.fee
  reserved : conf.Accepted config.toInstantOrderConfig tradable → conf.Covered coin
  feeFits : conf.Accepted config.toInstantOrderConfig tradable → conf.input = .native →
    tradable * config.feeStructure.relativeFeePercent < 2 ^ 64

section

variable {config : AdhocOrderConfig} {repr : Pools.TransactionOutput} {outputRef : OutputRef}
  {added : SmallVec Ed25519KeyHash} {conf : InstantOrder.Datum} {total : Nat} {io : InstantOrder}
  {read : Option InstantOrder}

/-- What is accepted of a datum is an order with its amounts. -/
theorem read_of_names (hnames : InstantOrder.Names config.toInstantOrderConfig repr conf total)
    (hread : InstantOrder.tryFromLedger config.toInstantOrderConfig repr outputRef = .ok read) :
    conf.Readable config.toInstantOrderConfig repr.value.coin
        (conf.tradable repr.value.coin total) ∧
      (conf.Accepted config.toInstantOrderConfig (conf.tradable repr.value.coin total) →
        ∃ io, read = some io) ∧
      ∀ io, read = some io →
        conf.Accepted config.toInstantOrderConfig (conf.tradable repr.value.coin total) ∧
          InstantOrder.ReadOf config.toInstantOrderConfig conf
            (conf.tradable repr.value.coin total) io := by
  rw [hnames.tryFromLedger_eq] at hread
  exact InstantOrder.of_ofDatum hnames.total hread

theorem Checkable.admissible
    (h : Checkable config conf repr.value.coin (conf.tradable repr.value.coin total))
    (haccepted : conf.Accepted config.toInstantOrderConfig (conf.tradable repr.value.coin total))
    (hof : InstantOrder.ReadOf config.toInstantOrderConfig conf
      (conf.tradable repr.value.coin total) io) :
    Admissible config.toInstantOrderConfig repr conf ⟨io, 0⟩ := by
  have hfee := hof.fee
  have hbudget := hof.executionBudget
  have hminimal := h.minimal haccepted
  have hheld : lovelaceOf conf.input (conf.tradable repr.value.coin total) + conf.fee +
      conf.minLovelace ≤ repr.value.coin :=
    InstantOrder.lovelaceOf_tradable (h.reserved haccepted)
  constructor
  · show config.validation.minFeeLovelace ≤ io.fee
    omega
  · exact hminimal
  · constructor
    · exact hof.feeAsset
    · show lovelaceOf io.inputAsset io.inputAmount + io.fee + io.executionBudget +
        conf.minLovelace ≤ repr.value.coin
      rw [hof.inputAsset, hof.inputAmount]
      omega

/-- An order that pays the ad-hoc fee of its input stands on the same ADA. -/
theorem Admissible.splits {o : AdhocOrder} (hsplits : AdhocOrder.Splits io o)
    (h : Admissible config.toInstantOrderConfig repr conf ⟨io, 0⟩) :
    Admissible config.toInstantOrderConfig repr conf o := by
  rcases o with ⟨order, adhocFeeInput⟩
  obtain ⟨horder, hinput, -⟩ := hsplits
  obtain ⟨hfee, hsufficient, hasset, hcoin⟩ := h
  dsimp only at horder hinput hfee hasset hcoin
  rw [Nat.add_zero, ← hinput] at hcoin
  rw [horder]
  exact ⟨hfee, hsufficient, hasset, hcoin⟩

theorem feeFits_of_readOf
    (hof : InstantOrder.ReadOf config.toInstantOrderConfig conf
      (conf.tradable repr.value.coin total) io) :
    AdhocOrder.FeeFits config io ↔ (conf.input = .native →
      conf.tradable repr.value.coin total * config.feeStructure.relativeFeePercent < 2 ^ 64) := by
  rw [AdhocOrder.FeeFits, hof.inputAsset, hof.inputAmount]

/-- A datum of which nothing unsound is read could be checked. -/
theorem checkable_of_reads
    (hnames : InstantOrder.Names config.toInstantOrderConfig repr conf total)
    (hread : InstantOrder.tryFromLedger config.toInstantOrderConfig repr outputRef = .ok read)
    (hadmissible : ∀ io, read = some io → Admissible config.toInstantOrderConfig repr conf ⟨io, 0⟩)
    (hfits : ∀ io, read = some io → AdhocOrder.FeeFits config io) :
    Checkable config conf repr.value.coin (conf.tradable repr.value.coin total) := by
  obtain ⟨hreadable, hsome, hof⟩ := read_of_names hnames hread
  refine ⟨hreadable, fun haccepted => ?_, fun haccepted => ?_, fun haccepted => ?_⟩
  · obtain ⟨io, hio⟩ := hsome haccepted
    exact (hadmissible io hio).sufficientFee
  · obtain ⟨io, hio⟩ := hsome haccepted
    have hcoin := (hadmissible io hio).backed.coin
    have hfee := (hof io hio).2.fee
    rw [InstantOrder.Datum.Covered]
    dsimp only at hcoin
    omega
  · obtain ⟨io, hio⟩ := hsome haccepted
    exact (feeFits_of_readOf (hof io hio).2).mp (hfits io hio)

/-- What is read of outputs that could be checked. -/
theorem admissible_of_read
    (h : ∀ conf total, InstantOrder.Names config.toInstantOrderConfig repr conf total →
      Checkable config conf repr.value.coin (conf.tradable repr.value.coin total))
    (hread : InstantOrder.tryFromLedger config.toInstantOrderConfig repr outputRef = .ok (some io)) :
    ∃ conf total, InstantOrder.Names config.toInstantOrderConfig repr conf total ∧
      Admissible config.toInstantOrderConfig repr conf ⟨io, 0⟩ ∧
      AdhocOrder.FeeFits config io ∧ io.inputAmount ≤ repr.value.held io.inputAsset := by
  obtain ⟨conf, total, hnames⟩ := InstantOrder.names_of_tryFromLedger hread
  have hcheckable := h conf total hnames
  obtain ⟨-, -, hspec⟩ := read_of_names hnames hread
  obtain ⟨haccepted, hof⟩ := hspec io rfl
  refine ⟨conf, total, hnames, hcheckable.admissible haccepted hof,
    (feeFits_of_readOf hof).mpr (hcheckable.feeFits haccepted), ?_⟩
  rw [hof.inputAmount, hof.inputAsset, Value.held, hnames.total]
  exact InstantOrder.tradable_le_total hnames.total

theorem adhoc_admissible_of_read
    (h : ∀ conf total, InstantOrder.Names config.toInstantOrderConfig repr conf total →
      Checkable config conf repr.value.coin (conf.tradable repr.value.coin total))
    (hread : AdhocOrder.tryFromLedger config repr outputRef added = .ok (some o))
    (hconf : repr.intoPd.bind InstantOrder.Datum.tryFromPd = some conf) :
    Admissible config.toInstantOrderConfig repr conf o ∧
      o.order.inputAmount ≤ repr.value.held o.order.inputAsset := by
  obtain ⟨readInstant, hinstant, -, hspec⟩ := AdhocOrder.of_tryFromLedger hread
  obtain ⟨io, rfl, hsplits⟩ := hspec o rfl
  obtain ⟨conf', total, hnames, hadmissible, -, hheld⟩ := admissible_of_read h hinstant
  obtain rfl := Option.some.inj (hnames.datum.symm.trans hconf)
  refine ⟨hadmissible.splits hsplits, ?_⟩
  have hasset : o.order.inputAsset = io.inputAsset := by rw [hsplits.order]
  have hinput := hsplits.input
  rw [hasset]
  omega

end

/-! ### What is carried out -/

section Execution

variable [ValueArithmetic]

theorem candidate_balances (hfee : o.order.feeAsset = .native)
    (h : AdhocOrder.candidate o amounts out = .ok candidate) :
    Balances o amounts out.value.coin candidate.value.coin := by
  obtain ⟨traded, htraded, h⟩ := Checked.bind_eq_ok.mp h
  obtain ⟨paid, hpaid, h⟩ := Checked.bind_eq_ok.mp h
  obtain ⟨consumed, hconsumed, h⟩ := Checked.bind_eq_ok.mp h
  obtain ⟨charged, hcharged, h⟩ := Checked.bind_eq_ok.mp h
  obtain ⟨-, rfl⟩ := Checked.add_eq_ok.mp hconsumed
  obtain ⟨-, rfl⟩ := Checked.add_eq_ok.mp hcharged
  have hsum := (Pools.TransactionOutput.held_of_subAsset htraded).2 .native
  have hreceived := (Pools.TransactionOutput.held_of_addAsset hpaid).2 .native
  have hrest := (Pools.TransactionOutput.held_of_subAsset h).2 .native
  simp only [Value.held_native, hfee, if_true, eq_comm (a := AssetClass.native)]
    at hsum hreceived hrest
  rw [Balances, lovelaceOf, lovelaceOf]
  omega

/-- What an execution leaves of an order: what is subtracted is there, nothing is lost, and with the
ADA that is received, less the fee on it, what is to stay does stay. -/
structure KeepsReserve (feeStructure : AdhocFeeStructure) (repr : Pools.TransactionOutput)
    (minLovelace : Nat) (o : AdhocOrder) : Prop where
  covered (take : TakeInProgress AdhocOrder) (amounts : Amounts) (htake : take.target = o)
    (hamounts : AdhocOrder.amounts feeStructure take = .ok amounts) :
    amounts.removedInput ≤ repr.value.held o.order.inputAsset ∧
      lovelaceOf o.order.inputAsset amounts.removedInput + amounts.consumedBudget +
        amounts.consumedFee + amounts.proportionalFee ≤
          repr.value.coin + lovelaceOf o.order.outputAsset amounts.addedOutput
  left (state state' : ExecutionState) (take : TakeInProgress AdhocOrder) (outputRef : OutputRef)
    (effect : EffectPreview AdhocOrder) (htake : take.target = o)
    (hexec : AdhocOrder.exec feeStructure state take ⟨repr, outputRef⟩ = .ok (state', effect)) :
    ∃ amounts residual, AdhocOrder.amounts feeStructure take = .ok amounts ∧
      state'.scriptIo = state.scriptIo ++ [(⟨repr, outputRef⟩, residual)] ∧
      Balances o amounts repr.value.coin residual.value.coin ∧
      minLovelace + lovelaceOf o.order.outputAsset amounts.addedOutput ≤
        residual.value.coin + feeOnReceived o amounts

theorem exec_spec {state state' : ExecutionState} {consumedUtxo : FinalizedTxOut}
    {effect : EffectPreview AdhocOrder}
    (h : AdhocOrder.exec feeStructure state take consumedUtxo = .ok (state', effect)) :
    ∃ amounts candidate residual, AdhocOrder.amounts feeStructure take = .ok amounts ∧
      AdhocOrder.candidate take.target amounts consumedUtxo.out = .ok candidate ∧
      residual.value = candidate.value ∧
      state'.scriptIo = state.scriptIo ++ [(consumedUtxo, residual)] := by
  obtain ⟨amounts, hamounts, h⟩ := Checked.bind_eq_ok.mp h
  obtain ⟨candidate, hcandidate, h⟩ := Checked.bind_eq_ok.mp h
  rcases take with ⟨target, next | term⟩
  · cases h
  · obtain ⟨interest, -, h⟩ := Checked.bind_eq_ok.mp h
    obtain ⟨settled, hsettled, h⟩ := Checked.bind_eq_ok.mp h
    cases h
    exact ⟨amounts, candidate, candidate.nullDatum.updateAddress _, hamounts, hcandidate, rfl,
      settle_scriptIo hsettled⟩

/-- An order that is backed keeps what is to stay. -/
theorem Backed.keepsReserve {repr : Pools.TransactionOutput} {minLovelace : Nat}
    (h : Backed o repr.value.coin minLovelace)
    (hheld : o.order.inputAmount ≤ repr.value.held o.order.inputAsset) :
    KeepsReserve feeStructure repr minLovelace o := by
  constructor
  · rintro take amounts rfl hamounts
    have hwithin := amounts_within hamounts
    have hreserve := hwithin.reserve h
    have hreceived := hwithin.feeOnReceived_le
    exact ⟨hwithin.input.trans hheld, by omega⟩
  · rintro state state' take outputRef effect rfl hexec
    obtain ⟨amounts, candidate, residual, hamounts, hcandidate, hvalue, hio⟩ := exec_spec hexec
    have hreserve := (amounts_within hamounts).reserve h
    have hbalances : Balances take.target amounts repr.value.coin residual.value.coin := by
      rw [hvalue]
      exact candidate_balances h.feeAsset hcandidate
    refine ⟨amounts, residual, hamounts, hio, hbalances, ?_⟩
    rw [Balances] at hbalances
    omega

/-- Reading an output never stops, and what is read can be carried out. -/
structure ReadsSoundly (config : AdhocOrderConfig) (repr : Pools.TransactionOutput)
    (outputRef : OutputRef) (added : SmallVec Ed25519KeyHash) : Prop where
  instant : ∃ read,
    InstantOrder.tryFromLedger config.toInstantOrderConfig repr outputRef = .ok read
  adhoc : ∃ read, AdhocOrder.tryFromLedger config repr outputRef added = .ok read
  instantAdmissible (io : InstantOrder) (conf : InstantOrder.Datum)
    (hread : InstantOrder.tryFromLedger config.toInstantOrderConfig repr outputRef = .ok (some io))
    (hconf : repr.intoPd.bind InstantOrder.Datum.tryFromPd = some conf) :
    Admissible config.toInstantOrderConfig repr conf ⟨io, 0⟩
  adhocAdmissible (o : AdhocOrder) (conf : InstantOrder.Datum)
    (hread : AdhocOrder.tryFromLedger config repr outputRef added = .ok (some o))
    (hconf : repr.intoPd.bind InstantOrder.Datum.tryFromPd = some conf) :
    Admissible config.toInstantOrderConfig repr conf o
  reserve (o : AdhocOrder) (conf : InstantOrder.Datum)
    (hread : AdhocOrder.tryFromLedger config repr outputRef added = .ok (some o))
    (hconf : repr.intoPd.bind InstantOrder.Datum.tryFromPd = some conf) :
    KeepsReserve config.feeStructure repr conf.minLovelace o

/-- An output is read soundly just if its datum would pass the checks that are left out. -/
theorem reads_soundly_iff (config : AdhocOrderConfig) (repr : Pools.TransactionOutput)
    (outputRef : OutputRef) (added : SmallVec Ed25519KeyHash) :
    ReadsSoundly config repr outputRef added ↔
      ∀ conf total, InstantOrder.Names config.toInstantOrderConfig repr conf total →
        Checkable config conf repr.value.coin (conf.tradable repr.value.coin total) := by
  constructor
  · intro h conf total hnames
    obtain ⟨read, hadhoc⟩ := h.adhoc
    obtain ⟨readInstant, hread, hfits, -⟩ := AdhocOrder.of_tryFromLedger hadhoc
    apply checkable_of_reads hnames hread _ hfits
    rintro io rfl
    exact h.instantAdmissible io conf hread hnames.datum
  · intro h
    have hinstant : ∃ read,
        InstantOrder.tryFromLedger config.toInstantOrderConfig repr outputRef = .ok read := by
      rcases InstantOrder.names_or_tryFromLedger_eq config.toInstantOrderConfig repr outputRef with
        ⟨conf, total, hnames⟩ | hnone
      · rw [hnames.tryFromLedger_eq]
        exact InstantOrder.exists_ofDatum hnames.total (h conf total hnames).toReadable
      · exact ⟨none, hnone⟩
    constructor
    · exact hinstant
    · obtain ⟨read, hread⟩ := hinstant
      apply AdhocOrder.exists_tryFromLedger hread
      rintro io rfl
      obtain ⟨conf, total, -, -, hfits, -⟩ := admissible_of_read h hread
      exact hfits
    · intro io conf hread hconf
      obtain ⟨conf', total, hnames, hadmissible, -⟩ := admissible_of_read h hread
      obtain rfl := Option.some.inj (hnames.datum.symm.trans hconf)
      exact hadmissible
    · intro o conf hread hconf
      exact (adhoc_admissible_of_read h hread hconf).1
    · intro o conf hread hconf
      obtain ⟨hadmissible, hheld⟩ := adhoc_admissible_of_read h hread hconf
      exact hadmissible.backed.keepsReserve hheld

end Execution

def sampleAdhocConfig (validation : InstantOrderValidation) : AdhocOrderConfig where
  toInstantOrderConfig := { sampleInstantConfig with validation := validation }
  feeStructure := ⟨1⟩
  allowedAdditionalPaymentDestinations := .new []

/-- An order with half an ADA for the fee is read where 0.6 ADA are the least, and the reading of an
output that does not hold the fee and the ADA that is to stay stops at a subtraction. -/
theorem unsound_reading :
    (InstantOrder.tryFromLedger
        (sampleAdhocConfig ⟨1500000, 600000, 1000000⟩).toInstantOrderConfig sampleInstantOutput
        ⟨.replicate 1, 0⟩ = .ok (some sampleInstant) ∧
      ¬ @ReadsSoundly Value.arithmetic (sampleAdhocConfig ⟨1500000, 600000, 1000000⟩)
        sampleInstantOutput ⟨.replicate 1, 0⟩ (.new [])) ∧
    (InstantOrder.tryFromLedger
        (sampleAdhocConfig ⟨1500000, 500000, 1000000⟩).toInstantOrderConfig
        { sampleInstantOutput with value := .ofTokens 2000000 [] }
        ⟨.replicate 1, 0⟩ = .error .underflow ∧
      ¬ @ReadsSoundly Value.arithmetic (sampleAdhocConfig ⟨1500000, 500000, 1000000⟩)
        { sampleInstantOutput with value := .ofTokens 2000000 [] } ⟨.replicate 1, 0⟩ (.new [])) := by
  have hread : InstantOrder.tryFromLedger
      (sampleAdhocConfig ⟨1500000, 600000, 1000000⟩).toInstantOrderConfig sampleInstantOutput
      ⟨.replicate 1, 0⟩ = .ok (some sampleInstant) := by decide +kernel
  have hstops : InstantOrder.tryFromLedger
      (sampleAdhocConfig ⟨1500000, 500000, 1000000⟩).toInstantOrderConfig
      { sampleInstantOutput with value := .ofTokens 2000000 [] }
      ⟨.replicate 1, 0⟩ = .error .underflow := by decide +kernel
  refine ⟨⟨hread, ?_⟩, hstops, ?_⟩
  · rintro ⟨-, -, hadmissible, -, -⟩
    obtain ⟨conf, total, hnames⟩ := InstantOrder.names_of_tryFromLedger hread
    exact absurd (hadmissible sampleInstant conf hread hnames.datum).minFee (by decide)
  · rintro ⟨⟨read, hread⟩, -, -, -, -⟩
    rw [hstops] at hread
    cases hread

end UtxoMonitor.ExecutionEngine
