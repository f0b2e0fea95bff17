import UtxoMonitor.ExecutionEngine.Takes

/-! What a transaction produces against what it consumes, and what orders add to that. -/
namespace UtxoMonitor.ExecutionEngine

open Lib LiquidityBook Pools Orders

open EventSink (FinalizedTxOut)

/-! ### Transactions -/

namespace ExecutionState

def consumed (state : ExecutionState) (asset : AssetClass) : Nat :=
  (state.scriptIo.map fun io => io.1.out.value.held asset).sum

def produced (state : ExecutionState) (asset : AssetClass) : Nat :=
  (state.scriptIo.map fun io => io.2.value.held asset).sum

/-- What is set aside for the fee of the transaction and for the operator. -/
def setAside (state : ExecutionState) (asset : AssetClass) : Nat :=
  if asset = .native then state.reservedTxFee + state.operatorInterest else 0

/-- All that scripts have held goes to scripts, to the fee or to the operator, and nothing else
does. -/
def PreservesValue (state : ExecutionState) : Prop :=
  ∀ asset, state.produced asset + state.setAside asset = state.consumed asset

/-- By how much there is more of an asset than before. -/
def surplus (state : ExecutionState) (asset : AssetClass) : Int :=
  state.produced asset + state.setAside asset - state.consumed asset

theorem preservesValue_iff {state : ExecutionState} :
    state.PreservesValue ↔ ∀ asset, state.surplus asset = 0 := by
  unfold PreservesValue surplus
  constructor
  · intro h asset
    have hasset := h asset
    omega
  · intro h asset
    have hasset := h asset
    omega

theorem surplus_new (asset : AssetClass) : new.surplus asset = 0 := by
  simp [surplus, produced, consumed, setAside, new]

variable {state state' : ExecutionState} {input : FinalizedTxOut} {output : Pools.TransactionOutput}

theorem surplus_addIo (state : ExecutionState) (input : FinalizedTxOut)
    (output : Pools.TransactionOutput) (asset : AssetClass) :
    (state.addIo input output).surplus asset =
      state.surplus asset + (output.value.held asset - input.out.value.held asset) := by
  have hproduced : (state.addIo input output).produced asset =
      state.produced asset + output.value.held asset := by
    simp [produced, addIo]
  have hconsumed : (state.addIo input output).consumed asset =
      state.consumed asset + input.out.value.held asset := by
    simp [consumed, addIo]
  have haside : (state.addIo input output).setAside asset = state.setAside asset := rfl
  unfold surplus
  omega

theorem surplus_settle {consumedBudget interest : Nat}
    (h : state.settle consumedBudget interest input output = .ok state') (asset : AssetClass) :
    state'.surplus asset = state.surplus asset +
      (output.value.held asset - input.out.value.held asset +
        (if asset = .native then consumedBudget + interest else 0 : Nat)) := by
  obtain ⟨reserving, hreserving, h⟩ := Checked.bind_eq_ok.mp h
  obtain ⟨earning, hearning, h⟩ := Checked.bind_eq_ok.mp h
  obtain ⟨reserved, hreserved, heq⟩ := Checked.bind_eq_ok.mp hreserving
  obtain ⟨earned, hearned, heq'⟩ := Checked.bind_eq_ok.mp hearning
  obtain ⟨-, rfl⟩ := Checked.add_eq_ok.mp hreserved
  obtain ⟨-, rfl⟩ := Checked.add_eq_ok.mp hearned
  cases heq
  cases heq'
  cases h
  rw [surplus_addIo]
  show (_ : Int) + _ - _ + _ = _
  unfold surplus setAside produced consumed
  dsimp only
  split <;> omega

end ExecutionState

/-! ### Takes -/

/-- What is got of an asset less what is paid of it, where the first of two is paid and the second is
got. -/
def flow (io : AssetClass × AssetClass) (paid got : Nat) (asset : AssetClass) : Int :=
  ((if asset = io.2 then got else 0 : Nat) : Int) - (if asset = io.1 then paid else 0 : Nat)

theorem flow_eq (io : AssetClass × AssetClass) (paid got : Nat) (asset : AssetClass) :
    flow io paid got asset =
      (if asset = io.1 then -(paid : Int) else 0) + if asset = io.2 then (got : Int) else 0 := by
  unfold flow
  split_ifs <;> omega

section Amounts

variable {T U : Type} [MarketTaker T U] {take : TakeInProgress T} {amount : Nat}

theorem removedInput_eq (h : removedInput take = .ok amount) : take.removedInput = amount :=
  (unwrap_checkedSub_eq_ok.mp h).2

theorem addedOutput_eq (h : addedOutput take = .ok amount) : take.addedOutput = amount :=
  (unwrap_checkedSub_eq_ok.mp h).2

end Amounts

/-- The assets of an order as they are, or taken for each other. -/
def movedIo (io : AssetClass × AssetClass) (swaps : Bool) : AssetClass × AssetClass :=
  if swaps then io.swap else io

theorem movedIo_false (io : AssetClass × AssetClass) : movedIo io false = io := rfl

/-- Taken for each other, what is paid and got of two assets moves the other way. -/
theorem flow_movedIo (io : AssetClass × AssetClass) (swaps : Bool) (paid got : Nat)
    (asset : AssetClass) : flow (movedIo io swaps) paid got asset =
      flow io paid got asset + if swaps then flow io.swap (got + paid) (got + paid) asset else 0 := by
  cases swaps with
  | false => exact (add_zero _).symm
  | true =>
    unfold movedIo flow
    simp only [if_true, Prod.fst_swap, Prod.snd_swap]
    split_ifs <;> omega

/-- For a grid order, this depends on its side. -/
theorem absoluteIo_eq (o : GridOrder) :
    o.absoluteIo = movedIo o.relativeIo (decide (o.absoluteSide ≠ o.side)) := by
  unfold GridOrder.absoluteIo
  by_cases hside : o.absoluteSide = o.side
  · rw [if_pos hside, decide_eq_false (not_not.mpr hside)]
    rfl
  · rw [if_neg hside, decide_eq_true hside]
    unfold movedIo GridOrder.relativeIo
    cases o.side <;> rfl

variable [ValueArithmetic]

/-- An order whose execution is accounted for. -/
class AccountedTaker (T : Type) {U : outParam Type} [MarketTaker T U] [BatchExec T TerminalTake]
    where
  /-- What the order pays, and what it gets. -/
  io : T → AssetClass × AssetClass
  /-- Whether they are taken for each other when the order is carried out. -/
  swaps : T → Bool
  feeAsset : T → AssetClass
  surplus_exec {feeStructure : AdhocFeeStructure} {state state' : ExecutionState}
    {take : TakeInProgress T} {consumedOut : FinalizedTxOut} {effect : EffectPreview T}
    (hfee : feeAsset take.target = .native)
    (h : BatchExec.exec feeStructure state take consumedOut = .ok (state', effect))
    (asset : AssetClass) : state'.surplus asset =
      state.surplus asset +
        flow (movedIo (io take.target) (swaps take.target)) take.removedInput take.addedOutput asset

section Candidates

variable {out paid traded candidate : Pools.TransactionOutput} {removed added charged : Nat}

theorem held_candidate (io : AssetClass × AssetClass) (htraded : out.subAsset io.1 removed = .ok traded)
    (hcandidate : traded.addAsset io.2 added = .ok candidate) (asset : AssetClass) :
    (candidate.value.held asset : Int) = out.value.held asset + flow io removed added asset := by
  have hsub := (Pools.TransactionOutput.held_of_subAsset htraded).2 asset
  have hadd := (Pools.TransactionOutput.held_of_addAsset hcandidate).2 asset
  unfold flow
  omega

theorem held_charged (hpaid : out.subAsset .native charged = .ok paid) (asset : AssetClass) :
    (paid.value.held asset : Int) =
      out.value.held asset - (if asset = .native then charged else 0 : Nat) := by
  have hsub := (Pools.TransactionOutput.held_of_subAsset hpaid).2 asset
  omega

omit [ValueArithmetic] in
theorem dataMut_value (out : Pools.TransactionOutput) (f : PlutusData → PlutusData) :
    (out.dataMut f).value = out.value := by
  unfold Pools.TransactionOutput.dataMut
  split <;> rfl

omit [ValueArithmetic] in
theorem residualOrder_value {T : Type} (ord : T) (redeemerAddress : PlutusAddress)
    (updateDatum : T → PlutusData → PlutusData) (consumedOut : FinalizedTxOut)
    (candidate : Pools.TransactionOutput) (result : Next T TerminalTake) :
    (residualOrder ord redeemerAddress updateDatum consumedOut candidate result).1.value =
      candidate.value := by
  cases result with
  | succ next => exact dataMut_value candidate (updateDatum next)
  | term last => rfl

/-- What is set aside has been taken from the output that is left. -/
theorem surplus_of_exec {T : Type} (io : AssetClass × AssetClass) {state state' : ExecutionState} {ord : T}
    {redeemerAddress : PlutusAddress} {updateDatum : T → PlutusData → PlutusData}
    {consumedOut : FinalizedTxOut} {result : Next T TerminalTake} {budget interest : Nat}
    (hpaid : consumedOut.out.subAsset .native (budget + interest) = .ok paid)
    (htraded : paid.subAsset io.1 removed = .ok traded)
    (hcandidate : traded.addAsset io.2 added = .ok candidate)
    (hsettled : state.settle budget interest consumedOut
      (residualOrder ord redeemerAddress updateDatum consumedOut candidate result).1 = .ok state')
    (asset : AssetClass) :
    state'.surplus asset = state.surplus asset + flow io removed added asset := by
  have hmoved := held_candidate io htraded hcandidate asset
  rw [held_charged hpaid] at hmoved
  rw [ExecutionState.surplus_settle hsettled, residualOrder_value, hmoved]
  omega

end Candidates

instance : AccountedTaker Orders.LimitOrder where
  io o := (o.inputAsset, o.outputAsset)
  swaps _ := false
  feeAsset o := o.feeAsset
  surplus_exec {_ state state' take consumedOut effect} hfee h asset := by
    obtain ⟨removed, hremoved, h⟩ := Checked.bind_eq_ok.mp h
    obtain ⟨added, hadded, h⟩ := Checked.bind_eq_ok.mp h
    obtain ⟨consumed, -, h⟩ := Checked.bind_eq_ok.mp h
    obtain ⟨charged, -, h⟩ := Checked.bind_eq_ok.mp h
    obtain ⟨spent, hspent, h⟩ := Checked.bind_eq_ok.mp h
    obtain ⟨paid, hpaid, h⟩ := Checked.bind_eq_ok.mp h
    obtain ⟨traded, htraded, h⟩ := Checked.bind_eq_ok.mp h
    obtain ⟨candidate, hcandidate, h⟩ := Checked.bind_eq_ok.mp h
    obtain ⟨settled, hsettled, h⟩ := Checked.bind_eq_ok.mp h
    cases h
    obtain ⟨-, rfl⟩ := Checked.add_eq_ok.mp hspent
    rw [hfee] at hpaid
    rw [removedInput_eq hremoved, addedOutput_eq hadded]
    exact surplus_of_exec (take.target.inputAsset, take.target.outputAsset) hpaid htraded hcandidate
      hsettled asset

instance : AccountedTaker GridOrder where
  io o := o.relativeIo
  swaps o := o.absoluteSide ≠ o.side
  feeAsset _ := .native
  surplus_exec {_ state state' take consumedOut effect} _ h asset := by
    obtain ⟨removed, hremoved, h⟩ := Checked.bind_eq_ok.mp h
    obtain ⟨added, hadded, h⟩ := Checked.bind_eq_ok.mp h
    obtain ⟨consumed, -, h⟩ := Checked.bind_eq_ok.mp h
    obtain ⟨charged, -, h⟩ := Checked.bind_eq_ok.mp h
    obtain ⟨spent, hspent, h⟩ := Checked.bind_eq_ok.mp h
    obtain ⟨paid, hpaid, h⟩ := Checked.bind_eq_ok.mp h
    obtain ⟨traded, htraded, h⟩ := Checked.bind_eq_ok.mp h
    obtain ⟨candidate, hcandidate, h⟩ := Checked.bind_eq_ok.mp h
    obtain ⟨settled, hsettled, h⟩ := Checked.bind_eq_ok.mp h
    cases h
    obtain ⟨-, rfl⟩ := Checked.add_eq_ok.mp hspent
    rw [removedInput_eq hremoved, addedOutput_eq hadded, ← absoluteIo_eq]
    exact surplus_of_exec take.target.absoluteIo hpaid htraded hcandidate hsettled asset

/-- The fee on all of the input is taken from the order and goes to the operator. -/
instance : AccountedTaker AdhocOrder where
  io o := (o.order.inputAsset, o.order.outputAsset)
  swaps _ := false
  feeAsset o := o.order.feeAsset
  surplus_exec {feeStructure state state' take consumedOut effect} hfee h asset := by
    obtain ⟨amounts, hamounts, h⟩ := Checked.bind_eq_ok.mp h
    obtain ⟨candidate, hcandidate, h⟩ := Checked.bind_eq_ok.mp h
    rcases take with ⟨target, next | term⟩
    · cases h
    obtain ⟨interest, hinterest, h⟩ := Checked.bind_eq_ok.mp h
    obtain ⟨settled, hsettled, h⟩ := Checked.bind_eq_ok.mp h
    cases h
    obtain ⟨removed, hremoved, hamounts⟩ := Checked.bind_eq_ok.mp hamounts
    obtain ⟨added, hadded, hamounts⟩ := Checked.bind_eq_ok.mp hamounts
    obtain ⟨consumed, -, hamounts⟩ := Checked.bind_eq_ok.mp hamounts
    obtain ⟨charged, -, hamounts⟩ := Checked.bind_eq_ok.mp hamounts
    obtain ⟨full, -, hamounts⟩ := Checked.bind_eq_ok.mp hamounts
    obtain ⟨share, -, hamounts⟩ := Checked.bind_eq_ok.mp hamounts
    cases hamounts
    obtain ⟨traded, htraded, hcandidate⟩ := Checked.bind_eq_ok.mp hcandidate
    obtain ⟨got, hgot, hcandidate⟩ := Checked.bind_eq_ok.mp hcandidate
    obtain ⟨spent, hspent, hcandidate⟩ := Checked.bind_eq_ok.mp hcandidate
    obtain ⟨total, htotal, hcandidate⟩ := Checked.bind_eq_ok.mp hcandidate
    obtain ⟨-, rfl⟩ := Checked.add_eq_ok.mp hspent
    obtain ⟨-, rfl⟩ := Checked.add_eq_ok.mp htotal
    obtain ⟨-, rfl⟩ := Checked.add_eq_ok.mp hinterest
    dsimp only at hfee hcandidate
    rw [hfee, Nat.add_assoc] at hcandidate
    have hmoved := held_candidate (target.order.inputAsset, target.order.outputAsset) htraded
      hgot asset
    have hcharged := held_charged hcandidate asset
    have hsurplus := ExecutionState.surplus_settle hsettled asset
    have hvalue : (candidate.nullDatum.updateAddress
      target.order.redeemerAddress.toAddress).value = candidate.value := rfl
    rw [hvalue, hcharged, hmoved] at hsurplus
    rw [hsurplus, removedInput_eq hremoved, addedOutput_eq hadded, movedIo_false]
    dsimp only
    omega

/-! ### Orders of several kinds -/

section Kinds

variable {T T' E U : Type} {wrap : T → T'} {unwrap : T' → Option T}
  {feeStructure : AdhocFeeStructure} {state state' : ExecutionState} {target : T} {target' : T'}
  {src : FinalizedTxOut} {effect : EffectPreview T'}

omit [ValueArithmetic] in
theorem exec_of_execAs [BatchExec T E] {result : Next T' E}
    (h : execAs wrap unwrap feeStructure state target result src = .ok (state', effect)) :
    ∃ result' effect', mapSucc unwrap result = .ok result' ∧
      BatchExec.exec feeStructure state ⟨target, result'⟩ src = .ok (state', effect') := by
  obtain ⟨result', hresult, h⟩ := Checked.bind_eq_ok.mp h
  obtain ⟨⟨state₁, effect'⟩, hexec, h⟩ := Checked.bind_eq_ok.mp h
  cases h
  exact ⟨result', effect', hresult, hexec⟩

/-- What is traded is the same for an order and for the one among several kinds that it is. -/
structure SameAmounts [MarketTaker T U] [MarketTaker T' U] (t : T) (t' : T') : Prop where
  input : input t' = input t
  output : output t' = output t

omit [ValueArithmetic] in
theorem SameAmounts.take [MarketTaker T U] [MarketTaker T' U] (h : SameAmounts target target')
    (hunwrap : ∀ {t' t}, unwrap t' = some t → SameAmounts t t') {result : Next T' TerminalTake}
    {result' : Next T TerminalTake} (hresult : mapSucc unwrap result = .ok result') :
    TakeInProgress.removedInput ⟨target', result⟩ = TakeInProgress.removedInput ⟨target, result'⟩ ∧
    TakeInProgress.addedOutput ⟨target', result⟩ =
      TakeInProgress.addedOutput ⟨target, result'⟩ := by
  unfold TakeInProgress.removedInput TakeInProgress.addedOutput
  cases result with
  | succ next =>
    obtain ⟨next', hnext, heq⟩ := Checked.bind_eq_ok.mp hresult
    cases heq
    obtain ⟨hinput, houtput⟩ := hunwrap (Checked.unwrap_eq_ok.mp hnext)
    dsimp only
    rw [h.input, h.output, hinput, houtput]
    exact ⟨rfl, rfl⟩
  | term last =>
    cases hresult
    dsimp only
    rw [h.input, h.output]
    exact ⟨rfl, rfl⟩

omit [ValueArithmetic] in
theorem surplus_execAs [MarketTaker T U] [MarketTaker T' U] [BatchExec T TerminalTake]
    [AccountedTaker T] (hunwrap : ∀ {t' t}, unwrap t' = some t → SameAmounts t t')
    (htarget : unwrap target' = some target)
    (hfee : AccountedTaker.feeAsset target = .native) {result : Next T' TerminalTake}
    (h : execAs wrap unwrap feeStructure state target result src = .ok (state', effect))
    (asset : AssetClass) : state'.surplus asset = state.surplus asset +
      flow (movedIo (AccountedTaker.io target) (AccountedTaker.swaps target))
        (TakeInProgress.removedInput ⟨target', result⟩)
        (TakeInProgress.addedOutput ⟨target', result⟩) asset := by
  obtain ⟨result', effect', hresult, hexec⟩ := exec_of_execAs h
  obtain ⟨hremoved, hadded⟩ := (hunwrap htarget).take hunwrap hresult
  rw [hremoved, hadded]
  exact AccountedTaker.surplus_exec hfee hexec asset

end Kinds

omit [ValueArithmetic] in
theorem sameAmounts_limit {t' : AnyOrder} {t : Orders.LimitOrder} (h : limit? t' = some t) :
    SameAmounts t t' := by
  cases t' <;> cases h
  exact ⟨rfl, rfl⟩

omit [ValueArithmetic] in
theorem sameAmounts_grid {t' : AnyOrder} {t : GridOrder} (h : grid? t' = some t) :
    SameAmounts t t' := by
  cases t' <;> cases h
  exact ⟨rfl, rfl⟩

instance : AccountedTaker AnyOrder where
  io
    | .limit o => AccountedTaker.io o
    | .grid o => AccountedTaker.io o
  swaps
    | .limit o => AccountedTaker.swaps o
    | .grid o => AccountedTaker.swaps o
  feeAsset
    | .limit o => AccountedTaker.feeAsset o
    | .grid o => AccountedTaker.feeAsset o
  surplus_exec {_ _ _ take _ _} hfee h := by
    obtain ⟨target, result⟩ := take
    cases target with
    | limit o =>
      have hexec : execAs AnyOrder.limit limit? _ _ o result _ = .ok _ := h
      exact surplus_execAs sameAmounts_limit rfl hfee hexec
    | grid o =>
      have hexec : execAs AnyOrder.grid grid? _ _ o result _ = .ok _ := h
      exact surplus_execAs sameAmounts_grid rfl hfee hexec

section Mixed

variable {T T' U : Type} [MarketTaker T U] [MarketTaker T' U]

instance : MarketTaker (T ⊕ T') U where
  side := Sum.elim side side
  input := Sum.elim input input
  output := Sum.elim output output
  price := Sum.elim price price
  operatorFee := Sum.elim operatorFee operatorFee
  fee := Sum.elim fee fee
  budget := Sum.elim budget budget
  consumableBudget := Sum.elim consumableBudget consumableBudget
  marginalCostHint := Sum.elim MarketTaker.marginalCostHint MarketTaker.marginalCostHint
  minMarginalOutput := Sum.elim minMarginalOutput minMarginalOutput
  timeBounds := Sum.elim timeBounds timeBounds

omit [ValueArithmetic] in
theorem sameAmounts_left {t' : T ⊕ T'} {t : T} (h : t'.getLeft? = some t) : SameAmounts t t' := by
  obtain rfl := Sum.getLeft?_eq_some_iff.mp h
  exact ⟨rfl, rfl⟩

omit [ValueArithmetic] in
theorem sameAmounts_right {t' : T ⊕ T'} {t : T'} (h : t'.getRight? = some t) :
    SameAmounts t t' := by
  obtain rfl := Sum.getRight?_eq_some_iff.mp h
  exact ⟨rfl, rfl⟩

instance [BatchExec T TerminalTake] [BatchExec T' TerminalTake] [AccountedTaker T]
    [AccountedTaker T'] : AccountedTaker (T ⊕ T') where
  io := Sum.elim AccountedTaker.io AccountedTaker.io
  swaps := Sum.elim AccountedTaker.swaps AccountedTaker.swaps
  feeAsset := Sum.elim AccountedTaker.feeAsset AccountedTaker.feeAsset
  surplus_exec {_ _ _ take _ _} hfee h := by
    obtain ⟨target, result⟩ := take
    cases target with
    | inl t =>
      have hexec : execAs Sum.inl Sum.getLeft? _ _ t result _ = .ok _ := h
      exact surplus_execAs sameAmounts_left Sum.getLeft?_inl hfee hexec
    | inr t =>
      have hexec : execAs Sum.inr Sum.getRight? _ _ t result _ = .ok _ := h
      exact surplus_execAs sameAmounts_right Sum.getRight?_inr hfee hexec

end Mixed

end UtxoMonitor.ExecutionEngine
