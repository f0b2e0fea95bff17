import UtxoMonitor.ExecutionEngine.Makes
import UtxoMonitor.ExecutionEngine.Successors
import UtxoMonitor.ExecutionEngine.Surplus
import UtxoMonitor.Orders.Contract
import UtxoMonitor.Pools.Book

/-! When the scripts of a batch produce what they consume. -/
namespace UtxoMonitor.ExecutionEngine

open Lib LiquidityBook Pools Orders

open EventSink (FinalizedTxOut)

variable [ValueArithmetic]

/-! ### Makes -/

section Makes

variable {M M' : Type}

/-- What a make receives of an asset, by the reserves of its pool. -/
def credited (pair : Pair) (reserves : M → AbsoluteReserves) (make : MakeInProgress M)
    (asset : AssetClass) : Int :=
  (if asset = pair.base then make.received reserves .ask else 0) +
    if asset = pair.quote then make.received reserves .bid else 0

omit [ValueArithmetic] in
theorem assetMapping_eq (pair : Pair) (side : LiquidityBook.Side) : pair.assetMapping side =
    match side with
    | .bid => ⟨pair.base, pair.quote⟩
    | .ask => ⟨pair.quote, pair.base⟩ := by
  unfold Pair.assetMapping
  obtain ⟨hbase, hquote⟩ | ⟨hbase, hquote⟩ := pair.base_quote
  · cases side <;> simp only [hbase, hquote, if_true]
  · by_cases hsame : pair.y = pair.x
    · cases side <;> simp only [hbase, hquote, hsame, if_true]
    · cases side <;> simp only [hbase, hquote, hsame, if_false]

/-- Only trades that have moved both reserves are carried out: what has left the one is taken from the
output, and what has come to the other is added. -/
theorem producedOut_cases {pair : Pair} {init succ : AbsoluteReserves}
    {out out' : Pools.TransactionOutput} (h : producedOut pair init succ out = .ok out') :
    (succ.base < init.base ∧ init.quote < succ.quote ∧
      ∃ traded, out.subAsset pair.base (init.base - succ.base) = .ok traded ∧
        traded.addAsset pair.quote (succ.quote - init.quote) = .ok out') ∨
    (init.base < succ.base ∧ succ.quote < init.quote ∧
      ∃ traded, out.subAsset pair.quote (init.quote - succ.quote) = .ok traded ∧
        traded.addAsset pair.base (succ.base - init.base) = .ok out') := by
  obtain ⟨side, hside, h⟩ := Checked.bind_eq_ok.mp h
  obtain ⟨removed, hremoved, h⟩ := Checked.bind_eq_ok.mp h
  obtain ⟨added, hadded, h⟩ := Checked.bind_eq_ok.mp h
  obtain ⟨traded, htraded, hproduced⟩ := Checked.bind_eq_ok.mp h
  rw [Checked.unwrap_eq_ok] at hside hremoved hadded
  rw [assetMapping_eq] at htraded hproduced
  unfold AbsoluteReserves.tradeSide at hside
  unfold AbsoluteReserves.loss LiquidityBook.checkedSub at hremoved
  unfold AbsoluteReserves.gain LiquidityBook.checkedSub at hadded
  split at hside
  · rename_i hmoved
    cases hside
    rw [if_pos hmoved.1.le] at hremoved
    rw [if_neg hmoved.1.not_ge, if_pos hmoved.2.le] at hadded
    cases hremoved
    cases hadded
    exact .inl ⟨hmoved.1, hmoved.2, traded, htraded, hproduced⟩
  · split at hside
    · rename_i hmoved
      cases hside
      rw [if_neg hmoved.1.not_ge, if_pos hmoved.2.le] at hremoved
      rw [if_pos hmoved.1.le] at hadded
      cases hremoved
      cases hadded
      exact .inr ⟨hmoved.1, hmoved.2, traded, htraded, hproduced⟩
    · cases hside

/-- The output holds as much more as the reserves have grown. -/
theorem held_producedOut {pair : Pair} {init succ : AbsoluteReserves}
    {out out' : Pools.TransactionOutput} (h : producedOut pair init succ out = .ok out')
    (asset : AssetClass) : (out'.value.held asset : Int) = out.value.held asset +
      ((if asset = pair.base then (succ.base - init.base : Int) else 0) +
        if asset = pair.quote then (succ.quote - init.quote : Int) else 0) := by
  obtain ⟨hbase, hquote, traded, htraded, hproduced⟩ | ⟨hbase, hquote, traded, htraded, hproduced⟩ :=
    producedOut_cases h
  · rw [held_candidate (pair.base, pair.quote) htraded hproduced, flow_eq, Nat.cast_sub hbase.le,
      Nat.cast_sub hquote.le, neg_sub]
  · rw [held_candidate (pair.quote, pair.base) htraded hproduced, flow_eq, Nat.cast_sub hbase.le,
      Nat.cast_sub hquote.le, neg_sub, add_comm (ite _ _ _)]

/-- A pool whose execution is accounted for by what may be traded of its reserves. -/
class AccountedMaker (M : Type) [BatchExec M Empty] where
  pair : M → Pair
  tradable : M → AbsoluteReserves
  surplus_exec {feeStructure : AdhocFeeStructure} {state state' : ExecutionState}
    {make : MakeInProgress M} {consumedOut : FinalizedTxOut} {effect : EffectPreview M}
    (h : BatchExec.exec feeStructure state make consumedOut = .ok (state', effect))
    (asset : AssetClass) : state'.surplus asset =
      state.surplus asset + credited (pair make.target) tradable make asset

theorem surplus_execSwap {pair : M → Pair} {tradable : M → AbsoluteReserves}
    {updateDatum : M → PlutusData → PlutusData} {state state' : ExecutionState}
    {make : MakeInProgress M} {consumedOut : FinalizedTxOut} {effect : EffectPreview M}
    (h : execSwap pair tradable updateDatum state make consumedOut = .ok (state', effect))
    (asset : AssetClass) : state'.surplus asset =
      state.surplus asset + credited (pair make.target) tradable make asset := by
  obtain ⟨target, result⟩ := make
  cases result with
  | term void => exact void.elim
  | succ next =>
    obtain ⟨produced, hproduced, h⟩ := Checked.bind_eq_ok.mp h
    cases h
    rw [ExecutionState.surplus_addIo, dataMut_value, held_producedOut hproduced asset,
      add_sub_cancel_left]
    rfl

instance : AccountedMaker ConstFnPool where
  pair := ConstFnPool.pair
  tradable := ConstFnPool.tradable
  surplus_exec h := surplus_execSwap h

instance : AccountedMaker BalancePool where
  pair := BalancePool.pair
  tradable := BalancePool.tradable
  surplus_exec h := surplus_execSwap h

instance : AccountedMaker StablePoolT2T where
  pair := StablePoolT2T.pair
  tradable := StablePoolT2T.tradable
  surplus_exec h := surplus_execSwap h

instance : AccountedMaker QuadraticPool where
  pair := QuadraticPool.pair
  tradable := QuadraticPool.tradable
  surplus_exec h := surplus_execSwap h

/-- A pool, and the one among several kinds that it is. -/
structure SameReserves [BatchExec M Empty] [AccountedMaker M] (pair : M' → Pair)
    (tradable : M' → AbsoluteReserves) (m : M) (m' : M') : Prop where
  pair : pair m' = AccountedMaker.pair m
  tradable : tradable m' = AccountedMaker.tradable m

omit [ValueArithmetic] in
theorem surplus_execAs_make [BatchExec M Empty] [AccountedMaker M] {wrap : M → M'}
    {unwrap : M' → Option M} {pair : M' → Pair} {tradable : M' → AbsoluteReserves}
    (hunwrap : ∀ {m' m}, unwrap m' = some m → SameReserves pair tradable m m')
    {target : M} {target' : M'} (htarget : unwrap target' = some target)
    {feeStructure : AdhocFeeStructure} {state state' : ExecutionState} {result : Next M' Empty}
    {src : FinalizedTxOut} {effect : EffectPreview M'}
    (h : execAs wrap unwrap feeStructure state target result src = .ok (state', effect))
    (asset : AssetClass) : state'.surplus asset =
      state.surplus asset + credited (pair target') tradable ⟨target', result⟩ asset := by
  obtain ⟨result', effect', hresult, hexec⟩ := exec_of_execAs h
  rw [AccountedMaker.surplus_exec hexec]
  cases result with
  | term void => exact void.elim
  | succ next =>
    obtain ⟨next', hnext, heq⟩ := Checked.bind_eq_ok.mp hresult
    cases heq
    obtain ⟨hpair, htradable⟩ := hunwrap htarget
    obtain ⟨-, htradable'⟩ := hunwrap (Checked.unwrap_eq_ok.mp hnext)
    unfold credited MakeInProgress.received
    dsimp only
    rw [hpair, htradable, htradable']

end Makes

theorem sameReserves_pureCfmm {m' : AnyPool} {m : ConstFnPool} (h : pureCfmm? m' = some m) :
    SameReserves AnyPool.pair AnyPool.tradable m m' := by
  cases m' <;> cases h
  exact ⟨rfl, rfl⟩

theorem sameReserves_balancedCfmm {m' : AnyPool} {m : BalancePool}
    (h : balancedCfmm? m' = some m) : SameReserves AnyPool.pair AnyPool.tradable m m' := by
  cases m' <;> cases h
  exact ⟨rfl, rfl⟩

theorem sameReserves_stableCfmm {m' : AnyPool} {m : StablePoolT2T} (h : stableCfmm? m' = some m) :
    SameReserves AnyPool.pair AnyPool.tradable m m' := by
  cases m' <;> cases h
  exact ⟨rfl, rfl⟩

instance : AccountedMaker AnyPool where
  pair := AnyPool.pair
  tradable := AnyPool.tradable
  surplus_exec {_ _ _ make _ _} h := by
    obtain ⟨target, result⟩ := make
    cases target with
    | pureCfmm pool =>
      have hexec : execAs AnyPool.pureCfmm pureCfmm? _ _ pool result _ = .ok _ := h
      exact surplus_execAs_make sameReserves_pureCfmm rfl hexec
    | balancedCfmm pool =>
      have hexec : execAs AnyPool.balancedCfmm balancedCfmm? _ _ pool result _ = .ok _ := h
      exact surplus_execAs_make sameReserves_balancedCfmm rfl hexec
    | stableCfmm pool =>
      have hexec : execAs AnyPool.stableCfmm stableCfmm? _ _ pool result _ = .ok _ := h
      exact surplus_execAs_make sameReserves_stableCfmm rfl hexec

theorem sameReserves_any {m' : Maker} {m : AnyPool} (h : any? m' = some m) :
    SameReserves Maker.pair Maker.tradable m m' := by
  cases m' <;> cases h
  exact ⟨rfl, rfl⟩

theorem sameReserves_degen {m' : Maker} {m : QuadraticPool} (h : degen? m' = some m) :
    SameReserves Maker.pair Maker.tradable m m' := by
  cases m' <;> cases h
  exact ⟨rfl, rfl⟩

instance : AccountedMaker Maker where
  pair := Maker.pair
  tradable := Maker.tradable
  surplus_exec {_ _ _ make _ _} h := by
    obtain ⟨target, result⟩ := make
    cases target with
    | any pool =>
      have hexec : execAs Maker.any any? _ _ pool result _ = .ok _ := h
      exact surplus_execAs_make sameReserves_any rfl hexec
    | degen pool =>
      have hexec : execAs Maker.degen degen? _ _ pool result _ = .ok _ := h
      exact surplus_execAs_make sameReserves_degen rfl hexec

/-! ### What is not accounted for -/

end UtxoMonitor.ExecutionEngine

namespace UtxoMonitor.Pools.Maker

open LiquidityBook

/-- The reserves of a pool, whether or not they may be traded. -/
def reserves : Maker → AbsoluteReserves
  | any pool => pool.pair.reserves pool.reservesX pool.reservesY
  | degen pool => pool.pair.reserves pool.reservesX pool.reservesY

/-- The reserves of ADA that a degen pool keeps to itself. -/
def leftOut : Maker → AbsoluteReserves
  | any _ => ⟨0, 0⟩
  | degen pool => pool.pair.reserves (if pool.assetX.isNative then min pool.reservesX minAda else 0) 0

theorem reserves_add (pair : Pair) (x y z : Nat) (side : LiquidityBook.Side) :
    (pair.reserves (x + z) y).on side = (pair.reserves x y).on side + (pair.reserves z 0).on side := by
  unfold Pair.reserves
  split <;> cases side <;> rfl

theorem availableReservesX_add (pool : QuadraticPool) : pool.reservesX = pool.availableReservesX +
    if pool.assetX.isNative then min pool.reservesX minAda else 0 := by
  unfold QuadraticPool.availableReservesX
  by_cases hnative : pool.assetX.isNative
  · by_cases hmin : minAda ≤ pool.reservesX
    · rw [if_pos ⟨hnative, hmin⟩, if_pos hnative, min_eq_right hmin, Nat.sub_add_cancel hmin]
    · rw [if_neg fun h => hmin h.2, if_pos hnative, if_pos hnative, min_eq_left (Nat.le_of_not_le hmin),
        Nat.zero_add]
  · rw [if_neg fun h => hnative h.1, if_neg hnative, if_neg hnative, Nat.add_zero]

theorem reserves_on (maker : Maker) (side : LiquidityBook.Side) :
    maker.reserves.on side = maker.tradable.on side + maker.leftOut.on side := by
  cases maker with
  | any pool =>
    show (pool.pair.reserves pool.reservesX pool.reservesY).on side = pool.tradable.on side + _
    rw [AnyPool.tradable_eq]
    cases side <;> rfl
  | degen pool =>
    show (pool.pair.reserves pool.reservesX pool.reservesY).on side = _
    rw [availableReservesX_add, reserves_add]
    rfl

end UtxoMonitor.Pools.Maker

namespace UtxoMonitor.ExecutionEngine

open Lib LiquidityBook Pools Orders

open EventSink (FinalizedTxOut)

theorem credited_reserves (make : MakeInProgress Maker) (asset : AssetClass) :
    credited make.target.pair Maker.tradable make asset =
      credited make.target.pair Maker.reserves make asset -
        credited make.target.pair Maker.leftOut make asset := by
  obtain ⟨target, result⟩ := make
  cases result with
  | term void => exact void.elim
  | succ next =>
    unfold credited MakeInProgress.received
    dsimp only
    simp only [Maker.reserves_on]
    split_ifs <;> push_cast <;> omega

section Batches

variable [ValueArithmetic] {Tk U : Type} [MarketTaker Tk U] [BatchExec Tk TerminalTake]
  [AccountedTaker Tk] {feeStructure : AdhocFeeStructure} {state state' : ExecutionState}
  {effects effects' : List (EffectPreview (Tk ⊕ Maker))} {instructions : List (Instruction Tk Maker)}

/-- What an instruction gets of an asset, less what it pays of it: an order as it is traded, and a
pool by its reserves. -/
def due : Instruction Tk Maker → AssetClass → Int
  | .inl (take, _), asset =>
    flow (AccountedTaker.io take.target) take.removedInput take.addedOutput asset
  | .inr (make, _), asset => credited make.target.pair Maker.reserves make asset

/-- What becomes of an asset besides: two assets that are taken for each other move the other way,
and reserves that a pool keeps to itself are not counted. -/
def stray : Instruction Tk Maker → AssetClass → Int
  | .inl (take, _), asset =>
    if AccountedTaker.swaps take.target then
      flow (AccountedTaker.io take.target).swap (take.addedOutput + take.removedInput)
        (take.addedOutput + take.removedInput) asset
    else 0
  | .inr (make, _), asset => -credited make.target.pair Maker.leftOut make asset

/-- The fee of an order is in ADA. -/
def FeeInAda : Instruction Tk Maker → Prop
  | .inl (take, _) => AccountedTaker.feeAsset take.target = .native
  | .inr _ => True

/-- Orders and pools get of every asset what others pay, and fees are in ADA. -/
structure Conserves (instructions : List (Instruction Tk Maker)) : Prop where
  fees : ∀ instruction ∈ instructions, FeeInAda instruction
  balanced : ∀ asset, (instructions.map fun instruction => due instruction asset).sum = 0

theorem surplus_execute (hfees : ∀ instruction ∈ instructions, FeeInAda instruction)
    (h : execute feeStructure state effects instructions = .ok (state', effects'))
    (asset : AssetClass) : state'.surplus asset = state.surplus asset +
      (instructions.map fun instruction => due instruction asset).sum +
      (instructions.map fun instruction => stray instruction asset).sum := by
  induction instructions generalizing state effects with
  | nil =>
    cases h
    simp
  | cons instruction rest ih =>
    rw [List.map_cons, List.map_cons, List.sum_cons, List.sum_cons]
    have hrest : ∀ instruction ∈ rest, FeeInAda instruction := fun other hmem =>
      hfees other (List.mem_cons_of_mem _ hmem)
    have hfee := hfees instruction List.mem_cons_self
    cases instruction with
    | inl pair =>
      obtain ⟨take, src⟩ := pair
      obtain ⟨⟨next, effect⟩, hexec, h⟩ := Checked.bind_eq_ok.mp h
      have hsurplus := AccountedTaker.surplus_exec hfee hexec asset
      rw [flow_movedIo] at hsurplus
      rw [ih hrest h, hsurplus, due, stray]
      omega
    | inr pair =>
      obtain ⟨make, src⟩ := pair
      obtain ⟨⟨next, effect⟩, hexec, h⟩ := Checked.bind_eq_ok.mp h
      have hsurplus : next.surplus asset = state.surplus asset +
          credited make.target.pair Maker.tradable make asset :=
        AccountedMaker.surplus_exec hexec asset
      rw [ih hrest h, hsurplus, credited_reserves, due, stray]
      omega

end Batches

/-- A batch that conserves assets preserves value exactly if, by asset, what strays cancels. -/
theorem preserves_value_iff [ValueArithmetic] {feeStructure : AdhocFeeStructure}
    {instructions : List (Instruction (AnyOrder ⊕ AdhocOrder) Maker)} {state : ExecutionState}
    {effects : List (EffectPreview ((AnyOrder ⊕ AdhocOrder) ⊕ Maker))}
    (hconserves : Conserves instructions)
    (h : execute feeStructure .new [] instructions = .ok (state, effects)) :
    state.PreservesValue ↔
      ∀ asset, (instructions.map fun instruction => stray instruction asset).sum = 0 := by
  rw [ExecutionState.preservesValue_iff]
  apply forall_congr'
  intro asset
  have hsurplus := surplus_execute hconserves.fees h asset
  rw [hconserves.balanced, ExecutionState.surplus_new, zero_add, zero_add] at hsurplus
  rw [hsurplus]

section Samples

local instance : ValueArithmetic := Value.arithmetic

abbrev SampleInstruction := Instruction (AnyOrder ⊕ AdhocOrder) Maker

/-- A pool of tokens gets 10 ADA for a thousand of them. -/
def degenMake (reservesX : Nat) : MakeInProgress Maker :=
  ⟨.degen (sampleDegen reservesX),
    .succ (.degen { sampleDegen (reservesX + 10000000) with reservesY := tokenEmission - 1000 })⟩

/-- An order of 10 ADA is filled. -/
def degenTake : TakeInProgress (AnyOrder ⊕ AdhocOrder) :=
  ⟨.inl (.limit adaOrder), .term ⟨0, 1000, 0, 0⟩⟩

def degenInput (reservesX : Nat) : FinalizedTxOut where
  out := {
    address := .enterprise (.script (.replicate 100))
    value := .ofTokens (UInt64.ofNat reservesX) [(sampleToken 2, 1000000000)]
    datum := none }
  reference := ⟨.replicate 3, 0⟩

def degenBatch (reservesX : Nat) : List SampleInstruction :=
  [.inl (degenTake, partialInput (adaOutput 13500000 [])),
    .inr (degenMake reservesX, degenInput reservesX)]

/-- An order to buy more of a token with 10 ADA. -/
def gridTarget : GridOrder := { sampleGrid with quoteOffer := 10000000, baseReserves := 20000000 }

/-- It buys with 6 of them. -/
def gridTake : TakeInProgress (AnyOrder ⊕ AdhocOrder) :=
  ⟨.inl (.grid gridTarget),
    .succ (.inl (.grid { gridTarget with quoteOffer := 4000000, baseReserves := 26000000 }))⟩

/-- An order that sells as much of the token for ADA. -/
def sellingTake : TakeInProgress (AnyOrder ⊕ AdhocOrder) :=
  ⟨.inl (.limit tokenOrder), .term ⟨4000000, 8500000, 0, 0⟩⟩

def gridInput : FinalizedTxOut where
  out := { sampleGridOutput with value := .ofTokens 30000000 [(sampleToken 2, 20000000)] }
  reference := ⟨.replicate 4, 0⟩

def gridBatch : List SampleInstruction :=
  [.inl (gridTake, gridInput), .inl (sellingTake, partialInput (tokenOutput 2500000 10000000))]

theorem due_take (take : TakeInProgress (AnyOrder ⊕ AdhocOrder)) (src : FinalizedTxOut)
    (io : AssetClass × AssetClass) (removed added : Nat) (hio : AccountedTaker.io take.target = io)
    (hremoved : take.removedInput = removed) (hadded : take.addedOutput = added)
    (asset : AssetClass) :
    due (.inl (take, src) : SampleInstruction) asset = flow io removed added asset := by
  rw [due, hio, hremoved, hadded]

theorem received_degenMake : ∀ reservesX ∈ [2000000, 5000000],
    (degenMake reservesX).received Maker.reserves .ask = 10000000 ∧
      (degenMake reservesX).received Maker.reserves .bid = -1000 := by
  decide +kernel

theorem conserves_degenBatch :
    ∀ reservesX ∈ [2000000, 5000000], Conserves (degenBatch reservesX) := by
  intro reservesX hmem
  obtain ⟨hask, hbid⟩ := received_degenMake reservesX hmem
  constructor
  case fees =>
    intro instruction h
    rcases List.mem_cons.mp h with rfl | h
    · rfl
    · rw [List.mem_singleton.mp h]
      trivial
  case balanced =>
    intro asset
    have hbase : (degenMake reservesX).target.pair.base = .native := rfl
    have hquote : (degenMake reservesX).target.pair.quote = .token (sampleToken 2) := rfl
    have hpaid := due_take degenTake (partialInput (adaOutput 13500000 []))
      (.native, .token (sampleToken 2)) 10000000 1000 rfl
      (by decide +kernel) (by decide +kernel) asset
    rw [degenBatch, List.map_cons, List.map_cons, List.map_nil, List.sum_cons, List.sum_cons,
      List.sum_nil, hpaid, flow_eq, due, credited, hbase, hquote, hask, hbid]
    split_ifs <;> omega

theorem conserves_gridBatch : Conserves gridBatch where
  fees instruction h := by
    rcases List.mem_cons.mp h with rfl | h
    · rfl
    · rw [List.mem_singleton.mp h]
      rfl
  balanced asset := by
    have hbuys := due_take gridTake gridInput (.native, .token (sampleToken 2)) 6000000 6000000 rfl
      (by decide +kernel) (by decide +kernel) asset
    have hsells := due_take sellingTake (partialInput (tokenOutput 2500000 10000000))
      (.token (sampleToken 2), .native) 6000000 6000000 rfl (by decide +kernel) (by decide +kernel) asset
    rw [gridBatch, List.map_cons, List.map_cons, List.map_nil, List.sum_cons, List.sum_cons,
      List.sum_nil, hbuys, hsells, flow_eq, flow_eq]
    split_ifs <;> omega

theorem preserves_value_sample : ∃ state effects,
    execute ⟨0⟩ .new [] (degenBatch 5000000) = .ok (state, effects) ∧
    (state.PreservesValue ↔ ∀ asset,
      ((degenBatch 5000000).map fun instruction => stray instruction asset).sum = 0) := by
  have hends : (execute ⟨0⟩ .new [] (degenBatch 5000000)).toOption.isSome := by decide +kernel
  cases hexecute : execute ⟨0⟩ .new [] (degenBatch 5000000) with
  | ok result =>
    have hconserves := conserves_degenBatch 5000000 (by decide)
    exact ⟨result.1, result.2, rfl, preserves_value_iff hconserves hexecute⟩
  | error fault =>
    rw [hexecute] at hends
    cases hends

/-- A batch that conserves assets is carried out, and does not produce what it consumes. -/
def LosesValue (feeStructure : AdhocFeeStructure) (batch : List SampleInstruction) : Prop :=
  Conserves batch ∧ ∃ state effects, execute feeStructure .new [] batch = .ok (state, effects) ∧
    ¬ state.PreservesValue

theorem losesValue_of_coin {feeStructure : AdhocFeeStructure} {batch : List SampleInstruction}
    (hconserves : Conserves batch)
    (hloss : (execute feeStructure .new [] batch).toOption.any fun result =>
      result.1.produced .native + result.1.setAside .native ≠ result.1.consumed .native) :
    LosesValue feeStructure batch := by
  cases hexecute : execute feeStructure .new [] batch with
  | ok result =>
    rw [hexecute] at hloss
    refine ⟨hconserves, result.1, result.2, hexecute, ?_⟩
    intro hpreserves
    exact of_decide_eq_true hloss (hpreserves .native)
  | error fault =>
    rw [hexecute] at hloss
    cases hloss

/-- A pool that holds 2 ADA counts 9 of the 10 that it gets, and of the two assets of a grid order the
one that it is to get is taken from it. -/
theorem value_not_preserved :
    LosesValue ⟨0⟩ (degenBatch 2000000) ∧ LosesValue ⟨0⟩ gridBatch :=
  ⟨losesValue_of_coin (conserves_degenBatch 2000000 (by decide)) (by decide +kernel),
    losesValue_of_coin conserves_gridBatch (by decide +kernel)⟩

end Samples

end UtxoMonitor.ExecutionEngine
