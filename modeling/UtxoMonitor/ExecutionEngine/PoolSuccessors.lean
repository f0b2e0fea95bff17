import UtxoMonitor.ExecutionEngine.PoolUpdates

/-! When the outputs that are left for the pools of a book are read as those pools. -/
namespace UtxoMonitor.Pools

open Lib LiquidityBook

open EventSink (FinalizedTxOut)
open ExecutionEngine

/-! ### What the executor leaves -/

def AnyPool.unsafeUpdateDatum : AnyPool → PlutusData → PlutusData
  | .pureCfmm pool => pool.unsafeDatumUpdate
  | .balancedCfmm pool => pool.unsafeUpdateDatum
  | .stableCfmm pool => pool.unsafeUpdateDatum

def Maker.unsafeUpdateDatum : Maker → PlutusData → PlutusData
  | .any pool => pool.unsafeUpdateDatum
  | .degen pool => pool.unsafeUpdatePd

section

variable [ValueArithmetic] {M M' : Type} {pair : M → Pair} {liquidity : M → AbsoluteReserves}
  {updateDatum : M → PlutusData → PlutusData} {pair' : M' → Pair}
  {liquidity' : M' → AbsoluteReserves} {updateDatum' : M' → PlutusData → PlutusData}
  {feeStructure : Orders.AdhocFeeStructure} {state state' : ExecutionState}

/-- The output of a pool that is traded with is left with what has moved, and with the datum of the
pool after it. -/
def Leaves (pair : M → Pair) (liquidity : M → AbsoluteReserves)
    (updateDatum : M → PlutusData → PlutusData) (target : M) (result : Next M Empty)
    (src : FinalizedTxOut) (state state' : ExecutionState) (effect : EffectPreview M) : Prop :=
  ∃ next produced, result = .succ next ∧
    producedOut (pair target) (liquidity target) (liquidity next) src.out = .ok produced ∧
    state' = state.addIo src (produced.dataMut (updateDatum next)) ∧
    effect = .updated ⟨target, src⟩ ⟨next, produced.dataMut (updateDatum next)⟩

theorem leaves_execSwap {make : MakeInProgress M} {src : FinalizedTxOut} {effect : EffectPreview M}
    (h : execSwap pair liquidity updateDatum state make src = .ok (state', effect)) :
    Leaves pair liquidity updateDatum make.target make.result src state state' effect := by
  obtain ⟨target, result⟩ := make
  cases result with
  | term void => exact void.elim
  | succ next =>
    obtain ⟨produced, hproduced, h⟩ := Checked.bind_eq_ok.mp h
    cases h
    exact ⟨next, produced, rfl, hproduced, rfl, rfl⟩

theorem leaves_execAs [BatchExec M Empty] {wrap : M → M'} {unwrap : M' → Option M} {target : M}
    {result : Next M' Empty} {src : FinalizedTxOut} {effect : EffectPreview M'}
    (h : execAs wrap unwrap feeStructure state target result src = .ok (state', effect))
    (hexec : ∀ {result : Next M Empty} {effect : EffectPreview M},
      BatchExec.exec feeStructure state ⟨target, result⟩ src = .ok (state', effect) →
      Leaves pair liquidity updateDatum target result src state state' effect)
    (hunwrap : ∀ {m' m}, unwrap m' = some m → m' = wrap m) (hpair : ∀ m, pair' (wrap m) = pair m)
    (hliquidity : ∀ m, liquidity' (wrap m) = liquidity m)
    (hupdate : ∀ m, updateDatum' (wrap m) = updateDatum m) :
    Leaves pair' liquidity' updateDatum' (wrap target) result src state state' effect := by
  obtain ⟨result', hresult, h⟩ := Checked.bind_eq_ok.mp h
  obtain ⟨⟨state₁, effect'⟩, hinner, h⟩ := Checked.bind_eq_ok.mp h
  cases h
  obtain ⟨next, produced, rfl, hproduced, rfl, rfl⟩ := hexec hinner
  cases result with
  | term void => exact void.elim
  | succ next' =>
    obtain ⟨_, hnext, heq⟩ := Checked.bind_eq_ok.mp hresult
    cases heq
    obtain rfl := hunwrap (Checked.unwrap_eq_ok.mp hnext)
    refine ⟨wrap next, produced, rfl, ?_, ?_, ?_⟩
    · rw [hpair, hliquidity, hliquidity, hproduced]
    · rw [hupdate]
    · rw [hupdate]
      rfl

theorem AnyPool.leaves_exec {target : AnyPool} {result : Next AnyPool Empty} {src : FinalizedTxOut}
    {effect : EffectPreview AnyPool}
    (h : BatchExec.exec feeStructure state ⟨target, result⟩ src = .ok (state', effect)) :
    Leaves AnyPool.pair AnyPool.tradable AnyPool.unsafeUpdateDatum target result src state state'
      effect := by
  cases target with
  | pureCfmm pool =>
    have hexec : execAs AnyPool.pureCfmm pureCfmm? _ _ pool result _ = .ok _ := h
    refine leaves_execAs hexec (fun hinner => leaves_execSwap hinner) ?_ (fun _ => rfl)
      (fun _ => rfl) (fun _ => rfl)
    intro m' m hm
    cases m' <;> cases hm
    rfl
  | balancedCfmm pool =>
    have hexec : execAs AnyPool.balancedCfmm balancedCfmm? _ _ pool result _ = .ok _ := h
    refine leaves_execAs hexec (fun hinner => leaves_execSwap hinner) ?_ (fun _ => rfl)
      (fun _ => rfl) (fun _ => rfl)
    intro m' m hm
    cases m' <;> cases hm
    rfl
  | stableCfmm pool =>
    have hexec : execAs AnyPool.stableCfmm stableCfmm? _ _ pool result _ = .ok _ := h
    refine leaves_execAs hexec (fun hinner => leaves_execSwap hinner) ?_ (fun _ => rfl)
      (fun _ => rfl) (fun _ => rfl)
    intro m' m hm
    cases m' <;> cases hm
    rfl

theorem Maker.leaves_exec {target : Maker} {result : Next Maker Empty} {src : FinalizedTxOut}
    {effect : EffectPreview Maker}
    (h : BatchExec.exec feeStructure state ⟨target, result⟩ src = .ok (state', effect)) :
    Leaves Maker.pair Maker.tradable Maker.unsafeUpdateDatum target result src state state'
      effect := by
  cases target with
  | any pool =>
    have hexec : execAs Maker.any any? _ _ pool result _ = .ok _ := h
    refine leaves_execAs hexec (fun hinner => AnyPool.leaves_exec hinner) ?_ (fun _ => rfl)
      (fun _ => rfl) (fun _ => rfl)
    intro m' m hm
    cases m' <;> cases hm
    rfl
  | degen pool =>
    have hexec : execAs Maker.degen degen? _ _ pool result _ = .ok _ := h
    refine leaves_execAs hexec (fun hinner => leaves_execSwap hinner) ?_ (fun _ => rfl)
      (fun _ => rfl) (fun _ => rfl)
    intro m' m hm
    cases m' <;> cases hm
    rfl

end

/-! ### What the pools leave themselves -/

def AnyPool.assetLq : AnyPool → AssetClass
  | .pureCfmm (.classic pool) => pool.assetLq
  | .pureCfmm (.feeSwitch pool) => pool.assetLq
  | .pureCfmm (.royalty pool) => pool.assetLq
  | .balancedCfmm pool => pool.assetLq
  | .stableCfmm pool => pool.assetLq

namespace Maker

/-- `into_ledger` of a pool, whatever kind it is of. -/
def intoLedger : Maker → ImmutablePoolUtxo → Checked TransactionOutput
  | any (.pureCfmm (.classic pool)) => pool.intoLedger
  | any (.pureCfmm (.feeSwitch pool)) => pool.intoLedger
  | any (.pureCfmm (.royalty pool)) => pool.intoLedger
  | any (.balancedCfmm pool) => pool.intoLedger
  | any (.stableCfmm pool) => pool.intoLedger
  | degen pool => pool.intoLedger

/-! ### Reading a pool back -/

/-- An output is read as a pool, by the parser of its kind. -/
def ReadFrom (ctx : PoolContext) (degenCtx : QuadraticPoolContext) (out : TransactionOutput) :
    Maker → Prop
  | any (.pureCfmm (.classic pool)) => ClassicPool.tryFromLedger out ctx = .ok (some pool)
  | any (.pureCfmm (.feeSwitch pool)) => FeeSwitchPool.tryFromLedger out ctx = .ok (some pool)
  | any (.pureCfmm (.royalty pool)) => RoyaltyPool.tryFromLedger out ctx = .ok (some pool)
  | any (.balancedCfmm pool) => BalancePool.tryFromLedger out ctx = .ok (some pool)
  | any (.stableCfmm pool) => StablePoolT2T.tryFromLedger out ctx = .ok (some pool)
  | degen pool => QuadraticPool.tryFromLedger out degenCtx = .ok (some pool)

/-- The fields of a datum that a swap changes. -/
def stateFields : Maker → List Nat
  | any (.pureCfmm (.classic _)) => []
  | any (.pureCfmm (.feeSwitch pool)) => pool.stateFields
  | any (.pureCfmm (.royalty pool)) => pool.stateFields
  | any (.balancedCfmm _) => [6, 7]
  | any (.stableCfmm _) => [13, 14]
  | degen pool => pool.stateFields

/-- An output is read as the pool after its swaps, and nothing else of it has changed. -/
structure ReadBack (ctx : PoolContext) (degenCtx : QuadraticPoolContext) (p p' : Maker)
    (out out' : TransactionOutput) : Prop where
  read : p'.ReadFrom ctx degenCtx out'
  datum : DatumKept p.stateFields out out'
  others : OthersKept p.pair out.value out'.value

/-- The output has the amounts that the pool after its swaps is read with. -/
def Entered (value : Value) : Maker → Maker → Prop
  | any p, any p' => Amounts value p.pair p.assetLq p.quality p'.reservesX p'.reservesY
  | degen p, degen p' => QuadraticPool.Reserved value p p'
  | _, _ => False

/-- What the parsers ask of the reserves and of what has been collected. -/
def Admitted : Maker → Prop
  | any (.pureCfmm (.classic _)) => True
  | any (.pureCfmm (.feeSwitch pool)) =>
    pool.treasuryX < pool.reservesX ∧ pool.treasuryY < pool.reservesY
  | any (.pureCfmm (.royalty pool)) => pool.owedX < pool.reservesX ∧ pool.owedY < pool.reservesY
  | any (.balancedCfmm _) => True
  | any (.stableCfmm pool) =>
    pool.treasuryX < pool.reservesX ∧ pool.treasuryY < pool.reservesY
  | degen pool => pool.Uncapped

/-- What is written to the datum is where it is read, and is what has been there otherwise. -/
def Placed (out : TransactionOutput) : Maker → Maker → Prop
  | any (.pureCfmm (.feeSwitch p)), any (.pureCfmm (.feeSwitch p')) => p.Placed p'
  | any (.pureCfmm (.royalty p)), _ => p.OneAdmin out
  | _, _ => True

variable {ctx : PoolContext} {degenCtx : QuadraticPoolContext} {p p' : Maker}
  {out out' : TransactionOutput}

/-- What is read is in 64 bits. -/
theorem evolved_of_read (h : p.ReadFrom ctx degenCtx out) : p.Evolved p := by
  cases p with
  | any p =>
    cases p with
    | pureCfmm p =>
      cases p with
      | classic p =>
        obtain ⟨d, hd, hreads⟩ := ClassicPool.tryFromLedger_eq_some.mp h
        have hamounts := hreads.amounts hd
        exact .classic ⟨rfl, Value.amountOf_lt hamounts.reservesX,
          Value.amountOf_lt hamounts.reservesY⟩
      | feeSwitch p =>
        obtain ⟨d, hd, hreads⟩ := FeeSwitchPool.tryFromLedger_eq_some.mp h
        have hamounts := hreads.amounts hd
        have hx := Value.amountOf_lt hamounts.reservesX
        have hy := Value.amountOf_lt hamounts.reservesY
        have htreasury : p.treasuryX < p.reservesX ∧ p.treasuryY < p.reservesY := by
          rw [hreads.pool]
          exact hreads.treasury
        exact .feeSwitch ⟨rfl, hx, hy, htreasury.1.trans hx, htreasury.2.trans hy⟩
      | royalty p =>
        obtain ⟨d, hd, hreads⟩ := RoyaltyPool.tryFromLedger_eq_some.mp h
        have hamounts := hreads.amounts hd
        have hx := Value.amountOf_lt hamounts.reservesX
        have hy := Value.amountOf_lt hamounts.reservesY
        have howed : p.owedX < p.reservesX ∧ p.owedY < p.reservesY := by
          rw [hreads.pool]
          exact hreads.owed
        unfold RoyaltyPool.owedX RoyaltyPool.owedY at howed
        exact .royalty ⟨rfl, hx, hy, by omega, by omega, by omega, by omega, by omega, by omega,
          fun _ => ⟨rfl, rfl⟩⟩
    | balancedCfmm p =>
      obtain ⟨d, hd, hreads⟩ := BalancePool.tryFromLedger_eq_some.mp h
      have hamounts := hreads.amounts hd
      obtain ⟨-, hconf, -⟩ := Draft.read_eq_some.mp hd
      obtain ⟨data, -, hconf⟩ := Option.bind_eq_some_iff.mp hconf
      obtain ⟨_, fields, -, hfields⟩ := BalancePoolConfig.tryFromPd_eq_some.mp hconf
      have htreasury : p.treasuryX < 2 ^ 64 ∧ p.treasuryY < 2 ^ 64 := by
        rw [hreads.pool]
        exact ⟨lt_of_u64At hfields.treasuryX, lt_of_u64At hfields.treasuryY⟩
      exact .balance ⟨rfl, Value.amountOf_lt hamounts.reservesX,
        Value.amountOf_lt hamounts.reservesY, htreasury.1, htreasury.2⟩
    | stableCfmm p =>
      obtain ⟨d, hd, hreads⟩ := StablePoolT2T.tryFromLedger_eq_some.mp h
      have hamounts := hreads.amounts hd
      have hx := Value.amountOf_lt hamounts.reservesX
      have hy := Value.amountOf_lt hamounts.reservesY
      have htreasury : p.treasuryX < p.reservesX ∧ p.treasuryY < p.reservesY := by
        rw [hreads.pool]
        exact hreads.treasury
      exact .stable ⟨rfl, hx, hy, htreasury.1.trans hx, htreasury.2.trans hy⟩
  | degen p =>
    obtain ⟨conf, hreads⟩ := QuadraticPool.tryFromLedger_eq_some.mp h
    have hx : p.reservesX < 2 ^ 64 := by
      rw [← hreads.reservesX]
      cases hamount : out.value.amountOf p.assetX with
      | none => exact Nat.two_pow_pos 64
      | some amount => exact Value.amountOf_lt hamount
    exact .degen ⟨rfl, hx, Value.amountOf_lt hreads.reservesY, hreads.uncapped.kept.trans_lt hx,
      fun _ => rfl⟩

theorem read_iff_of_updated (hread : p.ReadFrom ctx degenCtx out) (hp' : p.Evolved p')
    (hout : Updated p.pair p'.unsafeUpdateDatum out out') :
    (p'.ReadFrom ctx degenCtx out' ∧ DatumKept p.stateFields out out') ↔
      Entered out'.value p p' ∧ p'.Admitted ∧ Placed out p p' := by
  cases hp' with
  | classic hp' =>
    refine (ClassicPool.reads_back_iff hread hp' hout).trans ?_
    exact (and_iff_left ⟨trivial, trivial⟩).symm
  | feeSwitch hp' => exact FeeSwitchPool.reads_back_iff hread hp' hout
  | royalty hp' => exact RoyaltyPool.reads_back_iff hread hp' hout
  | balance hp' =>
    refine (BalancePool.reads_back_iff hread hp' hout).trans ?_
    exact (and_iff_left ⟨trivial, trivial⟩).symm
  | stable hp' =>
    refine (StablePoolT2T.reads_back_iff hread hp' hout).trans ?_
    exact and_congr_right' (and_iff_left trivial).symm
  | degen hp' =>
    refine (QuadraticPool.reads_back_iff hread hp' hout).trans ?_
    exact and_congr_right' (and_iff_left trivial).symm

theorem Evolved.pair_eq (h : p.Evolved p') : p'.pair = p.pair := by
  cases h with
  | classic h => rw [h.same]; rfl
  | feeSwitch h => rw [h.same]; rfl
  | royalty h => rw [h.same]; rfl
  | balance h => rw [h.same]; rfl
  | stable h => rw [h.same]; rfl
  | degen h => rw [h.same]; rfl

/-- The amounts that a pool with shares is read with. -/
theorem amounts_of_read {p : AnyPool} (h : (any p).ReadFrom ctx degenCtx out) :
    Amounts out.value p.pair p.assetLq p.quality p.reservesX p.reservesY := by
  cases p with
  | pureCfmm p =>
    cases p with
    | classic p =>
      obtain ⟨d, hd, hreads⟩ := ClassicPool.tryFromLedger_eq_some.mp h
      exact hreads.amounts hd
    | feeSwitch p =>
      obtain ⟨d, hd, hreads⟩ := FeeSwitchPool.tryFromLedger_eq_some.mp h
      exact hreads.amounts hd
    | royalty p =>
      obtain ⟨d, hd, hreads⟩ := RoyaltyPool.tryFromLedger_eq_some.mp h
      exact hreads.amounts hd
  | balancedCfmm p =>
    obtain ⟨d, hd, hreads⟩ := BalancePool.tryFromLedger_eq_some.mp h
    exact hreads.amounts hd
  | stableCfmm p =>
    obtain ⟨d, hd, hreads⟩ := StablePoolT2T.tryFromLedger_eq_some.mp h
    exact hreads.amounts hd

/-! ### What the executor is to leave -/

/-- The assets of a pool are different ones, no token is used up, and the ADA that a degen pool
keeps to itself stays. -/
def Moves : Maker → Maker → Prop
  | any p, any p' =>
    Apart p.pair p.assetLq ∧ Stocked p.pair.x p'.reservesX ∧ Stocked p.pair.y p'.reservesY
  | degen p, degen p' => p.assetX ≠ p.assetY ∧ Stocked p.assetY p'.reservesY ∧ KeepsAda p p'
  | _, _ => False

section

variable [ValueArithmetic]

theorem updated_of_producedOut {pair : Pair} {init succ : AbsoluteReserves}
    (h : producedOut pair init succ out = .ok out') (updateDatum : PlutusData → PlutusData) :
    Updated pair updateDatum out (out'.dataMut updateDatum) where
  address := by
    rw [dataMut_address, eq_of_producedOut h]
  datum := by
    rw [dataMut_intoPd, eq_of_producedOut h]
    rfl
  coin hx hy := by
    have hheld := held_producedOut h .native
    have hne : ∀ {asset : AssetClass}, ¬ asset.isNative → AssetClass.native ≠ asset := by
      rintro _ hasset rfl
      exact hasset rfl
    have hbase : AssetClass.native ≠ pair.base ∧ AssetClass.native ≠ pair.quote := by
      obtain ⟨hbase, hquote⟩ | ⟨hbase, hquote⟩ := pair.base_quote
      · rw [hbase, hquote]
        exact ⟨hne hx, hne hy⟩
      · rw [hbase, hquote]
        exact ⟨hne hy, hne hx⟩
    rw [if_neg hbase.1, if_neg hbase.2, add_zero, add_zero] at hheld
    rw [dataMut_value]
    exact Int.ofNat_inj.mp hheld

variable [EntryArithmetic]

theorem entered_iff_moves (hread : p.ReadFrom ctx degenCtx out) (hp' : p.Evolved p')
    (h : producedOut p.pair p.tradable p'.tradable out = .ok out') :
    (Entered out'.value p p' ∧ OthersKept p.pair out.value out'.value) ↔ Moves p p' := by
  have hpair := hp'.pair_eq
  cases p with
  | any p =>
    cases p' with
    | any p' =>
      have hpair : p'.pair = p.pair := hpair
      have hproduced : producedOut p.pair (p.pair.reserves p.reservesX p.reservesY)
          (p.pair.reserves p'.reservesX p'.reservesY) out = .ok out' := by
        rw [← p.tradable_eq, ← hpair, ← p'.tradable_eq, hpair]
        exact h
      refine (and_iff_left_of_imp ?_).trans
        (amounts_of_producedOut (amounts_of_read hread) hproduced)
      intro hamounts
      have hapart := ((amounts_of_producedOut (amounts_of_read hread) hproduced).mp hamounts).1
      exact (moved_of_producedOut hproduced hapart.distinct).others
    | degen p' => cases hp'
  | degen p =>
    cases p' with
    | any p' => cases hp'
    | degen p' =>
      obtain ⟨conf, hreads⟩ := QuadraticPool.tryFromLedger_eq_some.mp hread
      have hiff := degenAmounts_of_producedOut hpair hreads.reservesX hreads.reservesY h
      refine (and_iff_left_of_imp ?_).trans hiff
      intro hamounts
      have hne := (hiff.mp hamounts).1
      have htradable : p'.tradable = p.pair.reserves p'.availableReservesX p'.reservesY :=
        congrArg (fun pair : Pair => pair.reserves _ _) hpair
      have hproduced : producedOut p.pair (p.pair.reserves p.availableReservesX p.reservesY)
          (p.pair.reserves p'.availableReservesX p'.reservesY) out = .ok out' := by
        rw [← htradable]
        exact h
      exact (moved_of_producedOut hproduced hne).others

theorem readBack_iff_of_producedOut (hread : p.ReadFrom ctx degenCtx out) (hp' : p.Evolved p')
    (h : producedOut p.pair p.tradable p'.tradable out = .ok out') :
    ReadBack ctx degenCtx p p' out (out'.dataMut p'.unsafeUpdateDatum) ↔
      Moves p p' ∧ p'.Admitted ∧ Placed out p p' := by
  have hdatum := read_iff_of_updated hread hp' (updated_of_producedOut h p'.unsafeUpdateDatum)
  have hvalue := entered_iff_moves hread hp' h
  rw [dataMut_value] at hdatum
  constructor
  · rintro ⟨hback, hkept, hothers⟩
    obtain ⟨hentered, hadmitted, hplaced⟩ := hdatum.mp ⟨hback, hkept⟩
    rw [dataMut_value] at hothers
    exact ⟨hvalue.mp ⟨hentered, hothers⟩, hadmitted, hplaced⟩
  · rintro ⟨hmoves, hadmitted, hplaced⟩
    obtain ⟨hentered, hothers⟩ := hvalue.mpr hmoves
    obtain ⟨hback, hkept⟩ := hdatum.mpr ⟨hentered, hadmitted, hplaced⟩
    refine ⟨hback, hkept, ?_⟩
    rw [dataMut_value]
    exact hothers

end

/-! ### What the pools are to leave -/

/-- The amounts that a pool enters in its output. -/
def holdings : Maker → List (AssetClass × Nat)
  | any p =>
    Pools.holdings p.pair p.reservesX p.reservesY [(p.assetLq, maxLqCap - p.quality)] p.id
  | degen p => Pools.holdings p.pair p.reservesX p.reservesY [] p.id

/-- No fee has been collected that is not entered. -/
def Uncharged : Maker → Maker → Prop
  | degen p, degen p' => p'.accumulatedXFee = p.accumulatedXFee
  | _, _ => True

end Maker

def AnyPool.stakePartScriptHash : AnyPool → Option ScriptHash
  | .pureCfmm (.classic pool) => pool.stakePartScriptHash
  | .pureCfmm (.feeSwitch pool) => pool.stakePartScriptHash
  | .pureCfmm (.royalty pool) => pool.stakePartScriptHash
  | .balancedCfmm _ => none
  | .stableCfmm _ => none

namespace Maker

variable {ctx : PoolContext} {degenCtx : QuadraticPoolContext} {p p' : Maker}
  {out out' : TransactionOutput}

theorem intoLedger_any (p : AnyPool) : (any p).intoLedger =
    Pools.intoLedger p.pair p.reservesX p.reservesY (setShares p.assetLq p.quality) p.id
      p.unsafeUpdateDatum p.stakePartScriptHash := by
  cases p with
  | pureCfmm p => cases p <;> rfl
  | balancedCfmm p => rfl
  | stableCfmm p => rfl

theorem stakePart_of_read {p p' : AnyPool} (hread : (any p).ReadFrom ctx degenCtx out)
    (hp' : (any p).Evolved (any p')) {hash : ScriptHash} (h : p'.stakePartScriptHash = some hash) :
    stakePart out.address = some hash := by
  cases hp' with
  | classic hp' =>
    obtain ⟨d, hd, hreads⟩ := ClassicPool.tryFromLedger_eq_some.mp hread
    rw [hp'.same, hreads.pool] at h
    exact h
  | feeSwitch hp' =>
    obtain ⟨d, hd, hreads⟩ := FeeSwitchPool.tryFromLedger_eq_some.mp hread
    rw [hp'.same, hreads.pool] at h
    exact h
  | royalty hp' =>
    obtain ⟨d, hd, hreads⟩ := RoyaltyPool.tryFromLedger_eq_some.mp hread
    rw [hp'.same, hreads.pool] at h
    exact h
  | balance hp' => cases h
  | stable hp' => cases h

theorem shares_of_set {assetLq : AssetClass} {liquidity : Nat} {shares : List (Token × UInt64)}
    (h : setShares assetLq liquidity = .ok shares) :
    assetLq ≠ .native ∧ shares.map tokenEntry = [(assetLq, maxLqCap - liquidity)] := by
  cases assetLq with
  | native => cases h
  | token t =>
    obtain ⟨_, ht, h⟩ := Checked.bind_eq_ok.mp h
    obtain ⟨_, hliquidity, h⟩ := Checked.bind_eq_ok.mp h
    cases ht
    obtain ⟨-, rfl⟩ := Checked.sub_eq_ok.mp hliquidity
    cases h
    have hlt : maxLqCap - liquidity < 2 ^ 64 := by
      unfold maxLqCap
      omega
    exact ⟨fun h => (by cases h), congrArg (fun e => [e]) (tokenEntry_ofNat t hlt)⟩

/-- The datum that a pool leaves itself: a degen pool leaves it as it is. -/
def ledgerUpdate : Maker → PlutusData → PlutusData
  | any p => p.unsafeUpdateDatum
  | degen _ => fun data => data

theorem coin_of_holds {pair : Pair} {reservesX reservesY : Nat} {held : List (AssetClass × Nat)}
    (h : Holds pair reservesX reservesY out.value.coin held out') (hx : ¬ pair.x.isNative)
    (hy : ¬ pair.y.isNative) : out'.value.coin = out.value.coin := by
  rw [h.coin, if_neg hx, if_neg hy]

theorem evolved_any {p p' : AnyPool} (h : (any p).Evolved (any p')) :
    p'.assetLq = p.assetLq ∧ p'.quality = p.quality ∧ p'.reservesX < 2 ^ 64 ∧
      p'.reservesY < 2 ^ 64 := by
  cases h with
  | classic h => exact ⟨by rw [h.same]; rfl, by rw [h.same]; rfl, h.reservesX, h.reservesY⟩
  | feeSwitch h => exact ⟨by rw [h.same]; rfl, by rw [h.same]; rfl, h.reservesX, h.reservesY⟩
  | royalty h => exact ⟨by rw [h.same]; rfl, by rw [h.same]; rfl, h.reservesX, h.reservesY⟩
  | balance h => exact ⟨by rw [h.same]; rfl, by rw [h.same]; rfl, h.reservesX, h.reservesY⟩
  | stable h => exact ⟨by rw [h.same]; rfl, by rw [h.same]; rfl, h.reservesX, h.reservesY⟩

theorem updated_of_intoLedger (hread : p.ReadFrom ctx degenCtx out) (hp' : p.Evolved p')
    (h : p'.intoLedger (.ofOutput out) = .ok out') :
    Updated p.pair p'.ledgerUpdate out out' ∧
      ((Entered out'.value p p' ∧ OthersKept p.pair out.value out'.value) ↔
        Agree p'.holdings ∧ Bare p.pair p'.holdings out.value) := by
  have hpair := hp'.pair_eq
  cases p with
  | any p =>
    cases p' with
    | any p' =>
      have hpair : p'.pair = p.pair := hpair
      obtain ⟨hlq, hliquidity, hx, hy⟩ := evolved_any hp'
      rw [intoLedger_any] at h
      obtain ⟨shares, hshares, hholds, haddress, hdatum⟩ :=
        holds_of_intoLedger hx hy (fun hash => stakePart_of_read hread hp') h
      obtain ⟨hnative, hentries⟩ := shares_of_set hshares
      rw [hentries] at hholds
      refine ⟨⟨haddress, hdatum, ?_⟩, ?_⟩
      · intro hx hy
        exact coin_of_holds hholds (hpair ▸ hx) (hpair ▸ hy)
      · have hentered : Entered out'.value (any p) (any p') ↔
            Amounts out'.value p'.pair p'.assetLq p'.quality p'.reservesX p'.reservesY := by
          rw [hpair, hlq, hliquidity]
          rfl
        rw [hentered, hholds.amounts_iff hnative]
        show _ ∧ OthersKept p.pair _ _ ↔ _ ∧ Bare p.pair _ _
        rw [← hpair, hholds.othersKept_iff]
        rfl
    | degen p' => cases hp'
  | degen p =>
    cases p' with
    | any p' => cases hp'
    | degen p' =>
      have hassets : p'.assetX = p.assetX ∧ p'.assetY = p.assetY :=
        ⟨congrArg Pair.x hpair, congrArg Pair.y hpair⟩
      have hpair : p'.pair = p.pair := hpair
      cases hp' with
      | degen hp' =>
        have hleft : Pools.intoLedger p'.pair p'.reservesX p'.reservesY (return []) p'.id
          (fun data => data) none (.ofOutput out) = .ok out' := h
        obtain ⟨shares, hshares, hholds, haddress, hdatum⟩ :=
          holds_of_intoLedger hp'.reservesX hp'.reservesY (fun _ hnone => by cases hnone) hleft
        cases hshares
        refine ⟨⟨haddress, hdatum, ?_⟩, ?_⟩
        · intro hx hy
          exact coin_of_holds hholds (hpair ▸ hx) (hpair ▸ hy)
        · have hentered : Entered out'.value (degen p) (degen p') ↔
              (out'.value.amountOf p'.pair.x).getD 0 = p'.reservesX ∧
                out'.value.amountOf p'.pair.y = some p'.reservesY := by
            rw [hpair]
            rfl
          rw [hentered, hholds.degenAmounts_iff]
          show _ ∧ OthersKept p.pair _ _ ↔ _ ∧ Bare p.pair _ _
          rw [← hpair, hholds.othersKept_iff]
          rfl

theorem readBack_iff_of_intoLedger (hread : p.ReadFrom ctx degenCtx out) (hp' : p.Evolved p')
    (h : p'.intoLedger (.ofOutput out) = .ok out') :
    ReadBack ctx degenCtx p p' out out' ↔
      (Agree p'.holdings ∧ Bare p.pair p'.holdings out.value) ∧ p'.Admitted ∧ Placed out p p' ∧
        Uncharged p p' := by
  obtain ⟨hupdated, hvalue⟩ := updated_of_intoLedger hread hp' h
  have hdatum : (p'.ReadFrom ctx degenCtx out' ∧ DatumKept p.stateFields out out') ↔
      Entered out'.value p p' ∧ p'.Admitted ∧ Placed out p p' ∧ Uncharged p p' := by
    cases p' with
    | any p' =>
      refine (read_iff_of_updated hread hp' hupdated).trans ?_
      have huncharged : Uncharged p (any p') := by cases p <;> exact trivial
      rw [and_iff_left huncharged]
    | degen p' =>
      cases hp' with
      | degen hp' =>
        refine (QuadraticPool.reads_back_iff_of_kept hread hp' hupdated).trans ?_
        exact and_congr_right' (and_congr_right' (and_iff_right trivial).symm)
  constructor
  · rintro ⟨hback, hkept, hothers⟩
    obtain ⟨hentered, hrest⟩ := hdatum.mp ⟨hback, hkept⟩
    exact ⟨hvalue.mp ⟨hentered, hothers⟩, hrest⟩
  · rintro ⟨hholdings, hrest⟩
    obtain ⟨hentered, hothers⟩ := hvalue.mpr hholdings
    obtain ⟨hback, hkept⟩ := hdatum.mpr ⟨hentered, hrest⟩
    exact ⟨hback, hkept, hothers⟩

/-- The output that the executor leaves for a pool after some swaps, and the one that the pool
leaves itself, are read back under these conditions. -/
theorem outputs_read_back [Numerics] [ValueArithmetic] [EntryArithmetic]
    (hread : p.ReadFrom ctx degenCtx out) (hswapped : p.Swapped p') :
    (∀ feeStructure state state' ref effect,
      BatchExec.exec feeStructure state (⟨p, .succ p'⟩ : MakeInProgress Maker) ⟨out, ref⟩ =
        .ok (state', effect) →
      ∃ out', state' = state.addIo ⟨out, ref⟩ out' ∧ effect = .updated ⟨p, ⟨out, ref⟩⟩ ⟨p', out'⟩ ∧
        (ReadBack ctx degenCtx p p' out out' ↔
          Moves p p' ∧ p'.Admitted ∧ Placed out p p')) ∧
    (∀ out', p'.intoLedger (.ofOutput out) = .ok out' →
      (ReadBack ctx degenCtx p p' out out' ↔
        (Agree p'.holdings ∧ Bare p.pair p'.holdings out.value) ∧ p'.Admitted ∧ Placed out p p' ∧
          Uncharged p p')) := by
  have hp' := (evolved_of_read hread).of_swapped hswapped
  constructor
  · intro feeStructure state state' ref effect h
    obtain ⟨next, produced, hnext, hproduced, hstate, heffect⟩ := leaves_exec h
    cases hnext
    exact ⟨_, hstate, heffect, readBack_iff_of_producedOut hread hp' hproduced⟩
  · intro out' h
    exact readBack_iff_of_intoLedger hread hp' h

end Maker

/-! ### Pools with one fee and with two -/

section Samples

local instance : ValueArithmetic := Value.arithmetic

local instance : EntryArithmetic := Value.entryArithmetic

local instance : Numerics := floorNumerics

def sampleFeeSwitchPool : FeeSwitchPool where
  id := sampleToken 1
  reservesX := 50000000
  reservesY := 7000000
  liquidity := maxLqCap - 9223372036854000000
  assetX := .native
  assetY := .token (sampleToken 2)
  assetLq := .token (sampleToken 3)
  lpFeeX := ⟨99700, feeDen⟩
  lpFeeY := ⟨99700, feeDen⟩
  treasuryFee := ⟨100, feeDen⟩
  treasuryX := 5000
  treasuryY := 0
  lqLowerBound := 0
  ver := .v1
  marginalCost := ⟨0, 0⟩
  bounds := ⟨10000000, 2000000⟩
  nonce := 0
  stakePartScriptHash := none

/-- After a trade of 1 ADA. -/
def sampleFeeSwitchNext (p : FeeSwitchPool) : FeeSwitchPool :=
  { p with reservesX := 51000000, reservesY := 6863270, treasuryX := 6000 }

def feeSwitchMaker (p : FeeSwitchPool) : Maker := .any (.pureCfmm (.feeSwitch p))

theorem swapped_sample {p : FeeSwitchPool}
    (h : p.swap (.ask 1000000) = .ok (sampleFeeSwitchNext p)) :
    (feeSwitchMaker p).Swapped (feeSwitchMaker (sampleFeeSwitchNext p)) := by
  refine .single ⟨.ask 1000000, ?_⟩
  simp only [feeSwitchMaker, Maker.swap, AnyPool.swap, ConstFnPool.swap, h]
  rfl

/-- A trade on a pool's output. -/
def sampleTrade (p : FeeSwitchPool) (out : TransactionOutput) :
    Checked (ExecutionState × EffectPreview Maker) :=
  BatchExec.exec ⟨⟨0, Nat.succ_pos 100⟩⟩ .new
    (⟨feeSwitchMaker p, .succ (feeSwitchMaker (sampleFeeSwitchNext p))⟩ : MakeInProgress Maker)
    ⟨out, ⟨.replicate 4, 0⟩⟩

/-- What an output is read as is traded with. -/
structure Traded (ctx : PoolContext) (p : FeeSwitchPool) (out : TransactionOutput) : Prop where
  read : FeeSwitchPool.tryFromLedger out ctx = .ok (some p)
  swap : p.swap (.ask 1000000) = .ok (sampleFeeSwitchNext p)
  carried : (sampleTrade p out).toOption.isSome

theorem Traded.exec {ctx : PoolContext} {p : FeeSwitchPool} {out : TransactionOutput}
    (h : Traded ctx p out) : ∃ state' effect, sampleTrade p out = .ok (state', effect) := by
  cases htrade : sampleTrade p out with
  | ok result => exact ⟨result.1, result.2, rfl⟩
  | error fault =>
    have hcarried := h.carried
    rw [htrade] at hcarried
    cases hcarried

theorem traded_sample :
    Traded samplePoolContext sampleFeeSwitchPool (sampleFeeSwitchOutput 100 5000) where
  read := by decide +kernel
  swap := by decide +kernel
  carried := by decide +kernel

theorem Maker.outputs_read_back_sample : ∃ state' ref out',
    sampleTrade sampleFeeSwitchPool (sampleFeeSwitchOutput 100 5000) = .ok (state', .updated
      ⟨feeSwitchMaker sampleFeeSwitchPool, ⟨sampleFeeSwitchOutput 100 5000, ref⟩⟩
      ⟨feeSwitchMaker (sampleFeeSwitchNext sampleFeeSwitchPool), out'⟩) ∧
    Maker.ReadBack samplePoolContext sampleQuadraticContext (feeSwitchMaker sampleFeeSwitchPool)
      (feeSwitchMaker (sampleFeeSwitchNext sampleFeeSwitchPool)) (sampleFeeSwitchOutput 100 5000)
      out' := by
  obtain ⟨state', effect, htrade⟩ := traded_sample.exec
  have hread : (feeSwitchMaker sampleFeeSwitchPool).ReadFrom samplePoolContext
      sampleQuadraticContext (sampleFeeSwitchOutput 100 5000) := traded_sample.read
  obtain ⟨out', -, rfl, hiff⟩ := (Maker.outputs_read_back hread
    (swapped_sample traded_sample.swap)).1 _ _ _ _ _ htrade
  refine ⟨state', _, out', htrade, hiff.mpr ⟨?_, ?_, ?_⟩⟩
  · exact ⟨⟨by decide, by decide, by decide⟩, .inl rfl, .inr (by decide)⟩
  · exact ⟨by decide, by decide⟩
  · exact fun h => by cases h

/-! The treasuries of a pool with a fee for either direction are written one field too early. -/

def sampleBiDirOutput : TransactionOutput where
  address := .enterprise (.script (.replicate 9))
  value := .ofTokens 50000000 [(sampleToken 1, 1), (sampleToken 2, 7000000),
    (sampleToken 3, 9223372036854000000)]
  datum := some (.datum (.constr 0 [(sampleToken 1).intoPd,
    .constr 0 [.bytes [], .bytes []], (sampleToken 2).intoPd, (sampleToken 3).intoPd,
    .integer 99700, .integer 99700, .integer 100, .integer 5000, .integer 0, .list [], .integer 0]))

def biDirContext : PoolContext where
  deployed script :=
    ⟨.replicate (if script = .constFnPoolFeeSwitchBiDirFee then 9 else 8), ⟨0, 0⟩⟩
  bounds := ⟨10000000, 2000000⟩

def sampleBiDirPool : FeeSwitchPool := { sampleFeeSwitchPool with ver := .biDirV1 }

theorem traded_biDir : Traded biDirContext sampleBiDirPool sampleBiDirOutput where
  read := by decide +kernel
  swap := by decide +kernel
  carried := by decide +kernel

/-- What has been collected of ADA is read as the fee of the treasury, and the treasury is lost. -/
theorem outputs_not_read_back : ∃ state' ref out',
    (feeSwitchMaker sampleBiDirPool).ReadFrom biDirContext sampleQuadraticContext
      sampleBiDirOutput ∧
    (feeSwitchMaker sampleBiDirPool).Swapped
      (feeSwitchMaker (sampleFeeSwitchNext sampleBiDirPool)) ∧
    sampleTrade sampleBiDirPool sampleBiDirOutput = .ok (state', .updated
      ⟨feeSwitchMaker sampleBiDirPool, ⟨sampleBiDirOutput, ref⟩⟩
      ⟨feeSwitchMaker (sampleFeeSwitchNext sampleBiDirPool), out'⟩) ∧
    ¬ Maker.ReadBack biDirContext sampleQuadraticContext (feeSwitchMaker sampleBiDirPool)
      (feeSwitchMaker (sampleFeeSwitchNext sampleBiDirPool)) sampleBiDirOutput out' := by
  obtain ⟨state', effect, htrade⟩ := traded_biDir.exec
  have hread : (feeSwitchMaker sampleBiDirPool).ReadFrom biDirContext sampleQuadraticContext
      sampleBiDirOutput := traded_biDir.read
  have hswapped := swapped_sample traded_biDir.swap
  obtain ⟨next, produced, hnext, hproduced, -, rfl⟩ := Maker.leaves_exec htrade
  cases hnext
  refine ⟨state', _, _, hread, hswapped, htrade, fun hback => ?_⟩
  have hplaced := ((Maker.readBack_iff_of_producedOut hread
    ((Maker.evolved_of_read hread).of_swapped hswapped) hproduced).mp hback).2.2
  exact absurd (hplaced rfl).1 (by decide)

end Samples

end UtxoMonitor.Pools
