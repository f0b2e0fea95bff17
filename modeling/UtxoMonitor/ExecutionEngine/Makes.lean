import UtxoMonitor.ExecutionEngine.Takes
import UtxoMonitor.LiquidityBook.Conservation
import UtxoMonitor.Pools.AnyPool

/-! How the pools of a batch are carried out. -/
namespace UtxoMonitor

open Lib LiquidityBook

open EventSink (FinalizedTxOut)

namespace Pools

/-! ### What is deducted, and what is added -/

structure PoolAssetMapping where
  assetToDeductFrom : AssetClass
  assetToAddTo : AssetClass

/-- `asset_mapping`, and `get_asset_deltas` -/
def Pair.assetMapping (p : Pair) (side : LiquidityBook.Side) : PoolAssetMapping :=
  if p.base = p.x then
    match side with
    | .bid => ⟨p.x, p.y⟩
    | .ask => ⟨p.y, p.x⟩
  else match side with
    | .bid => ⟨p.y, p.x⟩
    | .ask => ⟨p.x, p.y⟩

end Pools

/-- The side of a trade that has moved both reserves. -/
def LiquidityBook.AbsoluteReserves.tradeSide (init succ : AbsoluteReserves) :
    Option LiquidityBook.Side :=
  if succ.base < init.base ∧ init.quote < succ.quote then some .bid
  else if init.base < succ.base ∧ succ.quote < init.quote then some .ask
  else none

def LiquidityBook.AbsoluteReserves.gain (init succ : AbsoluteReserves) : Option Nat :=
  (checkedSub succ.base init.base).or (checkedSub succ.quote init.quote)

namespace Pools

/-! ### Datums -/

open Orders (setField)

/-- Fields of a constructor, set one after another. -/
def setFields (fields : List (Nat × PlutusData)) (data : PlutusData) : PlutusData :=
  fields.foldl (fun data field => setField field.1 field.2 data) data

def unsafeUpdatePdFeeSwitch (treasuryX treasuryY : Nat) : PlutusData → PlutusData :=
  setFields [(6, .integer treasuryX), (7, .integer treasuryY)]

def adminAddresses (adminAddress : ScriptHash) : PlutusData :=
  .list [InlineCredential.intoPd ⟨.script adminAddress⟩]

def RoyaltyPool.unsafeUpdatePdRoyalty (p : RoyaltyPool) : PlutusData → PlutusData :=
  setFields
    [(4, .integer p.lpFee.numer), (5, .integer p.treasuryFee.numer),
      (6, .integer p.firstRoyaltyFee.numer), (7, .integer p.treasuryX), (8, .integer p.treasuryY),
      (9, .integer p.firstRoyaltyX), (10, .integer p.firstRoyaltyY),
      (11, adminAddresses p.adminAddress), (12, .bytes p.treasuryAddress.toRawBytes),
      (14, .integer p.nonce)]

def RoyaltyPool.unsafeUpdatePdRoyaltyV2 (p : RoyaltyPool) : PlutusData → PlutusData :=
  setFields
    [(4, .integer p.lpFee.numer), (5, .integer p.treasuryFee.numer),
      (6, .integer p.firstRoyaltyFee.numer), (7, .integer p.secondRoyaltyFee.numer),
      (8, .integer p.treasuryX), (9, .integer p.treasuryY), (10, .integer p.firstRoyaltyX),
      (11, .integer p.firstRoyaltyY), (12, .integer p.secondRoyaltyX),
      (13, .integer p.secondRoyaltyY), (14, adminAddresses p.adminAddress),
      (15, .bytes p.treasuryAddress.toRawBytes), (18, .integer p.nonce)]

/-- `unsafe_datum_update` -/
def ConstFnPool.unsafeDatumUpdate : ConstFnPool → PlutusData → PlutusData
  | .feeSwitch pool => unsafeUpdatePdFeeSwitch pool.treasuryX pool.treasuryY
  | .royalty pool =>
    match pool.ver with
    | .v1 | .v1LedgerFixed => pool.unsafeUpdatePdRoyalty
    | .v2 => pool.unsafeUpdatePdRoyaltyV2
  | .classic _ => fun data => data

def BalancePool.unsafeUpdateDatum (p : BalancePool) : PlutusData → PlutusData :=
  setFields [(6, .integer p.treasuryX), (7, .integer p.treasuryY)]

def StablePoolT2T.unsafeUpdateDatum (p : StablePoolT2T) : PlutusData → PlutusData :=
  setFields [(13, .integer p.treasuryX), (14, .integer p.treasuryY)]

/-- Pools of ADA keep no account of fees. -/
def QuadraticPool.unsafeUpdatePd (p : QuadraticPool) : PlutusData → PlutusData :=
  match p.ver with
  | .v1 => fun data => data
  | .v1T2t => setField 7 (.integer p.accumulatedXFee)

end Pools

namespace ExecutionEngine

open Pools Orders

variable [ValueArithmetic]

/-! ### Pools -/

/-- A pool's output with what it has lost deducted and what it has gained added. -/
def producedOut (pair : Pair) (init succ : AbsoluteReserves) (consumedOut : Pools.TransactionOutput) :
    Checked Pools.TransactionOutput := do
  let side ← Checked.unwrap (init.tradeSide succ)
  let removedLiquidity ← Checked.unwrap ((init.loss succ).map OnSide.unwrap)
  let addedLiquidity ← Checked.unwrap (init.gain succ)
  let mapping := pair.assetMapping side
  let producedOut ← consumedOut.subAsset mapping.assetToDeductFrom removedLiquidity
  producedOut.addAsset mapping.assetToAddTo addedLiquidity

/-- What the pools have in common. -/
def execSwap {M : Type} (pair : M → Pair) (liquidity : M → AbsoluteReserves)
    (updateDatum : M → PlutusData → PlutusData) (state : ExecutionState) (make : MakeInProgress M)
    (consumedOut : FinalizedTxOut) : Checked (ExecutionState × EffectPreview M) :=
  match make.result with
  | .succ transition => do
    let pool := make.target
    let produced ← producedOut (pair pool) (liquidity pool) (liquidity transition) consumedOut.out
    let produced := produced.dataMut (updateDatum transition)
    return (state.addIo consumedOut produced, .updated ⟨pool, consumedOut⟩ ⟨transition, produced⟩)
  | .term void => void.elim

/-- `BatchExec for Magnet<Make<ConstFnPool, FinalizedTxOut>>` -/
instance : BatchExec ConstFnPool Empty :=
  ⟨fun _ => execSwap ConstFnPool.pair ConstFnPool.tradable ConstFnPool.unsafeDatumUpdate⟩

/-- `BatchExec for Magnet<Make<BalancePool, FinalizedTxOut>>` -/
instance : BatchExec BalancePool Empty :=
  ⟨fun _ => execSwap BalancePool.pair BalancePool.tradable BalancePool.unsafeUpdateDatum⟩

/-- `BatchExec for Magnet<Make<StablePoolT2T, FinalizedTxOut>>` -/
instance : BatchExec StablePoolT2T Empty :=
  ⟨fun _ => execSwap StablePoolT2T.pair StablePoolT2T.tradable StablePoolT2T.unsafeUpdateDatum⟩

/-- `BatchExec for Magnet<Make<QuadraticPool, FinalizedTxOut>>` -/
instance : BatchExec QuadraticPool Empty :=
  ⟨fun _ => execSwap QuadraticPool.pair QuadraticPool.tradable QuadraticPool.unsafeUpdatePd⟩

/-! ### Pools of several kinds -/

def pureCfmm? : AnyPool → Option ConstFnPool
  | .pureCfmm pool => some pool
  | _ => none

def balancedCfmm? : AnyPool → Option BalancePool
  | .balancedCfmm pool => some pool
  | _ => none

def stableCfmm? : AnyPool → Option StablePoolT2T
  | .stableCfmm pool => some pool
  | _ => none

/-- `BatchExec for Magnet<Make<AnyPool, FinalizedTxOut>>` -/
def AnyPool.exec (feeStructure : AdhocFeeStructure) (state : ExecutionState)
    (make : MakeInProgress AnyPool) (src : FinalizedTxOut) :
    Checked (ExecutionState × EffectPreview AnyPool) :=
  match make.target with
  | .pureCfmm p => execAs .pureCfmm pureCfmm? feeStructure state p make.result src
  | .balancedCfmm p => execAs .balancedCfmm balancedCfmm? feeStructure state p make.result src
  | .stableCfmm p => execAs .stableCfmm stableCfmm? feeStructure state p make.result src

instance : BatchExec AnyPool Empty := ⟨AnyPool.exec⟩

def any? : Maker → Option AnyPool
  | .any pool => some pool
  | .degen _ => none

def degen? : Maker → Option QuadraticPool
  | .any _ => none
  | .degen pool => some pool

instance : BatchExec Maker Empty where
  exec feeStructure state make src :=
    match make.target with
    | .any pool => execAs .any any? feeStructure state pool make.result src
    | .degen pool => execAs .degen degen? feeStructure state pool make.result src

/-! ### Batches -/

/-- A take or a make, with the output that it consumes. -/
abbrev Instruction (Tk Mk : Type) :=
  (TakeInProgress Tk × FinalizedTxOut) ⊕ (MakeInProgress Mk × FinalizedTxOut)

/-- Carries out one instruction after another. -/
def execute {Tk Mk : Type} [BatchExec Tk TerminalTake] [BatchExec Mk Empty]
    (feeStructure : AdhocFeeStructure) :
    ExecutionState → List (EffectPreview (Tk ⊕ Mk)) → List (Instruction Tk Mk) →
      Checked (ExecutionState × List (EffectPreview (Tk ⊕ Mk)))
  | state, effects, [] => return (state, effects)
  | state, effects, .inl (take, src) :: rest => do
    let (state, result) ← BatchExec.exec feeStructure state take src
    execute feeStructure state (effects ++ [EffectPreview.map .inl result]) rest
  | state, effects, .inr (make, src) :: rest => do
    let (state, result) ← BatchExec.exec feeStructure state make src
    execute feeStructure state (effects ++ [EffectPreview.map .inr result]) rest

end ExecutionEngine

end UtxoMonitor
