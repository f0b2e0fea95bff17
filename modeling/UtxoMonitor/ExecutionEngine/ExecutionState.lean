import UtxoMonitor.EventSink.Chain
import UtxoMonitor.ExecutionEngine.Entities

/-! The outputs of a batch, and what is set aside while its instructions are carried out. -/
namespace UtxoMonitor

open Lib LiquidityBook

/-! ### Addresses and values -/

/-- `to_address` -/
def PlutusAddress.toAddress (addr : PlutusAddress) : Address :=
  match addr.stakeCred with
  | some stake => .base addr.paymentCred stake.cred
  | none => .enterprise addr.paymentCred

namespace Pools

/-- What a value holds of an asset, and nothing if it has no entry. -/
def Value.held (value : Value) (asset : AssetClass) : Nat := (value.amountOf asset).getD 0

@[simp] theorem Value.held_native (value : Value) : value.held .native = value.coin := rfl

/-- `checked_sub` and `checked_add` of values, by one asset: an amount that does not fit is an error. -/
class ValueArithmetic where
  checkedSub : Value → AssetClass → Nat → Checked Value
  checkedAdd : Value → AssetClass → Nat → Checked Value
  held_of_checkedSub {value value' : Value} {asset : AssetClass} {amount : Nat}
    (h : checkedSub value asset amount = .ok value') (asset' : AssetClass) :
    value.held asset' = value'.held asset' + if asset' = asset then amount else 0
  held_of_checkedAdd {value value' : Value} {asset : AssetClass} {amount : Nat}
    (h : checkedAdd value asset amount = .ok value') (asset' : AssetClass) :
    value'.held asset' = value.held asset' + if asset' = asset then amount else 0

/-- An amount of an asset; an entry of nothing is dropped. -/
def Value.withAmount (value : Value) (asset : AssetClass) (amount : Nat) (h : amount < 2 ^ 64) :
    Value :=
  match asset with
  | .native => { value with coin := amount, coin_lt := h }
  | .token t => { value with
      multiasset := if amount = 0 then value.multiasset.erase t else value.multiasset.insert t amount
      amount_lt := by
        intro t' amount' hlookup
        split at hlookup
        · rw [Std.ExtTreeMap.getElem?_erase] at hlookup
          split at hlookup
          · cases hlookup
          · exact value.amount_lt t' amount' hlookup
        · rw [Std.ExtTreeMap.getElem?_insert] at hlookup
          split at hlookup
          · cases hlookup
            exact h
          · exact value.amount_lt t' amount' hlookup }

theorem Value.held_withAmount (value : Value) (asset asset' : AssetClass) {amount : Nat}
    (h : amount < 2 ^ 64) :
    (value.withAmount asset amount h).held asset' =
      if asset' = asset then amount else value.held asset' := by
  cases asset with
  | native =>
    cases asset' with
    | native => rfl
    | token t' => rfl
  | token t =>
    cases asset' with
    | native => rfl
    | token t' =>
      simp only [held, withAmount, amountOf, AssetClass.token.injEq]
      by_cases hsame : t' = t
      · subst hsame
        by_cases hzero : amount = 0
        · simp [hzero]
        · simp [hzero]
      · have hne : ¬ t = t' := fun h => hsame h.symm
        by_cases hzero : amount = 0
        · simp [hzero, hsame, Std.ExtTreeMap.getElem?_erase, hne]
        · simp [hzero, hsame, Std.ExtTreeMap.getElem?_insert, hne]

theorem Value.held_lt (value : Value) (asset : AssetClass) : value.held asset < 2 ^ 64 := by
  rw [held]
  cases hamount : value.amountOf asset with
  | none => exact Nat.two_pow_pos 64
  | some amount => exact Value.amountOf_lt hamount

/-- One asset is subtracted and added, as `checked_sub` and `checked_add` of values do. -/
abbrev Value.arithmetic : ValueArithmetic where
  checkedSub value asset amount :=
    if amount ≤ value.held asset then
      .ok (value.withAmount asset (value.held asset - amount)
        ((Nat.sub_le _ _).trans_lt (value.held_lt asset)))
    else .error .unwrap
  checkedAdd value asset amount :=
    if h : value.held asset + amount < 2 ^ 64 then
      .ok (value.withAmount asset (value.held asset + amount) h)
    else .error .unwrap
  held_of_checkedSub {value value' asset amount} h asset' := by
    split at h
    · cases h
      rw [Value.held_withAmount]
      split
      · rename_i hle heq
        rw [heq]
        omega
      · rfl
    · cases h
  held_of_checkedAdd {value value' asset amount} h asset' := by
    split at h
    · cases h
      rw [Value.held_withAmount]
      split
      · rename_i heq
        rw [heq]
      · rfl
    · cases h

namespace TransactionOutput

section

variable [ValueArithmetic]

def subAsset (out : TransactionOutput) (asset : AssetClass) (amount : Nat) :
    Checked TransactionOutput := do
  let updatedValue ← ValueArithmetic.checkedSub out.value asset amount
  return { out with value := updatedValue }

def addAsset (out : TransactionOutput) (asset : AssetClass) (amount : Nat) :
    Checked TransactionOutput := do
  let updatedValue ← ValueArithmetic.checkedAdd out.value asset amount
  return { out with value := updatedValue }

end

/-- What becomes of an output when the datum is changed that it carries itself. -/
def dataMut (out : TransactionOutput) (f : PlutusData → PlutusData) : TransactionOutput :=
  match out.datum with
  | some (.datum data) => { out with datum := some (.datum (f data)) }
  | _ => out

def nullDatum (out : TransactionOutput) : TransactionOutput := { out with datum := none }

def updateAddress (out : TransactionOutput) (addr : Address) : TransactionOutput :=
  { out with address := addr }

theorem dataMut_eq {out : TransactionOutput} {data : PlutusData}
    (h : out.datum = some (.datum data)) (f : PlutusData → PlutusData) :
    out.dataMut f = { out with datum := some (.datum (f data)) } := by
  rw [dataMut, h]

section

variable [ValueArithmetic] {out out' : TransactionOutput} {asset : AssetClass} {amount : Nat}

theorem held_of_subAsset (h : out.subAsset asset amount = .ok out') :
    out' = { out with value := out'.value } ∧ ∀ asset', out.value.held asset' =
      out'.value.held asset' + if asset' = asset then amount else 0 := by
  obtain ⟨value, hvalue, h⟩ := Checked.bind_eq_ok.mp h
  cases h
  exact ⟨rfl, ValueArithmetic.held_of_checkedSub hvalue⟩

theorem held_of_addAsset (h : out.addAsset asset amount = .ok out') :
    out' = { out with value := out'.value } ∧ ∀ asset', out'.value.held asset' =
      out.value.held asset' + if asset' = asset then amount else 0 := by
  obtain ⟨value, hvalue, h⟩ := Checked.bind_eq_ok.mp h
  cases h
  exact ⟨rfl, ValueArithmetic.held_of_checkedAdd hvalue⟩

end

end TransactionOutput

end Pools

namespace ExecutionEngine

open Pools

open EventSink (FinalizedTxOut)

/-! ### The state of an execution -/

structure ExecutionState where
  /-- What is spent and produced by scripts. -/
  scriptIo : List (FinalizedTxOut × Pools.TransactionOutput)
  reservedTxFee : Nat
  operatorInterest : Nat

namespace ExecutionState

def new : ExecutionState := ⟨[], 0, 0⟩

def addTxFee (state : ExecutionState) (amount : Nat) : Checked ExecutionState := do
  return { state with reservedTxFee := ← Checked.add 64 state.reservedTxFee amount }

def addOperatorInterest (state : ExecutionState) (amount : Nat) : Checked ExecutionState := do
  return { state with operatorInterest := ← Checked.add 64 state.operatorInterest amount }

def addIo (state : ExecutionState) (input : FinalizedTxOut) (output : Pools.TransactionOutput) :
    ExecutionState :=
  { state with scriptIo := state.scriptIo ++ [(input, output)] }

end ExecutionState

/-- What an instruction does to an entity. The outputs it leads to have no references yet. -/
abbrev EffectPreview (T : Type) :=
  ExecutionEff (Bundled T Pools.TransactionOutput) (Bundled T FinalizedTxOut)

/-! ### Takes -/

section Takes

variable {T U : Type} [MarketTaker T U]

def remainingFee (take : TakeInProgress T) : Nat :=
  match take.result with
  | .succ next => fee next
  | .term term => term.remainingFee

def consumedFee (take : TakeInProgress T) : Checked Nat :=
  Checked.unwrap (LiquidityBook.checkedSub (fee take.target) (remainingFee take))

end Takes

end ExecutionEngine

end UtxoMonitor
