import UtxoMonitor.ExecutionEngine.ExecutionState
import UtxoMonitor.Lib.Sorting

/-! The transaction that a blueprint is turned into, with its inputs in the order of the ledger. -/
namespace UtxoMonitor

open Lib LiquidityBook

instance : Ord OutputRef := ⟨compareLex (compareOn OutputRef.txHash) (compareOn OutputRef.index)⟩

instance : Std.TransOrd OutputRef := inferInstanceAs (Std.TransCmp (compareLex _ _))

instance : Std.LawfulEqOrd OutputRef where
  eq_of_compare {a b} h := by
    obtain ⟨hhash, hindex⟩ := Ordering.then_eq_eq.mp h
    cases a
    cases b
    exact congrArg₂ OutputRef.mk (Std.LawfulEqOrd.eq_of_compare hhash)
      (Std.LawfulEqOrd.eq_of_compare hindex)

namespace ExecutionEngine

open EventSink (FinalizedTxOut)

/-! ### Scripts -/

structure ScriptContextPreview where
  selfIndex : Nat

inductive DelayedScriptCost where
  | ready (cost : ExUnits)
  | delayed (closure : ScriptContextPreview → ExUnits)

def DelayedScriptCost.compute (ctx : ScriptContextPreview) : DelayedScriptCost → ExUnits
  | ready cost => cost
  | delayed closure => closure ctx

structure TxInputsOrdering where
  indices : AList fun _ : OutputRef => Nat

namespace TxInputsOrdering

/-- The last entry of a reference counts. -/
def new (ordering : List (OutputRef × Nat)) : TxInputsOrdering :=
  ⟨ordering.foldl (fun indices entry => indices.insert entry.1 entry.2) ∅⟩

def indexOf (self : TxInputsOrdering) (input : OutputRef) : Option Nat := self.indices.lookup input

end TxInputsOrdering

inductive DelayedRedeemer where
  | ready (pd : PlutusData)
  | delayed (closure : TxInputsOrdering → PlutusData)

def DelayedRedeemer.compute (inputsOrdering : TxInputsOrdering) : DelayedRedeemer → PlutusData
  | ready pd => pd
  | delayed closure => closure inputsOrdering

structure ScriptWitness where
  hash : ScriptHash
  cost : DelayedScriptCost

structure ScriptInputBlueprint where
  reference : OutputRef
  utxo : Pools.TransactionOutput
  script : ScriptWitness
  redeemer : DelayedRedeemer
  requiredSigners : List Ed25519KeyHash

structure DeployedValidatorErased where
  referenceUtxo : FinalizedTxOut
  hash : ScriptHash
  exBudget : ExUnits
  marginalCost : ExUnits

def scale (units : ExUnits) (scalingFactor : Nat) : ExUnits :=
  ⟨units.mem * scalingFactor, units.steps * scalingFactor⟩

/-! ### The builder -/

inductive InputWitness where
  | paymentKey
  | plutusScript (hash : ScriptHash) (redeemer : PlutusData) (requiredSigners : List Ed25519KeyHash)

structure BuilderInput where
  reference : OutputRef
  utxo : Pools.TransactionOutput
  witness : InputWitness

inductive RedeemerTag where
  | spend
  | reward
deriving DecidableEq

structure RedeemerWitnessKey where
  tag : RedeemerTag
  index : Nat
deriving DecidableEq

/-- What a transaction is built of, in the order in which it is added. -/
structure TransactionBuilder where
  inputs : List BuilderInput
  outputs : List Pools.TransactionOutput
  referenceInputs : List FinalizedTxOut
  withdrawals : List (ScriptHash × PlutusData)
  exunits : AList fun _ : RedeemerWitnessKey => ExUnits

namespace TransactionBuilder

def new : TransactionBuilder := ⟨[], [], [], [], ∅⟩

def addInput (txb : TransactionBuilder) (input : BuilderInput) : TransactionBuilder :=
  { txb with inputs := txb.inputs ++ [input] }

def addOutput (txb : TransactionBuilder) (output : Pools.TransactionOutput) : TransactionBuilder :=
  { txb with outputs := txb.outputs ++ [output] }

def addReferenceInput (txb : TransactionBuilder) (utxo : FinalizedTxOut) : TransactionBuilder :=
  { txb with referenceInputs := txb.referenceInputs ++ [utxo] }

def addWithdrawal (txb : TransactionBuilder) (hash : ScriptHash) (redeemer : PlutusData) :
    TransactionBuilder :=
  { txb with withdrawals := txb.withdrawals ++ [(hash, redeemer)] }

def setExunits (txb : TransactionBuilder) (key : RedeemerWitnessKey) (units : ExUnits) :
    TransactionBuilder :=
  { txb with exunits := txb.exunits.insert key units }

end TransactionBuilder

/-! ### The blueprint -/

/-- Blueprint of a DEX transaction. Accumulates information that is later used to create real
transaction that executes a batch of DEX operations. -/
structure TxBlueprint where
  scriptIo : List (ScriptInputBlueprint × Pools.TransactionOutput)
  /-- In the order in which the set is walked. -/
  referenceInputs : List FinalizedTxOut
  /-- With their redeemers and scaling factors, in the order in which the map is walked. -/
  witnessScripts : List (DeployedValidatorErased × PlutusData × Nat)

/-- A script input with its output, or the output of the funding with its input. -/
abbrev TxIo :=
  (ScriptInputBlueprint × Pools.TransactionOutput) ⊕ (Option FinalizedTxOut × Pools.TransactionOutput)

namespace TxIo

def reference : TxIo → Option OutputRef
  | .inl (input, _) => some input.reference
  | .inr (funding, _) => funding.map FinalizedTxOut.reference

def output : TxIo → Pools.TransactionOutput
  | .inl (_, output) => output
  | .inr (_, output) => output

def cmp : TxIo → TxIo → Ordering
  | .inl (lh, _), .inl (rh, _) => compare lh.reference rh.reference
  | .inl (lh, _), .inr (some rh, _) => compare lh.reference rh.reference
  | .inr (some lh, _), .inl (rh, _) => compare lh.reference rh.reference
  | _, .inr (none, _) => .lt
  | _, _ => .gt

end TxIo

def minSafeLovelaceValue : UInt64 := 1000000

/-- What the operator's interest is paid with: an entry of the transaction, if any, and what becomes
of the funding box. -/
def fundingEntry (operatorAddress : Address) (operatorFunding : FinalizedTxOut)
    (operatorInterest : UInt64) :
    Checked (Option (Option FinalizedTxOut × Pools.TransactionOutput) ×
      FundingIO FinalizedTxOut Pools.TransactionOutput) :=
  if operatorInterest > 0 then
    if operatorInterest ≥ minSafeLovelaceValue then
      let operatorOutput : Pools.TransactionOutput :=
        ⟨operatorAddress, .ofTokens operatorInterest [], none⟩
      -- The reward can be used as funding if it is sent to the funding address.
      if operatorAddress = operatorFunding.out.address then
        .ok (some (none, operatorOutput), .added operatorFunding operatorOutput)
      else .ok (some (none, operatorOutput), .notUsed operatorFunding)
    else
      -- The funding box is replaced by one with the interest.
      let value := operatorFunding.out.value
      if h : value.coin + operatorInterest.toNat < 2 ^ 64 then
        let operatorOutput : Pools.TransactionOutput :=
          ⟨operatorFunding.out.address, value.withAmount .native _ h, none⟩
        .ok (some (some operatorFunding, operatorOutput), .replaced operatorFunding operatorOutput)
      else .error .overflow
  else .ok (none, .notUsed operatorFunding)

namespace TxBlueprint

def new : TxBlueprint := ⟨[], [], []⟩

def addIo (self : TxBlueprint) (input : ScriptInputBlueprint) (output : Pools.TransactionOutput) :
    TxBlueprint :=
  { self with scriptIo := self.scriptIo ++ [(input, output)] }

def sortIo (io : List TxIo) : List TxIo := io.mergeSort fun lh rh => TxIo.cmp lh rh ≠ .gt

def inputsOrdering (io : List TxIo) : TxInputsOrdering :=
  .new (io.zipIdx.filterMap fun (io, ix) => io.reference.map (·, ix))

def addTo (ordering : TxInputsOrdering) (txb : TransactionBuilder) :
    TxIo × Nat → TransactionBuilder
  | (.inl (input, output), ix) =>
    let witness := .plutusScript input.script.hash (input.redeemer.compute ordering)
      input.requiredSigners
    ((txb.addInput ⟨input.reference, input.utxo, witness⟩).addOutput output).setExunits ⟨.spend, ix⟩
      (input.script.cost.compute ⟨ix⟩)
  | (.inr (some funding, output), _) =>
    (txb.addInput ⟨funding.reference, funding.out, .paymentKey⟩).addOutput output
  | (.inr (none, output), _) => txb.addOutput output

/-- Project common witness scripts. -/
def addWitnessScript (txb : TransactionBuilder) :
    DeployedValidatorErased × PlutusData × Nat → TransactionBuilder
  | (wit, redeemer, scalingFactor) =>
    ((txb.addReferenceInput wit.referenceUtxo).addWithdrawal wit.hash redeemer).setExunits
      ⟨.reward, 0⟩ (wit.exBudget + scale wit.marginalCost scalingFactor)

/-- The entries of the transaction, in the order in which they are added. -/
def entries (self : TxBlueprint) (entry : Option (Option FinalizedTxOut × Pools.TransactionOutput)) :
    List TxIo :=
  sortIo (self.scriptIo.map .inl ++ (entry.map .inr).toList)

def build (self : TxBlueprint) (txb : TransactionBuilder) (io : List TxIo) : TransactionBuilder :=
  let txb := self.referenceInputs.foldl TransactionBuilder.addReferenceInput txb
  let txb := io.zipIdx.foldl (addTo (inputsOrdering io)) txb
  self.witnessScripts.foldl addWitnessScript txb

def projectOntoBuilder (self : TxBlueprint) (txb : TransactionBuilder) (operatorAddress : Address)
    (operatorFunding : FinalizedTxOut) (operatorInterest : UInt64) :
    Checked (TransactionBuilder × FundingIO FinalizedTxOut Pools.TransactionOutput) := do
  let (entry, fundingIo) ← fundingEntry operatorAddress operatorFunding operatorInterest
  return (self.build txb (self.entries entry), fundingIo)

end TxBlueprint

end ExecutionEngine

end UtxoMonitor
