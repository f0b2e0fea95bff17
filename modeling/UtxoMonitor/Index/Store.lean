import UtxoMonitor.Lib.Transaction
import UtxoMonitor.Index.Keys

/-! The six tables of the index and the transactions that maintain them. -/
namespace UtxoMonitor

open Lib

/-- The column families; the two credential kinds have an events and an unspent table each. -/
inductive Cf where
  | txo
  | events (kind : CredentialKind)
  | unspent (kind : CredentialKind)
  | unitUnspent
deriving DecidableEq

structure TxoRecord where
  output : TransactionOutput
  settledAt : Option Slot
  spent : Bool
deriving DecidableEq

/-- A stored value: the record it decodes to, or `none` for bytes that decode to no record, such
as the empty value of an index entry. -/
abbrev Stored := Option TxoRecord

abbrev RocksDB := Db Cf UInt8 Stored

abbrev Tx := TxProg Cf UInt8 Stored

def RocksDB.empty : RocksDB := fun _ => ∅

def indexCfs (kind : CredentialKind) : Cf × Cf := (.events kind, .unspent kind)

def writeUnitIndexes (output : TransactionOutput) (oref : OutputRef) : Tx Unit :=
  (outputUnits output).forM fun unit => do
    let pre := unitIndexKeyPrefix unit
    TxProg.deleteCf .unitUnspent (unitIndexSentinelKey pre)
    TxProg.putCf .unitUnspent (unitIndexEntryKey pre oref) none

def deleteUnitIndexes (output : TransactionOutput) (oref : OutputRef) : Tx Unit :=
  (outputUnits output).forM fun unit =>
    TxProg.deleteCf .unitUnspent (unitIndexEntryKey (unitIndexKeyPrefix unit) oref)

def getUtxoByRef (outputRef : OutputRef) : Tx (Option TxoRecord) := do
  let bytes ← TxProg.getCf .txo (utxoKey outputRef)
  return bytes.join

def writeTxo (oref : OutputRef) (txo : TransactionOutput) (settledAt : Option Slot)
    (spent : Bool) : Tx Unit :=
  TxProg.putCf .txo (utxoKey oref) (some ⟨txo, settledAt, spent⟩)

def writeSecondaryIndexes (kind : CredentialKind) (credential : Credential) (oref : OutputRef)
    (slot : Option Slot) (spent : Bool) : Tx Unit := do
  let (eventsCf, unspentCf) := indexCfs kind
  TxProg.putCf eventsCf (credentialToUtxoAllKey credential slot oref) none
  if !spent then
    TxProg.putCf unspentCf (credentialToUtxoUnspentKey credential oref) none

def deleteIndexes (kind : CredentialKind) (credential : Credential) (settledAt : Option Slot)
    (oref : OutputRef) : Tx Unit := do
  let (eventsCf, unspentCf) := indexCfs kind
  TxProg.deleteCf eventsCf (credentialToUtxoAllKey credential settledAt oref)
  TxProg.deleteCf unspentCf (credentialToUtxoUnspentKey credential oref)

/-! Each of the three updates reads the record of its output once; what it does then depends on
the record found and is a definition of its own. -/

def updateUnspentTxoFound (oref : OutputRef) (txo : TransactionOutput) (settledAt : Option Slot)
    (existing : Option TxoRecord) : Tx Unit := do
  let spent ← match existing with
    | some ⟨existingOut, existingSettledAt, existingSpent⟩ => do
      (addressCredentials existingOut.address).forM fun (kind, credential) =>
        deleteIndexes kind credential existingSettledAt oref
      deleteUnitIndexes existingOut oref
      TxProg.deleteCf .txo (utxoKey oref)
      pure existingSpent
    | none => pure false
  (addressCredentials txo.address).forM fun (kind, credential) =>
    writeSecondaryIndexes kind credential oref settledAt spent
  if !spent then
    writeUnitIndexes txo oref
  writeTxo oref txo settledAt spent

def updateUnspentTxo (oref : OutputRef) (txo : TransactionOutput) (settledAt : Option Slot) :
    Tx Unit := do
  let existing ← getUtxoByRef oref
  updateUnspentTxoFound oref txo settledAt existing

def updateTxoByRefFound (oref : OutputRef) (slot : Option Slot) (spent : Bool) :
    Option TxoRecord → Tx Unit
  | some ⟨out, settledAt, _⟩ => do
    (addressCredentials out.address).forM fun (kind, credential) => do
      deleteIndexes kind credential settledAt oref
      let (indexSlot, indexSpent) := if spent then (slot, true) else (settledAt, false)
      writeSecondaryIndexes kind credential oref indexSlot indexSpent
    deleteUnitIndexes out oref
    if !spent then
      writeUnitIndexes out oref
    writeTxo oref out settledAt spent
  | none => pure ()

def updateTxoByRef (oref : OutputRef) (slot : Option Slot) (spent : Bool) : Tx Unit := do
  let existing ← getUtxoByRef oref
  updateTxoByRefFound oref slot spent existing

def deleteTxoAndIndexesFound (oref : OutputRef) : Option TxoRecord → Tx Unit
  | some ⟨out, settledAt, _⟩ => do
    (addressCredentials out.address).forM fun (kind, credential) =>
      deleteIndexes kind credential settledAt oref
    deleteUnitIndexes out oref
    TxProg.deleteCf .txo (utxoKey oref)
  | none => pure ()

def deleteTxoAndIndexes (oref : OutputRef) : Tx Unit := do
  let existing ← getUtxoByRef oref
  deleteTxoAndIndexesFound oref existing

/-- `UtxoIndex::apply`. An output carries its index, a `usize` of 64 bits. -/
def apply (txHash : TransactionHash) (inputs : List OutputRef)
    (outputs : List (UInt64 × TransactionOutput)) (confirmedAt : Option Slot) : Tx Unit := do
  inputs.forM fun oref => updateTxoByRef oref confirmedAt true
  outputs.forM fun (ix, o) => updateUnspentTxo ⟨txHash, ix⟩ o confirmedAt

/-- `UtxoIndex::unapply`. -/
def unapply (txHash : TransactionHash) (inputs : List OutputRef)
    (outputs : List (UInt64 × TransactionOutput)) : Tx Unit := do
  inputs.forM fun oref => updateTxoByRef oref none false
  outputs.forM fun (ix, _) => deleteTxoAndIndexes ⟨txHash, ix⟩

end UtxoMonitor
