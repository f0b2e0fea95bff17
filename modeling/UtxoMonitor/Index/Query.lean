import UtxoMonitor.Lib.Page
import UtxoMonitor.Index.Update

/-! The queries of the index, with the backfill of the unit table that one of them starts. -/
namespace UtxoMonitor

open Lib

structure Txo where
  oref : OutputRef
  output : TransactionOutput
  settledAt : Option Slot
  spent : Bool
deriving DecidableEq

inductive TxoQuery where
  | all (leastSlot : Option Slot)
  | unspent
  | unspentByUnit (unit : Bytes)
  | byOutputRef (oref : OutputRef)
deriving DecidableEq

def getRangeIterator (table : Table UInt8 Stored) (pre : Bytes) (lowerBound : Option Bytes) :
    List (Bytes × Stored) :=
  table.range pre (lowerBound.getD [])

/-- The test of both unit scans for the marker of the scanned unit. -/
def isSentinelRow (pre key : Bytes) : Bool :=
  key.length == pre.length + 1 && key[pre.length]? == some unitIndexSentinel

/-- The rows the backfill of a unit finds in the txo table: unspent records that contain it. -/
def backfillRows (db : RocksDB) (unitPrefix : Bytes) : List (Bytes × Stored) :=
  (db .txo).toList.filter fun row =>
    row.2.any fun r => !r.spent && outputContainsUnit r.output unitPrefix

def backfill (unitPrefix : Bytes) (found : List (Bytes × Stored)) : Tx Unit := do
  let pre := unitIndexKeyPrefix unitPrefix
  let sentinel := unitIndexSentinelKey pre
  found.forM fun (key, _) => TxProg.putCf .unitUnspent (pre ++ key) none
  if !found.isEmpty then
    TxProg.deleteCf .unitUnspent sentinel
  else
    TxProg.putCf .unitUnspent sentinel none

/-- The scan of the unit table returns at its first entry; the backfill runs only without one. -/
def ensureUnitIndex (db : RocksDB) (unitPrefix : Bytes) : RocksDB :=
  let pre := unitIndexKeyPrefix unitPrefix
  if (getRangeIterator (db .unitUnspent) pre none).any fun row => !isSentinelRow pre row.1 then db
  else (backfill unitPrefix (backfillRows db unitPrefix)).run db

/-- The record under a raw key of the txo table. -/
def readTxo (db : RocksDB) (key : Bytes) : Option TxoRecord := (db .txo)[key]?.join

def Txo.ofRecord (oref : OutputRef) (r : TxoRecord) : Txo := ⟨oref, r.output, r.settledAt, r.spent⟩

/-- One row of the scan of a credential's index; `none` where the code panics. -/
def selectScoped (db : RocksDB) (numKeyBytesToDrop : Nat) (unitFilter : Option Bytes)
    (index : Bytes) : Option (Option Txo) :=
  if index.length < numKeyBytesToDrop then none
  else
    let key := index.drop numKeyBytesToDrop
    match readTxo db key with
    | none => some none
    | some r => do
      let oref ← readUtxoKey key
      if unitFilter.all fun unit => outputContainsUnit r.output unit then
        return some (.ofRecord oref r)
      else
        return none

/-- One row of the scan of the unit index. Its key is decoded only when the row is returned. -/
def selectByUnit (db : RocksDB) (unitPrefix key : Bytes) : Option (Option (Bytes × TxoRecord)) :=
  if isSentinelRow unitPrefix key then some none
  else
    let key := key.drop unitPrefix.length
    match readTxo db key with
    | none => some none
    | some r => if r.spent then some none else some (some (key, r))

def finishByUnit (row : Bytes × TxoRecord) : Option Txo :=
  (readUtxoKey row.1).map fun oref => .ofRecord oref row.2

/-- The rows a scoped query scans and the number of key bytes in front of the output key. -/
def scopedRows (db : RocksDB) (credential : Credential) (kind : CredentialKind)
    (query : TxoQuery) : Nat × List Bytes × Option Bytes :=
  let (eventsCf, unspentCf) := indexCfs kind
  let pre := credentialKeyPrefix credential
  let scan (cf : Cf) (lowerBound : Option Bytes) :=
    (getRangeIterator (db cf) pre lowerBound).map Prod.fst
  match query with
  | .all leastSlot => (pre.length + 8, scan eventsCf (some (settledAtKey leastSlot)), none)
  | .unspent => (pre.length, scan unspentCf none, none)
  | .unspentByUnit unit => (pre.length, scan unspentCf none, some unit)
  | .byOutputRef _ => (pre.length, [], none)

def lookupOutputRef (db : RocksDB) (oref : OutputRef) : Option Txo :=
  (readTxo db (utxoKey oref)).map (.ofRecord oref)

/-- What a query answers on a fixed snapshot; `none` stands for a panic of the blocking task. -/
def queryUtxos (db : RocksDB) (scope : Option (Credential × CredentialKind)) (query : TxoQuery)
    (offset limit : Nat) : Option (List Txo) :=
  match scope, query with
  | none, .byOutputRef oref =>
    if offset > 0 then some [] else some (lookupOutputRef db oref).toList
  | some (credential, kind), .byOutputRef oref =>
    if offset > 0 then some []
    else
      some ((lookupOutputRef db oref).filter fun txo =>
        (addressCredentials txo.output.address).any (· == (kind, credential))).toList
  | some (credential, kind), query =>
    let (numKeyBytesToDrop, rows, unitFilter) := scopedRows db credential kind query
    page (selectScoped db numKeyBytesToDrop unitFilter) some offset limit rows 0 []
  | none, .unspentByUnit unit =>
    let unitPrefix := toAsciiLowercase unit
    let rows := (getRangeIterator (db .unitUnspent) (unitIndexKeyPrefix unitPrefix) none).map
      Prod.fst
    page (selectByUnit db unitPrefix) finishByUnit offset limit rows 0 []
  | none, _ => some []

/-- The write a query may cause before its snapshot is taken. -/
def prepareQuery (db : RocksDB) (scope : Option (Credential × CredentialKind)) (query : TxoQuery)
    (limit : Nat) : RocksDB :=
  if limit = 0 then db
  else
    match scope, query with
    | none, .unspentByUnit unit => ensureUnitIndex db (toAsciiLowercase unit)
    | _, _ => db

/-- `UtxoResolver::get_utxos`: the answer, with the database the call leaves behind. -/
def getUtxos (db : RocksDB) (scope : Option (Credential × CredentialKind)) (query : TxoQuery)
    (offset limit : Nat) : RocksDB × Option (List Txo) :=
  if limit = 0 then (db, some [])
  else
    let db := prepareQuery db scope query limit
    (db, queryUtxos db scope query offset limit)

end UtxoMonitor
