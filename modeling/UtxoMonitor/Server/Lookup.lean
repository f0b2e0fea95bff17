import UtxoMonitor.Index.Events
import UtxoMonitor.Index.Paging

/-! The lookup endpoint: from the address or the hash of a request to the outputs it answers with. -/
namespace UtxoMonitor

open Lib

inductive AddressQueryMode where
  | byPaymentCredential
  | byStakingCredential
deriving DecidableEq

structure ApiOutputRef where
  txHash : Bytes
  outputIndex : UInt64

inductive ApiTxoQuery where
  | all (leastSlot : Option Slot)
  | unspent
  | unspentByUnit (unit : Bytes)
  | byOutputRef (oref : ApiOutputRef)

structure GetTxOsLookup where
  address : Option Bytes
  hash : Option Bytes
  mode : AddressQueryMode
  query : ApiTxoQuery

structure GetTxOsRequest where
  lookup : GetTxOsLookup
  offset : Nat
  limit : Nat

def TxoQuery.tryFrom : ApiTxoQuery → Except String TxoQuery
  | .all slot => .ok (.all slot)
  | .unspent => .ok .unspent
  | .unspentByUnit unit => .ok (.unspentByUnit unit)
  | .byOutputRef oref =>
    match RawBytes.fromHex oref.txHash with
    | some txHash => .ok (.byOutputRef ⟨txHash, oref.outputIndex⟩)
    | none => .error "Invalid transaction hash format. Expected hex-encoded hash."

def credentialFromHash (hashStr : Bytes) : Except String Credential :=
  match (RawBytes.fromHex hashStr : Option Ed25519KeyHash) with
  | some hash => .ok (.pubKey hash)
  | none =>
    match (RawBytes.fromHex hashStr : Option ScriptHash) with
    | some hash => .ok (.script hash)
    | none => .error "Invalid key hash format. Expected hex-encoded hash."

/-- What the server uses of the address library. -/
structure AddressLibrary where
  fromBech32 : Bytes → Option Address
  paymentCred : Address → Option Credential

def resolveRequestCredentials (lib : AddressLibrary) (address hash : Option Bytes)
    (mode : AddressQueryMode) (query : ApiTxoQuery) :
    Except String (Option (Credential × CredentialKind)) :=
  match address with
  | some address =>
    match lib.fromBech32 address with
    | none => .error "Invalid address format."
    | some address =>
      match mode with
      | .byPaymentCredential =>
        match lib.paymentCred address with
        | some cred => .ok (some (cred, .payment))
        | none => .error "Address does not contain a payment credential."
      | .byStakingCredential =>
        match address with
        | .base _ stake => .ok (some (stake, .stake))
        | .reward payment => .ok (some (payment, .stake))
        | _ => .error "Address does not provide a staking credential for the requested mode."
  | none =>
    match hash with
    | some hash => do
      let credential ← credentialFromHash hash
      let kind := match mode with
        | .byPaymentCredential => CredentialKind.payment
        | .byStakingCredential => CredentialKind.stake
      return some (credential, kind)
    | none =>
      match query with
      | .unspentByUnit _ | .byOutputRef _ => .ok none
      | _ => .error "Either address or hash field is required unless querying unspentByUnit without a credential or byOutputRef."

/-- The request handler: a rejected request, or what the index answers. -/
def handleGetUtxos (lib : AddressLibrary) (db : RocksDB) (req : GetTxOsRequest) :
    Except String (RocksDB × Option (List Txo)) := do
  let scope ← resolveRequestCredentials lib req.lookup.address req.lookup.hash req.lookup.mode
    req.lookup.query
  let query ← TxoQuery.tryFrom req.lookup.query
  return getUtxos db scope query req.offset req.limit

/-! ### Credentials from hashes -/

def Credential.toHex (c : Credential) : Bytes := hexEncode (credentialTagAndBytes c).2

/-- The hash alone does not say what kind of credential it belongs to: it is read as a key hash. -/
def Credential.asPubKey : Credential → Credential
  | pubKey hash => pubKey hash
  | script hash => pubKey hash

theorem credentialFromHash_toHex (c : Credential) :
    credentialFromHash c.toHex = .ok c.asPubKey := by
  cases c with
  | pubKey hash =>
    have h : RawBytes.fromHex (hexEncode hash.toRawBytes) = some hash := hash.fromHex_toHex
    simp [credentialFromHash, Credential.toHex, credentialTagAndBytes, h, Credential.asPubKey]
  | script hash =>
    have h : RawBytes.fromHex (hexEncode hash.toRawBytes) = some hash := hash.fromHex_toHex
    simp [credentialFromHash, Credential.toHex, credentialTagAndBytes, h, Credential.asPubKey]

theorem credentialFromHash_ne_script (hashStr : Bytes) (hash : ScriptHash) :
    credentialFromHash hashStr ≠ .ok (.script hash) := by
  unfold credentialFromHash
  cases (RawBytes.fromHex hashStr : Option (RawBytes 28)) <;> simp

theorem Credential.asPubKey_eq_iff {c : Credential} :
    c.asPubKey = c ↔ ∃ hash, c = .pubKey hash := by
  cases c <;> simp [asPubKey]

/-! ### The two entry points -/

def AddressQueryMode.kind : AddressQueryMode → CredentialKind
  | byPaymentCredential => .payment
  | byStakingCredential => .stake

/-- The credential of an address that a mode asks for. -/
def AddressLibrary.credential (lib : AddressLibrary) (a : Address) :
    AddressQueryMode → Option Credential
  | .byPaymentCredential => lib.paymentCred a
  | .byStakingCredential =>
    match a with
    | .base _ stake => some stake
    | .reward payment => some payment
    | _ => none

variable {lib : AddressLibrary} {text : Bytes} {a : Address} {mode : AddressQueryMode}
  {c : Credential}

theorem resolve_by_address (ha : lib.fromBech32 text = some a)
    (hc : lib.credential a mode = some c) (hash : Option Bytes) (query : ApiTxoQuery) :
    resolveRequestCredentials lib (some text) hash mode query = .ok (some (c, mode.kind)) := by
  cases mode with
  | byPaymentCredential =>
    have hcred : lib.paymentCred a = some c := hc
    simp [resolveRequestCredentials, ha, hcred, AddressQueryMode.kind]
  | byStakingCredential =>
    cases a <;> simp_all [resolveRequestCredentials, AddressLibrary.credential,
      AddressQueryMode.kind]

theorem resolve_by_hash (lib : AddressLibrary) (c : Credential) (mode : AddressQueryMode)
    (query : ApiTxoQuery) :
    resolveRequestCredentials lib none (some c.toHex) mode query =
      .ok (some (c.asPubKey, mode.kind)) := by
  simp only [resolveRequestCredentials, credentialFromHash_toHex]
  cases mode <;> rfl

def hashRequest (c : Credential) (mode : AddressQueryMode) (query : ApiTxoQuery)
    (offset limit : Nat) : GetTxOsRequest :=
  ⟨⟨none, some c.toHex, mode, query⟩, offset, limit⟩

def addressRequest (text : Bytes) (mode : AddressQueryMode) (query : ApiTxoQuery)
    (offset limit : Nat) : GetTxOsRequest :=
  ⟨⟨some text, none, mode, query⟩, offset, limit⟩

/-- On every reachable database the two requests get the same response. -/
def LookupsAgree (lib : AddressLibrary) (text : Bytes) (c : Credential)
    (mode : AddressQueryMode) : Prop :=
  ∀ calls query offset limit,
    (handleGetUtxos lib (runCalls calls) (hashRequest c mode query offset limit)).map Prod.snd =
      (handleGetUtxos lib (runCalls calls) (addressRequest text mode query offset limit)).map
        Prod.snd

/-- A response is that of the credential the request resolves to. -/
theorem handle_of_resolve {req : GetTxOsRequest} {scope : Option (Credential × CredentialKind)}
    (h : resolveRequestCredentials lib req.lookup.address req.lookup.hash req.lookup.mode
      req.lookup.query = .ok scope) (db : RocksDB) :
    handleGetUtxos lib db req = (TxoQuery.tryFrom req.lookup.query).map fun query =>
      getUtxos db scope query req.offset req.limit := by
  simp only [handleGetUtxos, h]
  rfl

/-! ### What the two requests find -/

/-- A transaction that pays one output to an address. -/
def txPaying (a : Address) : TxViewMut where
  hash := .replicate 1
  inputs := []
  outputs := [(0, .conwayFormatTxOut a ⟨1, []⟩ none none)]

theorem storedTxo_txPaying (a : Address) :
    storedTxo (runCalls [(txPaying a).applyCall none]) ⟨.replicate 1, 0⟩ =
      some ⟨.conwayFormatTxOut a ⟨1, []⟩ none none, none, false⟩ := by
  rw [storedTxo, cellOf_runCalls, cellOf_runUpdates]
  simp [Call.updates, TxViewMut.applyCall, applyUpdates, txPaying, TxViewMut.inputRefs, updatesOf,
    Cell.steps, Update.cell, Update.record, keptSpent, Cell.write, cellOf, RocksDB.empty]

/-- An address that carries a credential of either kind. -/
def Credential.addressOf (c : Credential) : CredentialKind → Address
  | .payment => .enterprise c
  | .stake => .reward c

theorem mem_addressOf {c d : Credential} {k : CredentialKind} :
    (k, d) ∈ addressCredentials (c.addressOf k) ↔ d = c := by
  cases k <;> simp [Credential.addressOf, addressCredentials]

/-- The unspent outputs of two credentials are told apart by what is paid to one of them. -/
theorem eq_of_returns_iff {c d : Credential} {k : CredentialKind}
    (h : ∀ txo, Returns (runCalls [(txPaying (c.addressOf k)).applyCall none]) (some (c, k))
      .unspent txo → Returns (runCalls [(txPaying (c.addressOf k)).applyCall none]) (some (d, k))
      .unspent txo) : d = c := by
  have hdb := consistent_runCalls [(txPaying (c.addressOf k)).applyCall none]
  have hstored := storedTxo_txPaying (c.addressOf k)
  have hc := hdb.returns_unspent_iff.mpr ⟨_, _, hstored, ⟨rfl, mem_addressOf.mpr rfl⟩, rfl⟩
  obtain ⟨o, r, hr, ⟨-, hd⟩, heq⟩ := hdb.returns_unspent_iff.mp (h _ hc)
  obtain rfl : _ = o := congrArg Txo.oref heq
  obtain rfl := Option.some.inj (hstored.symm.trans hr)
  exact mem_addressOf.mp hd

/-- Requests by address and by hash agree on an address precisely when its credential is a key. -/
theorem lookups_agree_iff (lib : AddressLibrary) (text : Bytes) (a : Address)
    (mode : AddressQueryMode) (c : Credential) (ha : lib.fromBech32 text = some a)
    (hc : lib.credential a mode = some c) :
    LookupsAgree lib text c mode ↔ ∃ hash, c = .pubKey hash := by
  have hhash : ∀ db query offset limit,
      handleGetUtxos lib db (hashRequest c mode query offset limit) =
        (TxoQuery.tryFrom query).map fun query =>
          getUtxos db (some (c.asPubKey, mode.kind)) query offset limit :=
    fun db query _ _ => handle_of_resolve (resolve_by_hash lib c mode query) db
  have haddress : ∀ db query offset limit,
      handleGetUtxos lib db (addressRequest text mode query offset limit) =
        (TxoQuery.tryFrom query).map fun query =>
          getUtxos db (some (c, mode.kind)) query offset limit :=
    fun db query _ _ => handle_of_resolve (resolve_by_address ha hc none query) db
  rw [← Credential.asPubKey_eq_iff]
  constructor
  · intro hagree
    apply eq_of_returns_iff (k := mode.kind)
    rintro txo ⟨limit, txos, ht, hm⟩
    have h := hagree [(txPaying (c.addressOf mode.kind)).applyCall none] .unspent 0 limit
    rw [hhash, haddress] at h
    simp only [TxoQuery.tryFrom, Except.map, Except.ok.injEq] at h
    exact ⟨limit, txos, h.trans ht, hm⟩
  · intro heq calls query offset limit
    rw [hhash, haddress, heq]

/-- The text of an enterprise address with the script hash `7, 7, …`. -/
def sampleAddress : Bytes := "addr1wyrswpc8qurswpc8qurswpc8qurswpc8qurswpc8qurswpcqwuenc".toUTF8.toList

def sampleLibrary : AddressLibrary where
  fromBech32 text :=
    if text = sampleAddress then some (.enterprise (.script (.replicate 7))) else none
  paymentCred
    | .base payment _ | .enterprise payment | .ptr payment | .reward payment => some payment
    | .byron => none

theorem lookups_agree_sample :
    LookupsAgree sampleLibrary sampleAddress (.script (.replicate 7)) .byPaymentCredential ↔
      ∃ hash, Credential.script (.replicate 7) = .pubKey hash :=
  lookups_agree_iff sampleLibrary sampleAddress (.enterprise (.script (.replicate 7))) .byPaymentCredential _
    (by decide +kernel) rfl

/-- An output locked by a script is found by its address and not by its script hash. -/
theorem script_hash_finds_nothing :
    (handleGetUtxos sampleLibrary
        (runCalls [(txPaying (.enterprise (.script (.replicate 7)))).applyCall none])
        (hashRequest (.script (.replicate 7)) .byPaymentCredential .unspent 0 10)).toOption.map
      (fun res => res.2.map fun txos => txos.map Txo.oref) = some (some []) ∧
    (handleGetUtxos sampleLibrary
        (runCalls [(txPaying (.enterprise (.script (.replicate 7)))).applyCall none])
        (addressRequest sampleAddress .byPaymentCredential .unspent 0 10)).toOption.map
      (fun res => res.2.map fun txos => txos.map Txo.oref) = some (some [⟨.replicate 1, 0⟩]) := by
  decide +kernel

end UtxoMonitor
