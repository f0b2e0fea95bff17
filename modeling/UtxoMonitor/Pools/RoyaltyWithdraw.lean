import UtxoMonitor.Pools.Dao

/-! Withdrawals of royalties: the request, what its owner signs, and what is paid. -/
namespace UtxoMonitor.Pools

open Lib LiquidityBook

/-! ### Requests -/

structure RoyaltyWithdrawRequestConfig where
  poolNft : PoolId
  withdrawRoyaltyX : Nat
  withdrawRoyaltyY : Nat
  royaltyPubKeyHash : Ed25519KeyHash
  fee : Nat
  signature : Bytes
  additionalBytes : Bytes

def RoyaltyWithdrawRequestConfig.tryFromPd (data : PlutusData) :
    Option RoyaltyWithdrawRequestConfig := do
  let (_, fields) ← data.intoConstrPd
  let (_, royaltyData) ← (takeField fields 0).bind PlutusData.intoConstrPd
  return {
    poolNft := ← (assetAt royaltyData 0).bind AssetClass.intoToken
    withdrawRoyaltyX := ← u64At royaltyData 1
    withdrawRoyaltyY := ← u64At royaltyData 2
    royaltyPubKeyHash := ← (bytesAt royaltyData 3).bind RawBytes.fromRawBytes
    fee := ← u64At royaltyData 4
    signature := ← bytesAt fields 1
    additionalBytes := ← bytesAt fields 2 }

structure RoyaltyWithdraw where
  poolNft : PoolId
  withdrawRoyaltyX : Nat
  withdrawRoyaltyY : Nat
  royaltyPubKeyHash : Ed25519KeyHash
  fee : Nat
  signature : Ed25519Signature
  initAdaValue : Nat
  additionalBytes : Bytes
  orderType : OrderType

abbrev OnChainRoyaltyWithdraw := ClassicalOrder RoyaltyWithdraw

structure RoyaltyWithdrawRequestContext where
  outputRef : OutputRef
  deployed : ProtocolValidator → DeployedScriptInfo
  minAdaInRoyaltyOutput : Nat

/-- The request that an output at one of the two scripts reads as. -/
def RoyaltyWithdraw.read (repr : TransactionOutput) (ctx : RoyaltyWithdrawRequestContext) :
    Option RoyaltyWithdraw :=
  let isV1 := testAddress repr.address (ctx.deployed .royaltyPoolV1RoyaltyWithdrawRequest)
  let isV2 := testAddress repr.address (ctx.deployed .royaltyPoolV2RoyaltyWithdrawRequest)
  if isV1 ∨ isV2 then do
    let conf ← repr.intoPd.bind RoyaltyWithdrawRequestConfig.tryFromPd
    let signature ← RawBytes.fromRawBytes conf.signature
    return {
      poolNft := conf.poolNft
      withdrawRoyaltyX := conf.withdrawRoyaltyX
      withdrawRoyaltyY := conf.withdrawRoyaltyY
      royaltyPubKeyHash := conf.royaltyPubKeyHash
      fee := conf.fee
      signature := signature
      initAdaValue := repr.value.coin
      additionalBytes := conf.additionalBytes
      orderType := if isV1 then .royaltyConstFnV1 else .royaltyConstFnV2 }
  else none

def OnChainRoyaltyWithdraw.tryFromLedger (repr : TransactionOutput)
    (ctx : RoyaltyWithdrawRequestContext) : Checked (Option OnChainRoyaltyWithdraw) :=
  match RoyaltyWithdraw.read repr ctx with
  | some order => do
    let left ← Checked.sub order.initAdaValue order.fee
    if ctx.minAdaInRoyaltyOutput ≤ left then
      return some ⟨ctx.outputRef, order.poolNft, order⟩
    else return none
  | none => return none

section

variable {out : TransactionOutput} {ctx : RoyaltyWithdrawRequestContext} {order : RoyaltyWithdraw}
  {request : OnChainRoyaltyWithdraw}

theorem RoyaltyWithdraw.initAdaValue_of_read (h : RoyaltyWithdraw.read out ctx = some order) :
    order.initAdaValue = out.value.coin := by
  simp only [read] at h
  split at h
  · obtain ⟨_, -, h⟩ := Option.bind_eq_some_iff.mp h
    obtain ⟨_, -, h⟩ := Option.bind_eq_some_iff.mp h
    cases h
    rfl
  · cases h

/-- The parser stops at a request whose fee is more than its ADA, and only there. -/
theorem OnChainRoyaltyWithdraw.isOk_iff :
    (∃ outcome, OnChainRoyaltyWithdraw.tryFromLedger out ctx = .ok outcome) ↔
      ∀ order, RoyaltyWithdraw.read out ctx = some order → order.fee ≤ order.initAdaValue := by
  unfold OnChainRoyaltyWithdraw.tryFromLedger
  cases RoyaltyWithdraw.read out ctx with
  | none => exact ⟨fun _ _ h => (by cases h), fun _ => ⟨none, rfl⟩⟩
  | some order =>
    constructor
    · intro ⟨outcome, h⟩ order' horder
      cases horder
      obtain ⟨_, hsub, -⟩ := Checked.bind_eq_ok.mp h
      exact (Checked.sub_eq_ok.mp hsub).1
    · intro h
      have hsub := Checked.sub_eq_ok.mpr ⟨h order rfl, rfl⟩
      by_cases hmin : ctx.minAdaInRoyaltyOutput ≤ order.initAdaValue - order.fee
      · exact ⟨_, Checked.bind_eq_ok.mpr ⟨_, hsub, if_pos hmin⟩⟩
      · exact ⟨_, Checked.bind_eq_ok.mpr ⟨_, hsub, if_neg hmin⟩⟩

/-- An accepted request can pay for its fee and for the output. -/
theorem OnChainRoyaltyWithdraw.accepted
    (h : OnChainRoyaltyWithdraw.tryFromLedger out ctx = .ok (some request)) :
    request.order.fee + ctx.minAdaInRoyaltyOutput ≤ out.value.coin := by
  unfold tryFromLedger at h
  split at h
  · rename_i order hread
    rw [← RoyaltyWithdraw.initAdaValue_of_read hread]
    simp only [Checked.bind_eq_ok, Checked.sub_eq_ok] at h
    obtain ⟨_, ⟨hfee, rfl⟩, h⟩ := h
    split at h
    · rename_i hmin
      cases Checked.pure_eq_ok.mp h
      exact Nat.add_le_of_le_sub' hfee hmin
    · cases Checked.pure_eq_ok.mp h
  · cases Checked.pure_eq_ok.mp h

end

/-! ### What is signed -/

structure WithdrawData where
  poolNft : Token
  withdrawRoyaltyX : Nat
  withdrawRoyaltyY : Nat
  royaltyPubKeyHash : Ed25519KeyHash
  exFee : Nat

def WithdrawData.intoPd (data : WithdrawData) : PlutusData :=
  .constr 0 [
    data.poolNft.intoPd,
    .integer data.withdrawRoyaltyX,
    .integer data.withdrawRoyaltyY,
    .bytes data.royaltyPubKeyHash.toRawBytes,
    .integer data.exFee]

structure DataToSign where
  withdrawData : WithdrawData
  poolNonce : Nat

def DataToSign.intoPd (data : DataToSign) : PlutusData :=
  .constr 0 [data.withdrawData.intoPd, .integer data.poolNonce]

theorem DataToSign.nonce_of_intoPd {data data' : DataToSign} (h : data.intoPd = data'.intoPd) :
    data.poolNonce = data'.poolNonce := by
  simp only [intoPd, PlutusData.constr.injEq, PlutusData.integer.injEq, List.cons.injEq,
    Nat.cast_inj, and_true, true_and] at h
  exact h.2

def RoyaltyWithdraw.withdrawData (order : RoyaltyWithdraw) : WithdrawData :=
  ⟨order.poolNft, order.withdrawRoyaltyX, order.withdrawRoyaltyY, order.royaltyPubKeyHash,
    order.fee⟩

/-! ### Running a request -/

structure RoyaltyWithdrawOutput where
  tokenXAsset : AssetClass
  tokenXAmount : Nat
  tokenYAsset : AssetClass
  tokenYAmount : Nat
  adaResidue : Nat
  redeemerPkh : Ed25519KeyHash
deriving DecidableEq

/-- The owners of royalties. -/
inductive RoyaltyKey where
  | first
  | second
deriving DecidableEq

/-- Which key signed, and whether it signed the digest, as the redeemer says. -/
structure RoyaltyWithdrawResult where
  output : RoyaltyWithdrawOutput
  publicKey : RoyaltyKey
  hashed : Bool
  strictFee : Nat
deriving DecidableEq

namespace RoyaltyPool

def royaltyPubKey (p : RoyaltyPool) : RoyaltyKey → Ed25519PublicKey
  | .first => p.firstRoyaltyPubKey
  | .second => p.secondRoyaltyPubKey

/-- The keys that are tried, in their order. -/
def royaltyKeys : RoyaltyPoolVer → List RoyaltyKey
  | .v1 | .v1LedgerFixed => [.first]
  | .v2 => [.first, .second]

def incorrectSignature : RoyaltyPoolVer → String
  | .v1 | .v1LedgerFixed => "signature_is_incorrect"
  | .v2 => "signature is incorrect for both keys"

def royaltyDataToSign (p : RoyaltyPool) (order : RoyaltyWithdraw) : DataToSign :=
  ⟨order.withdrawData, p.nonce⟩

/-- Pays royalties out of the reserves. -/
def debitRoyalty (p : RoyaltyPool) (key : RoyaltyKey) (x y : Nat) : Option RoyaltyPool := do
  let reservesX ← checkedSub p.reservesX x
  let reservesY ← checkedSub p.reservesY y
  match key with
  | .first =>
    return { p with
      reservesX := reservesX
      reservesY := reservesY
      firstRoyaltyX := ← checkedSub p.firstRoyaltyX x
      firstRoyaltyY := ← checkedSub p.firstRoyaltyY y }
  | .second =>
    return { p with
      reservesX := reservesX
      reservesY := reservesY
      secondRoyaltyX := ← checkedSub p.secondRoyaltyX x
      secondRoyaltyY := ← checkedSub p.secondRoyaltyY y }

section

variable [Serialization]

/-- The end of a message: the encoding of the data, or the digest of the encoding. -/
def signedTail (p : RoyaltyPool) (order : RoyaltyWithdraw) (hashed : Bool) : Bytes :=
  let encoding := Serialization.toCborBytes (p.royaltyDataToSign order).intoPd
  if hashed then (Serialization.blake2b224 encoding).toRawBytes else encoding

def messageToSign (p : RoyaltyPool) (order : RoyaltyWithdraw) (hashed : Bool) : Bytes :=
  order.additionalBytes ++ p.signedTail order hashed

/-- The first key that verifies the signature, on the message as it is or with the digest. -/
def royaltySigner (verify : Ed25519PublicKey → Bytes → Ed25519Signature → Bool) (p : RoyaltyPool)
    (order : RoyaltyWithdraw) : Option (RoyaltyKey × Bool) :=
  ((royaltyKeys p.ver).flatMap fun key => [(key, false), (key, true)]).find? fun signer =>
    verify (p.royaltyPubKey signer.1) (p.messageToSign order signer.2) order.signature

def applyRoyaltyWithdraw (verify : Ed25519PublicKey → Bytes → Ed25519Signature → Bool)
    (p : RoyaltyPool) (request : OnChainRoyaltyWithdraw) (transactionFee : Nat) :
    Checked (Applied OnChainRoyaltyWithdraw (RoyaltyPool × RoyaltyWithdrawResult)) :=
  match p.royaltySigner verify request.order with
  | none => return .error (.verificationFailed request (incorrectSignature p.ver))
  | some (key, hashed) =>
    match p.debitRoyalty key request.order.withdrawRoyaltyX request.order.withdrawRoyaltyY with
    | none => return .error (.incompatible request)
    | some next => do
      let nonce ← Checked.add 64 next.nonce 1
      let adaResidue ← Checked.sub request.order.initAdaValue request.order.fee
      return .ok ({ next with nonce := nonce }, {
        output := {
          tokenXAsset := next.assetX
          tokenXAmount := request.order.withdrawRoyaltyX
          tokenYAsset := next.assetY
          tokenYAmount := request.order.withdrawRoyaltyY
          adaResidue := adaResidue
          redeemerPkh := request.order.royaltyPubKeyHash }
        publicKey := key
        hashed := hashed
        strictFee := transactionFee })

end

/-! ### What a withdrawal does -/

/-- The pool after a withdrawal of one of the owners. -/
structure Withdrawn (p : RoyaltyPool) (key : RoyaltyKey) (x y : Nat) (p' : RoyaltyPool) : Prop where
  reservesX : x ≤ p.reservesX
  reservesY : y ≤ p.reservesY
  pool : match key with
    | .first => x ≤ p.firstRoyaltyX ∧ y ≤ p.firstRoyaltyY ∧ p' = { p with
        reservesX := p.reservesX - x
        reservesY := p.reservesY - y
        firstRoyaltyX := p.firstRoyaltyX - x
        firstRoyaltyY := p.firstRoyaltyY - y
        nonce := p.nonce + 1 }
    | .second => p.ver = .v2 ∧ x ≤ p.secondRoyaltyX ∧ y ≤ p.secondRoyaltyY ∧ p' = { p with
        reservesX := p.reservesX - x
        reservesY := p.reservesY - y
        secondRoyaltyX := p.secondRoyaltyX - x
        secondRoyaltyY := p.secondRoyaltyY - y
        nonce := p.nonce + 1 }

variable {p p' next : RoyaltyPool} {order : RoyaltyWithdraw} {request : OnChainRoyaltyWithdraw}
  {key : RoyaltyKey} {hashed : Bool} {x y transactionFee : Nat} {result : RoyaltyWithdrawResult}
  {verify : Ed25519PublicKey → Bytes → Ed25519Signature → Bool}

theorem withdrawn_of_debitRoyalty (h : p.debitRoyalty key x y = some next)
    (hkey : key = .second → p.ver = .v2) :
    p.Withdrawn key x y { next with nonce := p.nonce + 1 } := by
  simp only [debitRoyalty, Option.bind_eq_bind, Option.bind_eq_some_iff, checkedSub_eq_some] at h
  obtain ⟨_, ⟨hx, rfl⟩, _, ⟨hy, rfl⟩, h⟩ := h
  refine ⟨hx, hy, ?_⟩
  cases key with
  | first =>
    simp only [Option.bind_eq_some_iff, checkedSub_eq_some, Option.pure_def,
      Option.some.injEq] at h
    obtain ⟨_, ⟨hrx, rfl⟩, _, ⟨hry, rfl⟩, rfl⟩ := h
    exact ⟨hrx, hry, rfl⟩
  | second =>
    simp only [Option.bind_eq_some_iff, checkedSub_eq_some, Option.pure_def,
      Option.some.injEq] at h
    obtain ⟨_, ⟨hrx, rfl⟩, _, ⟨hry, rfl⟩, rfl⟩ := h
    exact ⟨hkey rfl, hrx, hry, rfl⟩

/-- A debit leaves what the request is checked against. -/
theorem debitRoyalty_same (h : p.debitRoyalty key x y = some next) :
    next.nonce = p.nonce ∧ next.assetX = p.assetX ∧ next.assetY = p.assetY := by
  simp only [debitRoyalty, Option.bind_eq_bind, Option.bind_eq_some_iff] at h
  obtain ⟨_, -, _, -, h⟩ := h
  cases key with
  | first =>
    simp only [Option.bind_eq_some_iff, Option.pure_def, Option.some.injEq] at h
    obtain ⟨_, -, _, -, rfl⟩ := h
    exact ⟨rfl, rfl, rfl⟩
  | second =>
    simp only [Option.bind_eq_some_iff, Option.pure_def, Option.some.injEq] at h
    obtain ⟨_, -, _, -, rfl⟩ := h
    exact ⟨rfl, rfl, rfl⟩

variable [Serialization]

theorem royaltySigner_spec (h : p.royaltySigner verify order = some (key, hashed)) :
    verify (p.royaltyPubKey key) (p.messageToSign order hashed) order.signature ∧
    (key = .second → p.ver = .v2) := by
  unfold royaltySigner at h
  have hverify := List.find?_some h
  have hmem := List.mem_of_find?_eq_some h
  refine ⟨hverify, fun hkey => ?_⟩
  cases hver : p.ver <;> simp_all [royaltyKeys]

/-- A request runs when the key that pays for it has signed. -/
theorem applyRoyaltyWithdraw_spec
    (h : p.applyRoyaltyWithdraw verify request transactionFee = .ok (.ok (p', result))) :
    p.royaltySigner verify request.order = some (result.publicKey, result.hashed) ∧
    verify (p.royaltyPubKey result.publicKey) (p.messageToSign request.order result.hashed)
      request.order.signature ∧
    p.Withdrawn result.publicKey request.order.withdrawRoyaltyX request.order.withdrawRoyaltyY p' ∧
    request.order.fee ≤ request.order.initAdaValue ∧
    result.output = {
      tokenXAsset := p.assetX
      tokenXAmount := request.order.withdrawRoyaltyX
      tokenYAsset := p.assetY
      tokenYAmount := request.order.withdrawRoyaltyY
      adaResidue := request.order.initAdaValue - request.order.fee
      redeemerPkh := request.order.royaltyPubKeyHash } := by
  unfold applyRoyaltyWithdraw at h
  split at h
  · cases Checked.pure_eq_ok.mp h
  · rename_i key hashed hsigner
    split at h
    · cases Checked.pure_eq_ok.mp h
    · rename_i next hnext
      simp only [Checked.bind_eq_ok, Checked.add_eq_ok, Checked.sub_eq_ok, Checked.pure_eq_ok,
        Except.ok.injEq, Prod.mk.injEq] at h
      obtain ⟨_, ⟨-, rfl⟩, _, ⟨hfee, rfl⟩, rfl, rfl⟩ := h
      obtain ⟨hverify, hkey⟩ := royaltySigner_spec hsigner
      obtain ⟨hnonce, hassetX, hassetY⟩ := debitRoyalty_same hnext
      refine ⟨hsigner, hverify, ?_, hfee, ?_⟩
      · rw [hnonce]
        exact withdrawn_of_debitRoyalty hnext hkey
      · rw [hassetX, hassetY]

end RoyaltyPool

end UtxoMonitor.Pools
