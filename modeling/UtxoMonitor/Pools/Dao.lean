import Mathlib.Data.List.Perm.Subperm
import UtxoMonitor.Pools.Orders

/-! Actions of the DAO on a pool with royalties, and who has to sign them. -/
namespace UtxoMonitor.Pools

open Lib LiquidityBook

abbrev Ed25519Signature := RawBytes 64

/-! ### Requests -/

inductive DaoAction where
  | withdrawTreasury
  | changeStakePart
  | changeTreasuryFee
  | changeTreasuryAddress
  | changeAdminAddress
  | changePoolFee
deriving DecidableEq

namespace DaoAction

def toRepr : DaoAction → Nat
  | withdrawTreasury => 0
  | changeStakePart => 1
  | changeTreasuryFee => 2
  | changeTreasuryAddress => 3
  | changeAdminAddress => 4
  | changePoolFee => 5

def fromRepr : Nat → Option DaoAction
  | 0 => some withdrawTreasury
  | 1 => some changeStakePart
  | 2 => some changeTreasuryFee
  | 3 => some changeTreasuryAddress
  | 4 => some changeAdminAddress
  | 5 => some changePoolFee
  | _ => none

def tryFromPd (data : PlutusData) : Option DaoAction := data.intoU64.bind fromRepr

theorem fromRepr_toRepr (action : DaoAction) : fromRepr action.toRepr = some action := by
  cases action <;> rfl

theorem toRepr_injective : Function.Injective toRepr := by
  intro a b h
  exact Option.some.inj ((fromRepr_toRepr a).symm.trans (h ▸ fromRepr_toRepr b))

end DaoAction

structure DaoRequestConfig where
  daoAction : DaoAction
  poolNft : AssetClass
  poolFee : Nat
  treasuryFee : Nat
  adminAddress : ScriptHash
  poolStakeScriptHash : Option ScriptHash
  treasuryAddress : ScriptHash
  treasuryXAbsDelta : Nat
  treasuryYAbsDelta : Nat
  requestorPkh : Ed25519KeyHash
  signatures : List Ed25519Signature
  additionalBytes : List Bytes
  fee : Nat

def DaoRequestConfig.tryFromPd (data : PlutusData) : Option DaoRequestConfig := do
  let (_, fields) ← data.intoConstrPd
  let poolAddress ← (takeField fields 5).bind PlutusAddress.tryFromPd
  return {
    adminAddress := ← (takeField fields 4).bind firstScriptHash
    poolStakeScriptHash := poolAddress.stakeCred.bind InlineCredential.scriptHash
    treasuryAddress := ← (bytesAt fields 6).bind RawBytes.fromRawBytes
    requestorPkh := ← (bytesAt fields 9).bind RawBytes.fromRawBytes
    signatures := ← (takeField fields 10).bind
      (PlutusData.intoVecPd fun pd => pd.intoBytes.bind RawBytes.fromRawBytes)
    additionalBytes := ← (takeField fields 11).bind (PlutusData.intoVecPd PlutusData.intoBytes)
    daoAction := ← (takeField fields 0).bind DaoAction.tryFromPd
    poolNft := ← assetAt fields 1
    poolFee := ← u64At fields 2
    treasuryFee := ← u64At fields 3
    treasuryXAbsDelta := ← u64At fields 7
    treasuryYAbsDelta := ← u64At fields 8
    fee := ← u64At fields 12 }

structure DaoV1Request where
  daoAction : DaoAction
  poolNft : PoolId
  poolFee : Ratio
  treasuryFee : Ratio
  adminAddress : ScriptHash
  poolStakeScriptHash : Option ScriptHash
  treasuryAddress : ScriptHash
  treasuryXAbsDelta : Nat
  treasuryYAbsDelta : Nat
  requestorPkh : Ed25519KeyHash
  signatures : List Ed25519Signature
  additionalBytes : List Bytes
  fee : Nat
  lovelace : Nat

abbrev OnChainDaoActionRequest := ClassicalOrder DaoV1Request

structure DaoRequestContext where
  outputRef : OutputRef
  deployed : ProtocolValidator → DeployedScriptInfo
  minCollateralAda : Nat

def OnChainDaoActionRequest.tryFromLedger (repr : TransactionOutput) (ctx : DaoRequestContext) :
    Checked (Option OnChainDaoActionRequest) :=
  if testAddress repr.address (ctx.deployed .royaltyPoolDaoV1Request) then
    match repr.intoPd.bind DaoRequestConfig.tryFromPd with
    | some conf =>
      let initAdaValue := repr.value.coin
      if initAdaValue < conf.fee then return none
      else
        match PoolId.tryFrom conf.poolNft with
        | some poolNft => do
          let left ← Checked.sub initAdaValue conf.fee
          if ctx.minCollateralAda ≤ left then
            return some {
              id := ctx.outputRef
              poolId := poolNft
              order := {
                daoAction := conf.daoAction
                poolNft := poolNft
                poolFee := ⟨conf.poolFee, feeDen⟩
                treasuryFee := ⟨conf.treasuryFee, feeDen⟩
                adminAddress := conf.adminAddress
                poolStakeScriptHash := conf.poolStakeScriptHash
                treasuryAddress := conf.treasuryAddress
                treasuryXAbsDelta := conf.treasuryXAbsDelta
                treasuryYAbsDelta := conf.treasuryYAbsDelta
                requestorPkh := conf.requestorPkh
                signatures := conf.signatures
                additionalBytes := conf.additionalBytes
                fee := conf.fee
                lovelace := initAdaValue } }
          else return none
        | none => return none
    | none => return none
  else return none

/-! ### What is signed -/

structure DaoRequestDataToSign where
  daoAction : DaoAction
  poolNft : PoolId
  poolFee : Nat
  treasuryFee : Nat
  adminAddress : List InlineCredential
  poolAddress : PlutusAddress
  treasuryAddress : ScriptHash
  treasuryXDelta : Int
  treasuryYDelta : Int
  poolNonce : Nat
deriving DecidableEq

def DaoRequestDataToSign.intoPd (data : DaoRequestDataToSign) : PlutusData :=
  .constr 0 [
    .integer data.daoAction.toRepr,
    data.poolNft.intoPd,
    .integer data.poolFee,
    .integer data.treasuryFee,
    .list (data.adminAddress.map InlineCredential.intoPd),
    data.poolAddress.intoPd,
    .bytes data.treasuryAddress.toRawBytes,
    .integer data.treasuryXDelta,
    .integer data.treasuryYDelta,
    .integer data.poolNonce]

/-- The keys of the DAO, and how many of them have to sign. -/
structure DaoContext where
  publicKeys : List Ed25519PublicKey
  distinct : publicKeys.Nodup
  signatureThreshold : Nat
  executionFee : Nat

structure DaoApplyContext where
  deployed : ProtocolValidator → DeployedScriptInfo
  dao : DaoContext

/-! ### Results -/

structure DaoRequestorOutput where
  lovelaceQty : Nat
  requestorAddress : Address
deriving DecidableEq

structure TreasuryWithdrawOutput where
  tokenXAsset : AssetClass
  tokenXAmount : Nat
  tokenYAsset : AssetClass
  tokenYAmount : Nat
  adaResidue : Nat
  treasuryScriptHash : ScriptHash
deriving DecidableEq

/-- The outputs of an action, but for the scripts that witness it. -/
structure DaoActionResult where
  requestorOutput : DaoRequestorOutput
  treasuryWithdraw : Option TreasuryWithdrawOutput
  strictFee : Option Nat
deriving DecidableEq

namespace RoyaltyPool

/-- The script that the DAO is told the pool is at. -/
def daoPoolScript : RoyaltyPoolVer → ProtocolValidator
  | .v2 => .royaltyPoolV1
  | _ => .royaltyPoolV2

def daoDataToSign (p : RoyaltyPool) (order : DaoV1Request) (ctx : DaoApplyContext) :
    Checked DaoRequestDataToSign := do
  let treasuryXDelta ← negI64 (asI64 order.treasuryXAbsDelta)
  let treasuryYDelta ← negI64 (asI64 order.treasuryYAbsDelta)
  return {
    daoAction := order.daoAction
    poolNft := order.poolNft
    poolFee := order.poolFee.numer
    treasuryFee := order.treasuryFee.numer
    adminAddress := [⟨.script order.adminAddress⟩]
    poolAddress := {
      paymentCred := .script (ctx.deployed (daoPoolScript p.ver)).scriptHash
      stakeCred := order.poolStakeScriptHash.map fun hash => ⟨.script hash⟩ }
    treasuryAddress := order.treasuryAddress
    treasuryXDelta := treasuryXDelta
    treasuryYDelta := treasuryYDelta
    poolNonce := p.nonce }

/-- What the action does to the pool. -/
def actDao (p : RoyaltyPool) (order : DaoV1Request) : Option RoyaltyPool :=
  match order.daoAction with
  | .withdrawTreasury =>
    match checkedSub p.reservesX order.treasuryXAbsDelta,
      checkedSub p.treasuryX order.treasuryXAbsDelta,
      checkedSub p.reservesY order.treasuryYAbsDelta,
      checkedSub p.treasuryY order.treasuryYAbsDelta with
    | some reservesX, some treasuryX, some reservesY, some treasuryY =>
      some { p with
        reservesX := reservesX
        treasuryX := treasuryX
        reservesY := reservesY
        treasuryY := treasuryY }
    | _, _, _, _ => none
  | .changeStakePart => some { p with stakePartScriptHash := order.poolStakeScriptHash }
  | .changeTreasuryFee => some { p with treasuryFee := order.treasuryFee }
  | .changeTreasuryAddress => some { p with treasuryAddress := order.treasuryAddress }
  | .changeAdminAddress => some { p with adminAddress := order.adminAddress }
  | .changePoolFee => some { p with lpFee := order.poolFee }

/-- The output of an action in ADA besides the requestor's: a withdrawal leaves no residue. -/
def treasuryWithdraw (p : RoyaltyPool) (order : DaoV1Request) : Option TreasuryWithdrawOutput :=
  match order.daoAction with
  | .withdrawTreasury => some {
      tokenXAsset := p.assetX
      tokenXAmount := order.treasuryXAbsDelta
      tokenYAsset := p.assetY
      tokenYAmount := order.treasuryYAbsDelta
      adaResidue := 0
      treasuryScriptHash := p.treasuryAddress }
  | _ => none

end RoyaltyPool

/-- A signature, the key it is checked with, and what is put before the data. -/
structure DaoVote where
  signature : Ed25519Signature
  publicKey : Ed25519PublicKey
  additionalBytes : Bytes
deriving DecidableEq

/-- The signatures of a request, in the order of the keys. -/
def DaoV1Request.votes (order : DaoV1Request) (dao : DaoContext) : List DaoVote :=
  (order.signatures.zip (dao.publicKeys.zip order.additionalBytes)).map fun vote =>
    ⟨vote.1, vote.2.1, vote.2.2⟩

/-- The signatures that the keys of the DAO verify, each on its own bytes and the data. -/
def correctSignatures (verify : Ed25519PublicKey → Bytes → Ed25519Signature → Bool)
    (order : DaoV1Request) (dao : DaoContext) (raw : Bytes) : Nat :=
  (order.votes dao).countP fun vote =>
    verify vote.publicKey (vote.additionalBytes ++ raw) vote.signature

/-- Runs an action that enough of the keys have signed. -/
def RoyaltyPool.applyDaoAction [Serialization]
    (verify : Ed25519PublicKey → Bytes → Ed25519Signature → Bool)
    (p : RoyaltyPool) (request : OnChainDaoActionRequest) (ctx : DaoApplyContext) :
    Checked (Applied OnChainDaoActionRequest (RoyaltyPool × DaoActionResult)) := do
  let order := request.order
  let data ← p.daoDataToSign order ctx
  let raw := Serialization.toCborBytes data.intoPd
  let correct := correctSignatures verify order ctx.dao raw
  let threshold := ctx.dao.signatureThreshold
  if correct < threshold then
    return .error (.verificationFailed request
      s!"Incorrect signature threshold. Correct signatures qty: {correct}. Threshold: {threshold}")
  else
    match p.actDao order, checkedSub order.lovelace order.fee with
    | some next, some lovelaceQty => do
      let nonce ← Checked.add 64 next.nonce 1
      return .ok ({ next with nonce := nonce }, {
        requestorOutput := ⟨lovelaceQty, .enterprise (.pubKey order.requestorPkh)⟩
        treasuryWithdraw := next.treasuryWithdraw order
        strictFee := some ctx.dao.executionFee })
    | _, _ => return .error (.incompatible request)

/-! ### What the signed data determines -/

/-- Of the pool, its policy and the bytes of its name are written. -/
theorem DaoRequestDataToSign.eq_of_intoPd {data data' : DaoRequestDataToSign}
    (h : data.intoPd = data'.intoPd) :
    data.poolNft.policyId = data'.poolNft.policyId ∧
    data.poolNft.assetName.asBytes = data'.poolNft.assetName.asBytes ∧
    { data with poolNft := data'.poolNft } = data' := by
  obtain ⟨action, nft, poolFee, treasuryFee, admin, addr, treasury, x, y, nonce⟩ := data
  obtain ⟨action', nft', poolFee', treasuryFee', admin', addr', treasury', x', y', nonce'⟩ := data'
  simp only [intoPd, Token.intoPd, PlutusData.constr.injEq, PlutusData.integer.injEq,
    PlutusData.list.injEq, PlutusData.bytes.injEq, List.cons.injEq, Nat.cast_inj, and_true,
    true_and] at h
  obtain ⟨haction, ⟨hpolicy, hname⟩, rfl, rfl, hadmin, haddr, htreasury, rfl, rfl, rfl⟩ := h
  refine ⟨RawBytes.toRawBytes_injective hpolicy, hname, ?_⟩
  rw [DaoAction.toRepr_injective haction, PlutusAddress.intoPd_injective haddr,
    RawBytes.toRawBytes_injective htreasury,
    (List.map_injective_iff.mpr InlineCredential.intoPd_injective) hadmin]

/-! ### Votes -/

section

variable {order : DaoV1Request} {dao : DaoContext}

theorem zip_fst_sublist {A B C : Type} (as : List A) (bs : List B) (cs : List C) :
    ((as.zip (bs.zip cs)).map fun abc => abc.2.1).Sublist bs := by
  induction as generalizing bs cs with
  | nil => exact List.nil_sublist _
  | cons a as ih =>
    cases bs with
    | nil => exact List.nil_sublist _
    | cons b bs =>
      cases cs with
      | nil => exact List.nil_sublist _
      | cons c cs => exact (ih bs cs).cons_cons b

/-- The keys of the votes are among the keys of the DAO, each once. -/
theorem DaoV1Request.votes_sublist :
    ((order.votes dao).map DaoVote.publicKey).Sublist dao.publicKeys := by
  rw [votes, List.map_map]
  exact zip_fst_sublist _ _ _

theorem exists_sublist_of_mem {A : Type} {a : A} {l : List A} {t : Nat} (h : a ∈ l) (hpos : 0 < t)
    (hle : t ≤ l.length) : ∃ s, List.Sublist s l ∧ s.length = t ∧ a ∈ s := by
  induction l generalizing t with
  | nil => cases h
  | cons x xs ih =>
    by_cases hall : t = (x :: xs).length
    · exact ⟨_, List.Sublist.refl _, hall.symm, h⟩
    · rw [List.length_cons] at hle hall
      cases h with
      | head =>
        refine ⟨a :: xs.take (t - 1), (List.take_sublist _ _).cons_cons a, ?_, List.mem_cons_self⟩
        rw [List.length_cons, List.length_take]
        omega
      | tail _ h =>
        obtain ⟨s, hs, hlen, hmem⟩ := ih h hpos (by omega)
        exact ⟨s, hs.cons x, hlen, hmem⟩

end

/-! ### Authorization -/

namespace RoyaltyPool

/-- The data for the request with a given script and pool. -/
def daoData (p : RoyaltyPool) (order : DaoV1Request) (poolNft : PoolId) (script : ScriptHash) :
    DaoRequestDataToSign where
  daoAction := order.daoAction
  poolNft := poolNft
  poolFee := order.poolFee.numer
  treasuryFee := order.treasuryFee.numer
  adminAddress := [⟨.script order.adminAddress⟩]
  poolAddress := {
    paymentCred := .script script
    stakeCred := order.poolStakeScriptHash.map fun hash => ⟨.script hash⟩ }
  treasuryAddress := order.treasuryAddress
  treasuryXDelta := -asI64 order.treasuryXAbsDelta
  treasuryYDelta := -asI64 order.treasuryYAbsDelta
  poolNonce := p.nonce

/-- The data that names the pool, at the script of its own version. -/
def ownDaoData (p : RoyaltyPool) (order : DaoV1Request) (ctx : DaoApplyContext) :
    DaoRequestDataToSign :=
  p.daoData order p.id (ctx.deployed (scriptOf p.ver)).scriptHash

/-- The data that the signatures are checked on. -/
def checkedDaoData (p : RoyaltyPool) (order : DaoV1Request) (ctx : DaoApplyContext) :
    DaoRequestDataToSign :=
  p.daoData order order.poolNft (ctx.deployed (daoPoolScript p.ver)).scriptHash

variable {p p' : RoyaltyPool} {order : DaoV1Request} {request : OnChainDaoActionRequest}
  {ctx : DaoApplyContext} {data : DaoRequestDataToSign} {result : DaoActionResult}
  {verify : Ed25519PublicKey → Bytes → Ed25519Signature → Bool}

theorem daoDataToSign_eq_ok : p.daoDataToSign order ctx = .ok data ↔
    order.treasuryXAbsDelta ≠ 2 ^ 63 ∧ order.treasuryYAbsDelta ≠ 2 ^ 63 ∧
    p.checkedDaoData order ctx = data := by
  simp only [daoDataToSign, negI64_asI64, Checked.bind_eq_ok, Checked.pure_eq_ok]
  constructor
  · rintro ⟨x, hx, y, hy, rfl⟩
    split at hx
    · cases hx
    · rename_i hdx
      split at hy
      · cases hy
      · rename_i hdy
        cases hx
        cases hy
        exact ⟨hdx, hdy, rfl⟩
  · rintro ⟨hdx, hdy, rfl⟩
    exact ⟨_, if_neg hdx, _, if_neg hdy, rfl⟩

variable [Serialization]

/-- The bytes that the signatures are checked on, after what each signer puts before them. -/
def checkedBytes (p : RoyaltyPool) (order : DaoV1Request) (ctx : DaoApplyContext) : Bytes :=
  Serialization.toCborBytes (p.checkedDaoData order ctx).intoPd

def ownBytes (p : RoyaltyPool) (order : DaoV1Request) (ctx : DaoApplyContext) : Bytes :=
  Serialization.toCborBytes (p.ownDaoData order ctx).intoPd

/-- An action runs if it is signed, and the pool and the request can pay for it. -/
theorem applyDaoAction_eq_ok :
    p.applyDaoAction verify request ctx = .ok (.ok (p', result)) ↔
    request.order.treasuryXAbsDelta ≠ 2 ^ 63 ∧ request.order.treasuryYAbsDelta ≠ 2 ^ 63 ∧
    ctx.dao.signatureThreshold ≤
      correctSignatures verify request.order ctx.dao (p.checkedBytes request.order ctx) ∧
    request.order.fee ≤ request.order.lovelace ∧
    ∃ next, p.actDao request.order = some next ∧ next.nonce + 1 < 2 ^ 64 ∧
      p' = { next with nonce := next.nonce + 1 } ∧
      result = {
        requestorOutput := ⟨request.order.lovelace - request.order.fee,
          .enterprise (.pubKey request.order.requestorPkh)⟩
        treasuryWithdraw := next.treasuryWithdraw request.order
        strictFee := some ctx.dao.executionFee } := by
  simp only [applyDaoAction, Checked.bind_eq_ok, daoDataToSign_eq_ok]
  constructor
  · rintro ⟨data, ⟨hx, hy, rfl⟩, h⟩
    split at h
    · cases Checked.pure_eq_ok.mp h
    · rename_i hcorrect
      split at h
      · rename_i next lovelaceQty hnext hlovelace
        obtain ⟨hfee, rfl⟩ := checkedSub_eq_some.mp hlovelace
        simp only [Checked.bind_eq_ok, Checked.add_eq_ok, Checked.pure_eq_ok, Except.ok.injEq,
          Prod.mk.injEq] at h
        obtain ⟨_, ⟨hlt, rfl⟩, rfl, rfl⟩ := h
        exact ⟨hx, hy, not_lt.mp hcorrect, hfee, next, hnext, hlt, rfl, rfl⟩
      · cases Checked.pure_eq_ok.mp h
  · rintro ⟨hx, hy, hcorrect, hfee, next, hnext, hlt, rfl, rfl⟩
    refine ⟨_, ⟨hx, hy, rfl⟩, (if_neg (not_lt.mpr hcorrect)).trans ?_⟩
    rw [hnext, checkedSub, if_pos hfee]
    exact Checked.bind_eq_ok.mpr ⟨_, Checked.add_eq_ok.mpr ⟨hlt, rfl⟩, rfl⟩

/-- Nothing stops the request but a delta that has no negation and a nonce that has no next. -/
theorem applyDaoAction_isOk_iff :
    (∃ outcome, p.applyDaoAction verify request ctx = .ok outcome) ↔
    request.order.treasuryXAbsDelta ≠ 2 ^ 63 ∧ request.order.treasuryYAbsDelta ≠ 2 ^ 63 ∧
    (ctx.dao.signatureThreshold ≤
        correctSignatures verify request.order ctx.dao (p.checkedBytes request.order ctx) →
      request.order.fee ≤ request.order.lovelace →
      ∀ next, p.actDao request.order = some next → next.nonce + 1 < 2 ^ 64) := by
  constructor
  · rintro ⟨outcome, h⟩
    simp only [applyDaoAction, Checked.bind_eq_ok, daoDataToSign_eq_ok] at h
    obtain ⟨data, ⟨hx, hy, rfl⟩, h⟩ := h
    refine ⟨hx, hy, fun hcorrect hfee next hnext => ?_⟩
    have h := (if_neg (not_lt.mpr hcorrect)).symm.trans h
    rw [hnext, checkedSub, if_pos hfee] at h
    simp only [Checked.bind_eq_ok, Checked.add_eq_ok] at h
    obtain ⟨_, ⟨hlt, -⟩, -⟩ := h
    exact hlt
  · rintro ⟨hx, hy, hnonce⟩
    have hdata : p.daoDataToSign request.order ctx = .ok (p.checkedDaoData request.order ctx) :=
      daoDataToSign_eq_ok.mpr ⟨hx, hy, rfl⟩
    by_cases hcorrect : correctSignatures verify request.order ctx.dao
        (p.checkedBytes request.order ctx) < ctx.dao.signatureThreshold
    · exact ⟨_, Checked.bind_eq_ok.mpr ⟨_, hdata, if_pos hcorrect⟩⟩
    · cases hnext : p.actDao request.order with
      | none =>
        refine ⟨.error (.incompatible request),
          Checked.bind_eq_ok.mpr ⟨_, hdata, (if_neg hcorrect).trans ?_⟩⟩
        rw [hnext]
        rfl
      | some next =>
        by_cases hfee : request.order.fee ≤ request.order.lovelace
        · have hlt := hnonce (not_lt.mp hcorrect) hfee next hnext
          exact ⟨_, applyDaoAction_eq_ok.mpr
            ⟨hx, hy, not_lt.mp hcorrect, hfee, next, hnext, hlt, rfl, rfl⟩⟩
        · refine ⟨.error (.incompatible request),
            Checked.bind_eq_ok.mpr ⟨_, hdata, (if_neg hcorrect).trans ?_⟩⟩
          rw [hnext, checkedSub, if_neg hfee]
          rfl

/-- Enough keys of the DAO have signed a message that ends with the bytes. -/
def Authorized (verify : Ed25519PublicKey → Bytes → Ed25519Signature → Bool) (dao : DaoContext)
    (bytes : Bytes) : Prop :=
  ∃ signers : List Ed25519PublicKey, signers.Sublist dao.publicKeys ∧
    dao.signatureThreshold ≤ signers.length ∧
    ∀ key ∈ signers, ∃ message signature, verify key message signature ∧ bytes <:+ message

/-- What an action leaves of a pool. -/
structure Acted (p : RoyaltyPool) (order : DaoV1Request) (p' : RoyaltyPool) : Prop where
  acted : ∃ next, p.actDao order = some next ∧ p' = { next with nonce := p.nonce + 1 }
  withdrawn : order.daoAction = .withdrawTreasury →
    order.treasuryXAbsDelta ≤ p.reservesX ∧ order.treasuryXAbsDelta ≤ p.treasuryX ∧
    order.treasuryYAbsDelta ≤ p.reservesY ∧ order.treasuryYAbsDelta ≤ p.treasuryY ∧
    p' = { p with
      reservesX := p.reservesX - order.treasuryXAbsDelta
      treasuryX := p.treasuryX - order.treasuryXAbsDelta
      reservesY := p.reservesY - order.treasuryYAbsDelta
      treasuryY := p.treasuryY - order.treasuryYAbsDelta
      nonce := p.nonce + 1 }

/-- Whatever signatures are valid, a request does not panic, and it runs only with the authority of
the DAO over exactly this pool. -/
def DaoSafe (p : RoyaltyPool) (request : OnChainDaoActionRequest) (ctx : DaoApplyContext) : Prop :=
  ∀ verify, (∃ outcome, p.applyDaoAction verify request ctx = .ok outcome) ∧
    ∀ p' result, p.applyDaoAction verify request ctx = .ok (.ok (p', result)) →
      Authorized verify ctx.dao (p.ownBytes request.order ctx) ∧ p.Acted request.order p'

/-- The deltas have a negation; and if the request can run at all, the nonce has a next and all that
the signatures are checked on ends with the data of this pool. -/
structure DaoGuarded (p : RoyaltyPool) (order : DaoV1Request) (ctx : DaoApplyContext) : Prop where
  deltaX : order.treasuryXAbsDelta ≠ 2 ^ 63
  deltaY : order.treasuryYAbsDelta ≠ 2 ^ 63
  runs : ctx.dao.signatureThreshold ≤ (order.votes ctx.dao).length → order.fee ≤ order.lovelace →
    (p.actDao order).isSome → p.nonce + 1 < 2 ^ 64 ∧
      (ctx.dao.signatureThreshold = 0 ∨ ∀ vote ∈ order.votes ctx.dao,
        p.ownBytes order ctx <:+ vote.additionalBytes ++ p.checkedBytes order ctx)

omit [Serialization] in
theorem actDao_nonce (h : p.actDao order = some p') : p'.nonce = p.nonce := by
  unfold actDao at h
  split at h
  · split at h
    · cases h
      rfl
    · cases h
  all_goals cases h; rfl

omit [Serialization] in
theorem acted_of_actDao (h : p.actDao order = some p') :
    p.Acted order { p' with nonce := p.nonce + 1 } where
  acted := ⟨p', h, rfl⟩
  withdrawn haction := by
    simp only [actDao, haction] at h
    split at h
    · rename_i x tx y ty hx htx hy hty
      obtain ⟨hxle, rfl⟩ := checkedSub_eq_some.mp hx
      obtain ⟨htxle, rfl⟩ := checkedSub_eq_some.mp htx
      obtain ⟨hyle, rfl⟩ := checkedSub_eq_some.mp hy
      obtain ⟨htyle, rfl⟩ := checkedSub_eq_some.mp hty
      cases h
      exact ⟨hxle, htxle, hyle, htyle, rfl⟩
    · cases h

omit [Serialization] in
theorem correctSignatures_le (verify : Ed25519PublicKey → Bytes → Ed25519Signature → Bool)
    (order : DaoV1Request) (dao : DaoContext) (raw : Bytes) :
    correctSignatures verify order dao raw ≤ (order.votes dao).length := List.countP_le_length

/-- The votes that are correct are signed by as many keys. -/
theorem authorized_of_correct
    (h : ctx.dao.signatureThreshold ≤
      correctSignatures verify order ctx.dao (p.checkedBytes order ctx))
    (hown : ctx.dao.signatureThreshold = 0 ∨ ∀ vote ∈ order.votes ctx.dao,
      p.ownBytes order ctx <:+ vote.additionalBytes ++ p.checkedBytes order ctx) :
    Authorized verify ctx.dao (p.ownBytes order ctx) := by
  obtain hzero | hown := hown
  · exact ⟨[], List.nil_sublist _, hzero.le, fun _ hmem => by cases hmem⟩
  · refine ⟨((order.votes ctx.dao).filter fun vote => verify vote.publicKey
      (vote.additionalBytes ++ p.checkedBytes order ctx) vote.signature).map DaoVote.publicKey,
      ((List.filter_sublist (l := order.votes ctx.dao)).map _).trans DaoV1Request.votes_sublist,
      ?_, fun key hkey => ?_⟩
    · rwa [List.length_map, ← List.countP_eq_length_filter]
    · obtain ⟨vote, hvote, rfl⟩ := List.mem_map.mp hkey
      obtain ⟨hmem, hverify⟩ := List.mem_filter.mp hvote
      exact ⟨_, _, hverify, hown vote hmem⟩

/-- Only the votes of a list are valid. -/
def onlyVotes (votes : List DaoVote) (raw : Bytes) :
    Ed25519PublicKey → Bytes → Ed25519Signature → Bool := fun key message signature =>
  votes.any fun vote =>
    vote.publicKey = key ∧ message = vote.additionalBytes ++ raw ∧ vote.signature = signature

omit [Serialization] in
theorem onlyVotes_iff {votes : List DaoVote} {raw message : Bytes} {key : Ed25519PublicKey}
    {signature : Ed25519Signature} : onlyVotes votes raw key message signature = true ↔
      ∃ vote ∈ votes, vote.publicKey = key ∧ message = vote.additionalBytes ++ raw ∧
        vote.signature = signature := by
  simp [onlyVotes]

omit [Serialization] in
theorem correctSignatures_onlyVotes {votes : List DaoVote} {raw : Bytes} {dao : DaoContext}
    (h : votes.Sublist (order.votes dao)) :
    votes.length ≤ correctSignatures (onlyVotes votes raw) order dao raw := by
  refine le_trans (le_of_eq ?_) (h.countP_le (p := fun vote => onlyVotes votes raw vote.publicKey
    (vote.additionalBytes ++ raw) vote.signature))
  refine (List.countP_eq_length.mpr fun vote hvote => ?_).symm
  exact onlyVotes_iff.mpr ⟨vote, hvote, rfl, rfl, rfl⟩

/-- A vote on other data leaves too few keys for the data of this pool. -/
theorem not_authorized_onlyVotes {votes : List DaoVote} {bad : DaoVote}
    (hlen : votes.length = ctx.dao.signatureThreshold) (hbad : bad ∈ votes)
    (hother : ¬ p.ownBytes order ctx <:+ bad.additionalBytes ++ p.checkedBytes order ctx) :
    ¬ Authorized (onlyVotes votes (p.checkedBytes order ctx)) ctx.dao (p.ownBytes order ctx) := by
  rintro ⟨signers, hsigners, hthreshold, hsigned⟩
  have hsub : signers ⊆ ((votes.filter fun vote =>
      p.ownBytes order ctx <:+ vote.additionalBytes ++ p.checkedBytes order ctx).map
      DaoVote.publicKey) := by
    intro key hkey
    obtain ⟨message, signature, hverify, hsuffix⟩ := hsigned key hkey
    obtain ⟨vote, hvote, rfl, rfl, -⟩ := onlyVotes_iff.mp hverify
    exact List.mem_map.mpr ⟨vote, List.mem_filter.mpr ⟨hvote, decide_eq_true hsuffix⟩, rfl⟩
  have hle := (List.subperm_of_subset (hsigners.nodup ctx.dao.distinct) hsub).length_le
  have hlt : (votes.filter fun vote =>
      p.ownBytes order ctx <:+ vote.additionalBytes ++ p.checkedBytes order ctx).length <
      votes.length :=
    List.length_filter_lt_length_iff_exists.mpr ⟨bad, hbad, by simpa using hother⟩
  rw [List.length_map] at hle
  omega

/-- A request is safe exactly when it is guarded. -/
theorem daoSafe_iff (p : RoyaltyPool) (request : OnChainDaoActionRequest) (ctx : DaoApplyContext) :
    p.DaoSafe request ctx ↔ p.DaoGuarded request.order ctx := by
  constructor
  · intro h
    obtain ⟨hx, hy, -⟩ := applyDaoAction_isOk_iff.mp (h fun _ _ _ => true).1
    refine ⟨hx, hy, fun hvotes hfee hact => ?_⟩
    obtain ⟨next, hnext⟩ := Option.isSome_iff_exists.mp hact
    have hnonce := actDao_nonce hnext
    have hall : ctx.dao.signatureThreshold ≤ correctSignatures (fun _ _ _ => true)
        request.order ctx.dao (p.checkedBytes request.order ctx) := by
      simpa [correctSignatures] using hvotes
    obtain ⟨-, -, hlt⟩ := applyDaoAction_isOk_iff.mp (h fun _ _ _ => true).1
    have hlt := hlt hall hfee next hnext
    refine ⟨hnonce ▸ hlt, or_iff_not_imp_left.mpr fun hpos bad hbad => ?_⟩
    -- As many votes as are needed, one of them on other data.
    by_contra hother
    obtain ⟨votes, hsub, hlen, hmem⟩ :=
      exists_sublist_of_mem hbad (Nat.pos_of_ne_zero hpos) hvotes
    have hcorrect : votes.length ≤ correctSignatures
        (onlyVotes votes (p.checkedBytes request.order ctx)) request.order ctx.dao
        (p.checkedBytes request.order ctx) := correctSignatures_onlyVotes hsub
    have hok := applyDaoAction_eq_ok.mpr
      ⟨hx, hy, hlen ▸ hcorrect, hfee, next, hnext, hlt, rfl, rfl⟩
    exact not_authorized_onlyVotes hlen hmem hother ((h _).2 _ _ hok).1
  · intro h verify
    refine ⟨applyDaoAction_isOk_iff.mpr ⟨h.deltaX, h.deltaY, fun hcorrect hfee next hnext => ?_⟩,
      fun p' result hok => ?_⟩
    · have hvotes := hcorrect.trans (correctSignatures_le _ _ _ _)
      have hlt := (h.runs hvotes hfee (Option.isSome_iff_exists.mpr ⟨next, hnext⟩)).1
      rwa [actDao_nonce hnext]
    · obtain ⟨-, -, hcorrect, hfee, next, hnext, -, rfl, -⟩ := applyDaoAction_eq_ok.mp hok
      have hvotes := hcorrect.trans (correctSignatures_le _ _ _ _)
      have hown := (h.runs hvotes hfee (Option.isSome_iff_exists.mpr ⟨next, hnext⟩)).2
      rw [actDao_nonce hnext]
      exact ⟨authorized_of_correct hcorrect hown, acted_of_actDao hnext⟩

/-- A request is safe exactly when it is guarded, and the data to sign determines the action, all
that it is run with, and the pool as the ledger names it. -/
theorem dao_authorization (p : RoyaltyPool) (request : OnChainDaoActionRequest)
    (ctx : DaoApplyContext) :
    (p.DaoSafe request ctx ↔ p.DaoGuarded request.order ctx) ∧
    (∀ data : DaoRequestDataToSign, data.intoPd = (p.ownDaoData request.order ctx).intoPd →
      data.poolNft.policyId = p.id.policyId ∧
      data.poolNft.assetName.asBytes = p.id.assetName.asBytes ∧
      { data with poolNft := p.id } = p.ownDaoData request.order ctx) ∧
    ∀ a b : Nat, a < 2 ^ 64 → b < 2 ^ 64 → -asI64 a = -asI64 b → a = b :=
  ⟨daoSafe_iff p request ctx, fun _ => DaoRequestDataToSign.eq_of_intoPd,
    fun _ _ ha hb h => asI64_injective ha hb (neg_inj.mp h)⟩

end RoyaltyPool

/-! ### A pool of the second version -/

def sampleRoyalty : RoyaltyPool :=
  { id := sampleToken 1
    reservesX := 1000000000
    reservesY := 2000000000
    liquidity := 1000000
    assetX := .native
    assetY := .token (sampleToken 2)
    assetLq := .token (sampleToken 3)
    lpFee := ⟨99700, feeDen⟩
    treasuryFee := ⟨100, feeDen⟩
    firstRoyaltyFee := ⟨100, feeDen⟩
    secondRoyaltyFee := ⟨50, feeDen⟩
    treasuryX := 5000
    treasuryY := 7000
    firstRoyaltyX := 3000
    firstRoyaltyY := 4000
    secondRoyaltyX := 1000
    secondRoyaltyY := 2000
    lqLowerBound := 0
    adminAddress := RawBytes.replicate 4
    treasuryAddress := RawBytes.replicate 5
    firstRoyaltyPubKey := RawBytes.replicate 6
    secondRoyaltyPubKey := RawBytes.replicate 7
    ver := .v2
    marginalCost := ⟨0, 0⟩
    bounds := ⟨0, 0⟩
    nonce := 0
    stakePartScriptHash := none }

def sampleDaoRequest : OnChainDaoActionRequest :=
  { id := ⟨RawBytes.replicate 1, 0⟩
    poolId := sampleToken 1
    order := {
      daoAction := .withdrawTreasury
      poolNft := sampleToken 1
      poolFee := ⟨99700, feeDen⟩
      treasuryFee := ⟨100, feeDen⟩
      adminAddress := RawBytes.replicate 4
      poolStakeScriptHash := none
      treasuryAddress := RawBytes.replicate 5
      treasuryXAbsDelta := 5000
      treasuryYAbsDelta := 7000
      requestorPkh := RawBytes.replicate 8
      signatures := [RawBytes.replicate 9]
      additionalBytes := [[]]
      fee := 1000000
      lovelace := 3000000 } }

/-- Every script at a hash of its own, and one key that has to sign. -/
def sampleDaoContext : DaoApplyContext where
  deployed script := ⟨RawBytes.replicate
    (match script with
      | .royaltyPoolV1 => 101
      | .royaltyPoolV1LedgerFixed => 102
      | .royaltyPoolV2 => 103
      | _ => 100), ⟨0, 0⟩⟩
  dao := ⟨[RawBytes.replicate 10], by decide, 1, 600000⟩

/-- What is signed for a pool of the second version names the script of the first. -/
theorem dao_signs_other_script :
    ¬ ∀ (_ : Serialization) (p : RoyaltyPool) (request : OnChainDaoActionRequest)
      (ctx : DaoApplyContext), p.DaoSafe request ctx := by
  intro h
  let _ : Serialization := ⟨indefiniteCbor, fun _ => RawBytes.replicate 0⟩
  have hguarded := (RoyaltyPool.daoSafe_iff _ _ _).mp
    (h _ sampleRoyalty sampleDaoRequest sampleDaoContext)
  obtain ⟨-, hown⟩ := hguarded.runs (by decide) (by decide) (by decide)
  revert hown
  decide +kernel

end UtxoMonitor.Pools
