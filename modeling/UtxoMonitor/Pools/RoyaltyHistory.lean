import UtxoMonitor.Pools.RoyaltyWithdraw

/-! What happens to a pool with royalties over time, and that no withdrawal is run twice. -/
namespace UtxoMonitor.Pools

open Lib LiquidityBook

inductive RoyaltyOperation where
  | swap (input : OnSide Nat)
  | deposit (request : ClassicalOnChainDeposit)
  | redeem (request : ClassicalOnChainRedeem)
  | royaltyWithdraw (request : OnChainRoyaltyWithdraw) (transactionFee : Nat)
  | daoAction (request : OnChainDaoActionRequest) (ctx : DaoApplyContext)

namespace RoyaltyPool

/-- The pool that an applied order returns. -/
def applied {Order A : Type} : Applied Order (RoyaltyPool × A) → Option RoyaltyPool
  | .ok (pool, _) => some pool
  | .error _ => none

/-- The pool with the reserves and the liquidity of another. -/
def appliedConst {Order A : Type} : Applied Order (ConstFnPool × A) → Option RoyaltyPool
  | .ok (.royalty pool, _) => some pool
  | _ => none

section

variable [Serialization]

/-- Runs an operation: an order that is refused leaves no pool. -/
def perform (verify : Ed25519PublicKey → Bytes → Ed25519Signature → Bool) (p : RoyaltyPool) :
    RoyaltyOperation → Checked (Option RoyaltyPool)
  | .swap input => do return some (← p.swap input)
  | .deposit request => do return appliedConst (← (ConstFnPool.royalty p).applyDeposit request)
  | .redeem request => do return appliedConst (← (ConstFnPool.royalty p).applyRedeem request)
  | .royaltyWithdraw request transactionFee => do
    return applied (← p.applyRoyaltyWithdraw verify request transactionFee)
  | .daoAction request ctx => do return applied (← p.applyDaoAction verify request ctx)

/-- A history of a pool: its operations, newest first, each with the pool it was run on. -/
inductive History (verify : Ed25519PublicKey → Bytes → Ed25519Signature → Bool)
    (start : RoyaltyPool) : List (RoyaltyPool × RoyaltyOperation) → RoyaltyPool → Prop
  | start : History verify start [] start
  | step {steps : List (RoyaltyPool × RoyaltyOperation)} {p p' : RoyaltyPool}
      {op : RoyaltyOperation} (history : History verify start steps p)
      (performed : p.perform verify op = .ok (some p')) :
      History verify start ((p, op) :: steps) p'

end

/-! ### What an operation does -/

variable {p p' : RoyaltyPool} {op : RoyaltyOperation} {input : OnSide Nat}
  {verify : Ed25519PublicKey → Bytes → Ed25519Signature → Bool}
  {steps : List (RoyaltyPool × RoyaltyOperation)}

theorem applied_eq_some {Order A : Type} {outcome : Applied Order (RoyaltyPool × A)} :
    applied outcome = some p' ↔ ∃ result, outcome = .ok (p', result) := by
  rcases outcome with _ | ⟨pool, result⟩ <;> simp [applied]

theorem appliedConst_eq_some {Order A : Type} {outcome : Applied Order (ConstFnPool × A)} :
    appliedConst outcome = some p' ↔ ∃ result, outcome = .ok (.royalty p', result) := by
  rcases outcome with _ | ⟨pool | pool | pool, result⟩ <;> simp [appliedConst]

/-- A deposit adds what it leaves in the reserves, and its share of the liquidity. -/
theorem applyDeposit_royalty {request : ClassicalOnChainDeposit} {result : DepositOutput}
    (h : (ConstFnPool.royalty p).applyDeposit request = .ok (.ok (.royalty p', result))) :
    ∃ netX netY unlocked changeX changeY,
      p.rewardLp netX netY = .ok (some (unlocked, changeX, changeY)) ∧
      changeX ≤ p.reservesX + netX ∧ changeY ≤ p.reservesY + netY ∧
      p' = { p with
        reservesX := p.reservesX + netX - changeX
        reservesY := p.reservesY + netY - changeY
        liquidity := p.liquidity + unlocked } := by
  obtain ⟨netX, netY, -, -, hreward, ⟨-, hchangeX⟩, ⟨-, hchangeY⟩, -, hp⟩ :=
    ConstFnPool.applyDeposit_spec h
  exact ⟨netX, netY, _, _, _, hreward, hchangeX, hchangeY, ConstFnPool.royalty.inj hp⟩

theorem applyRedeem_royalty {request : ClassicalOnChainRedeem} {result : RedeemOutput}
    (h : (ConstFnPool.royalty p).applyRedeem request = .ok (.ok (.royalty p', result))) :
    ∃ x y, p.sharesAmount request.order.tokenLqAmount = .ok (some (x, y)) ∧
      x ≤ p.reservesX ∧ y ≤ p.reservesY ∧ request.order.tokenLqAmount ≤ p.liquidity ∧
      p' = { p with
        reservesX := p.reservesX - x
        reservesY := p.reservesY - y
        liquidity := p.liquidity - request.order.tokenLqAmount } := by
  obtain ⟨hshares, hx, hy, hle, hp⟩ := ConstFnPool.applyRedeem_spec h
  exact ⟨_, _, hshares, hx, hy, hle, ConstFnPool.royalty.inj hp⟩

variable [Serialization]

/-- What an operation does when it is not refused: a swap, an order for shares of the pool, a
withdrawal or an action. -/
theorem perform_cases (h : p.perform verify op = .ok (some p')) :
    (∃ input, op = .swap input ∧ p.swap input = .ok p') ∨
    (∃ request result, op = .deposit request ∧
      (ConstFnPool.royalty p).applyDeposit request = .ok (.ok (.royalty p', result))) ∨
    (∃ request result, op = .redeem request ∧
      (ConstFnPool.royalty p).applyRedeem request = .ok (.ok (.royalty p', result))) ∨
    (∃ request transactionFee result, op = .royaltyWithdraw request transactionFee ∧
      p.applyRoyaltyWithdraw verify request transactionFee = .ok (.ok (p', result))) ∨
    ∃ request ctx result, op = .daoAction request ctx ∧
      p.applyDaoAction verify request ctx = .ok (.ok (p', result)) := by
  cases op with
  | swap input =>
    obtain ⟨next, hnext, h⟩ := Checked.bind_eq_ok.mp h
    cases Checked.pure_eq_ok.mp h
    exact .inl ⟨input, rfl, hnext⟩
  | deposit request =>
    obtain ⟨outcome, houtcome, h⟩ := Checked.bind_eq_ok.mp h
    obtain ⟨result, rfl⟩ := appliedConst_eq_some.mp (Checked.pure_eq_ok.mp h)
    exact .inr (.inl ⟨request, result, rfl, houtcome⟩)
  | redeem request =>
    obtain ⟨outcome, houtcome, h⟩ := Checked.bind_eq_ok.mp h
    obtain ⟨result, rfl⟩ := appliedConst_eq_some.mp (Checked.pure_eq_ok.mp h)
    exact .inr (.inr (.inl ⟨request, result, rfl, houtcome⟩))
  | royaltyWithdraw request transactionFee =>
    obtain ⟨outcome, houtcome, h⟩ := Checked.bind_eq_ok.mp h
    obtain ⟨result, rfl⟩ := applied_eq_some.mp (Checked.pure_eq_ok.mp h)
    exact .inr (.inr (.inr (.inl ⟨request, transactionFee, result, rfl, houtcome⟩)))
  | daoAction request ctx =>
    obtain ⟨outcome, houtcome, h⟩ := Checked.bind_eq_ok.mp h
    obtain ⟨result, rfl⟩ := applied_eq_some.mp (Checked.pure_eq_ok.mp h)
    exact .inr (.inr (.inr (.inr ⟨request, ctx, result, rfl, houtcome⟩)))

omit [Serialization] in
theorem Withdrawn.nonce {key : RoyaltyKey} {x y : Nat} (h : p.Withdrawn key x y p') :
    p'.nonce = p.nonce + 1 := by
  have hpool := h.pool
  cases key with
  | first => rw [hpool.2.2]
  | second => rw [hpool.2.2.2]

theorem nonce_le_of_perform (h : p.perform verify op = .ok (some p')) : p.nonce ≤ p'.nonce := by
  obtain ⟨input, -, h⟩ | ⟨request, result, -, h⟩ | ⟨request, result, -, h⟩ |
    ⟨request, fee, result, -, h⟩ | ⟨request, ctx, result, -, h⟩ := perform_cases h
  · obtain ⟨_, -, -, -, -, -, hp⟩ := swap_spec h
    rw [hp]
  · obtain ⟨_, _, _, _, _, -, -, -, rfl⟩ := applyDeposit_royalty h
    exact le_refl _
  · obtain ⟨_, _, -, -, -, -, rfl⟩ := applyRedeem_royalty h
    exact le_refl _
  · obtain ⟨-, -, hwithdrawn, -⟩ := applyRoyaltyWithdraw_spec h
    rw [hwithdrawn.nonce]
    exact Nat.le_succ _
  · obtain ⟨-, -, -, -, next, hnext, -, rfl, -⟩ := applyDaoAction_eq_ok.mp h
    rw [actDao_nonce hnext]
    exact Nat.le_succ _

/-! ### Withdrawals of a history -/

/-- The withdrawals among the operations of a history, with the pool each was run on. -/
def withdrawals (steps : List (RoyaltyPool × RoyaltyOperation)) :
    List (RoyaltyPool × RoyaltyWithdraw) :=
  steps.filterMap fun step =>
    match step.2 with
    | .royaltyWithdraw request _ => some (step.1, request.order)
    | _ => none

/-- The message whose signature the pool accepts. -/
def acceptedMessage (verify : Ed25519PublicKey → Bytes → Ed25519Signature → Bool) (p : RoyaltyPool)
    (order : RoyaltyWithdraw) : Option Bytes :=
  (p.royaltySigner verify order).map fun signer => p.messageToSign order signer.2

/-- A withdrawal has a later nonce than all that were before it. -/
theorem History.nonce_lt {start : RoyaltyPool} (h : History verify start steps p) :
    ∀ withdrawal ∈ withdrawals steps, withdrawal.1.nonce < p.nonce := by
  induction h with
  | start => intro withdrawal hmem; cases hmem
  | @step steps p p' op history performed ih =>
    intro withdrawal hmem
    have hle := nonce_le_of_perform performed
    cases op with
    | royaltyWithdraw request transactionFee =>
      obtain rfl | hmem := List.mem_cons.mp hmem
      · obtain ⟨outcome, houtcome, h⟩ := Checked.bind_eq_ok.mp performed
        obtain ⟨result, rfl⟩ := applied_eq_some.mp (Checked.pure_eq_ok.mp h)
        obtain ⟨-, -, hwithdrawn, -⟩ := applyRoyaltyWithdraw_spec houtcome
        rw [hwithdrawn.nonce]
        exact Nat.lt_succ_self _
      · exact (ih withdrawal hmem).trans_le hle
    | _ => exact (ih withdrawal hmem).trans_le hle

/-- The nonces of the withdrawals of a history grow. -/
theorem History.nonces_pairwise {start : RoyaltyPool} (h : History verify start steps p) :
    (withdrawals steps).Pairwise fun w w' => w'.1.nonce < w.1.nonce := by
  induction h with
  | start => exact List.Pairwise.nil
  | @step steps p p' op history performed ih =>
    cases op with
    | royaltyWithdraw request transactionFee => exact List.Pairwise.cons history.nonce_lt ih
    | _ => exact ih

/-- What is signed along a history can be told apart: no encoding ends with another, no two
encodings have one digest, and no message in one form ends as one in the other. -/
structure Distinguishes (steps : List (RoyaltyPool × RoyaltyOperation)) : Prop where
  encoding : ∀ w ∈ withdrawals steps, ∀ w' ∈ withdrawals steps,
    w.1.signedTail w.2 false <:+ w'.1.signedTail w'.2 false →
      (w.1.royaltyDataToSign w.2).intoPd = (w'.1.royaltyDataToSign w'.2).intoPd
  digest : ∀ w ∈ withdrawals steps, ∀ w' ∈ withdrawals steps,
    w.1.signedTail w.2 true = w'.1.signedTail w'.2 true →
      w.1.signedTail w.2 false = w'.1.signedTail w'.2 false
  form : ∀ w ∈ withdrawals steps, ∀ w' ∈ withdrawals steps,
    ¬ w.1.signedTail w.2 true <:+ w'.1.messageToSign w'.2 false

theorem signedTail_suffix (p : RoyaltyPool) (order : RoyaltyWithdraw) (hashed : Bool) :
    p.signedTail order hashed <:+ p.messageToSign order hashed := List.suffix_append _ _

/-- One message is about one withdrawal from one state of the pool. -/
theorem Distinguishes.data_eq (h : Distinguishes steps) {w w' : RoyaltyPool × RoyaltyWithdraw}
    {hashed hashed' : Bool} (hw : w ∈ withdrawals steps) (hw' : w' ∈ withdrawals steps)
    (hmessage : w.1.messageToSign w.2 hashed = w'.1.messageToSign w'.2 hashed') :
    (w.1.royaltyDataToSign w.2).intoPd = (w'.1.royaltyDataToSign w'.2).intoPd := by
  cases hashed <;> cases hashed'
  · obtain hsuffix | hsuffix := List.suffix_or_suffix_of_suffix
      (signedTail_suffix w.1 w.2 false)
      (hmessage ▸ signedTail_suffix w'.1 w'.2 false)
    · exact h.encoding w hw w' hw' hsuffix
    · exact (h.encoding w' hw' w hw hsuffix).symm
  · exact absurd (hmessage ▸ signedTail_suffix w'.1 w'.2 true) (h.form w' hw' w hw)
  · exact absurd (hmessage ▸ signedTail_suffix w.1 w.2 true) (h.form w hw w' hw')
  · -- Both end with a digest, and digests have one length.
    have htail := (List.append_inj' hmessage (by simp [signedTail])).2
    have hencoding := h.digest w hw w' hw' htail
    exact h.encoding w hw w' hw' (hencoding ▸ List.suffix_rfl)

/-- No message is accepted twice. -/
theorem History.messages_pairwise {start : RoyaltyPool} (h : History verify start steps p)
    (hd : Distinguishes steps) :
    (withdrawals steps).Pairwise fun w w' => ∀ message,
      acceptedMessage verify w.1 w.2 = some message →
        acceptedMessage verify w'.1 w'.2 ≠ some message := by
  refine h.nonces_pairwise.imp_of_mem fun hw hw' hlt message hm hm' => ?_
  obtain ⟨_, -, rfl⟩ := Option.map_eq_some_iff.mp hm
  obtain ⟨_, -, hmessage⟩ := Option.map_eq_some_iff.mp hm'
  exact hlt.ne (DataToSign.nonce_of_intoPd (hd.data_eq hw' hw hmessage))

/-! ### Authorization -/

/-- The data of a withdrawal from exactly this pool. -/
def ownRoyaltyData (p : RoyaltyPool) (order : RoyaltyWithdraw) : DataToSign :=
  ⟨⟨p.id, order.withdrawRoyaltyX, order.withdrawRoyaltyY, order.royaltyPubKeyHash, order.fee⟩,
    p.nonce⟩

/-- A withdrawal signed with the key whose royalties pay for it, and what it pays. -/
structure Paid (verify : Ed25519PublicKey → Bytes → Ed25519Signature → Bool) (p : RoyaltyPool)
    (order : RoyaltyWithdraw) (p' : RoyaltyPool) (result : RoyaltyWithdrawResult) : Prop where
  signed : ∃ message, verify (p.royaltyPubKey result.publicKey) message order.signature ∧
    (Serialization.toCborBytes (p.ownRoyaltyData order).intoPd <:+ message ∨
      (Serialization.blake2b224
        (Serialization.toCborBytes (p.ownRoyaltyData order).intoPd)).toRawBytes <:+ message)
  withdrawn : p.Withdrawn result.publicKey order.withdrawRoyaltyX order.withdrawRoyaltyY p'
  output : result.output = {
    tokenXAsset := p.assetX
    tokenXAmount := order.withdrawRoyaltyX
    tokenYAsset := p.assetY
    tokenYAmount := order.withdrawRoyaltyY
    adaResidue := order.initAdaValue - order.fee
    redeemerPkh := order.royaltyPubKeyHash }

theorem paid_of_apply {request : OnChainRoyaltyWithdraw} {transactionFee : Nat}
    {result : RoyaltyWithdrawResult} (hpool : request.order.poolNft = p.id)
    (h : p.applyRoyaltyWithdraw verify request transactionFee = .ok (.ok (p', result))) :
    p.Paid verify request.order p' result := by
  obtain ⟨-, hverify, hwithdrawn, -, houtput⟩ := applyRoyaltyWithdraw_spec h
  have hdata : p.royaltyDataToSign request.order = p.ownRoyaltyData request.order := by
    rw [royaltyDataToSign, RoyaltyWithdraw.withdrawData, hpool, ownRoyaltyData]
  refine ⟨⟨_, hverify, ?_⟩, hwithdrawn, houtput⟩
  rw [← hdata]
  cases hhashed : result.hashed with
  | false => exact .inl (signedTail_suffix p _ false)
  | true => exact .inr (signedTail_suffix p _ true)

/-- Requests are read without a stop where their ADA covers the fee, and accepted with enough of it;
a withdrawal runs only if it is signed for this pool as it is; and no message is accepted twice. -/
theorem royalty_withdraw_authorization
    (verify : Ed25519PublicKey → Bytes → Ed25519Signature → Bool) :
    (∀ out ctx, (∃ outcome, OnChainRoyaltyWithdraw.tryFromLedger out ctx = .ok outcome) ↔
      ∀ order, RoyaltyWithdraw.read out ctx = some order → order.fee ≤ order.initAdaValue) ∧
    (∀ out ctx request, OnChainRoyaltyWithdraw.tryFromLedger out ctx = .ok (some request) →
      request.order.fee + ctx.minAdaInRoyaltyOutput ≤ out.value.coin) ∧
    (∀ (p : RoyaltyPool) (request : OnChainRoyaltyWithdraw) transactionFee p' result,
      request.order.poolNft = p.id →
      p.applyRoyaltyWithdraw verify request transactionFee = .ok (.ok (p', result)) →
      p.Paid verify request.order p' result) ∧
    ∀ start steps p, History verify start steps p → Distinguishes steps →
      (withdrawals steps).Pairwise fun w w' => ∀ message,
        acceptedMessage verify w.1 w.2 = some message →
          acceptedMessage verify w'.1 w'.2 ≠ some message :=
  ⟨fun _ _ => OnChainRoyaltyWithdraw.isOk_iff, fun _ _ _ => OnChainRoyaltyWithdraw.accepted,
    fun _ _ _ _ _ => paid_of_apply, fun _ _ _ => History.messages_pairwise⟩

end RoyaltyPool

/-! ### Two withdrawals by one owner -/

def sampleOwner : Ed25519PublicKey :=
  ⟨[3, 161, 7, 191, 243, 206, 16, 190, 29, 112, 221, 24, 231, 75, 192, 153, 103, 228, 214, 48, 155,
    165, 13, 95, 29, 220, 134, 100, 18, 85, 49, 184], rfl⟩

/-- What the owner signs for the first and for the second withdrawal. -/
def sampleMessage (nonce : Nat) : Bytes :=
  indefiniteCbor (DataToSign.intoPd
    ⟨⟨sampleToken 1, 1000, 1500, RawBytes.replicate 8, 1000000⟩, nonce⟩)

def sampleSignature : Ed25519Signature :=
  ⟨[104, 207, 108, 105, 197, 113, 152, 177, 226, 12, 63, 52, 62, 231, 150, 227, 250, 202, 122, 201,
    121, 106, 62, 122, 95, 173, 235, 35, 33, 104, 199, 182, 219, 225, 248, 225, 69, 41, 42, 128, 31,
    141, 230, 144, 108, 112, 200, 87, 105, 59, 134, 75, 234, 17, 79, 246, 37, 49, 184, 75, 117, 167,
    68, 0], rfl⟩

def sampleSignature' : Ed25519Signature :=
  ⟨[76, 153, 128, 66, 44, 123, 192, 26, 58, 7, 253, 49, 192, 122, 160, 4, 132, 171, 23, 89, 157, 35,
    45, 129, 184, 122, 30, 241, 228, 146, 16, 248, 150, 23, 9, 233, 49, 145, 83, 137, 230, 76, 105,
    87, 30, 115, 221, 186, 237, 243, 224, 138, 245, 129, 187, 70, 129, 240, 179, 105, 111, 116, 116,
    4], rfl⟩

def sampleVerify (key : Ed25519PublicKey) (message : Bytes) (signature : Ed25519Signature) : Bool :=
  (key, message, signature) ∈ [(sampleOwner, sampleMessage 0, sampleSignature),
    (sampleOwner, sampleMessage 1, sampleSignature')]

def sampleDigest (message : Bytes) : RawBytes 28 :=
  if message = sampleMessage 0 then
    ⟨[21, 130, 94, 33, 179, 144, 13, 127, 212, 246, 230, 148, 192, 62, 48, 129, 70, 111, 72, 112, 4,
      127, 142, 178, 146, 127, 107, 108], rfl⟩
  else
    ⟨[47, 152, 75, 48, 127, 153, 171, 194, 17, 25, 223, 149, 67, 2, 128, 216, 61, 217, 53, 137, 158,
      46, 85, 2, 2, 208, 0, 112], rfl⟩

def sampleWithdrawOutput (coin : UInt64) (fee : Nat) (signature : Ed25519Signature) : TransactionOutput where
  address := .enterprise (.script (RawBytes.replicate 100))
  value := .ofTokens coin []
  datum := some (.datum (.constr 0 [
    .constr 0 [(sampleToken 1).intoPd, .integer 1000, .integer 1500, .bytes (List.replicate 28 8),
      .integer fee],
    .bytes signature.toRawBytes,
    .bytes []]))

def sampleWithdrawContext : RoyaltyWithdrawRequestContext where
  outputRef := ⟨RawBytes.replicate 1, 0⟩
  deployed _ := ⟨RawBytes.replicate 100, ⟨0, 0⟩⟩
  minAdaInRoyaltyOutput := 1000000

def sampleOwned : RoyaltyPool := { sampleRoyalty with firstRoyaltyPubKey := sampleOwner }

/-- The pool after a number of withdrawals. -/
def sampleWithdrawn (n : Nat) : RoyaltyPool := { sampleOwned with
  reservesX := sampleOwned.reservesX - n * 1000
  reservesY := sampleOwned.reservesY - n * 1500
  firstRoyaltyX := sampleOwned.firstRoyaltyX - n * 1000
  firstRoyaltyY := sampleOwned.firstRoyaltyY - n * 1500
  nonce := n }

def sampleWithdrawRequest (signature : Ed25519Signature) : OnChainRoyaltyWithdraw where
  id := ⟨RawBytes.replicate 1, 0⟩
  poolId := sampleToken 1
  order := {
    poolNft := sampleToken 1
    withdrawRoyaltyX := 1000
    withdrawRoyaltyY := 1500
    royaltyPubKeyHash := RawBytes.replicate 8
    fee := 1000000
    signature := signature
    initAdaValue := 3000000
    additionalBytes := []
    orderType := .royaltyConstFnV1 }

def sampleSteps : List (RoyaltyPool × RoyaltyOperation) :=
  [(sampleWithdrawn 1, .royaltyWithdraw (sampleWithdrawRequest sampleSignature') 0),
    (sampleWithdrawn 0, .royaltyWithdraw (sampleWithdrawRequest sampleSignature) 0)]

abbrev sampleSerialization : Serialization := ⟨indefiniteCbor, sampleDigest⟩

theorem sampleSteps_history :
    @RoyaltyPool.History sampleSerialization sampleVerify (sampleWithdrawn 0) sampleSteps
      (sampleWithdrawn 2) := by
  let _ := sampleSerialization
  refine .step (.step .start ?_) ?_
  · rfl
  · rfl

theorem sampleSteps_distinguishes :
    @RoyaltyPool.Distinguishes sampleSerialization sampleSteps := by
  let _ := sampleSerialization
  have hnonce : ∀ w ∈ RoyaltyPool.withdrawals sampleSteps,
      ∀ w' ∈ RoyaltyPool.withdrawals sampleSteps,
      w.1.signedTail w.2 false <:+ w'.1.signedTail w'.2 false → w.1.nonce = w'.1.nonce := by
    decide +kernel
  have hdata : ∀ w ∈ RoyaltyPool.withdrawals sampleSteps, w.1.royaltyDataToSign w.2 =
      ⟨⟨sampleToken 1, 1000, 1500, RawBytes.replicate 8, 1000000⟩, w.1.nonce⟩ := by
    intro w hw
    obtain rfl | hw := List.mem_cons.mp hw
    · rfl
    · cases List.mem_singleton.mp hw
      rfl
  refine ⟨fun w hw w' hw' hsuffix => ?_, by decide +kernel, by decide +kernel⟩
  rw [hdata w hw, hdata w' hw', hnonce w hw w' hw' hsuffix]

theorem royalty_withdraw_authorization_sample :
    (RoyaltyPool.withdrawals sampleSteps).Pairwise fun w w' => ∀ message,
      @RoyaltyPool.acceptedMessage sampleSerialization sampleVerify w.1 w.2 = some message →
        @RoyaltyPool.acceptedMessage sampleSerialization sampleVerify w'.1 w'.2 ≠ some message :=
  (@RoyaltyPool.royalty_withdraw_authorization sampleSerialization sampleVerify).2.2.2 _ _ _
    sampleSteps_history sampleSteps_distinguishes

/-- A fee of two ADA in an output of one stops the parser. -/
theorem withdraw_parser_underflows :
    ¬ ∀ out ctx, ∃ outcome, OnChainRoyaltyWithdraw.tryFromLedger out ctx = .ok outcome := by
  intro h
  obtain ⟨outcome, houtcome⟩ :=
    h (sampleWithdrawOutput 1000000 2000000 sampleSignature) sampleWithdrawContext
  have hstop : OnChainRoyaltyWithdraw.tryFromLedger
      (sampleWithdrawOutput 1000000 2000000 sampleSignature) sampleWithdrawContext =
      .error .underflow := rfl
  rw [hstop] at houtcome
  cases houtcome

end UtxoMonitor.Pools
