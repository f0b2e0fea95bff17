import UtxoMonitor.Pools.Deposits
import UtxoMonitor.Pools.RoyaltyHistory

/-! The accounts of a pool with royalties, whatever happens to it. -/
namespace UtxoMonitor.Pools

open Lib LiquidityBook

/-- The fee as a part of one. -/
def Ratio.value (r : Ratio) : ℚ := r.numer / r.denom

theorem Ratio.Is.value_eq {r : Ratio} {parts : Nat} (h : r.Is parts) :
    r.value = (parts : ℚ) / (feeDen : Nat) := by
  have hdenom : (r.denom : ℚ) ≠ 0 := Nat.cast_ne_zero.mpr h.denom_pos.ne'
  have hparts : ((feeDen : Nat) : ℚ) ≠ 0 := Nat.cast_ne_zero.mpr (by decide)
  rw [Ratio.value, div_eq_div_iff hdenom hparts]
  exact_mod_cast h.numer_mul

/-! ### Trades -/

section

variable {pair : Pair} {input : OnSide Nat} {asset : AssetClass}
  {x y owedX owedY share output quote amount parts : Nat} {feeX feeY : Ratio}

theorem exists_capLovelace_of_ada (hle : quote ≤ y)
    (hada : asset.isNative → untouchableLovelaceAmount ≤ y) :
    ∃ output, capLovelace asset y quote = .ok output := by
  unfold capLovelace
  split
  · rename_i hnative
    rw [Checked.sub, if_pos hle]
    by_cases hleft : y - quote < untouchableLovelaceAmount
    · exact ⟨_, (if_pos hleft).trans (if_pos (hada hnative))⟩
    · exact ⟨_, if_neg hleft⟩
  · exact ⟨_, rfl⟩

/-- The output is computed where its products fit, and there is enough ADA to pay it out of. -/
theorem exists_output (hfee : (pair.given asset feeX feeY).Is parts) (hparts : parts ≤ feeDen)
    (hlt : pair.given asset x y + amount < 2 ^ 64) (hquote : pair.given asset y x < 2 ^ 64)
    (hfits : pair.given asset y x * amount * (pair.given asset feeX feeY).numer < 2 ^ 128)
    (hpos : 0 < pair.given asset x y + amount * (pair.given asset feeX feeY).numer)
    (hada : (pair.given asset pair.y pair.x).isNative →
      untouchableLovelaceAmount ≤ pair.given asset y x) :
    ∃ output, classicCfmmOutputAmount pair x y asset amount feeX feeY = .ok output := by
  have hdenom : pair.given asset x y * (pair.given asset feeX feeY).denom +
      amount * (pair.given asset feeX feeY).numer ≠ 0 := by
    intro hzero
    obtain ⟨hbase, hamount⟩ := Nat.add_eq_zero_iff.mp hzero
    have hbase := (Nat.mul_eq_zero.mp hbase).resolve_right hfee.denom_pos.ne'
    omega
  have hok := cfmmQuoteAmount_eq_ok.mpr ⟨hfits, mul_lt_u128 hquote (show amount < 2 ^ 64 by omega),
    weighted_lt hfee hparts hlt, hdenom, rfl⟩
  have hle := cfmmQuoteAmount_le hok
  obtain ⟨output, hcap⟩ := exists_capLovelace_of_ada hle hada
  rw [← Nat.mod_eq_of_lt (hle.trans_lt hquote)] at hcap
  exact ⟨output, classicCfmmOutputAmount_eq.trans (Checked.bind_eq_ok.mpr ⟨_, hok, hcap⟩)⟩

/-- What is owed after a trade is there. -/
theorem Pair.credited_le_traded (htwo : pair.x ≠ pair.y) (hx : owedX ≤ x) (hy : owedY ≤ y)
    (hshare : share ≤ input.unwrap)
    (houtput : output ≤ pair.given (pair.paid input) (y - owedY) (x - owedX)) :
    (pair.credited input share owedX owedY).1 ≤ (pair.traded input input.unwrap output x y).1 ∧
    (pair.credited input share owedX owedY).2 ≤ (pair.traded input input.unwrap output x y).2 := by
  rw [Pair.given_paid htwo] at houtput
  unfold credited traded
  split
  · rename_i henters
    rw [if_pos henters] at houtput
    dsimp only
    omega
  · rename_i henters
    rw [if_neg henters] at houtput
    dsimp only
    omega

end

namespace ConstFnPool

variable {pool : ConstFnPool} {input : OnSide Nat}

/-- What a trade computes with fits: its input, the product of its quote, its fees. It does not divide
by nothing, and where it pays out ADA there is enough of it. -/
structure Affords (pool : ConstFnPool) (input : OnSide Nat) : Prop where
  input_lt : pool.pair.given (pool.pair.paid input) pool.reservesX pool.reservesY + input.unwrap <
    2 ^ 64
  quote : ∀ fee, pool.tradedFee input = .ok fee →
    pool.pair.given (pool.pair.paid input) pool.pureY pool.pureX * input.unwrap * fee.numer <
      2 ^ 128 ∧
    0 < pool.pair.given (pool.pair.paid input) pool.pureX pool.pureY + input.unwrap * fee.numer
  ada : (pool.pair.given (pool.pair.paid input) pool.pair.y pool.pair.x).isNative →
    untouchableLovelaceAmount ≤ pool.pair.given (pool.pair.paid input) pool.pureY pool.pureX
  fees : ∀ fee ∈ pool.collectedFees, input.unwrap * fee.numer < 2 ^ 64

/-- A trade goes through, holds what it owes, and does not lower the product. -/
theorem TradesAt.covered {feeX feeY : Ratio} {parts : Nat} (h : pool.Covered)
    (hx : pool.reservesX < 2 ^ 64) (hy : pool.reservesY < 2 ^ 64) (hfits : pool.Affords input)
    (htrades : pool.TradesAt input feeX feeY parts) : ∃ pool', pool.swap input = .ok pool' ∧
      pool'.Covered ∧ pool'.reservesX < 2 ^ 64 ∧ pool'.reservesY < 2 ^ 64 ∧
      pool.pureX * pool.pureY ≤ pool'.pureX * pool'.pureY := by
  obtain ⟨htraded, hfee, hparts, -, hgoes⟩ := htrades
  obtain ⟨htwo, howedX, howedY, -⟩ := h
  obtain ⟨hquote, hpos⟩ := hfits.quote _ htraded
  have hltX : pool.pureX < 2 ^ 64 := (Nat.sub_le _ _).trans_lt hx
  have hltY : pool.pureY < 2 ^ 64 := (Nat.sub_le _ _).trans_lt hy
  have hgiven : ∀ {a b a' b' : Nat}, a ≤ a' → b ≤ b' →
      pool.pair.given (pool.pair.paid input) a b ≤
        pool.pair.given (pool.pair.paid input) a' b' := by
    intro a b a' b' ha hb
    unfold Pair.given
    split
    · exact ha
    · exact hb
  have hquoteLt : pool.pair.given (pool.pair.paid input) pool.pureY pool.pureX < 2 ^ 64 := by
    unfold Pair.given
    split
    · exact hltY
    · exact hltX
  have hinput := hfits.input_lt
  have hbase := hgiven (Nat.sub_le pool.reservesX pool.owedX) (Nat.sub_le pool.reservesY pool.owedY)
  obtain ⟨output, hok⟩ := exists_output hfee hparts ((Nat.add_le_add_right hbase _).trans_lt hinput)
    hquoteLt hquote hpos hfits.ada
  obtain ⟨hle, hproduct⟩ := product_le_of_output hfee.denom_pos hquoteLt hok
  have hreserve := hgiven (Nat.sub_le pool.reservesY pool.owedY)
    (Nat.sub_le pool.reservesX pool.owedX)
  have hmove := Pair.move_traded htwo hinput (hle.trans hreserve)
  obtain ⟨pool', share, hswap, hshare, hpair, hfees, hreserves, howed⟩ :=
    hgoes output _ hok hmove hfits.fees
  have hshareLe := le_unwrap_of_share hshare
  have hcredited := Pair.credited_le_traded htwo howedX howedY hshareLe hle
  have hkept := Pair.product_le_traded htwo (hproduct _ (hfee.traded_le hparts hshare))
  have heq : pool.pair.traded input (input.unwrap - share) output (pool.reservesX - pool.owedX)
      (pool.reservesY - pool.owedY) = _ := Pair.traded_sub_credited hshareLe howedX howedY
  rw [pureX, pureY, heq, ← hreserves, ← howed] at hkept
  rw [← hreserves, ← howed] at hcredited
  have hmoved := Pair.move_eq_ok.mp (hmove.trans (congrArg Except.ok hreserves.symm))
  refine ⟨pool', hswap, ⟨hpair ▸ htwo, hcredited.1, hcredited.2, hfees⟩, ?_, ?_, hkept⟩
  · split at hmoved <;> omega
  · split at hmoved <;> omega

/-- A redeem leaves what is owed. -/
theorem Payable.redeemed {pool' : ConstFnPool} {redeem : ClassicalOnChainRedeem}
    {paid : RedeemOutput} (h : pool.Payable) (hburned : redeem.order.tokenLqAmount < 2 ^ 64)
    (hok : pool.applyRedeem redeem = .ok (.ok (pool', paid))) : pool'.Payable := by
  obtain ⟨hpaidX, hpaidY⟩ := h.paid_le hburned hok
  obtain ⟨-, -, -, hle, rfl⟩ := applyRedeem_spec hok
  have hpart : ∀ reserves, redeem.order.tokenLqAmount * reserves / pool.liquidity ≤ reserves :=
    fun reserves => Nat.div_le_of_le_mul (Nat.mul_le_mul_right _ hle)
  have hleX : paid.tokenXAmount ≤ pool.reservesX - pool.owedX := hpaidX.trans (hpart _)
  have hleY : paid.tokenYAmount ≤ pool.reservesY - pool.owedY := hpaidY.trans (hpart _)
  obtain ⟨howedX, howedY, hx, hy, hliquidity⟩ := h
  constructor <;> simp only [owedX_withReserves, owedY_withReserves, reservesX_withReserves,
    reservesY_withReserves, liquidity_withReserves] <;> omega

end ConstFnPool

/-! ### Operations -/

namespace RoyaltyPool

/-- Two assets, amounts in words with what is owed among them, and fees in order. -/
structure Accounted (p : RoyaltyPool) : Prop where
  two : p.assetX ≠ p.assetY
  payable : (ConstFnPool.royalty p).Payable
  fees : (ConstFnPool.royalty p).FeesInOrder

/-- What is left of the reserves to the holders of liquidity. -/
def pureProduct (p : RoyaltyPool) : Nat := (p.reservesX - p.owedX) * (p.reservesY - p.owedY)

variable {p p' next : RoyaltyPool} {input : OnSide Nat} {order : DaoV1Request}

theorem Accounted.covered (h : p.Accounted) : (ConstFnPool.royalty p).Covered :=
  ⟨h.two, h.payable.owedX, h.payable.owedY, h.fees⟩

theorem Accounted.swap (h : p.Accounted) (hfits : (ConstFnPool.royalty p).Affords input) :
    ∃ p', p.swap input = .ok p' ∧ p'.Accounted ∧ p.pureProduct ≤ p'.pureProduct := by
  obtain ⟨fee, parts, htrades⟩ := ConstFnPool.tradesAt_royalty h.covered hfits.input_lt
  obtain ⟨pool', hswap, hcovered, hx, hy, hproduct⟩ :=
    htrades.covered h.covered h.payable.reservesX h.payable.reservesY hfits
  obtain ⟨p', hp', hpool⟩ := Checked.bind_eq_ok.mp hswap
  cases hpool
  obtain ⟨_, -, -, -, -, -, hp⟩ := swap_spec hp'
  have hliquidity : p'.liquidity = p.liquidity := by rw [hp]
  exact ⟨p', hp', ⟨hcovered.two, ⟨hcovered.owedX, hcovered.owedY, hx, hy,
    hliquidity.trans_lt h.payable.liquidity⟩, hcovered.fees⟩, hproduct⟩

theorem Accounted.deposit {request : ClassicalOnChainDeposit} {result : DepositOutput}
    (h : p.Accounted) (hwords : request.order.Words)
    (hok : (ConstFnPool.royalty p).applyDeposit request = .ok (.ok (.royalty p', result))) :
    p'.Accounted := by
  obtain ⟨_, _, -, -, -, -, hkept⟩ := h.payable.kept hwords hok
  have hpayable := hkept.payable
  obtain ⟨_, _, _, _, _, -, -, -, rfl⟩ := applyDeposit_royalty hok
  exact ⟨h.two, hpayable, h.fees⟩

theorem Accounted.redeem {request : ClassicalOnChainRedeem} {result : RedeemOutput}
    (h : p.Accounted) (hburned : request.order.tokenLqAmount < 2 ^ 64)
    (hok : (ConstFnPool.royalty p).applyRedeem request = .ok (.ok (.royalty p', result))) :
    p'.Accounted := by
  have hpayable := h.payable.redeemed hburned hok
  obtain ⟨_, _, -, -, -, -, rfl⟩ := applyRedeem_royalty hok
  exact ⟨h.two, hpayable, h.fees⟩

theorem Accounted.withdrawn {key : RoyaltyKey} {x y : Nat} (h : p.Accounted)
    (hwithdrawn : p.Withdrawn key x y p') : p'.Accounted := by
  obtain ⟨htwo, ⟨howedX, howedY, hx, hy, hliquidity⟩, hfees⟩ := h
  obtain ⟨-, -, hpool⟩ := hwithdrawn
  have howed : p.treasuryX + p.firstRoyaltyX + p.secondRoyaltyX ≤ p.reservesX ∧
      p.treasuryY + p.firstRoyaltyY + p.secondRoyaltyY ≤ p.reservesY := ⟨howedX, howedY⟩
  cases key with
  | first =>
    obtain ⟨hleX, hleY, rfl⟩ := hpool
    refine ⟨htwo, ⟨?_, ?_, (Nat.sub_le _ _).trans_lt hx, (Nat.sub_le _ _).trans_lt hy, hliquidity⟩,
      hfees⟩
    · show p.treasuryX + (p.firstRoyaltyX - x) + p.secondRoyaltyX ≤ p.reservesX - x
      omega
    · show p.treasuryY + (p.firstRoyaltyY - y) + p.secondRoyaltyY ≤ p.reservesY - y
      omega
  | second =>
    obtain ⟨-, hleX, hleY, rfl⟩ := hpool
    refine ⟨htwo, ⟨?_, ?_, (Nat.sub_le _ _).trans_lt hx, (Nat.sub_le _ _).trans_lt hy, hliquidity⟩,
      hfees⟩
    · show p.treasuryX + p.firstRoyaltyX + (p.secondRoyaltyX - x) ≤ p.reservesX - x
      omega
    · show p.treasuryY + p.firstRoyaltyY + (p.secondRoyaltyY - y) ≤ p.reservesY - y
      omega

/-- An action that sets a fee leaves the fees in order. -/
structure KeepsFees (p : RoyaltyPool) (order : DaoV1Request) : Prop where
  treasury : order.daoAction = .changeTreasuryFee →
    (ConstFnPool.royalty { p with treasuryFee := order.treasuryFee }).FeesInOrder
  pool : order.daoAction = .changePoolFee →
    (ConstFnPool.royalty { p with lpFee := order.poolFee }).FeesInOrder

theorem Accounted.acted (h : p.Accounted) (hfees : p.KeepsFees order)
    (hact : p.actDao order = some next) : next.Accounted := by
  obtain ⟨htwo, ⟨howedX, howedY, hx, hy, hliquidity⟩, horder⟩ := h
  have howed : p.treasuryX + p.firstRoyaltyX + p.secondRoyaltyX ≤ p.reservesX ∧
      p.treasuryY + p.firstRoyaltyY + p.secondRoyaltyY ≤ p.reservesY := ⟨howedX, howedY⟩
  unfold actDao at hact
  split at hact
  · split at hact
    · rename_i hrx htx hry hty
      obtain ⟨-, rfl⟩ := checkedSub_eq_some.mp hrx
      obtain ⟨hleX, rfl⟩ := checkedSub_eq_some.mp htx
      obtain ⟨-, rfl⟩ := checkedSub_eq_some.mp hry
      obtain ⟨hleY, rfl⟩ := checkedSub_eq_some.mp hty
      cases hact
      refine ⟨htwo, ⟨?_, ?_, (Nat.sub_le _ _).trans_lt hx, (Nat.sub_le _ _).trans_lt hy,
        hliquidity⟩, horder⟩
      · show p.treasuryX - order.treasuryXAbsDelta + p.firstRoyaltyX + p.secondRoyaltyX ≤
          p.reservesX - order.treasuryXAbsDelta
        omega
      · show p.treasuryY - order.treasuryYAbsDelta + p.firstRoyaltyY + p.secondRoyaltyY ≤
          p.reservesY - order.treasuryYAbsDelta
        omega
    · cases hact
  · cases hact
    exact ⟨htwo, ⟨howedX, howedY, hx, hy, hliquidity⟩, horder⟩
  · rename_i haction
    cases hact
    exact ⟨htwo, ⟨howedX, howedY, hx, hy, hliquidity⟩, hfees.treasury haction⟩
  · cases hact
    exact ⟨htwo, ⟨howedX, howedY, hx, hy, hliquidity⟩, horder⟩
  · cases hact
    exact ⟨htwo, ⟨howedX, howedY, hx, hy, hliquidity⟩, horder⟩
  · rename_i haction
    cases hact
    exact ⟨htwo, ⟨howedX, howedY, hx, hy, hliquidity⟩, hfees.pool haction⟩

/-! ### Histories -/

section

variable [Serialization] {verify : Ed25519PublicKey → Bytes → Ed25519Signature → Bool}
  {steps : List (RoyaltyPool × RoyaltyOperation)} {op : RoyaltyOperation}

/-- A withdrawal that a key has signed and that its royalties cover. -/
def WithdrawRuns (verify : Ed25519PublicKey → Bytes → Ed25519Signature → Bool) (p : RoyaltyPool)
    (order : RoyaltyWithdraw) : Prop :=
  ∃ signer next, p.royaltySigner verify order = some signer ∧
    p.debitRoyalty signer.1 order.withdrawRoyaltyX order.withdrawRoyaltyY = some next

/-- An action that enough keys have signed, and that the pool and the request can pay for. -/
def DaoRuns (verify : Ed25519PublicKey → Bytes → Ed25519Signature → Bool) (p : RoyaltyPool)
    (order : DaoV1Request) (ctx : DaoApplyContext) : Prop :=
  ctx.dao.signatureThreshold ≤ correctSignatures verify order ctx.dao (p.checkedBytes order ctx) ∧
  order.fee ≤ order.lovelace ∧ (p.actDao order).isSome

/-- What an operation has to meet of the pool it is run on. -/
def Admits (verify : Ed25519PublicKey → Bytes → Ed25519Signature → Bool) (p : RoyaltyPool) :
    RoyaltyOperation → Prop
  | .swap input => (ConstFnPool.royalty p).Affords input
  | .deposit request => request.order.Words
  | .redeem request => request.order.tokenLqAmount < 2 ^ 64
  | .royaltyWithdraw request _ => p.WithdrawRuns verify request.order →
    p.nonce + 1 < 2 ^ 64 ∧ request.order.fee ≤ request.order.initAdaValue
  | .daoAction request ctx =>
    request.order.treasuryXAbsDelta ≠ 2 ^ 63 ∧ request.order.treasuryYAbsDelta ≠ 2 ^ 63 ∧
    (p.DaoRuns verify request.order ctx → p.nonce + 1 < 2 ^ 64 ∧ p.KeepsFees request.order)

theorem applyRoyaltyWithdraw_returns {request : OnChainRoyaltyWithdraw} {transactionFee : Nat}
    (h : p.WithdrawRuns verify request.order →
      p.nonce + 1 < 2 ^ 64 ∧ request.order.fee ≤ request.order.initAdaValue) :
    ∃ outcome, p.applyRoyaltyWithdraw verify request transactionFee = .ok outcome := by
  unfold applyRoyaltyWithdraw
  split
  · exact ⟨_, rfl⟩
  · rename_i key hashed hsigner
    split
    · exact ⟨_, rfl⟩
    · rename_i next hnext
      obtain ⟨hnonce, hfee⟩ := h ⟨_, next, hsigner, hnext⟩
      rw [← (debitRoyalty_same hnext).1] at hnonce
      exact ⟨_, Checked.bind_eq_ok.mpr ⟨_, Checked.add_eq_ok.mpr ⟨hnonce, rfl⟩,
        Checked.bind_eq_ok.mpr ⟨_, Checked.sub_eq_ok.mpr ⟨hfee, rfl⟩, rfl⟩⟩⟩

/-- An operation that the pool admits does not stop. -/
theorem Accounted.perform_returns (h : p.Accounted) (hadmits : p.Admits verify op) :
    ∃ outcome, p.perform verify op = .ok outcome := by
  cases op with
  | swap input =>
    obtain ⟨p', hswap, -⟩ := h.swap hadmits
    exact ⟨_, Checked.bind_eq_ok.mpr ⟨p', hswap, rfl⟩⟩
  | deposit request =>
    obtain ⟨outcome, hok⟩ := h.payable.applyDeposit_returns hadmits
    exact ⟨_, Checked.bind_eq_ok.mpr ⟨outcome, hok, rfl⟩⟩
  | redeem request =>
    obtain ⟨outcome, hok⟩ := h.payable.applyRedeem_returns hadmits
    exact ⟨_, Checked.bind_eq_ok.mpr ⟨outcome, hok, rfl⟩⟩
  | royaltyWithdraw request transactionFee =>
    obtain ⟨outcome, hok⟩ := applyRoyaltyWithdraw_returns hadmits
    exact ⟨_, Checked.bind_eq_ok.mpr ⟨outcome, hok, rfl⟩⟩
  | daoAction request ctx =>
    obtain ⟨hdeltaX, hdeltaY, hruns⟩ := hadmits
    obtain ⟨outcome, hok⟩ := applyDaoAction_isOk_iff.mpr ⟨hdeltaX, hdeltaY,
      fun hcorrect hfee next hnext => (actDao_nonce hnext).symm ▸
        (hruns ⟨hcorrect, hfee, hnext ▸ rfl⟩).1⟩
    exact ⟨_, Checked.bind_eq_ok.mpr ⟨outcome, hok, rfl⟩⟩

/-- What one operation keeps. -/
theorem Accounted.performed (h : p.Accounted) (hadmits : p.Admits verify op)
    (hok : p.perform verify op = .ok (some p')) :
    p'.Accounted ∧ ∀ input, op = .swap input → p.pureProduct ≤ p'.pureProduct := by
  obtain ⟨input, rfl, hswap⟩ | ⟨request, result, rfl, happlied⟩ | ⟨request, result, rfl, happlied⟩ |
    ⟨request, fee, result, rfl, happlied⟩ | ⟨request, ctx, result, rfl, happlied⟩ :=
      perform_cases hok
  · obtain ⟨next, hnext, haccounted, hproduct⟩ := h.swap hadmits
    cases hswap.symm.trans hnext
    exact ⟨haccounted, fun _ _ => hproduct⟩
  · exact ⟨h.deposit hadmits happlied, fun _ heq => by cases heq⟩
  · exact ⟨h.redeem hadmits happlied, fun _ heq => by cases heq⟩
  · obtain ⟨-, -, hwithdrawn, -⟩ := applyRoyaltyWithdraw_spec happlied
    exact ⟨h.withdrawn hwithdrawn, fun _ heq => by cases heq⟩
  · obtain ⟨-, -, hcorrect, hfee, next, hnext, -, rfl, -⟩ := applyDaoAction_eq_ok.mp happlied
    obtain ⟨-, hfees⟩ := hadmits.2.2 ⟨hcorrect, hfee, hnext ▸ rfl⟩
    obtain ⟨htwo, hpayable, horder⟩ := h.acted hfees hnext
    obtain ⟨howedX, howedY, hx, hy, hliquidity⟩ := hpayable
    exact ⟨⟨htwo, ⟨howedX, howedY, hx, hy, hliquidity⟩, horder⟩, fun _ heq => by cases heq⟩

theorem History.accounted {start : RoyaltyPool} (hstart : start.Accounted)
    (h : History verify start steps p) (hsteps : ∀ step ∈ steps, step.1.Admits verify step.2) :
    p.Accounted := by
  induction h with
  | start => exact hstart
  | step history performed ih =>
    obtain ⟨hadmits, hsteps⟩ := List.forall_mem_cons.mp hsteps
    exact ((ih hsteps).performed hadmits performed).1

/-- A pool holds what it owes, and its fees leave something to its traders. -/
structure Solvent (p : RoyaltyPool) : Prop where
  x : p.treasuryX + p.firstRoyaltyX + p.secondRoyaltyX ≤ p.reservesX
  y : p.treasuryY + p.firstRoyaltyY + p.secondRoyaltyY ≤ p.reservesY
  fees : p.treasuryFee.value + p.firstRoyaltyFee.value + p.secondRoyaltyFee.value ≤ p.lpFee.value

omit [Serialization] in
theorem Accounted.solvent (h : p.Accounted) : p.Solvent := by
  obtain ⟨lp, treasury, first, second, hlp, htreasury, hfirst, hsecond, hsum, -⟩ := h.fees
  refine ⟨h.payable.owedX, h.payable.owedY, ?_⟩
  rw [hlp.value_eq, htreasury.value_eq, hfirst.value_eq, hsecond.value_eq, ← add_div, ← add_div]
  apply div_le_div_of_nonneg_right _ (Nat.cast_nonneg _)
  exact_mod_cast hsum

/-- Through every history whose operations are admitted by the pools they are run on, a pool stays
solvent, no operation stops that it admits, and no trade lowers the product. -/
theorem accounts_hold {repr : TransactionOutput} {ctx : PoolContext} {start : RoyaltyPool}
    (hparsed : tryFromLedger repr ctx = .ok (some start)) (htwo : start.assetX ≠ start.assetY)
    (hfees : (ConstFnPool.royalty start).FeesInOrder) (h : History verify start steps p)
    (hsteps : ∀ step ∈ steps, step.1.Admits verify step.2) :
    p.Solvent ∧ ∀ op, p.Admits verify op →
      (∃ outcome, p.perform verify op = .ok outcome) ∧
      ∀ input p', op = .swap input → p.perform verify op = .ok (some p') →
        p.pureProduct ≤ p'.pureProduct := by
  have haccounted := h.accounted ⟨htwo, RoyaltyPool.payable hparsed, hfees⟩ hsteps
  refine ⟨haccounted.solvent, fun op hadmits => ⟨haccounted.perform_returns hadmits, ?_⟩⟩
  intro input p' hop hok
  exact (haccounted.performed hadmits hok).2 input hop

end

end RoyaltyPool

/-! ### The pool of a DAO -/

/-- The output that `sampleRoyalty` is read from, with the fee of the treasury to be set. -/
def sampleRoyaltyOutput : TransactionOutput where
  address := .enterprise (.script (RawBytes.replicate 103))
  value := .ofTokens 1000000000 [(sampleToken 1, 1), (sampleToken 2, 2000000000),
    (sampleToken 3, 9223372036853775807)]
  datum := some (.datum (.constr 0 [(sampleToken 1).intoPd, .constr 0 [.bytes [], .bytes []],
    (sampleToken 2).intoPd, (sampleToken 3).intoPd, .integer 99700, .integer 100, .integer 100,
    .integer 50, .integer 5000, .integer 7000, .integer 3000, .integer 4000, .integer 1000,
    .integer 2000, .list [.constr 0 [.constr 1 [.bytes (List.replicate 28 4)]]],
    .bytes (List.replicate 28 5), .bytes (List.replicate 32 6), .bytes (List.replicate 32 7),
    .integer 0]))

def sampleRoyaltyContext : PoolContext where
  deployed script := ⟨RawBytes.replicate (if script = .royaltyPoolV2 then 103 else 8), ⟨0, 0⟩⟩
  bounds := ⟨0, 0⟩

theorem sampleRoyalty_parsed :
    RoyaltyPool.tryFromLedger sampleRoyaltyOutput sampleRoyaltyContext =
      .ok (some sampleRoyalty) := by
  decide +kernel

/-- After one ADA has been sold to it. -/
def sampleRoyaltySold : RoyaltyPool :=
  { sampleRoyalty with
    reservesX := 1001000000, reservesY := 1998012972
    treasuryX := 6000, firstRoyaltyX := 4000, secondRoyaltyX := 1500 }

theorem sampleRoyalty_admits (verify : Ed25519PublicKey → Bytes → Ed25519Signature → Bool) :
    @RoyaltyPool.Admits sampleSerialization verify sampleRoyalty (.swap (.ask 1000000)) := by
  refine ⟨by decide, fun fee hfee => ?_, fun h => (by cases h), by decide⟩
  have hok : (ConstFnPool.royalty sampleRoyalty).tradedFee (.ask 1000000) = .ok ⟨1989, 2000⟩ := by
    decide +kernel
  cases hok.symm.trans hfee
  decide

theorem RoyaltyPool.accounts_hold_sample :
    sampleRoyaltySold.Solvent ∧ ∀ op,
      @RoyaltyPool.Admits sampleSerialization sampleVerify sampleRoyaltySold op →
      (∃ outcome, @RoyaltyPool.perform sampleSerialization sampleVerify sampleRoyaltySold op =
        .ok outcome) ∧
      ∀ input p', op = .swap input →
        @RoyaltyPool.perform sampleSerialization sampleVerify sampleRoyaltySold op = .ok (some p') →
        sampleRoyaltySold.pureProduct ≤ p'.pureProduct := by
  let _ := sampleSerialization
  have hsold : sampleRoyalty.perform sampleVerify (.swap (.ask 1000000)) =
      .ok (some sampleRoyaltySold) := by
    decide +kernel
  refine RoyaltyPool.accounts_hold sampleRoyalty_parsed (by decide)
    ⟨99700, 100, 100, 50, Ratio.is_feeDen _, Ratio.is_feeDen _, Ratio.is_feeDen _,
      Ratio.is_feeDen _, by decide, by decide⟩ (.step .start hsold) ?_
  intro step hstep
  obtain rfl := List.mem_singleton.mp hstep
  exact sampleRoyalty_admits sampleVerify

/-- The treasury's part of two hundred quadrillion units is not computed in a word. -/
theorem treasury_share_overflows :
    ¬ ∀ (_ : Serialization) (verify : Ed25519PublicKey → Bytes → Ed25519Signature → Bool)
      (repr : TransactionOutput) (ctx : PoolContext) (start p : RoyaltyPool)
      (steps : List (RoyaltyPool × RoyaltyOperation)),
      RoyaltyPool.tryFromLedger repr ctx = .ok (some start) → start.History verify steps p →
      p.Solvent ∧ ∀ op, (∃ outcome, p.perform verify op = .ok outcome) ∧
        ∀ input p', op = .swap input → p.perform verify op = .ok (some p') →
          p.pureProduct ≤ p'.pureProduct := by
  intro h
  obtain ⟨-, hops⟩ := h sampleSerialization sampleVerify _ _ _ _ _ sampleRoyalty_parsed
    (@RoyaltyPool.History.start sampleSerialization sampleVerify sampleRoyalty)
  obtain ⟨⟨outcome, hok⟩, -⟩ := hops (.swap (.bid 200000000000000000))
  have hstops : @RoyaltyPool.perform sampleSerialization sampleVerify sampleRoyalty
      (.swap (.bid 200000000000000000)) = .error .overflow := by
    decide +kernel
  cases hstops.symm.trans hok

end UtxoMonitor.Pools
