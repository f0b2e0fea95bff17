import UtxoMonitor.Pools.Orders
import UtxoMonitor.Pools.Parsing
import UtxoMonitor.Pools.Product

/-! Deposits and redeems of constant product pools are fair to the other holders of liquidity. -/
namespace UtxoMonitor.Pools

open Lib LiquidityBook

/-! ### Shares -/

section Shares

variable {x y lq inX inY burned less : Nat}

/-- The change for shares in excess is part of the amount. -/
theorem excess_le (inX lq x less : Nat) : (inX * lq / x - less) * x / lq ≤ inX := by
  rcases Nat.eq_zero_or_pos lq with rfl | hlq
  · simp
  · refine Nat.div_le_of_le_mul ?_
    calc (inX * lq / x - less) * x ≤ inX * lq / x * x := Nat.mul_le_mul_right _ (Nat.sub_le _ _)
      _ ≤ inX * lq := Nat.div_mul_le_self _ _
      _ = lq * inX := Nat.mul_comm _ _

theorem excess_lt (hin : inX * lq < 2 ^ 128) : (inX * lq / x - less) * x < 2 ^ 128 :=
  ((Nat.mul_le_mul_right _ (Nat.sub_le _ _)).trans (Nat.div_mul_le_self _ _)).trans_lt hin

/-- The shares that a deposit unlocks, as far as a word holds them, and the change of its excess. -/
theorem classicCfmmRewardLp_eq (hlq : lq < 2 ^ 64) (hinX : inX < 2 ^ 64) (hinY : inY < 2 ^ 64) :
    classicCfmmRewardLp x y lq inX inY = .ok (if x = 0 ∨ y = 0 then none else
      some (min (inX * lq / x) (inY * lq / y) % 2 ^ 64,
        (inX * lq / x - inY * lq / y) * x / lq, (inY * lq / y - inX * lq / x) * y / lq)) := by
  have hmulX := mul_lt_u128 hinX hlq
  have hmulY := mul_lt_u128 hinY hlq
  have hexcessX : (inX * lq / x - inY * lq / y) * x < 2 ^ 128 := excess_lt hmulX
  have hexcessY : (inY * lq / y - inX * lq / x) * y < 2 ^ 128 := excess_lt hmulY
  have hchangeX := (excess_le inX lq x (inY * lq / y)).trans_lt hinX
  have hchangeY := (excess_le inY lq y (inX * lq / x)).trans_lt hinY
  refine Checked.bind_eq_ok.mpr ⟨_, Checked.mul_eq_ok.mpr ⟨hmulX, rfl⟩, Checked.bind_eq_ok.mpr
    ⟨_, Checked.mul_eq_ok.mpr ⟨hmulY, rfl⟩, ?_⟩⟩
  by_cases hx : x = 0
  · rw [if_pos (.inl hx)]
    simp [checkedDiv, hx]
  · by_cases hy : y = 0
    · rw [if_pos (.inr hy)]
      simp [checkedDiv, hx, hy]
    · rw [if_neg (not_or.mpr ⟨hx, hy⟩)]
      simp only [checkedDiv, hx, hy, if_false]
      rcases Nat.lt_trichotomy (inX * lq / x) (inY * lq / y) with hlt | heq | hlt
      · rw [if_neg hlt.ne, if_pos hlt, Nat.sub_eq_zero_of_le hlt.le, Nat.min_eq_left hlt.le]
        refine Checked.bind_eq_ok.mpr ⟨_, Checked.mul_eq_ok.mpr ⟨hexcessY, rfl⟩, ?_⟩
        have hlq : lq ≠ 0 := by
          rintro rfl
          simp at hlt
        simpa [hlq] using hchangeY
      · simp [heq]
      · rw [if_neg hlt.ne', if_neg hlt.le.not_gt, Nat.sub_eq_zero_of_le hlt.le,
          Nat.min_eq_right hlt.le]
        refine Checked.bind_eq_ok.mpr ⟨_, Checked.mul_eq_ok.mpr ⟨hexcessX, rfl⟩, ?_⟩
        have hlq : lq ≠ 0 := by
          rintro rfl
          simp at hlt
        simpa [hlq] using hchangeX

/-- The parts of a pool that its liquidity is paid, as far as words hold them. -/
theorem classicCfmmSharesAmount_eq (hx : x < 2 ^ 64) (hy : y < 2 ^ 64) (hburned : burned < 2 ^ 64) :
    classicCfmmSharesAmount x y lq burned = .ok (if lq = 0 then none else
      some (burned * x / lq % 2 ^ 64, burned * y / lq % 2 ^ 64)) := by
  refine Checked.bind_eq_ok.mpr ⟨_, Checked.mul_eq_ok.mpr ⟨mul_lt_u128 hburned hx, rfl⟩,
    Checked.bind_eq_ok.mpr ⟨_, Checked.mul_eq_ok.mpr ⟨mul_lt_u128 hburned hy, rfl⟩, ?_⟩⟩
  by_cases hlq : lq = 0
  · rw [if_pos hlq]
    simp [checkedDiv, hlq]
  · rw [if_neg hlq]
    simp [checkedDiv, hlq]
end Shares

namespace ConstFnPool

def tryFromLedger (repr : TransactionOutput) (ctx : PoolContext) : Checked (Option ConstFnPool) := do
  match ← ClassicPool.tryFromLedger repr ctx with
  | some pool => return some (classic pool)
  | none =>
    match ← FeeSwitchPool.tryFromLedger repr ctx with
    | some pool => return some (feeSwitch pool)
    | none => return (← RoyaltyPool.tryFromLedger repr ctx).map royalty

/-- A pool that can pay what it owes, in words. -/
structure Payable (pool : ConstFnPool) : Prop where
  owedX : pool.owedX ≤ pool.reservesX
  owedY : pool.owedY ≤ pool.reservesY
  reservesX : pool.reservesX < 2 ^ 64
  reservesY : pool.reservesY < 2 ^ 64
  liquidity : pool.liquidity < 2 ^ 64

end ConstFnPool

theorem maxLqCap_sub_lt (n : Nat) : maxLqCap - n < 2 ^ 64 :=
  (Nat.sub_le _ _).trans_lt (by decide)

theorem ClassicPool.payable {repr : TransactionOutput} {ctx : PoolContext} {p : ClassicPool}
    (h : tryFromLedger repr ctx = .ok (some p)) : (ConstFnPool.classic p).Payable := by
  unfold tryFromLedger at h
  split at h
  · unfold ofConfig at h
    split at h
    · rename_i hx hy
      obtain ⟨liquidity, hliquidity, h⟩ := Checked.bind_eq_ok.mp h
      obtain ⟨-, rfl⟩ := Checked.sub_eq_ok.mp hliquidity
      obtain ⟨lpFee, -, h⟩ := Checked.bind_eq_ok.mp h
      cases Checked.pure_eq_ok.mp h
      exact ⟨Nat.zero_le _, Nat.zero_le _, Value.amountOf_lt hx, Value.amountOf_lt hy,
        maxLqCap_sub_lt _⟩
    · cases Checked.pure_eq_ok.mp h
  · cases Checked.pure_eq_ok.mp h

theorem FeeSwitchPool.payable {repr : TransactionOutput} {ctx : PoolContext} {p : FeeSwitchPool}
    (h : tryFromLedger repr ctx = .ok (some p)) : (ConstFnPool.feeSwitch p).Payable := by
  unfold tryFromLedger at h
  split at h
  · split at h
    · unfold ofConfig at h
      split at h
      · rename_i hx hy
        obtain ⟨pureX, hpureX, h⟩ := Checked.bind_eq_ok.mp h
        obtain ⟨pureY, hpureY, h⟩ := Checked.bind_eq_ok.mp h
        split at h
        · split at h
          · obtain ⟨liquidity, hliquidity, h⟩ := Checked.bind_eq_ok.mp h
            obtain ⟨-, rfl⟩ := Checked.sub_eq_ok.mp hliquidity
            cases Checked.pure_eq_ok.mp h
            exact ⟨(Checked.sub_eq_ok.mp hpureX).1, (Checked.sub_eq_ok.mp hpureY).1,
              Value.amountOf_lt hx, Value.amountOf_lt hy, maxLqCap_sub_lt _⟩
          · cases Checked.pure_eq_ok.mp h
        · cases Checked.pure_eq_ok.mp h
      · cases Checked.pure_eq_ok.mp h
    · cases Checked.pure_eq_ok.mp h
  · cases Checked.pure_eq_ok.mp h

theorem RoyaltyPool.payable {repr : TransactionOutput} {ctx : PoolContext} {p : RoyaltyPool}
    (h : tryFromLedger repr ctx = .ok (some p)) : (ConstFnPool.royalty p).Payable := by
  cases hd : draft repr ctx with
  | none =>
    rw [tryFromLedger_of_none hd] at h
    cases Checked.pure_eq_ok.mp h
  | some d =>
    obtain ⟨hver, hconf, hlq, hx, hy⟩ := Draft.read_eq_some.mp hd
    obtain ⟨pd, hpd, hconf⟩ := Option.bind_eq_some_iff.mp hconf
    simp only [tryFromLedger, hver, hpd, hconf] at h
    obtain ⟨howedX, howedY, h⟩ := (ofConfig_eq_ok hlq hx hy).mp h
    split at h
    · obtain ⟨-, -, hp⟩ := build_eq_ok_some h
      rw [hp]
      exact ⟨howedX, howedY, Value.amountOf_lt hx, Value.amountOf_lt hy, maxLqCap_sub_lt _⟩
    · cases h

namespace ConstFnPool

variable {repr : TransactionOutput} {ctx : PoolContext} {pool pool' pool'' : ConstFnPool}
  {deposit : ClassicalOnChainDeposit} {redeem : ClassicalOnChainRedeem} {inX inY burned x y lq : Nat}

theorem payable_of_parsed (h : tryFromLedger repr ctx = .ok (some pool)) : pool.Payable := by
  obtain ⟨first, hfirst, h⟩ := Checked.bind_eq_ok.mp h
  cases first with
  | some p =>
    cases Checked.pure_eq_ok.mp h
    exact ClassicPool.payable hfirst
  | none =>
    obtain ⟨second, hsecond, h⟩ := Checked.bind_eq_ok.mp h
    cases second with
    | some p =>
      cases Checked.pure_eq_ok.mp h
      exact FeeSwitchPool.payable hsecond
    | none =>
      obtain ⟨third, hthird, h⟩ := Checked.bind_eq_ok.mp h
      obtain ⟨p, rfl, rfl⟩ := Option.map_eq_some_iff.mp (Checked.pure_eq_ok.mp h)
      exact RoyaltyPool.payable hthird

/-! ### What the reserves without what is owed give -/

theorem rewardLp_eq (h : pool.Payable) : pool.rewardLp inX inY =
    classicCfmmRewardLp pool.pureX pool.pureY pool.liquidity inX inY := by
  cases pool with
  | classic pool => rfl
  | feeSwitch pool =>
    have howedX : pool.treasuryX ≤ pool.reservesX := h.owedX
    have howedY : pool.treasuryY ≤ pool.reservesY := h.owedY
    show FeeSwitchPool.rewardLp pool inX inY = _
    rw [FeeSwitchPool.rewardLp, Checked.sub, if_pos howedX, Checked.sub, if_pos howedY]
    rfl
  | royalty pool =>
    show RoyaltyPool.rewardLp pool inX inY = _
    rw [RoyaltyPool.rewardLp, RoyaltyPool.pureX_eq_ok.mpr ⟨h.owedX, rfl⟩,
      RoyaltyPool.pureY_eq_ok.mpr ⟨h.owedY, rfl⟩]
    rfl

theorem sharesAmount_eq (h : pool.Payable) : pool.sharesAmount burned =
    classicCfmmSharesAmount pool.pureX pool.pureY pool.liquidity burned := by
  cases pool with
  | classic pool => rfl
  | feeSwitch pool =>
    have howedX : pool.treasuryX ≤ pool.reservesX := h.owedX
    have howedY : pool.treasuryY ≤ pool.reservesY := h.owedY
    show FeeSwitchPool.sharesAmount pool burned = _
    rw [FeeSwitchPool.sharesAmount, Checked.sub, if_pos howedX, Checked.sub, if_pos howedY]
    rfl
  | royalty pool =>
    show RoyaltyPool.sharesAmount pool burned = _
    rw [RoyaltyPool.sharesAmount, RoyaltyPool.pureX_eq_ok.mpr ⟨h.owedX, rfl⟩,
      RoyaltyPool.pureY_eq_ok.mpr ⟨h.owedY, rfl⟩]
    rfl

@[simp] theorem owedX_withReserves : (pool.withReserves x y lq).owedX = pool.owedX := by
  cases pool <;> rfl

@[simp] theorem owedY_withReserves : (pool.withReserves x y lq).owedY = pool.owedY := by
  cases pool <;> rfl

@[simp] theorem pureX_withReserves : (pool.withReserves x y lq).pureX = x - pool.owedX := by
  simp [pureX]

@[simp] theorem pureY_withReserves : (pool.withReserves x y lq).pureY = y - pool.owedY := by
  simp [pureY]

theorem Payable.pureX_lt (h : pool.Payable) : pool.pureX < 2 ^ 64 :=
  (Nat.sub_le _ _).trans_lt h.reservesX

theorem Payable.pureY_lt (h : pool.Payable) : pool.pureY < 2 ^ 64 :=
  (Nat.sub_le _ _).trans_lt h.reservesY

/-! ### Deposits and redeems -/

/-- What is kept of a deposit, besides its change. -/
structure Kept (pool pool' : ConstFnPool) (minted x y : Nat) : Prop where
  pureX : pool'.pureX = pool.pureX + x
  pureY : pool'.pureY = pool.pureY + y
  liquidity : pool'.liquidity = pool.liquidity + minted
  coversX : minted * pool.pureX ≤ x * pool.liquidity
  coversY : minted * pool.pureY ≤ y * pool.liquidity
  payable : pool'.Payable

end ConstFnPool

/-- The amounts of an order are words. -/
def Deposit.Words (order : Deposit) : Prop :=
  order.tokenXAmount < 2 ^ 64 ∧ order.tokenYAmount < 2 ^ 64

theorem Deposit.net_le {order : Deposit} {asset : AssetClass} {amount net : Nat}
    (h : order.net asset amount = some net) : net ≤ amount := by
  unfold Deposit.net at h
  split at h
  · simp only [Option.bind_eq_some_iff, checkedSub_eq_some] at h
    obtain ⟨_, ⟨-, rfl⟩, -, rfl⟩ := h
    omega
  · cases h
    exact le_rfl

namespace ConstFnPool

variable {pool pool' pool'' : ConstFnPool} {deposit : ClassicalOnChainDeposit}
  {redeem : ClassicalOnChainRedeem} {output : DepositOutput} {paid : RedeemOutput}

/-- A deposit that is run keeps of each asset enough for the liquidity it unlocks. -/
theorem Payable.kept (h : pool.Payable) (hwords : deposit.order.Words)
    (hok : pool.applyDeposit deposit = .ok (.ok (pool', output))) : ∃ netX netY,
    deposit.order.net deposit.order.tokenX deposit.order.tokenXAmount = some netX ∧
    deposit.order.net deposit.order.tokenY deposit.order.tokenYAmount = some netY ∧
    output.tokenXChargeAmount ≤ netX ∧ output.tokenYChargeAmount ≤ netY ∧
    pool.Kept pool' output.tokenLqAmount (netX - output.tokenXChargeAmount)
      (netY - output.tokenYChargeAmount) := by
  obtain ⟨netX, netY, hnetX, hnetY, hreward, ⟨hltX, -⟩, ⟨hltY, -⟩, hlt, hp⟩ :=
    applyDeposit_spec hok
  have hwordX := (Deposit.net_le hnetX).trans_lt hwords.1
  have hwordY := (Deposit.net_le hnetY).trans_lt hwords.2
  rw [rewardLp_eq h, classicCfmmRewardLp_eq h.liquidity hwordX hwordY, Except.ok.injEq] at hreward
  split at hreward
  · cases hreward
  · simp only [Option.some.injEq, Prod.mk.injEq] at hreward
    obtain ⟨hminted, hchangeX, hchangeY⟩ := hreward
    have hmintedLe := hminted ▸ Nat.mod_le (min (netX * pool.liquidity / pool.pureX)
      (netY * pool.liquidity / pool.pureY)) (2 ^ 64)
    have hleX := hchangeX ▸ excess_le netX pool.liquidity pool.pureX
      (netY * pool.liquidity / pool.pureY)
    have hleY := hchangeY ▸ excess_le netY pool.liquidity pool.pureY
      (netX * pool.liquidity / pool.pureX)
    refine ⟨netX, netY, hnetX, hnetY, hleX, hleY, ?_⟩
    have howedX := h.owedX
    have howedY := h.owedY
    rw [hp]
    refine ⟨?_, ?_, liquidity_withReserves _ _ _, ?_, ?_, ?_⟩
    · rw [pureX_withReserves, pureX]
      omega
    · rw [pureY_withReserves, pureY]
      omega
    · apply minted_le_of_change ?_ (hmintedLe.trans (min_le_left _ _))
      rw [← hchangeX]
      refine (Nat.div_mul_le_self _ _).trans (Nat.mul_le_mul_right _ ?_)
      exact Nat.sub_le_sub_left (hmintedLe.trans (min_le_right _ _)) _
    · apply minted_le_of_change ?_ (hmintedLe.trans (min_le_right _ _))
      rw [← hchangeY]
      refine (Nat.div_mul_le_self _ _).trans (Nat.mul_le_mul_right _ ?_)
      exact Nat.sub_le_sub_left (hmintedLe.trans (min_le_left _ _)) _
    · refine ⟨?_, ?_, ?_, ?_, ?_⟩ <;> simp only [owedX_withReserves, owedY_withReserves,
        reservesX_withReserves, reservesY_withReserves, liquidity_withReserves] <;> omega

/-- A redeem that is run pays of each asset no more than the part of the liquidity it burns. -/
theorem Payable.paid_le (h : pool.Payable) (hburned : redeem.order.tokenLqAmount < 2 ^ 64)
    (hok : pool.applyRedeem redeem = .ok (.ok (pool', paid))) :
    paid.tokenXAmount ≤ redeem.order.tokenLqAmount * pool.pureX / pool.liquidity ∧
    paid.tokenYAmount ≤ redeem.order.tokenLqAmount * pool.pureY / pool.liquidity := by
  obtain ⟨hshares, -⟩ := applyRedeem_spec hok
  rw [sharesAmount_eq h, classicCfmmSharesAmount_eq h.pureX_lt h.pureY_lt hburned,
    Except.ok.injEq] at hshares
  split at hshares
  · cases hshares
  · simp only [Option.some.injEq, Prod.mk.injEq] at hshares
    exact ⟨hshares.1 ▸ Nat.mod_le _ _, hshares.2 ▸ Nat.mod_le _ _⟩

/-- No less of each asset is in the pool for a share of its liquidity than was before. -/
structure Undiluted (pool pool' : ConstFnPool) : Prop where
  x : pool.pureX * pool'.liquidity ≤ pool'.pureX * pool.liquidity
  y : pool.pureY * pool'.liquidity ≤ pool'.pureY * pool.liquidity

theorem Kept.undiluted {minted x y : Nat} (h : pool.Kept pool' minted x y) :
    pool.Undiluted pool' := by
  obtain ⟨hx, hy, hliquidity, hcoversX, hcoversY, -⟩ := h
  constructor
  · rw [hx, hliquidity]
    exact price_le_of_minted hcoversX
  · rw [hy, hliquidity]
    exact price_le_of_minted hcoversY

theorem Payable.undiluted_redeem (h : pool.Payable) (hburned : redeem.order.tokenLqAmount < 2 ^ 64)
    (hok : pool.applyRedeem redeem = .ok (.ok (pool', paid))) : pool.Undiluted pool' := by
  obtain ⟨hpaidX, hpaidY⟩ := h.paid_le hburned hok
  obtain ⟨-, -, -, hle, hp⟩ := applyRedeem_spec hok
  have hpart : ∀ reserves, redeem.order.tokenLqAmount * reserves / pool.liquidity ≤ reserves :=
    fun reserves => Nat.div_le_of_le_mul (Nat.mul_le_mul_right _ hle)
  have hcover : ∀ {paid reserves : Nat},
      paid ≤ redeem.order.tokenLqAmount * reserves / pool.liquidity →
      paid * pool.liquidity ≤ redeem.order.tokenLqAmount * reserves :=
    fun hpaid => (Nat.mul_le_mul_right _ hpaid).trans (Nat.div_mul_le_self _ _)
  rw [hp]
  constructor
  · rw [liquidity_withReserves, pureX_withReserves, Nat.sub_right_comm]
    exact price_le_of_burned (hcover hpaidX) (hpaidX.trans (hpart _)) hle
  · rw [liquidity_withReserves, pureY_withReserves, Nat.sub_right_comm]
    exact price_le_of_burned (hcover hpaidY) (hpaidY.trans (hpart _)) hle

/-- Neither the arithmetic of a deposit nor that of a redeem stops. -/
theorem Payable.applyDeposit_returns (h : pool.Payable) (hwords : deposit.order.Words) :
    ∃ outcome, pool.applyDeposit deposit = .ok outcome := by
  simp only [applyDeposit]
  split
  · rename_i netX netY hnetX hnetY
    have hwordX := (Deposit.net_le hnetX).trans_lt hwords.1
    have hwordY := (Deposit.net_le hnetY).trans_lt hwords.2
    rw [rewardLp_eq h, classicCfmmRewardLp_eq h.liquidity hwordX hwordY]
    simp only [Checked.bind_eq_ok, Except.ok.injEq, exists_eq_left']
    split
    · split <;> exact ⟨_, rfl⟩
    · exact ⟨_, rfl⟩
  · exact ⟨_, rfl⟩

theorem Payable.applyRedeem_returns (h : pool.Payable)
    (hburned : redeem.order.tokenLqAmount < 2 ^ 64) :
    ∃ outcome, pool.applyRedeem redeem = .ok outcome := by
  simp only [applyRedeem]
  rw [sharesAmount_eq h, classicCfmmSharesAmount_eq h.pureX_lt h.pureY_lt hburned]
  simp only [Checked.bind_eq_ok, Except.ok.injEq, exists_eq_left']
  split
  · split <;> exact ⟨_, rfl⟩
  · exact ⟨_, rfl⟩

/-- A deposit is refused as it is, or it dilutes no one, is not paid back with a profit, and is
computed without truncation as long as the liquidity fits its word. -/
structure FairDeposit (pool : ConstFnPool) (deposit : ClassicalOnChainDeposit) : Prop where
  returns : ∃ outcome, pool.applyDeposit deposit = .ok outcome
  refused : ∀ e, pool.applyDeposit deposit = .ok (.error e) → e = .incompatible deposit
  undiluted : ∀ pool' output, pool.applyDeposit deposit = .ok (.ok (pool', output)) →
    pool.Undiluted pool'
  paidBack : ∀ pool' output, pool.applyDeposit deposit = .ok (.ok (pool', output)) →
    ∃ netX netY,
      deposit.order.net deposit.order.tokenX deposit.order.tokenXAmount = some netX ∧
      deposit.order.net deposit.order.tokenY deposit.order.tokenYAmount = some netY ∧
      ∀ redeem : ClassicalOnChainRedeem, redeem.order.tokenLqAmount = output.tokenLqAmount →
        ∀ pool'' paid, pool'.applyRedeem redeem = .ok (.ok (pool'', paid)) →
          paid.tokenXAmount + output.tokenXChargeAmount ≤ netX ∧
          paid.tokenYAmount + output.tokenYChargeAmount ≤ netY
  exact : ∀ netX netY,
    deposit.order.net deposit.order.tokenX deposit.order.tokenXAmount = some netX →
    deposit.order.net deposit.order.tokenY deposit.order.tokenYAmount = some netY →
    pool.liquidity + min (netX * pool.liquidity / pool.pureX) (netY * pool.liquidity / pool.pureY) <
      2 ^ 64 →
    pool.rewardLp netX netY = .ok (if pool.pureX = 0 ∨ pool.pureY = 0 then none else
      some (min (netX * pool.liquidity / pool.pureX) (netY * pool.liquidity / pool.pureY),
        (netX * pool.liquidity / pool.pureX - netY * pool.liquidity / pool.pureY) * pool.pureX /
          pool.liquidity,
        (netY * pool.liquidity / pool.pureY - netX * pool.liquidity / pool.pureX) * pool.pureY /
          pool.liquidity))

/-- A redeem is refused as it is, or it dilutes no one, and is computed without truncation as long as
it burns no more than there is. -/
structure FairRedeem (pool : ConstFnPool) (redeem : ClassicalOnChainRedeem) : Prop where
  returns : ∃ outcome, pool.applyRedeem redeem = .ok outcome
  refused : ∀ e, pool.applyRedeem redeem = .ok (.error e) → e = .incompatible redeem
  undiluted : ∀ pool' paid, pool.applyRedeem redeem = .ok (.ok (pool', paid)) →
    pool.Undiluted pool'
  exact : redeem.order.tokenLqAmount ≤ pool.liquidity →
    pool.sharesAmount redeem.order.tokenLqAmount = .ok (if pool.liquidity = 0 then none else
      some (redeem.order.tokenLqAmount * pool.pureX / pool.liquidity,
        redeem.order.tokenLqAmount * pool.pureY / pool.liquidity))

theorem Payable.fairDeposit (h : pool.Payable) (hwords : deposit.order.Words) :
    pool.FairDeposit deposit := by
  refine ⟨h.applyDeposit_returns hwords, fun e he => applyDeposit_error he, ?_, ?_, ?_⟩
  · intro pool' output hok
    obtain ⟨_, _, -, -, -, -, hkept⟩ := h.kept hwords hok
    exact hkept.undiluted
  · intro pool' output hok
    obtain ⟨netX, netY, hnetX, hnetY, hleX, hleY, hkept⟩ := h.kept hwords hok
    refine ⟨netX, netY, hnetX, hnetY, ?_⟩
    intro redeem hburned pool'' paid hpaid
    have hlt : redeem.order.tokenLqAmount < 2 ^ 64 := by
      have hlq := hkept.payable.liquidity
      rw [hkept.liquidity] at hlq
      omega
    obtain ⟨hpaidX, hpaidY⟩ := hkept.payable.paid_le hlt hpaid
    rw [hburned, hkept.liquidity, hkept.pureX] at hpaidX
    rw [hburned, hkept.liquidity, hkept.pureY] at hpaidY
    have hbackX := hpaidX.trans (paid_back_le hkept.coversX)
    have hbackY := hpaidY.trans (paid_back_le hkept.coversY)
    omega
  · intro netX netY hnetX hnetY hlt
    have hwordX := (Deposit.net_le hnetX).trans_lt hwords.1
    have hwordY := (Deposit.net_le hnetY).trans_lt hwords.2
    rw [rewardLp_eq h, classicCfmmRewardLp_eq h.liquidity hwordX hwordY,
      Nat.mod_eq_of_lt ((Nat.le_add_left _ _).trans_lt hlt)]

theorem Payable.fairRedeem (h : pool.Payable) (hburned : redeem.order.tokenLqAmount < 2 ^ 64) :
    pool.FairRedeem redeem := by
  refine ⟨h.applyRedeem_returns hburned, fun e he => applyRedeem_error he, ?_, ?_⟩
  · intro pool' paid hok
    exact h.undiluted_redeem hburned hok
  · intro hle
    have hpart : ∀ reserves, redeem.order.tokenLqAmount * reserves / pool.liquidity ≤ reserves :=
      fun reserves => Nat.div_le_of_le_mul (Nat.mul_le_mul_right _ hle)
    rw [sharesAmount_eq h, classicCfmmSharesAmount_eq h.pureX_lt h.pureY_lt hburned,
      Nat.mod_eq_of_lt ((hpart _).trans_lt h.pureX_lt),
      Nat.mod_eq_of_lt ((hpart _).trans_lt h.pureY_lt)]

/-- Deposits and redeems are fair in every pool that the parser accepts. -/
theorem orders_fair {repr : TransactionOutput} {ctx : PoolContext}
    (hparsed : tryFromLedger repr ctx = .ok (some pool)) :
    (∀ deposit : ClassicalOnChainDeposit, deposit.order.Words → pool.FairDeposit deposit) ∧
    ∀ redeem : ClassicalOnChainRedeem, redeem.order.tokenLqAmount < 2 ^ 64 →
      pool.FairRedeem redeem := by
  have hpayable := payable_of_parsed hparsed
  exact ⟨fun _ hwords => hpayable.fairDeposit hwords, fun _ hburned => hpayable.fairRedeem hburned⟩

/-- A pool with a treasury of a thousand lovelace. -/
def sampleTreasuryPool : FeeSwitchPool where
  id := sampleToken 1
  reservesX := 50000000
  reservesY := 7000000
  liquidity := 775807
  assetX := .native
  assetY := .token (sampleToken 2)
  assetLq := .token (sampleToken 3)
  lpFeeX := ⟨99700, feeDen⟩
  lpFeeY := ⟨99700, feeDen⟩
  treasuryFee := ⟨100, feeDen⟩
  treasuryX := 1000
  treasuryY := 0
  lqLowerBound := 0
  ver := .v1
  marginalCost := ⟨0, 0⟩
  bounds := ⟨10000000, 2000000⟩
  nonce := 0
  stakePartScriptHash := none

def sampleDeposit : ClassicalOnChainDeposit where
  id := ⟨.replicate 1, 0⟩
  poolId := sampleToken 1
  order := {
    poolNft := sampleToken 1
    tokenX := .native
    tokenXAmount := 25000000
    tokenY := .token (sampleToken 2)
    tokenYAmount := 700000
    tokenLq := .token (sampleToken 3)
    exFee := 1500000
    rewardPkh := .replicate 7
    rewardStakePkh := none
    collateralAda := 3000000
    orderType := .constFnFeeSwitch }

theorem orders_fair_sample : (ConstFnPool.feeSwitch sampleTreasuryPool).FairDeposit sampleDeposit :=
  (orders_fair (show tryFromLedger (sampleFeeSwitchOutput 100 1000) samplePoolContext =
    .ok (some (feeSwitch sampleTreasuryPool)) by decide +kernel)).1 sampleDeposit (by
      rw [Deposit.Words]
      decide)

end ConstFnPool

end UtxoMonitor.Pools
