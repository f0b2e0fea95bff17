import UtxoMonitor.Pools.Deposits
import UtxoMonitor.Pools.Product

/-! What the holders of liquidity have in a constant product pool over its whole history. -/
namespace UtxoMonitor.Pools

open Lib LiquidityBook

inductive PoolOperation where
  | swap (input : OnSide Nat)
  | deposit (deposit : ClassicalOnChainDeposit)
  | redeem (redeem : ClassicalOnChainRedeem)

def PoolOperation.isSwap : PoolOperation → Bool
  | swap _ => true
  | _ => false

namespace ConstFnPool

/-- An operation goes through and leaves the pool `pool'`. The amounts of orders are words. -/
def Performs (pool : ConstFnPool) : PoolOperation → ConstFnPool → Prop
  | .swap input, pool' => pool.swap input = .ok pool'
  | .deposit deposit, pool' =>
    deposit.order.Words ∧ ∃ output, pool.applyDeposit deposit = .ok (.ok (pool', output))
  | .redeem redeem, pool' => redeem.order.tokenLqAmount < 2 ^ 64 ∧
    ∃ paid, pool.applyRedeem redeem = .ok (.ok (pool', paid))

/-- The operations of a history, newest first. -/
inductive History (start : ConstFnPool) : List PoolOperation → ConstFnPool → Prop
  | start : History start [] start
  | step {ops : List PoolOperation} {pool pool' : ConstFnPool} {op : PoolOperation}
      (history : History start ops pool) (performs : pool.Performs op pool') :
      History start (op :: ops) pool'

/-- A pool of two assets with its fees in order that can pay what it owes, in words. -/
structure Solvent (pool : ConstFnPool) : Prop where
  covered : pool.Covered
  payable : pool.Payable

/-- Of what belongs to the holders, the product for the square of their liquidity has not fallen. -/
def KeepsValue (pool pool' : ConstFnPool) : Prop :=
  pool.pureX * pool.pureY * pool'.liquidity ^ 2 ≤ pool'.pureX * pool'.pureY * pool.liquidity ^ 2

variable {pool pool' : ConstFnPool} {input : OnSide Nat}

/-! ### Swaps -/

theorem swap_move (h : pool.swap input = .ok pool') : pool'.liquidity = pool.liquidity ∧
    ∃ output, pool.pair.move input output pool.reservesX pool.reservesY =
      .ok (pool'.reservesX, pool'.reservesY) := by
  cases pool with
  | classic p =>
    obtain ⟨next, hnext, h⟩ := Checked.bind_eq_ok.mp h
    cases Checked.pure_eq_ok.mp h
    obtain ⟨output, -, hmove, hp⟩ := ClassicPool.swap_spec hnext
    exact ⟨by rw [hp]; rfl, output, hmove⟩
  | feeSwitch p =>
    obtain ⟨next, hnext, h⟩ := Checked.bind_eq_ok.mp h
    cases Checked.pure_eq_ok.mp h
    obtain ⟨output, -, hmove, -, hp⟩ := FeeSwitchPool.swap_spec hnext
    exact ⟨by rw [hp]; rfl, output, hmove⟩
  | royalty p =>
    obtain ⟨next, hnext, h⟩ := Checked.bind_eq_ok.mp h
    cases Checked.pure_eq_ok.mp h
    obtain ⟨output, -, hmove, -, -, -, hp⟩ := RoyaltyPool.swap_spec hnext
    exact ⟨by rw [hp]; rfl, output, hmove⟩

/-- What comes in with a swap that goes through fits the word of its reserve. -/
theorem reserve_add_lt (htwo : pool.pair.x ≠ pool.pair.y) (h : pool.swap input = .ok pool') :
    pool.pair.given (pool.pair.paid input) pool.reservesX pool.reservesY + input.unwrap <
      2 ^ 64 := by
  obtain ⟨-, output, hmove⟩ := swap_move h
  rw [Pair.given_paid htwo]
  rw [Pair.move_eq_ok] at hmove
  split at hmove <;> rename_i henters
  · rw [if_pos henters]
    exact hmove.1
  · rw [if_neg henters]
    exact hmove.1

theorem Covered.tradesAt (h : pool.Covered)
    (hlt : pool.pair.given (pool.pair.paid input) pool.reservesX pool.reservesY + input.unwrap <
      2 ^ 64) : ∃ feeX feeY parts, pool.TradesAt input feeX feeY parts := by
  cases pool with
  | classic p =>
    obtain ⟨parts, htrades⟩ := tradesAt_classic h.fees
    exact ⟨_, _, parts, htrades⟩
  | feeSwitch p => exact tradesAt_feeSwitch h hlt
  | royalty p =>
    obtain ⟨fee, parts, htrades⟩ := tradesAt_royalty h hlt
    exact ⟨fee, fee, parts, htrades⟩

/-- A swap that goes through leaves the pool solvent, and with no less of the product. -/
theorem Solvent.swap (h : pool.Solvent) (hswap : pool.swap input = .ok pool') :
    pool'.Solvent ∧ pool.KeepsValue pool' := by
  obtain ⟨hcovered, hpayable⟩ := h
  have htwo := hcovered.two
  have howedX := hcovered.owedX
  have howedY := hcovered.owedY
  have hlt := reserve_add_lt htwo hswap
  obtain ⟨hliquidity, -⟩ := swap_move hswap
  obtain ⟨feeX, feeY, parts, htrades⟩ := hcovered.tradesAt hlt
  obtain ⟨⟨output, houtput⟩, hcollected⟩ := htrades.fits pool' hswap
  have hquoteLt : pool.pair.given (pool.pair.paid input) pool.pureY pool.pureX < 2 ^ 64 := by
    unfold Pair.given
    split
    · exact hpayable.pureY_lt
    · exact hpayable.pureX_lt
  obtain ⟨hleOut, hproduct⟩ := product_le_of_output htrades.fee.denom_pos hquoteLt houtput
  have hle : output ≤ pool.pair.given (pool.pair.paid input) pool.reservesY pool.reservesX := by
    refine hleOut.trans ?_
    unfold Pair.given
    split
    · exact Nat.sub_le _ _
    · exact Nat.sub_le _ _
  have hmove := Pair.move_traded htwo hlt hle
  obtain ⟨next, share, hnext, hshare, hpair, hfees, hreserves, howed⟩ :=
    htrades.goes output _ houtput hmove hcollected
  obtain rfl : next = pool' := Except.ok.inj (hnext.symm.trans hswap)
  have hshareLe := le_unwrap_of_share hshare
  have hpure : pool.pair.traded input (input.unwrap - share) output pool.pureX pool.pureY =
      (next.pureX, next.pureY) := by
    refine (Pair.traded_sub_credited hshareLe howedX howedY).trans ?_
    rw [← hreserves, ← howed]
    rfl
  have hkept := Pair.product_le_traded htwo
    (hproduct _ (htrades.fee.traded_le htrades.parts_le hshare))
  rw [hpure] at hkept
  rw [← hreserves, Pair.move_eq_ok] at hmove
  rw [Pair.given_paid htwo] at hleOut
  have hlx := hpayable.reservesX
  have hly := hpayable.reservesY
  have hwords : next.owedX ≤ next.reservesX ∧ next.owedY ≤ next.reservesY ∧
      next.reservesX < 2 ^ 64 ∧ next.reservesY < 2 ^ 64 := by
    unfold Pair.credited at howed
    unfold pureX pureY at hleOut
    split at hmove <;> rename_i henters
    · rw [if_pos henters] at howed hleOut
      obtain ⟨hx, hy⟩ := Prod.mk.inj howed
      omega
    · rw [if_neg henters] at howed hleOut
      obtain ⟨hx, hy⟩ := Prod.mk.inj howed
      omega
  obtain ⟨hx, hy, hxlt, hylt⟩ := hwords
  refine ⟨⟨⟨hpair ▸ htwo, hx, hy, hfees⟩, hx, hy, hxlt, hylt, ?_⟩, ?_⟩
  · exact hliquidity ▸ hpayable.liquidity
  · rw [KeepsValue, hliquidity]
    exact Nat.mul_le_mul_right _ hkept

/-! ### Deposits and redeems -/

theorem Covered.withReserves (h : pool.Covered) {x y lq : Nat} (hx : pool.owedX ≤ x)
    (hy : pool.owedY ≤ y) : (pool.withReserves x y lq).Covered := by
  obtain ⟨htwo, -, -, hfees⟩ := h
  cases pool <;> exact ⟨htwo, hx, hy, hfees⟩

theorem Undiluted.keepsValue (h : pool.Undiluted pool') : pool.KeepsValue pool' := by
  have hmul := Nat.mul_le_mul h.x h.y
  unfold KeepsValue
  calc pool.pureX * pool.pureY * pool'.liquidity ^ 2
      = pool.pureX * pool'.liquidity * (pool.pureY * pool'.liquidity) := by ring
    _ ≤ pool'.pureX * pool.liquidity * (pool'.pureY * pool.liquidity) := hmul
    _ = pool'.pureX * pool'.pureY * pool.liquidity ^ 2 := by ring

theorem Solvent.deposit (h : pool.Solvent) {deposit : ClassicalOnChainDeposit}
    {output : DepositOutput} (hwords : deposit.order.Words)
    (hok : pool.applyDeposit deposit = .ok (.ok (pool', output))) :
    pool'.Solvent ∧ pool.Undiluted pool' := by
  obtain ⟨netX, netY, -, -, -, -, hkept⟩ := h.payable.kept hwords hok
  obtain ⟨_, _, -, -, -, -, -, -, hp⟩ := applyDeposit_spec hok
  refine ⟨⟨?_, hkept.payable⟩, hkept.undiluted⟩
  have hpayable := hkept.payable
  rw [hp]
  rw [hp] at hpayable
  apply h.covered.withReserves
  · simpa using hpayable.owedX
  · simpa using hpayable.owedY

theorem Solvent.redeem (h : pool.Solvent) {redeem : ClassicalOnChainRedeem} {paid : RedeemOutput}
    (hburned : redeem.order.tokenLqAmount < 2 ^ 64)
    (hok : pool.applyRedeem redeem = .ok (.ok (pool', paid))) :
    pool'.Solvent ∧ pool.Undiluted pool' := by
  refine ⟨?_, h.payable.undiluted_redeem hburned hok⟩
  obtain ⟨hcovered, hpayable⟩ := h
  obtain ⟨hpaidX, hpaidY⟩ := hpayable.paid_le hburned hok
  obtain ⟨-, -, -, hle, hp⟩ := applyRedeem_spec hok
  have hpart : ∀ reserves, redeem.order.tokenLqAmount * reserves / pool.liquidity ≤ reserves :=
    fun reserves => Nat.div_le_of_le_mul (Nat.mul_le_mul_right _ hle)
  have hx := hpaidX.trans (hpart _)
  have hy := hpaidY.trans (hpart _)
  have howedX := hpayable.owedX
  have howedY := hpayable.owedY
  have hxlt := hpayable.reservesX
  have hylt := hpayable.reservesY
  have hlq := hpayable.liquidity
  unfold pureX at hx
  unfold pureY at hy
  rw [hp]
  refine ⟨hcovered.withReserves (by omega) (by omega), ?_⟩
  constructor <;> simp only [owedX_withReserves, owedY_withReserves, reservesX_withReserves,
    reservesY_withReserves, liquidity_withReserves] <;> omega

/-- Without any liquidity there is none to deposit for. -/
theorem Solvent.deposit_of_zero (h : pool.Solvent) {deposit : ClassicalOnChainDeposit}
    {output : DepositOutput} (hwords : deposit.order.Words)
    (hok : pool.applyDeposit deposit = .ok (.ok (pool', output))) (hzero : pool.liquidity = 0) :
    pool'.liquidity = 0 := by
  obtain ⟨netX, netY, hnetX, hnetY, hreward, -, -, -, hp⟩ := applyDeposit_spec hok
  have hwordX := (Deposit.net_le hnetX).trans_lt hwords.1
  have hwordY := (Deposit.net_le hnetY).trans_lt hwords.2
  rw [rewardLp_eq h.payable, classicCfmmRewardLp_eq h.payable.liquidity hwordX hwordY,
    Except.ok.injEq, hzero] at hreward
  split at hreward
  · cases hreward
  · simp only [Option.some.injEq, Prod.mk.injEq, Nat.mul_zero, Nat.zero_div, min_self,
      Nat.zero_mod] at hreward
    rw [hp, liquidity_withReserves, ← hreward.1, hzero]

/-! ### Histories -/

theorem KeepsValue.trans {pool'' : ConstFnPool} (h : pool.KeepsValue pool')
    (h' : pool'.KeepsValue pool'') (hzero : pool'.liquidity = 0 → pool''.liquidity = 0) :
    pool.KeepsValue pool'' :=
  price_le_trans h h' fun hsquare => by
    rw [hzero (Nat.pow_eq_zero.mp hsquare).1, zero_pow two_ne_zero]

theorem Undiluted.trans {pool'' : ConstFnPool} (h : pool.Undiluted pool')
    (h' : pool'.Undiluted pool'') (hzero : pool'.liquidity = 0 → pool''.liquidity = 0) :
    pool.Undiluted pool'' :=
  ⟨price_le_trans h.x h'.x hzero, price_le_trans h.y h'.y hzero⟩

/-- What one operation keeps. -/
theorem Solvent.performs (h : pool.Solvent) {op : PoolOperation} (hop : pool.Performs op pool') :
    pool'.Solvent ∧ pool.KeepsValue pool' ∧ (pool.liquidity = 0 → pool'.liquidity = 0) ∧
      (op.isSwap = false → pool.Undiluted pool') := by
  cases op with
  | swap input =>
    obtain ⟨hsolvent, hvalue⟩ := h.swap hop
    refine ⟨hsolvent, hvalue, ?_, fun hno => by cases hno⟩
    rw [(swap_move hop).1]
    exact fun hzero => hzero
  | deposit deposit =>
    obtain ⟨hwords, output, hok⟩ := hop
    obtain ⟨hsolvent, hundiluted⟩ := h.deposit hwords hok
    exact ⟨hsolvent, hundiluted.keepsValue, h.deposit_of_zero hwords hok, fun _ => hundiluted⟩
  | redeem redeem =>
    obtain ⟨hburned, paid, hok⟩ := hop
    obtain ⟨hsolvent, hundiluted⟩ := h.redeem hburned hok
    refine ⟨hsolvent, hundiluted.keepsValue, ?_, fun _ => hundiluted⟩
    obtain ⟨-, -, -, -, hp⟩ := applyRedeem_spec hok
    intro hzero
    rw [hp, liquidity_withReserves, hzero, Nat.zero_sub]

def sampleRedeem (burned : Nat) : ClassicalOnChainRedeem where
  id := ⟨.replicate 1, 0⟩
  poolId := sampleToken 1
  order := {
    poolNft := sampleToken 1
    tokenX := .token (sampleToken 2)
    tokenY := .token (sampleToken 3)
    tokenLq := .token (sampleToken 4)
    tokenLqAmount := burned
    exFee := 1500000
    rewardPkh := .replicate 7
    rewardStakePkh := none
    collateralAda := 3000000
    orderType := .constFn }

def samplePaid (x y : Nat) : RedeemOutput where
  tokenXAsset := .token (sampleToken 2)
  tokenXAmount := x
  tokenYAsset := .token (sampleToken 3)
  tokenYAmount := y
  adaResidue := 3000000
  redeemerPkh := .replicate 7
  redeemerStakePkh := none

theorem solvent_evenPool : (classic (evenPool 1000)).Solvent :=
  have hbounded : (classic (evenPool 1000)).Bounded := bounded_evenPool (by decide) (by decide)
  ⟨hbounded.covered, by decide, by decide, by decide, by decide, by decide⟩

/-- The even pool after a swap of fifty of its first token. -/
def swappedPool : ClassicPool :=
  { evenPool 1000 with reservesX := 1050, reservesY := 953 }

/-- The pool after a redeem of a share. -/
def oncePaidPool : ClassicPool :=
  { evenPool 1000 with reservesX := 1049, reservesY := 953, liquidity := 999 }

/-- The pool after another redeem of two shares. -/
def twicePaidPool : ClassicPool :=
  { evenPool 1000 with reservesX := 1047, reservesY := 952, liquidity := 997 }

/-- The pool after a redeem of three shares. -/
def paidAtOncePool : ClassicPool :=
  { evenPool 1000 with reservesX := 1047, reservesY := 951, liquidity := 997 }

theorem swap_evenPool :
    (classic (evenPool 1000)).swap (.ask 50) = .ok (classic swappedPool) := rfl

theorem redeem_swappedPool : (classic swappedPool).applyRedeem (sampleRedeem 3) =
    .ok (.ok (classic paidAtOncePool, samplePaid 3 2)) := rfl

/-- Redeems that are run one after another: what they burn and pay in all, and the pool they
leave. -/
inductive Redeems (start : ConstFnPool) : Nat → Nat → Nat → ConstFnPool → Prop
  | start : Redeems start 0 0 0 start
  | step {burned x y : Nat} {pool pool' : ConstFnPool} {redeem : ClassicalOnChainRedeem}
      {paid : RedeemOutput} (before : Redeems start burned x y pool)
      (word : redeem.order.tokenLqAmount < 2 ^ 64)
      (runs : pool.applyRedeem redeem = .ok (.ok (pool', paid))) :
      Redeems start (burned + redeem.order.tokenLqAmount) (x + paid.tokenXAmount)
        (y + paid.tokenYAmount) pool'

/-- What redeems have paid is gone from the pool. -/
structure Paid (start : ConstFnPool) (burned x y : Nat) (pool : ConstFnPool) : Prop where
  solvent : pool.Solvent
  undiluted : start.Undiluted pool
  burned_le : burned ≤ start.liquidity
  x_le : x ≤ start.pureX
  y_le : y ≤ start.pureY
  liquidity : pool.liquidity = start.liquidity - burned
  pureX : pool.pureX = start.pureX - x
  pureY : pool.pureY = start.pureY - y

theorem Solvent.paid_le_pure (h : pool.Solvent) {redeem : ClassicalOnChainRedeem}
    {paid : RedeemOutput} (hburned : redeem.order.tokenLqAmount < 2 ^ 64)
    (hok : pool.applyRedeem redeem = .ok (.ok (pool', paid))) :
    paid.tokenXAmount ≤ pool.pureX ∧ paid.tokenYAmount ≤ pool.pureY := by
  obtain ⟨hpaidX, hpaidY⟩ := h.payable.paid_le hburned hok
  obtain ⟨-, -, -, hle, -⟩ := applyRedeem_spec hok
  have hpart : ∀ reserves, redeem.order.tokenLqAmount * reserves / pool.liquidity ≤ reserves :=
    fun reserves => Nat.div_le_of_le_mul (Nat.mul_le_mul_right _ hle)
  exact ⟨hpaidX.trans (hpart _), hpaidY.trans (hpart _)⟩

theorem Redeems.paid {start : ConstFnPool} {burned x y : Nat} (h : start.Redeems burned x y pool)
    (hstart : start.Solvent) : start.Paid burned x y pool := by
  induction h with
  | start =>
    have hzero : ∀ n, 0 ≤ n := Nat.zero_le
    exact ⟨hstart, ⟨le_rfl, le_rfl⟩, hzero _, hzero _, hzero _, rfl, rfl, rfl⟩
  | @step burned x y pool pool' redeem paid before word runs ih =>
    obtain ⟨hsolvent, hundiluted, hburned, hx, hy, hliquidity, hpureX, hpureY⟩ := ih
    obtain ⟨hsolvent', hundiluted'⟩ := hsolvent.redeem word runs
    obtain ⟨hpaidX, hpaidY⟩ := hsolvent.paid_le_pure word runs
    obtain ⟨-, -, -, hle, hp⟩ := applyRedeem_spec runs
    have hleft : pool'.liquidity = pool.liquidity - redeem.order.tokenLqAmount := by
      rw [hp, liquidity_withReserves]
    have hleftX : pool'.pureX = pool.pureX - paid.tokenXAmount := by
      rw [hp, pureX_withReserves, Nat.sub_right_comm]
      rfl
    have hleftY : pool'.pureY = pool.pureY - paid.tokenYAmount := by
      rw [hp, pureY_withReserves, Nat.sub_right_comm]
      rfl
    refine ⟨hsolvent', hundiluted.trans hundiluted' ?_, ?_, ?_, ?_, ?_, ?_, ?_⟩ <;> omega

/-- Redeems one after another pay no more of either asset than a single redeem of all that they
burn. -/
theorem redeems_split {start pool'' : ConstFnPool} {burned x y : Nat}
    {redeem : ClassicalOnChainRedeem} {paid : RedeemOutput} (hstart : start.Solvent)
    (h : start.Redeems burned x y pool)
    (hburned : redeem.order.tokenLqAmount = burned)
    (hok : start.applyRedeem redeem = .ok (.ok (pool'', paid))) :
    x ≤ paid.tokenXAmount ∧ y ≤ paid.tokenYAmount := by
  obtain ⟨-, ⟨hpriceX, hpriceY⟩, hle, hx, hy, hliquidity, hpureX, hpureY⟩ := h.paid hstart
  obtain ⟨hshares, -⟩ := applyRedeem_spec hok
  have hpayable := hstart.payable
  have hword : redeem.order.tokenLqAmount < 2 ^ 64 := by
    have hlq := hpayable.liquidity
    omega
  rw [sharesAmount_eq hpayable, classicCfmmSharesAmount_eq hpayable.pureX_lt hpayable.pureY_lt
    hword, Except.ok.injEq, hburned] at hshares
  split at hshares
  · cases hshares
  · rename_i hnone
    have hpos := Nat.pos_of_ne_zero hnone
    have hpart : ∀ reserves, reserves < 2 ^ 64 →
        burned * reserves / start.liquidity % 2 ^ 64 = burned * reserves / start.liquidity := by
      intro reserves hlt
      apply Nat.mod_eq_of_lt
      exact (Nat.div_le_of_le_mul (Nat.mul_le_mul_right _ hle)).trans_lt hlt
    simp only [hpart _ hpayable.pureX_lt, hpart _ hpayable.pureY_lt, Option.some.injEq,
      Prod.mk.injEq] at hshares
    rw [← hshares.1, ← hshares.2]
    rw [hliquidity, hpureX] at hpriceX
    rw [hliquidity, hpureY] at hpriceY
    exact ⟨paid_le_of_price hpos hle hpriceX hx, paid_le_of_price hpos hle hpriceY hy⟩

/-- Three shares that are redeemed in two parts, and at once. -/
theorem redeems_split_sample : (classic swappedPool).Redeems 3 3 1 (classic twicePaidPool) ∧
    3 ≤ (samplePaid 3 2).tokenXAmount ∧ 1 ≤ (samplePaid 3 2).tokenYAmount := by
  have hfirst : (classic swappedPool).applyRedeem (sampleRedeem 1) =
      .ok (.ok (classic oncePaidPool, samplePaid 1 0)) := rfl
  have hsecond : (classic oncePaidPool).applyRedeem (sampleRedeem 2) =
      .ok (.ok (classic twicePaidPool, samplePaid 2 1)) := rfl
  have hboth := Redeems.step (.step .start (by decide) hfirst) (by decide) hsecond
  have hsolvent := (solvent_evenPool.swap swap_evenPool).1
  exact ⟨hboth, redeems_split hsolvent hboth rfl redeem_swappedPool⟩

end ConstFnPool

end UtxoMonitor.Pools
