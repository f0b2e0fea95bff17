import UtxoMonitor.Pools.Deposits

/-! Deposits into balance pools keep the integral part of what belongs to the liquidity they unlock. -/
namespace UtxoMonitor.Pools

open Lib LiquidityBook

namespace BalancePool

def pureX (p : BalancePool) : Nat := p.reservesX - p.treasuryX

def pureY (p : BalancePool) : Nat := p.reservesY - p.treasuryY

variable {p p' : BalancePool} {deposit : ClassicalOnChainDeposit}
  {redeem : ClassicalOnChainRedeem} {output : DepositOutput} {paid : RedeemOutput}
  {inX inY unlocked changeX changeY : Nat}

/-- The liquidity is covered by both amounts, and the change is what they exceed its part by. -/
theorem rewardLp_spec (hinX : inX < 2 ^ 64) (hinY : inY < 2 ^ 64) (hlq : p.liquidity < 2 ^ 64)
    (h : p.rewardLp inX inY = .ok (some (unlocked, changeX, changeY))) :
    (p.treasuryX ≤ p.reservesX ∧ p.treasuryY ≤ p.reservesY) ∧ 0 < p.liquidity ∧
    unlocked ≤ inX * p.liquidity / p.pureX ∧ unlocked ≤ inY * p.liquidity / p.pureY ∧
    inX - unlocked * p.pureX / p.liquidity = changeX ∧
    inY - unlocked * p.pureY / p.liquidity = changeY := by
  simp only [rewardLp, Checked.bind_eq_ok, Checked.sub_eq_ok] at h
  obtain ⟨_, ⟨howedX, rfl⟩, _, ⟨howedY, rfl⟩, reward, hreward, h⟩ := h
  rw [classicCfmmRewardLp_eq hlq hinX hinY, Except.ok.injEq] at hreward
  split at hreward
  · subst hreward
    cases Checked.pure_eq_ok.mp h
  · subst hreward
    simp only [Checked.bind_eq_ok, Checked.mul_eq_ok, Checked.div_eq_ok, Checked.sub_eq_ok,
      Checked.pure_eq_ok, Option.some.injEq, Prod.mk.injEq] at h
    obtain ⟨_, ⟨-, rfl⟩, _, ⟨hne, rfl⟩, _, ⟨-, rfl⟩, _, ⟨-, rfl⟩, _, ⟨-, rfl⟩, _, ⟨-, rfl⟩, rfl,
      rfl, rfl⟩ := h
    have hmod := Nat.mod_le (min (inX * p.liquidity / (p.reservesX - p.treasuryX))
      (inY * p.liquidity / (p.reservesY - p.treasuryY))) (2 ^ 64)
    have hleX := hmod.trans (min_le_left _ _)
    have hleY := hmod.trans (min_le_right _ _)
    refine ⟨⟨howedX, howedY⟩, Nat.pos_of_ne_zero hne, hleX, hleY, ?_, ?_⟩
    · rw [Nat.mod_eq_of_lt ((part_le hleX).trans_lt hinX), pureX]
    · rw [Nat.mod_eq_of_lt ((part_le hleY).trans_lt hinY), pureY]

/-- What a redeem that is run pays, at most. -/
theorem applyRedeem_le (hx : p.reservesX < 2 ^ 64) (hy : p.reservesY < 2 ^ 64)
    (hburned : redeem.order.tokenLqAmount < 2 ^ 64)
    (h : p.applyRedeem redeem = .ok (.ok (p', paid))) :
    paid.tokenXAmount ≤ redeem.order.tokenLqAmount * p.pureX / p.liquidity ∧
    paid.tokenYAmount ≤ redeem.order.tokenLqAmount * p.pureY / p.liquidity := by
  obtain ⟨hshares, -⟩ := redeemFrom_spec h
  simp only [sharesAmount, Checked.bind_eq_ok, Checked.sub_eq_ok] at hshares
  obtain ⟨_, ⟨-, rfl⟩, _, ⟨-, rfl⟩, hshares⟩ := hshares
  have hltX : p.pureX < 2 ^ 64 := (Nat.sub_le _ _).trans_lt hx
  have hltY : p.pureY < 2 ^ 64 := (Nat.sub_le _ _).trans_lt hy
  rw [show p.reservesX - p.treasuryX = p.pureX from rfl,
    show p.reservesY - p.treasuryY = p.pureY from rfl,
    classicCfmmSharesAmount_eq hltX hltY hburned, Except.ok.injEq] at hshares
  split at hshares
  · cases hshares
  · simp only [Option.some.injEq, Prod.mk.injEq] at hshares
    exact ⟨hshares.1 ▸ Nat.mod_le _ _, hshares.2 ▸ Nat.mod_le _ _⟩

/-- A deposit keeps of each asset the integral part of what belongs to the liquidity it unlocks, its
change is within what was put in, and the liquidity is paid back no more than what was kept. -/
structure RoundedDeposit (p p' : BalancePool) (output : DepositOutput) (netX netY : Nat) :
    Prop where
  changeX : output.tokenXChargeAmount ≤ netX
  changeY : output.tokenYChargeAmount ≤ netY
  keptX : netX - output.tokenXChargeAmount = output.tokenLqAmount * p.pureX / p.liquidity
  keptY : netY - output.tokenYChargeAmount = output.tokenLqAmount * p.pureY / p.liquidity
  reservesX : p'.reservesX = p.reservesX + (netX - output.tokenXChargeAmount)
  reservesY : p'.reservesY = p.reservesY + (netY - output.tokenYChargeAmount)
  liquidity : p'.liquidity = p.liquidity + output.tokenLqAmount
  paidBack : ∀ redeem : ClassicalOnChainRedeem,
    redeem.order.tokenLqAmount = output.tokenLqAmount →
    ∀ p'' paid, p'.applyRedeem redeem = .ok (.ok (p'', paid)) →
      paid.tokenXAmount ≤ netX - output.tokenXChargeAmount ∧
      paid.tokenYAmount ≤ netY - output.tokenYChargeAmount

/-- Every deposit that is run is rounded to the integral parts. -/
theorem deposit_rounded (h : p.applyDeposit deposit = .ok (.ok (p', output))) : ∃ netX netY,
    deposit.order.net deposit.order.tokenX deposit.order.tokenXAmount = some netX ∧
    deposit.order.net deposit.order.tokenY deposit.order.tokenYAmount = some netY ∧
    p.RoundedDeposit p' output netX netY := by
  obtain ⟨netX, netY, hnetX, hnetY, hreward, ⟨hltX, -⟩, ⟨hltY, -⟩, hlt, hp⟩ := depositInto_spec h
  obtain ⟨⟨howedX, howedY⟩, hpos, hleX, hleY, hchangeX, hchangeY⟩ :=
    rewardLp_spec (by omega) (by omega) (by omega) hreward
  have hchargeX : output.tokenXChargeAmount ≤ netX := hchangeX ▸ Nat.sub_le _ _
  have hchargeY : output.tokenYChargeAmount ≤ netY := hchangeY ▸ Nat.sub_le _ _
  have hkeptX : netX - output.tokenXChargeAmount =
      output.tokenLqAmount * p.pureX / p.liquidity := by
    rw [← hchangeX, Nat.sub_sub_self (part_le hleX)]
  have hkeptY : netY - output.tokenYChargeAmount =
      output.tokenLqAmount * p.pureY / p.liquidity := by
    rw [← hchangeY, Nat.sub_sub_self (part_le hleY)]
  have hx : p'.reservesX = p.reservesX + (netX - output.tokenXChargeAmount) := by
    rw [hp]
    show p.reservesX + netX - output.tokenXChargeAmount = _
    omega
  have hy : p'.reservesY = p.reservesY + (netY - output.tokenYChargeAmount) := by
    rw [hp]
    show p.reservesY + netY - output.tokenYChargeAmount = _
    omega
  have hlq : p'.liquidity = p.liquidity + output.tokenLqAmount := by rw [hp]
  have hpureX : p'.pureX = p.pureX + output.tokenLqAmount * p.pureX / p.liquidity := by
    have htreasury : p'.treasuryX = p.treasuryX := by rw [hp]
    rw [← hkeptX, pureX, pureX, hx, htreasury]
    omega
  have hpureY : p'.pureY = p.pureY + output.tokenLqAmount * p.pureY / p.liquidity := by
    have htreasury : p'.treasuryY = p.treasuryY := by rw [hp]
    rw [← hkeptY, pureY, pureY, hy, htreasury]
    omega
  refine ⟨netX, netY, hnetX, hnetY, hchargeX, hchargeY, hkeptX, hkeptY, hx, hy, hlq, ?_⟩
  intro redeem hburned p'' paid hpaid
  obtain ⟨hpaidX, hpaidY⟩ := applyRedeem_le (by omega) (by omega) (by omega) hpaid
  rw [hburned, hlq, hpureX] at hpaidX
  rw [hburned, hlq, hpureY] at hpaidY
  rw [hkeptX, hkeptY]
  exact ⟨hpaidX.trans (part_paid_back_le hpos), hpaidY.trans (part_paid_back_le hpos)⟩

def samplePool : BalancePool where
  id := sampleToken 1
  reservesX := 50000000
  weightX := adaWeight
  reservesY := 7000000
  weightY := tokenWeight
  liquidity := 775807
  assetX := .native
  assetY := .token (sampleToken 2)
  assetLq := .token (sampleToken 3)
  lpFeeX := ⟨99700, feeDen⟩
  lpFeeY := ⟨99700, feeDen⟩
  treasuryFee := ⟨100, feeDen⟩
  treasuryX := 1000
  treasuryY := 0
  ver := .v1
  marginalCost := ⟨0, 0⟩
  minPoolLovelace := 10000000

/-- The pool and the output after the deposit, of which 20.5 ADA are left for the pool. -/
def sampleDeposited : BalancePool :=
  { samplePool with reservesX := 54999854, reservesY := 7699993, liquidity := 853387 }

def sampleDepositOutput : DepositOutput where
  tokenXAsset := .native
  tokenXChargeAmount := 15500146
  tokenYAsset := .token (sampleToken 2)
  tokenYChargeAmount := 7
  tokenLqAsset := .token (sampleToken 3)
  tokenLqAmount := 77580
  adaResidue := 3000000
  redeemerPkh := .replicate 7
  redeemerStakePkh := none

theorem deposit_rounded_sample : ∃ netX netY,
    ConstFnPool.sampleDeposit.order.net .native 25000000 = some netX ∧
    ConstFnPool.sampleDeposit.order.net (.token (sampleToken 2)) 700000 = some netY ∧
    samplePool.RoundedDeposit sampleDeposited sampleDepositOutput netX netY :=
  deposit_rounded (show samplePool.applyDeposit ConstFnPool.sampleDeposit =
    .ok (.ok (sampleDeposited, sampleDepositOutput)) from rfl)

/-- The fraction of a unit that is rounded away is not kept, and the other holders lose it. -/
theorem deposit_dilutes :
    samplePool.applyDeposit ConstFnPool.sampleDeposit =
      .ok (.ok (sampleDeposited, sampleDepositOutput)) ∧
    ConstFnPool.sampleDeposit.order.net .native 25000000 = some 20500000 ∧
    ¬ sampleDepositOutput.tokenLqAmount * samplePool.pureX ≤
      (20500000 - sampleDepositOutput.tokenXChargeAmount) * samplePool.liquidity ∧
    ¬ samplePool.pureX * sampleDeposited.liquidity ≤
      sampleDeposited.pureX * samplePool.liquidity :=
  ⟨rfl, rfl, by decide, by decide⟩

end BalancePool

end UtxoMonitor.Pools
