import UtxoMonitor.Pools.BalanceDeposits

/-! The change of deposits into stable pools. -/
namespace UtxoMonitor.Pools

open Lib LiquidityBook

/-! ### What a deposit should be refunded -/

/-- Only the asset that was put in beyond the proportion of the reserves is refunded. -/
structure OnlyExcess (reservesX reservesY inX inY changeX changeY : Nat) : Prop where
  x : 0 < changeX → inY * reservesX < inX * reservesY
  y : 0 < changeY → inX * reservesY < inY * reservesX

/-- The excess is refunded: what is kept covers the shares up to `slack` parts of a unit, of which
there are as many as shares, and no more shares would have been covered by what was put in. -/
structure Settles (slack reservesX reservesY liquidity inX inY unlocked changeX changeY : Nat) :
    Prop extends OnlyExcess reservesX reservesY inX inY changeX changeY where
  changeX_le : changeX ≤ inX
  changeY_le : changeY ≤ inY
  coversX : unlocked * reservesX ≤ (inX - changeX) * liquidity + slack
  coversY : unlocked * reservesY ≤ (inY - changeY) * liquidity + slack
  largest : ∀ shares, shares * reservesX ≤ inX * liquidity → shares * reservesY ≤ inY * liquidity →
    shares ≤ unlocked

section

variable [DepositNumerics] {slack reservesX reservesY liquidity inX inY : Nat}

/-- The deposit is settled with its excess. -/
def RefundsExcess (slack reservesX reservesY liquidity inX inY : Nat) : Prop :=
  ∃ unlocked changeX changeY,
    stableCfmmRewardLp reservesX reservesY liquidity inX inY =
      .ok (some (unlocked, changeX, changeY)) ∧
    Settles slack reservesX reservesY liquidity inX inY unlocked changeX changeY

/-- Truncation leaves the lesser number of shares as it is. -/
def LesserFits (reservesX reservesY liquidity inX inY : Nat) : Prop :=
  min (inX * liquidity / reservesX % 2 ^ 64) (inY * liquidity / reservesY % 2 ^ 64) =
    min (inX * liquidity / reservesX) (inY * liquidity / reservesY)

/-- The branch that refunds y is taken for y alone, and its part is rounded within bounds. -/
def ChangeIsOfY (slack reservesX reservesY liquidity inX inY : Nat) : Prop :=
  let minByX := inX * liquidity / reservesX % 2 ^ 64
  let minByY := inY * liquidity / reservesY % 2 ^ 64
  minByX = minByY ∨
  (minByX < minByY ∧ DepositNumerics.depositPart minByX liquidity reservesY ≤ inY ∧
    minByX * reservesY ≤
      DepositNumerics.depositPart minByX liquidity reservesY * liquidity + slack) ∨
  (minByY < minByX ∧ DepositNumerics.depositPart minByY liquidity reservesX = inX)

/-! ### Reward -/

theorem stableCfmmRewardLp_eq (hx : 0 < reservesX) (hy : 0 < reservesY) (hlq : liquidity < 2 ^ 64)
    (hinX : inX < 2 ^ 64) (hinY : inY < 2 ^ 64) {minByX minByY : Nat}
    (hminX : inX * liquidity / reservesX % 2 ^ 64 = minByX)
    (hminY : inY * liquidity / reservesY % 2 ^ 64 = minByY) {unlocked changeX changeY : Nat} :
    stableCfmmRewardLp reservesX reservesY liquidity inX inY =
      .ok (some (unlocked, changeX, changeY)) ↔
    min minByX minByY = unlocked ∧ changeX = 0 ∧
      ((minByX = minByY ∧ changeY = 0) ∨
      (minByX < minByY ∧ DepositNumerics.depositPart minByX liquidity reservesY ≤ inY ∧
        inY - DepositNumerics.depositPart minByX liquidity reservesY = changeY) ∨
      (minByY < minByX ∧ DepositNumerics.depositPart minByY liquidity reservesX ≤ inX ∧
        inX - DepositNumerics.depositPart minByY liquidity reservesX = changeY)) := by
  have hmulX := mul_lt_u128 hinX hlq
  have hmulY := mul_lt_u128 hinY hlq
  simp only [stableCfmmRewardLp, Checked.mul, hmulX, hmulY, if_true, checkedDiv, hx.ne', hy.ne',
    if_false, Checked.bind_eq_ok, Except.ok.injEq, exists_eq_left', hminX, hminY]
  rcases Nat.lt_trichotomy minByX minByY with hlt | rfl | hlt
  · simp only [hlt.ne, hlt, if_false, if_true, hlt.not_gt, false_and, true_and, false_or, or_false,
      Checked.bind_eq_ok, wordOf_eq_ok, Checked.sub_eq_ok, Checked.pure_eq_ok, Option.some.injEq,
      Prod.mk.injEq]
    constructor
    · rintro ⟨_, ⟨-, rfl⟩, _, ⟨hle, rfl⟩, rfl, rfl, rfl⟩
      exact ⟨rfl, rfl, hle, rfl⟩
    · rintro ⟨rfl, rfl, hle, rfl⟩
      exact ⟨_, ⟨hle.trans_lt hinY, rfl⟩, _, ⟨hle, rfl⟩, rfl, rfl, rfl⟩
  · simp only [lt_irrefl, if_true, false_and, true_and, or_false, Checked.pure_eq_ok,
      Option.some.injEq, Prod.mk.injEq]
    constructor
    · rintro ⟨rfl, rfl, rfl⟩
      exact ⟨rfl, rfl, rfl⟩
    · rintro ⟨rfl, rfl, rfl⟩
      exact ⟨rfl, rfl, rfl⟩
  · simp only [hlt.ne', hlt, if_false, hlt.not_gt, false_and, true_and, false_or,
      Checked.bind_eq_ok, wordOf_eq_ok, Checked.sub_eq_ok, Checked.pure_eq_ok, Option.some.injEq,
      Prod.mk.injEq]
    constructor
    · rintro ⟨_, ⟨-, rfl⟩, _, ⟨hle, rfl⟩, rfl, rfl, rfl⟩
      exact ⟨rfl, rfl, hle, rfl⟩
    · rintro ⟨rfl, rfl, hle, rfl⟩
      exact ⟨_, ⟨hle.trans_lt hinX, rfl⟩, _, ⟨hle, rfl⟩, rfl, rfl, rfl⟩

/-! ### When the change is settled -/

omit [DepositNumerics] in
theorem largest_iff (hx : 0 < reservesX) (hy : 0 < reservesY) {unlocked : Nat} :
    (∀ shares, shares * reservesX ≤ inX * liquidity → shares * reservesY ≤ inY * liquidity →
      shares ≤ unlocked) ↔
    min (inX * liquidity / reservesX) (inY * liquidity / reservesY) ≤ unlocked := by
  simp only [← Nat.le_div_iff_mul_le hx, ← Nat.le_div_iff_mul_le hy]
  constructor
  · intro h
    exact h _ (min_le_left _ _) (min_le_right _ _)
  · intro h shares hsharesX hsharesY
    exact (le_min hsharesX hsharesY).trans h

omit [DepositNumerics] in
/-- An asset that is worth more shares was put in beyond the proportion of the reserves. -/
theorem excess_of_shares_lt (hx : 0 < reservesX) (hy : 0 < reservesY)
    (h : inX * liquidity / reservesX < inY * liquidity / reservesY) :
    inX * reservesY < inY * reservesX := by
  have hlt := (Nat.div_lt_iff_lt_mul hx).mp h
  have hle := Nat.div_mul_le_self (inY * liquidity) reservesY
  apply Nat.lt_of_mul_lt_mul_right
  show inX * reservesY * liquidity < inY * reservesX * liquidity
  calc inX * reservesY * liquidity = inX * liquidity * reservesY := by ring
    _ < inY * liquidity / reservesY * reservesX * reservesY := Nat.mul_lt_mul_of_pos_right hlt hy
    _ = inY * liquidity / reservesY * reservesY * reservesX := by ring
    _ ≤ inY * liquidity * reservesX := Nat.mul_le_mul_right _ hle
    _ = inY * reservesX * liquidity := by ring

variable (slack) in
/-- The excess of a deposit is refunded exactly when the number of shares fits and the change that is
given of y is of y. -/
theorem refundsExcess_iff (hx : 0 < reservesX) (hy : 0 < reservesY) (hlq : liquidity < 2 ^ 64)
    (hinX : inX < 2 ^ 64) (hinY : inY < 2 ^ 64) :
    RefundsExcess slack reservesX reservesY liquidity inX inY ↔
      LesserFits reservesX reservesY liquidity inX inY ∧
      ChangeIsOfY slack reservesX reservesY liquidity inX inY := by
  obtain ⟨minByX, hminX⟩ : ∃ n, inX * liquidity / reservesX % 2 ^ 64 = n := ⟨_, rfl⟩
  obtain ⟨minByY, hminY⟩ : ∃ n, inY * liquidity / reservesY % 2 ^ 64 = n := ⟨_, rfl⟩
  have hleX : minByX ≤ inX * liquidity / reservesX := hminX ▸ Nat.mod_le _ _
  have hleY : minByY ≤ inY * liquidity / reservesY := hminY ▸ Nat.mod_le _ _
  have hcoverX := (Nat.le_div_iff_mul_le hx).mp hleX
  have hcoverY := (Nat.le_div_iff_mul_le hy).mp hleY
  have hmin : min minByX minByY ≤
      min (inX * liquidity / reservesX) (inY * liquidity / reservesY) := min_le_min hleX hleY
  simp only [RefundsExcess, LesserFits, ChangeIsOfY, stableCfmmRewardLp_eq hx hy hlq hinX hinY
    hminX hminY, hminX, hminY]
  constructor
  · rintro ⟨_, _, changeY, ⟨rfl, rfl, hchange⟩, hsettles⟩
    have hfits := le_antisymm hmin ((largest_iff hx hy).mp hsettles.largest)
    refine ⟨hfits, ?_⟩
    obtain ⟨heq, -⟩ | ⟨hlt, hle, rfl⟩ | ⟨hlt, hle, rfl⟩ := hchange
    · exact .inl heq
    · refine .inr (.inl ⟨hlt, hle, ?_⟩)
      have hcovers := hsettles.coversY
      rwa [Nat.sub_sub_self hle, min_eq_left hlt.le] at hcovers
    · refine .inr (.inr ⟨hlt, ?_⟩)
      -- x is in excess, so there is nothing to refund of y
      by_contra hne
      have hshares : inY * liquidity / reservesY < inX * liquidity / reservesX := by
        rw [min_eq_right hlt.le] at hfits
        omega
      have hexcess := excess_of_shares_lt hy hx hshares
      have hwrong := hsettles.y (by omega)
      omega
  · rintro ⟨hfits, hchange⟩
    have hlargest := (largest_iff hx hy).mpr hfits.ge
    have hunlockedX : min minByX minByY * reservesX ≤ inX * liquidity + slack :=
      ((Nat.mul_le_mul_right _ (min_le_left _ _)).trans hcoverX).trans (Nat.le_add_right _ _)
    have hunlockedY : min minByX minByY * reservesY ≤ inY * liquidity + slack :=
      ((Nat.mul_le_mul_right _ (min_le_right _ _)).trans hcoverY).trans (Nat.le_add_right _ _)
    obtain heq | ⟨hlt, hle, hcovers⟩ | ⟨hlt, heq⟩ := hchange
    · exact ⟨_, 0, 0, ⟨rfl, rfl, .inl ⟨heq, rfl⟩⟩, ⟨fun h => absurd h (Nat.lt_irrefl 0),
        fun h => absurd h (Nat.lt_irrefl 0)⟩, Nat.zero_le _, Nat.zero_le _, hunlockedX, hunlockedY,
        hlargest⟩
    · refine ⟨_, 0, _, ⟨rfl, rfl, .inr (.inl ⟨hlt, hle, rfl⟩)⟩, ⟨fun h => absurd h
        (Nat.lt_irrefl 0), fun _ => ?_⟩, Nat.zero_le _, Nat.sub_le _ _, hunlockedX, ?_, hlargest⟩
      · have hshares : inX * liquidity / reservesX < inY * liquidity / reservesY := by
          rw [min_eq_left hlt.le] at hfits
          omega
        exact excess_of_shares_lt hx hy hshares
      · rwa [Nat.sub_sub_self hle, min_eq_left hlt.le]
    · refine ⟨_, 0, 0, ⟨rfl, rfl, .inr (.inr ⟨hlt, heq.le, ?_⟩)⟩, ⟨fun h => absurd h
        (Nat.lt_irrefl 0), fun h => absurd h (Nat.lt_irrefl 0)⟩, Nat.zero_le _, Nat.zero_le _,
        hunlockedX, hunlockedY, hlargest⟩
      rw [heq, Nat.sub_self]

end

/-! ### Deposits that are run -/

namespace StablePoolT2T

variable [DepositNumerics] {p : StablePoolT2T} {slack netX netY : Nat}

def pureX (p : StablePoolT2T) : Nat := p.reservesX - p.treasuryX

def pureY (p : StablePoolT2T) : Nat := p.reservesY - p.treasuryY

theorem rewardLp_eq (hx : p.treasuryX ≤ p.reservesX) (hy : p.treasuryY ≤ p.reservesY) :
    p.rewardLp netX netY = stableCfmmRewardLp p.pureX p.pureY p.liquidity netX netY := by
  rw [rewardLp, Checked.sub, if_pos hx, Checked.sub, if_pos hy]
  rfl

/-- The output of a deposit that is run refunds only the asset in excess. -/
def RefundsOnlyExcess (p : StablePoolT2T) (netX netY : Nat) : Prop :=
  ∀ (deposit : ClassicalOnChainDeposit) (p' : StablePoolT2T) (output : DepositOutput),
    deposit.order.net deposit.order.tokenX deposit.order.tokenXAmount = some netX →
    deposit.order.net deposit.order.tokenY deposit.order.tokenYAmount = some netY →
    p.applyDeposit deposit = .ok (.ok (p', output)) →
    OnlyExcess p.pureX p.pureY netX netY output.tokenXChargeAmount output.tokenYChargeAmount

/-- The parts are small enough for the floats and for their quotient to be exact to the unit. -/
@[reducible] def floorDeposits : DepositNumerics where
  depositPart := fun shares liquidity reserves => shares * reserves / liquidity

def samplePool : StablePoolT2T where
  id := sampleToken 1
  an2n := 400
  reservesX := 50001000
  multiplierX := 1
  reservesY := 50000000
  multiplierY := 1
  liquidity := 775807
  assetX := .token (sampleToken 2)
  assetY := .token (sampleToken 4)
  assetLq := .token (sampleToken 3)
  lpFeeX := ⟨500, feeDen⟩
  lpFeeY := ⟨500, feeDen⟩
  treasuryFee := ⟨100, feeDen⟩
  treasuryX := 1000
  treasuryY := 0
  ver := .v1
  marginalCost := ⟨0, 0⟩

/-- A deposit of tokens only. -/
def tokensDeposit (x y : Nat) : ClassicalOnChainDeposit :=
  { ConstFnPool.sampleDeposit with
    order := { ConstFnPool.sampleDeposit.order with
      tokenX := .token (sampleToken 2)
      tokenXAmount := x
      tokenY := .token (sampleToken 4)
      tokenYAmount := y
      orderType := .stableFn } }

end StablePoolT2T

end UtxoMonitor.Pools
