import UtxoMonitor.Pools.AnyPool
import UtxoMonitor.Pools.Ledger

/-! Orders that are run against a pool alone: deposits and redeems. -/
namespace UtxoMonitor.Pools

open Lib LiquidityBook

inductive OrderType where
  | balanceFn
  | constFnFeeSwitch
  | constFn
  | stableFn
  | royaltyConstFnV1
  | royaltyConstFnV2
deriving DecidableEq

abbrev OnChainOrderId := OutputRef

structure ClassicalOrder (Ord : Type) where
  id : OnChainOrderId
  poolId : PoolId
  order : Ord

/-- Why an order is not run, with the order. -/
inductive ApplyOrderError (Order : Type) where
  | incompatible (order : Order)
  | verificationFailed (order : Order) (description : String)

abbrev Applied (Order A : Type) := Except (ApplyOrderError Order) A

def checkedAdd (a b : Nat) : Option Nat := if a + b < 2 ^ 64 then some (a + b) else none

def checkedSub (a b : Nat) : Option Nat := if b ≤ a then some (a - b) else none

theorem checkedAdd_eq_some {a b c : Nat} :
    checkedAdd a b = some c ↔ a + b < 2 ^ 64 ∧ a + b = c := by
  simp [checkedAdd]

theorem checkedSub_eq_some {a b c : Nat} : checkedSub a b = some c ↔ b ≤ a ∧ a - b = c := by
  simp [checkedSub]

/-! ### Deposits -/

structure Deposit where
  poolNft : PoolId
  tokenX : AssetClass
  tokenXAmount : Nat
  tokenY : AssetClass
  tokenYAmount : Nat
  tokenLq : AssetClass
  exFee : Nat
  rewardPkh : Ed25519KeyHash
  rewardStakePkh : Option Ed25519KeyHash
  collateralAda : Nat
  orderType : OrderType

abbrev ClassicalOnChainDeposit := ClassicalOrder Deposit

structure DepositOutput where
  tokenXAsset : AssetClass
  tokenXChargeAmount : Nat
  tokenYAsset : AssetClass
  tokenYChargeAmount : Nat
  tokenLqAsset : AssetClass
  tokenLqAmount : Nat
  adaResidue : Nat
  redeemerPkh : Ed25519KeyHash
  redeemerStakePkh : Option Ed25519KeyHash

/-- What is deposited of an asset: ADA pays the fee and the collateral first. -/
def Deposit.net (order : Deposit) (asset : AssetClass) (amount : Nat) : Option Nat :=
  if asset.isNative then
    (checkedSub amount order.exFee).bind fun result => checkedSub result order.collateralAda
  else some amount

/-! ### Redeems -/

structure Redeem where
  poolNft : PoolId
  tokenX : AssetClass
  tokenY : AssetClass
  tokenLq : AssetClass
  tokenLqAmount : Nat
  exFee : Nat
  rewardPkh : Ed25519KeyHash
  rewardStakePkh : Option Ed25519KeyHash
  collateralAda : Nat
  orderType : OrderType

abbrev ClassicalOnChainRedeem := ClassicalOrder Redeem

structure RedeemOutput where
  tokenXAsset : AssetClass
  tokenXAmount : Nat
  tokenYAsset : AssetClass
  tokenYAmount : Nat
  adaResidue : Nat
  redeemerPkh : Ed25519KeyHash
  redeemerStakePkh : Option Ed25519KeyHash

/-! ### Orders against reserves -/

section

variable {P : Type}

/-- What is deposited, besides the change, is added to the reserves. -/
def depositInto (reservesX reservesY liquidity : Nat)
    (rewardLp : Nat → Nat → Checked (Option (Nat × Nat × Nat)))
    (withReserves : Nat → Nat → Nat → P) (deposit : ClassicalOnChainDeposit) :
    Checked (Applied ClassicalOnChainDeposit (P × DepositOutput)) :=
  let order := deposit.order
  match order.net order.tokenX order.tokenXAmount, order.net order.tokenY order.tokenYAmount with
  | some netX, some netY => do
    match ← rewardLp netX netY with
    | some (unlockedLq, changeX, changeY) =>
      match (checkedAdd reservesX netX).bind fun result => checkedSub result changeX,
        (checkedAdd reservesY netY).bind fun result => checkedSub result changeY,
        checkedAdd liquidity unlockedLq with
      | some x, some y, some lq =>
        return .ok (withReserves x y lq, {
          tokenXAsset := order.tokenX
          tokenXChargeAmount := changeX
          tokenYAsset := order.tokenY
          tokenYChargeAmount := changeY
          tokenLqAsset := order.tokenLq
          tokenLqAmount := unlockedLq
          adaResidue := order.collateralAda
          redeemerPkh := order.rewardPkh
          redeemerStakePkh := order.rewardStakePkh })
      | _, _, _ => return .error (.incompatible deposit)
    | none => return .error (.incompatible deposit)
  | _, _ => return .error (.incompatible deposit)

/-- What is paid for the burned liquidity is taken out of the reserves. -/
def redeemFrom (reservesX reservesY liquidity : Nat)
    (sharesAmount : Nat → Checked (Option (Nat × Nat))) (withReserves : Nat → Nat → Nat → P)
    (redeem : ClassicalOnChainRedeem) :
    Checked (Applied ClassicalOnChainRedeem (P × RedeemOutput)) := do
  let order := redeem.order
  match ← sharesAmount order.tokenLqAmount with
  | some (xAmount, yAmount) =>
    match checkedSub reservesX xAmount, checkedSub reservesY yAmount,
      checkedSub liquidity order.tokenLqAmount with
    | some x, some y, some lq =>
      return .ok (withReserves x y lq, {
        tokenXAsset := order.tokenX
        tokenXAmount := xAmount
        tokenYAsset := order.tokenY
        tokenYAmount := yAmount
        adaResidue := order.collateralAda
        redeemerPkh := order.rewardPkh
        redeemerStakePkh := order.rewardStakePkh })
    | _, _, _ => return .error (.incompatible redeem)
  | none => return .error (.incompatible redeem)

variable {reservesX reservesY liquidity : Nat}
  {rewardLp : Nat → Nat → Checked (Option (Nat × Nat × Nat))}
  {sharesAmount : Nat → Checked (Option (Nat × Nat))} {withReserves : Nat → Nat → Nat → P}
  {deposit : ClassicalOnChainDeposit} {redeem : ClassicalOnChainRedeem} {p' : P}

theorem depositInto_spec {output : DepositOutput}
    (h : depositInto reservesX reservesY liquidity rewardLp withReserves deposit =
      .ok (.ok (p', output))) : ∃ netX netY,
    deposit.order.net deposit.order.tokenX deposit.order.tokenXAmount = some netX ∧
    deposit.order.net deposit.order.tokenY deposit.order.tokenYAmount = some netY ∧
    rewardLp netX netY = .ok (some (output.tokenLqAmount, output.tokenXChargeAmount,
      output.tokenYChargeAmount)) ∧
    (reservesX + netX < 2 ^ 64 ∧ output.tokenXChargeAmount ≤ reservesX + netX) ∧
    (reservesY + netY < 2 ^ 64 ∧ output.tokenYChargeAmount ≤ reservesY + netY) ∧
    liquidity + output.tokenLqAmount < 2 ^ 64 ∧
    p' = withReserves (reservesX + netX - output.tokenXChargeAmount)
      (reservesY + netY - output.tokenYChargeAmount) (liquidity + output.tokenLqAmount) := by
  simp only [depositInto] at h
  split at h
  · rename_i netX netY hnetX hnetY
    obtain ⟨reward, hreward, h⟩ := Checked.bind_eq_ok.mp h
    split at h
    · split at h
      · rename_i hx hy hlq
        cases Checked.pure_eq_ok.mp h
        simp only [Option.bind_eq_some_iff, checkedAdd_eq_some, checkedSub_eq_some] at hx hy hlq
        obtain ⟨_, ⟨hltX, rfl⟩, hchangeX, rfl⟩ := hx
        obtain ⟨_, ⟨hltY, rfl⟩, hchangeY, rfl⟩ := hy
        obtain ⟨hlt, rfl⟩ := hlq
        exact ⟨netX, netY, hnetX, hnetY, hreward, ⟨hltX, hchangeX⟩, ⟨hltY, hchangeY⟩, hlt, rfl⟩
      · cases Checked.pure_eq_ok.mp h
    · cases Checked.pure_eq_ok.mp h
  · cases Checked.pure_eq_ok.mp h

theorem redeemFrom_spec {output : RedeemOutput}
    (h : redeemFrom reservesX reservesY liquidity sharesAmount withReserves redeem =
      .ok (.ok (p', output))) :
    sharesAmount redeem.order.tokenLqAmount =
      .ok (some (output.tokenXAmount, output.tokenYAmount)) ∧
    output.tokenXAmount ≤ reservesX ∧ output.tokenYAmount ≤ reservesY ∧
    redeem.order.tokenLqAmount ≤ liquidity ∧
    p' = withReserves (reservesX - output.tokenXAmount) (reservesY - output.tokenYAmount)
      (liquidity - redeem.order.tokenLqAmount) := by
  obtain ⟨shares, hshares, h⟩ := Checked.bind_eq_ok.mp h
  split at h
  · split at h
    · rename_i hx hy hlq
      cases Checked.pure_eq_ok.mp h
      rw [checkedSub_eq_some] at hx hy hlq
      obtain ⟨hleX, rfl⟩ := hx
      obtain ⟨hleY, rfl⟩ := hy
      obtain ⟨hle, rfl⟩ := hlq
      exact ⟨hshares, hleX, hleY, hle, rfl⟩
    · cases Checked.pure_eq_ok.mp h
  · cases Checked.pure_eq_ok.mp h

/-- A deposit that is not run is handed back as it is. -/
theorem depositInto_error {e : ApplyOrderError ClassicalOnChainDeposit}
    (h : depositInto reservesX reservesY liquidity rewardLp withReserves deposit =
      .ok (.error e)) : e = .incompatible deposit := by
  simp only [depositInto] at h
  split at h
  · obtain ⟨reward, -, h⟩ := Checked.bind_eq_ok.mp h
    split at h
    · split at h
      · cases Checked.pure_eq_ok.mp h
      · cases Checked.pure_eq_ok.mp h
        rfl
    · cases Checked.pure_eq_ok.mp h
      rfl
  · cases Checked.pure_eq_ok.mp h
    rfl

theorem redeemFrom_error {e : ApplyOrderError ClassicalOnChainRedeem}
    (h : redeemFrom reservesX reservesY liquidity sharesAmount withReserves redeem =
      .ok (.error e)) : e = .incompatible redeem := by
  obtain ⟨shares, -, h⟩ := Checked.bind_eq_ok.mp h
  split at h
  · split at h
    · cases Checked.pure_eq_ok.mp h
    · cases Checked.pure_eq_ok.mp h
      rfl
  · cases Checked.pure_eq_ok.mp h
    rfl

end

/-! ### Shares of a pool -/

def ClassicPool.rewardLp (p : ClassicPool) (inX inY : Nat) : Checked (Option (Nat × Nat × Nat)) :=
  classicCfmmRewardLp p.reservesX p.reservesY p.liquidity inX inY

def ClassicPool.sharesAmount (p : ClassicPool) (burnedLq : Nat) : Checked (Option (Nat × Nat)) :=
  classicCfmmSharesAmount p.reservesX p.reservesY p.liquidity burnedLq

def FeeSwitchPool.rewardLp (p : FeeSwitchPool) (inX inY : Nat) :
    Checked (Option (Nat × Nat × Nat)) := do
  classicCfmmRewardLp (← Checked.sub p.reservesX p.treasuryX)
    (← Checked.sub p.reservesY p.treasuryY) p.liquidity inX inY

def FeeSwitchPool.sharesAmount (p : FeeSwitchPool) (burnedLq : Nat) :
    Checked (Option (Nat × Nat)) := do
  classicCfmmSharesAmount (← Checked.sub p.reservesX p.treasuryX)
    (← Checked.sub p.reservesY p.treasuryY) p.liquidity burnedLq

def RoyaltyPool.rewardLp (p : RoyaltyPool) (inX inY : Nat) :
    Checked (Option (Nat × Nat × Nat)) := do
  classicCfmmRewardLp (← p.pureX) (← p.pureY) p.liquidity inX inY

def RoyaltyPool.sharesAmount (p : RoyaltyPool) (burnedLq : Nat) :
    Checked (Option (Nat × Nat)) := do
  classicCfmmSharesAmount (← p.pureX) (← p.pureY) p.liquidity burnedLq

/-- The liquidity is unlocked as in a classic pool, and the change recalculated from it. -/
def BalancePool.rewardLp (p : BalancePool) (inX inY : Nat) :
    Checked (Option (Nat × Nat × Nat)) := do
  let pureX ← Checked.sub p.reservesX p.treasuryX
  let pureY ← Checked.sub p.reservesY p.treasuryY
  match ← classicCfmmRewardLp pureX pureY p.liquidity inX inY with
  | some (unlockedLq, _, _) =>
    let xToDeposit ← Checked.div (← Checked.mul 128 unlockedLq pureX) p.liquidity
    let yToDeposit ← Checked.div (← Checked.mul 128 unlockedLq pureY) p.liquidity
    return some (unlockedLq, ← Checked.sub inX (xToDeposit % 2 ^ 64),
      ← Checked.sub inY (yToDeposit % 2 ^ 64))
  | none => return none

def BalancePool.sharesAmount (p : BalancePool) (burnedLq : Nat) :
    Checked (Option (Nat × Nat)) := do
  classicCfmmSharesAmount (← Checked.sub p.reservesX p.treasuryX)
    (← Checked.sub p.reservesY p.treasuryY) p.liquidity burnedLq

/-- The arithmetic that the deposits into stable pools are computed with. -/
class DepositNumerics where
  /-- The integral part of `shares / liquidity * reserves`, in `BigNumber` from floats. -/
  depositPart : (shares liquidity reserves : Nat) → Nat

/-- `u64::try_from` -/
def wordOf (n : Nat) : Checked Nat := if n < 2 ^ 64 then .ok n else .error .unwrap

theorem wordOf_eq_ok {n m : Nat} : wordOf n = .ok m ↔ n < 2 ^ 64 ∧ n = m := Checked.ite_eq_ok

/-- The liquidity unlocked, and the change of x and of y, which is that of y on both branches. -/
def stableCfmmRewardLp [DepositNumerics] (reservesX reservesY liquidity inXAmount inYAmount : Nat) :
    Checked (Option (Nat × Nat × Nat)) := do
  let byX ← Checked.mul 128 inXAmount liquidity
  let byY ← Checked.mul 128 inYAmount liquidity
  match checkedDiv byX reservesX, checkedDiv byY reservesY with
  | some quotientX, some quotientY =>
    let minByX := quotientX % 2 ^ 64
    let minByY := quotientY % 2 ^ 64
    let unlockedLq := min minByX minByY
    if minByX = minByY then return some (unlockedLq, 0, 0)
    else if minByX < minByY then do
      let yToDeposit ← wordOf (DepositNumerics.depositPart minByX liquidity reservesY)
      return some (unlockedLq, 0, ← Checked.sub inYAmount yToDeposit)
    else do
      let xToDeposit ← wordOf (DepositNumerics.depositPart minByY liquidity reservesX)
      return some (unlockedLq, 0, ← Checked.sub inXAmount xToDeposit)
  | _, _ => return none

def StablePoolT2T.rewardLp [DepositNumerics] (p : StablePoolT2T) (inX inY : Nat) :
    Checked (Option (Nat × Nat × Nat)) := do
  stableCfmmRewardLp (← Checked.sub p.reservesX p.treasuryX)
    (← Checked.sub p.reservesY p.treasuryY) p.liquidity inX inY

def StablePoolT2T.sharesAmount (p : StablePoolT2T) (burnedLq : Nat) :
    Checked (Option (Nat × Nat)) := do
  classicCfmmSharesAmount (← Checked.sub p.reservesX p.treasuryX)
    (← Checked.sub p.reservesY p.treasuryY) p.liquidity burnedLq

def BalancePool.applyDeposit (p : BalancePool) (deposit : ClassicalOnChainDeposit) :
    Checked (Applied ClassicalOnChainDeposit (BalancePool × DepositOutput)) :=
  depositInto p.reservesX p.reservesY p.liquidity p.rewardLp
    (fun x y lq => { p with reservesX := x, reservesY := y, liquidity := lq }) deposit

def BalancePool.applyRedeem (p : BalancePool) (redeem : ClassicalOnChainRedeem) :
    Checked (Applied ClassicalOnChainRedeem (BalancePool × RedeemOutput)) :=
  redeemFrom p.reservesX p.reservesY p.liquidity p.sharesAmount
    (fun x y lq => { p with reservesX := x, reservesY := y, liquidity := lq }) redeem

def StablePoolT2T.applyDeposit [DepositNumerics] (p : StablePoolT2T)
    (deposit : ClassicalOnChainDeposit) :
    Checked (Applied ClassicalOnChainDeposit (StablePoolT2T × DepositOutput)) :=
  depositInto p.reservesX p.reservesY p.liquidity p.rewardLp
    (fun x y lq => { p with reservesX := x, reservesY := y, liquidity := lq }) deposit

def StablePoolT2T.applyRedeem (p : StablePoolT2T) (redeem : ClassicalOnChainRedeem) :
    Checked (Applied ClassicalOnChainRedeem (StablePoolT2T × RedeemOutput)) :=
  redeemFrom p.reservesX p.reservesY p.liquidity p.sharesAmount
    (fun x y lq => { p with reservesX := x, reservesY := y, liquidity := lq }) redeem

namespace ConstFnPool

def rewardLp (pool : ConstFnPool) (inX inY : Nat) : Checked (Option (Nat × Nat × Nat)) :=
  match pool with
  | classic pool => pool.rewardLp inX inY
  | feeSwitch pool => pool.rewardLp inX inY
  | royalty pool => pool.rewardLp inX inY

def sharesAmount (pool : ConstFnPool) (burnedLq : Nat) : Checked (Option (Nat × Nat)) :=
  match pool with
  | classic pool => pool.sharesAmount burnedLq
  | feeSwitch pool => pool.sharesAmount burnedLq
  | royalty pool => pool.sharesAmount burnedLq

def liquidity : ConstFnPool → Nat
  | classic pool => pool.liquidity
  | feeSwitch pool => pool.liquidity
  | royalty pool => pool.liquidity

/-- The pool with other reserves and other liquidity. -/
def withReserves (pool : ConstFnPool) (x y lq : Nat) : ConstFnPool :=
  match pool with
  | classic pool => classic { pool with reservesX := x, reservesY := y, liquidity := lq }
  | feeSwitch pool => feeSwitch { pool with reservesX := x, reservesY := y, liquidity := lq }
  | royalty pool => royalty { pool with reservesX := x, reservesY := y, liquidity := lq }

def applyDeposit (pool : ConstFnPool) (deposit : ClassicalOnChainDeposit) :
    Checked (Applied ClassicalOnChainDeposit (ConstFnPool × DepositOutput)) :=
  let order := deposit.order
  match order.net order.tokenX order.tokenXAmount, order.net order.tokenY order.tokenYAmount with
  | some netX, some netY => do
    match ← pool.rewardLp netX netY with
    | some (unlockedLq, changeX, changeY) =>
      match (checkedAdd pool.reservesX netX).bind fun result => checkedSub result changeX,
        (checkedAdd pool.reservesY netY).bind fun result => checkedSub result changeY,
        checkedAdd pool.liquidity unlockedLq with
      | some x, some y, some lq =>
        return .ok (pool.withReserves x y lq, {
          tokenXAsset := order.tokenX
          tokenXChargeAmount := changeX
          tokenYAsset := order.tokenY
          tokenYChargeAmount := changeY
          tokenLqAsset := order.tokenLq
          tokenLqAmount := unlockedLq
          adaResidue := order.collateralAda
          redeemerPkh := order.rewardPkh
          redeemerStakePkh := order.rewardStakePkh })
      | _, _, _ => return .error (.incompatible deposit)
    | none => return .error (.incompatible deposit)
  | _, _ => return .error (.incompatible deposit)

def applyRedeem (pool : ConstFnPool) (redeem : ClassicalOnChainRedeem) :
    Checked (Applied ClassicalOnChainRedeem (ConstFnPool × RedeemOutput)) := do
  let order := redeem.order
  match ← pool.sharesAmount order.tokenLqAmount with
  | some (xAmount, yAmount) =>
    match checkedSub pool.reservesX xAmount, checkedSub pool.reservesY yAmount,
      checkedSub pool.liquidity order.tokenLqAmount with
    | some x, some y, some lq =>
      return .ok (pool.withReserves x y lq, {
        tokenXAsset := order.tokenX
        tokenXAmount := xAmount
        tokenYAsset := order.tokenY
        tokenYAmount := yAmount
        adaResidue := order.collateralAda
        redeemerPkh := order.rewardPkh
        redeemerStakePkh := order.rewardStakePkh })
    | _, _, _ => return .error (.incompatible redeem)
  | none => return .error (.incompatible redeem)

/-! What applying an order to a pool comes to. -/

section

variable {pool pool' : ConstFnPool} {deposit : ClassicalOnChainDeposit}
  {redeem : ClassicalOnChainRedeem}

@[simp] theorem reservesX_withReserves (x y lq : Nat) : (pool.withReserves x y lq).reservesX = x := by
  cases pool <;> rfl

@[simp] theorem reservesY_withReserves (x y lq : Nat) : (pool.withReserves x y lq).reservesY = y := by
  cases pool <;> rfl

@[simp] theorem liquidity_withReserves (x y lq : Nat) : (pool.withReserves x y lq).liquidity = lq := by
  cases pool <;> rfl

theorem applyDeposit_eq (pool : ConstFnPool) (deposit : ClassicalOnChainDeposit) :
    pool.applyDeposit deposit = depositInto pool.reservesX pool.reservesY pool.liquidity
      pool.rewardLp pool.withReserves deposit :=
  rfl

theorem applyRedeem_eq (pool : ConstFnPool) (redeem : ClassicalOnChainRedeem) :
    pool.applyRedeem redeem = redeemFrom pool.reservesX pool.reservesY pool.liquidity
      pool.sharesAmount pool.withReserves redeem :=
  rfl

/-- A deposit that is run adds to the reserves what it leaves in the pool, and to the liquidity what
it unlocks. -/
theorem applyDeposit_spec {output : DepositOutput}
    (h : pool.applyDeposit deposit = .ok (.ok (pool', output))) : ∃ netX netY,
    deposit.order.net deposit.order.tokenX deposit.order.tokenXAmount = some netX ∧
    deposit.order.net deposit.order.tokenY deposit.order.tokenYAmount = some netY ∧
    pool.rewardLp netX netY = .ok (some (output.tokenLqAmount, output.tokenXChargeAmount,
      output.tokenYChargeAmount)) ∧
    (pool.reservesX + netX < 2 ^ 64 ∧ output.tokenXChargeAmount ≤ pool.reservesX + netX) ∧
    (pool.reservesY + netY < 2 ^ 64 ∧ output.tokenYChargeAmount ≤ pool.reservesY + netY) ∧
    pool.liquidity + output.tokenLqAmount < 2 ^ 64 ∧
    pool' = pool.withReserves (pool.reservesX + netX - output.tokenXChargeAmount)
      (pool.reservesY + netY - output.tokenYChargeAmount)
      (pool.liquidity + output.tokenLqAmount) :=
  depositInto_spec ((applyDeposit_eq pool deposit).symm.trans h)

/-- A redeem that is run takes out of the reserves what it pays, and out of the liquidity what it
burns. -/
theorem applyRedeem_spec {output : RedeemOutput}
    (h : pool.applyRedeem redeem = .ok (.ok (pool', output))) :
    pool.sharesAmount redeem.order.tokenLqAmount =
      .ok (some (output.tokenXAmount, output.tokenYAmount)) ∧
    output.tokenXAmount ≤ pool.reservesX ∧ output.tokenYAmount ≤ pool.reservesY ∧
    redeem.order.tokenLqAmount ≤ pool.liquidity ∧
    pool' = pool.withReserves (pool.reservesX - output.tokenXAmount)
      (pool.reservesY - output.tokenYAmount)
      (pool.liquidity - redeem.order.tokenLqAmount) :=
  redeemFrom_spec ((applyRedeem_eq pool redeem).symm.trans h)

/-- A deposit that is not run is handed back as it is. -/
theorem applyDeposit_error {e : ApplyOrderError ClassicalOnChainDeposit}
    (h : pool.applyDeposit deposit = .ok (.error e)) : e = .incompatible deposit :=
  depositInto_error ((applyDeposit_eq pool deposit).symm.trans h)

theorem applyRedeem_error {e : ApplyOrderError ClassicalOnChainRedeem}
    (h : pool.applyRedeem redeem = .ok (.error e)) : e = .incompatible redeem :=
  redeemFrom_error ((applyRedeem_eq pool redeem).symm.trans h)

end

end ConstFnPool

end UtxoMonitor.Pools
