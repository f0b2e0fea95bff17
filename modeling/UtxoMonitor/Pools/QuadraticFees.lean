import UtxoMonitor.Pools.Curve
import UtxoMonitor.Pools.Ledger

/-! How degen pools are read, and the fees of those of two tokens. -/
namespace UtxoMonitor.Pools

open Lib LiquidityBook

/-! ### Parsing -/

structure QuadraticPoolConfig where
  poolNft : AssetClass
  assetX : AssetClass
  assetY : AssetClass
  aNum : Nat
  bNum : Nat
  operatorPkh : Ed25519KeyHash
  xCapThr : Nat

def QuadraticPoolConfig.tryFromPd (data : PlutusData) : Option QuadraticPoolConfig := do
  let (_, fields) ← data.intoConstrPd
  return {
    poolNft := ← assetAt fields 0
    assetX := ← assetAt fields 1
    assetY := ← assetAt fields 2
    aNum := ← u64At fields 3
    bNum := ← u64At fields 4
    operatorPkh := ← RawBytes.fromRawBytes (← bytesAt fields 5)
    xCapThr := ← u64At fields 6 }

structure QuadraticPoolT2TConfig extends QuadraticPoolConfig where
  accumulatedXFee : Nat

def QuadraticPoolT2TConfig.tryFromPd (data : PlutusData) : Option QuadraticPoolT2TConfig := do
  let conf ← QuadraticPoolConfig.tryFromPd data
  let (_, fields) ← data.intoConstrPd
  return { toQuadraticPoolConfig := conf, accumulatedXFee := ← u64At fields 7 }

inductive TransactionMetadatum where
  | int (value : Int)
  | other

def capMetaKey : Nat := 7

def capMetaValue : Nat := 1

structure QuadraticPoolContext where
  degenQuadraticPoolV1 : DeployedScriptInfo
  degenQuadraticPoolV1T2T : DeployedScriptInfo
  bounds : PoolValidation
  operatorCred : Ed25519KeyHash
  mints : Option (List Token)
  metadata : Option (List (Nat × TransactionMetadatum))

def isCapped (ctx : QuadraticPoolContext) : Bool :=
  match ctx.metadata.bind (·.lookup capMetaKey) with
  | some (.int value) => value = capMetaValue
  | _ => false

namespace QuadraticPool

def verOf (addr : Address) (ctx : QuadraticPoolContext) : Option QuadraticPoolVer :=
  if testAddress addr ctx.degenQuadraticPoolV1 then some .v1
  else if testAddress addr ctx.degenQuadraticPoolV1T2T then some .v1T2t
  else none

/-- The pool of a datum, if this operator may execute it and it is below its cap. -/
def ofConfig (ver : QuadraticPoolVer) (conf : QuadraticPoolConfig) (accumulatedXFee xFeeNum : Nat)
    (marginalCost : ExUnits) (repr : TransactionOutput) (ctx : QuadraticPoolContext) :
    Checked (Option QuadraticPool) := do
  let reservesX := (repr.value.amountOf conf.assetX).getD 0
  let uncollected ← Checked.sub reservesX accumulatedXFee
  match PoolId.tryFrom conf.poolNft with
  | none => return none
  | some id =>
    if conf.operatorPkh = ctx.operatorCred ∧ uncollected < conf.xCapThr then
      return (repr.value.amountOf conf.assetY).map fun reservesY =>
        { id := id
          reservesX := reservesX
          reservesY := reservesY
          assetX := conf.assetX
          assetY := conf.assetY
          aNum := conf.aNum
          bNum := conf.bNum
          capThr := conf.xCapThr
          ver := ver
          accumulatedXFee := accumulatedXFee
          xFeeNum := xFeeNum
          marginalCost := marginalCost
          bounds := ctx.bounds
          virgin := (ctx.mints.map fun minted : List Token => minted.contains id).getD false
          capped := isCapped ctx }
    else return none

def tryFromLedger (repr : TransactionOutput) (ctx : QuadraticPoolContext) :
    Checked (Option QuadraticPool) :=
  match verOf repr.address ctx, repr.intoPd with
  | some .v1, some pd =>
    match QuadraticPoolConfig.tryFromPd pd with
    | some conf => ofConfig .v1 conf 0 0 ctx.degenQuadraticPoolV1.marginalCost repr ctx
    | none => return none
  | some .v1T2t, some pd =>
    match QuadraticPoolT2TConfig.tryFromPd pd with
    | some conf =>
      ofConfig .v1T2t conf.toQuadraticPoolConfig conf.accumulatedXFee t2tFeeNum
        ctx.degenQuadraticPoolV1T2T.marginalCost repr ctx
    | none => return none
  | _, _ => return none

/-- What a pool of two tokens is once it is read. -/
structure Read (p : QuadraticPool) : Prop where
  fee : p.xFeeNum = t2tFeeNum
  kept : p.accumulatedXFee ≤ p.reservesX

theorem ofConfig_spec {ver : QuadraticPoolVer} {conf : QuadraticPoolConfig}
    {accumulatedXFee xFeeNum : Nat} {marginalCost : ExUnits} {repr : TransactionOutput}
    {ctx : QuadraticPoolContext} {p : QuadraticPool}
    (h : ofConfig ver conf accumulatedXFee xFeeNum marginalCost repr ctx = .ok (some p)) :
    p.ver = ver ∧ p.xFeeNum = xFeeNum ∧ p.accumulatedXFee ≤ p.reservesX := by
  simp only [ofConfig, Checked.bind_eq_ok, Checked.sub_eq_ok] at h
  obtain ⟨_, ⟨hkept, rfl⟩, h⟩ := h
  split at h
  · cases Checked.pure_eq_ok.mp h
  · split at h
    · obtain ⟨reservesY, -, rfl⟩ := Option.map_eq_some_iff.mp (Checked.pure_eq_ok.mp h)
      exact ⟨rfl, rfl, hkept⟩
    · cases Checked.pure_eq_ok.mp h

theorem read_of_parsed {repr : TransactionOutput} {ctx : QuadraticPoolContext} {p : QuadraticPool}
    (h : tryFromLedger repr ctx = .ok (some p)) (hver : p.ver = .v1T2t) : p.Read := by
  unfold tryFromLedger at h
  split at h
  · split at h
    · obtain ⟨hv1, -⟩ := ofConfig_spec h
      cases hver.symm.trans hv1
    · cases Checked.pure_eq_ok.mp h
  · split at h
    · obtain ⟨-, hfee, hkept⟩ := ofConfig_spec h
      exact ⟨hfee, hkept⟩
    · cases Checked.pure_eq_ok.mp h
  · cases Checked.pure_eq_ok.mp h

/-! ### Fees -/

/-- The fee of a pool of two tokens, rounded up. -/
def feeOf (amount : Nat) : Nat := (amount + 99) / 100

/-- What a payment and its fee come to: one unit less than an amount that is a multiple of the
denominator of the fee. -/
def taken (amount : Nat) : Nat := if amount % 100 = 0 then amount - 1 else amount

section

variable {amount adjusted payout fee : Nat}

theorem adjustXFee_eq_ok :
    adjustXFee t2tFeeNum amount = .ok fee ↔ amount < 2 ^ 64 ∧ feeOf amount = fee := by
  simp only [adjustXFee, Checked.bind_eq_ok, Checked.mul_eq_ok, Checked.pure_eq_ok, and_assoc,
    exists_and_left, exists_eq_left', feeOf]
  split <;> simp only [t2tFeeNum, t2tFeeDenom] at * <;> omega

theorem adjustedXInput_eq_ok : adjustedXInput t2tFeeNum amount = .ok adjusted ↔
    (2 ≤ amount ∧ amount * 99 < 2 ^ 64) ∧ adjusted + feeOf amount + 1 = taken amount := by
  simp only [adjustedXInput, Checked.bind_eq_ok, Checked.sub_eq_ok, Checked.mul_eq_ok, and_assoc,
    exists_and_left, exists_eq_left', feeOf, taken]
  split <;> split <;> simp only [t2tFeeNum, t2tFeeDenom] at * <;> omega

theorem adjustXOutput_eq_ok : adjustXOutput t2tFeeNum amount = .ok payout ↔
    (1 ≤ amount ∧ amount * 99 < 2 ^ 64) ∧ payout + feeOf amount = taken amount := by
  simp only [adjustXOutput, Checked.bind_eq_ok, Checked.sub_eq_ok, Checked.mul_eq_ok, and_assoc,
    exists_and_left, exists_eq_left', feeOf, taken]
  split <;> split <;> simp only [t2tFeeNum, t2tFeeDenom] at * <;> omega

theorem taken_le : taken amount ≤ amount := by
  unfold taken
  split <;> omega

theorem le_taken : amount ≤ taken amount + 1 := by
  unfold taken
  split <;> omega

theorem feeOf_lt_taken (h : 2 ≤ amount) : feeOf amount < taken amount := by
  unfold feeOf taken
  split <;> omega

theorem feeOf_le_taken (h : 1 ≤ amount) : feeOf amount ≤ taken amount := by
  unfold feeOf taken
  split <;> omega

end

variable [Numerics]

/-- The output of a trade that sells to the pool, and the amount on the curve it is limited from. -/
structure Sale (p : QuadraticPool) (input : OnSide Nat) (amount output : Nat) : Prop where
  curve : p.outputAmount (p.pair.paid input) input.unwrap = .ok amount
  safe : safeOutput .v1T2t input amount (p.paidReserves input) = .ok output

/-- The fees of a trade, as the fee helpers compute them. -/
structure Charges (p : QuadraticPool) (input : OnSide Nat) : Prop where
  kept : p.accumulatedXFee ≤ p.reservesX
  bought : p.Buys input → ∃ effective fee,
    adjustedXInput p.xFeeNum input.unwrap = .ok effective ∧
    adjustXFee p.xFeeNum input.unwrap = .ok fee ∧
    input.unwrap ≤ effective + fee + 2 ∧ effective + fee < input.unwrap ∧
    ∀ p', p.swap input = .ok p' → p'.accumulatedXFee = p.accumulatedXFee + fee
  sold : ¬ p.Buys input → ∀ amount output, p.Sale input amount output → ∃ payout fee,
    adjustXOutput p.xFeeNum output = .ok payout ∧
    adjustXFee p.xFeeNum output = .ok fee ∧
    amount ≤ payout + fee + 1 ∧ payout + fee ≤ amount ∧
    ∀ p', p.swap input = .ok p' →
      p'.accumulatedXFee = p.accumulatedXFee + fee ∧ p'.reservesX + payout = p.reservesX
  covered : ∀ p', p.swap input = .ok p' → p'.accumulatedXFee ≤ p'.reservesX

/-- The input and a fee fit the words they are added to. -/
def FitsWords (p : QuadraticPool) (input : OnSide Nat) (fee : Nat) : Prop :=
  p.reservesY + input.unwrap < 2 ^ 64 ∧ p.accumulatedXFee + fee < 2 ^ 64

/-- Trades that are worth the roundings of the fee and leave the fees collected in the reserves. -/
structure Affords (p : QuadraticPool) (input : OnSide Nat) : Prop where
  worthInput : p.Buys input → 2 ≤ input.unwrap ∧ input.unwrap * 99 < 2 ^ 64
  worthOutput : ¬ p.Buys input → ∀ amount output, p.Sale input amount output →
    (1 ≤ output ∧ output * 99 < 2 ^ 64) ∧ amount ≤ taken output + 1
  leaves : ¬ p.Buys input → ∀ amount output, p.Sale input amount output →
    taken output ≤ p.reservesX + feeOf output → p.FitsWords input (feeOf output) →
      p.accumulatedXFee + taken output ≤ p.reservesX
  leavesSame : p.Buys input → ¬ p.pair.entersX input → ∀ output,
    p.outputAmount (p.pair.paid input) (taken input.unwrap - 1 - feeOf input.unwrap) = .ok output →
    output ≤ p.reservesX → p.FitsWords input (feeOf input.unwrap) →
      p.accumulatedXFee + feeOf input.unwrap + output ≤ p.reservesX

variable {p p' : QuadraticPool} {input : OnSide Nat} {amount output adjusted payout fee : Nat}

omit [Numerics] in
theorem buys_of_entersX (h : p.pair.entersX input = true) : p.Buys input := by
  obtain ⟨hbase, hquote⟩ | ⟨hbase, hquote⟩ := p.pair.base_quote
  · cases input with
    | bid amount => exact absurd hbase.symm (of_decide_eq_true h)
    | ask amount => exact hbase
  · cases input with
    | bid amount => exact hquote
    | ask amount => exact (of_decide_eq_true h).symm

theorem Sale.le (h : p.Sale input amount output) : output ≤ amount := by
  have hsafe := h.safe
  cases input with
  | bid input => exact (Checked.pure_eq_ok.mp hsafe).ge
  | ask input =>
    simp only [safeOutput, Checked.pure_eq_ok] at hsafe
    omega

theorem Sale.unique {amount' output' : Nat} (h : p.Sale input amount output)
    (h' : p.Sale input amount' output') : amount' = amount ∧ output' = output := by
  cases Except.ok.inj (h.curve.symm.trans h'.curve)
  exact ⟨rfl, Except.ok.inj (h'.safe.symm.trans h.safe)⟩

/-- A sale that the reserves of x can pay for. -/
theorem swap_sale (hver : p.ver = .v1T2t) (hsells : ¬ p.Buys input)
    (hsale : p.Sale input amount output) (hpayout : adjustXOutput p.xFeeNum output = .ok payout)
    (hfee : adjustXFee p.xFeeNum output = .ok fee) (hle : payout ≤ p.reservesX)
    (hfits : p.FitsWords input fee) :
    p.swap input = .ok { p with
      reservesX := p.reservesX - payout
      reservesY := p.reservesY + input.unwrap
      accumulatedXFee := p.accumulatedXFee + fee } := by
  have hmove : p.pair.move input payout p.reservesX p.reservesY =
      .ok (p.reservesX - payout, p.reservesY + input.unwrap) := by
    rw [Pair.move_eq_ok, if_neg (mt buys_of_entersX hsells)]
    exact ⟨hfits.1, hle, rfl, rfl⟩
  simp only [QuadraticPool.swap, hver]
  rw [if_neg (show ¬ p.pair.paid input = p.assetX from hsells)]
  exact Checked.bind_eq_ok.mpr ⟨amount, hsale.curve, Checked.bind_eq_ok.mpr ⟨output, hsale.safe,
    Checked.bind_eq_ok.mpr ⟨fee, hfee, Checked.bind_eq_ok.mpr ⟨_,
      Checked.add_eq_ok.mpr ⟨hfits.2, rfl⟩, Checked.bind_eq_ok.mpr ⟨payout, hpayout,
        Checked.bind_eq_ok.mpr ⟨_, hmove, rfl⟩⟩⟩⟩⟩⟩

/-- A purchase in a pool of one asset, whose input goes to the reserves of y. -/
theorem swap_same (hver : p.ver = .v1T2t) (hbuys : p.Buys input)
    (hsame : ¬ p.pair.entersX input) (hadjusted : adjustedXInput p.xFeeNum input.unwrap = .ok adjusted)
    (houtput : p.outputAmount (p.pair.paid input) adjusted = .ok output)
    (hfee : adjustXFee p.xFeeNum input.unwrap = .ok fee) (hle : output ≤ p.reservesX)
    (hfits : p.FitsWords input fee) :
    p.swap input = .ok { p with
      reservesX := p.reservesX - output
      reservesY := p.reservesY + input.unwrap
      accumulatedXFee := p.accumulatedXFee + fee } := by
  have hmove : p.pair.move input output p.reservesX p.reservesY =
      .ok (p.reservesX - output, p.reservesY + input.unwrap) := by
    rw [Pair.move_eq_ok, if_neg hsame]
    exact ⟨hfits.1, hle, rfl, rfl⟩
  have hsafe : safeOutput .v1T2t input output (p.paidReserves input) = .ok output := by
    cases input with
    | bid input => rfl
    | ask input => exact absurd (decide_eq_true hbuys.symm) hsame
  simp only [QuadraticPool.swap, hver]
  rw [if_pos (show p.pair.paid input = p.assetX from hbuys)]
  exact Checked.bind_eq_ok.mpr ⟨adjusted, hadjusted, Checked.bind_eq_ok.mpr ⟨output, houtput,
    Checked.bind_eq_ok.mpr ⟨output, hsafe, Checked.bind_eq_ok.mpr ⟨fee, hfee,
      Checked.bind_eq_ok.mpr ⟨_, Checked.add_eq_ok.mpr ⟨hfits.2, rfl⟩,
        Checked.bind_eq_ok.mpr ⟨_, hmove, rfl⟩⟩⟩⟩⟩⟩

theorem accumulatedXFee_lt (hver : p.ver = .v1T2t) (h : p.swap input = .ok p') :
    p'.accumulatedXFee < 2 ^ 64 := by
  simp only [QuadraticPool.swap, hver] at h
  split at h
  · simp only [Checked.bind_eq_ok, Checked.pure_eq_ok, Checked.add_eq_ok] at h
    obtain ⟨_, -, _, -, _, -, _, -, _, ⟨hfits, rfl⟩, _, -, rfl⟩ := h
    exact hfits
  · simp only [Checked.bind_eq_ok, Checked.pure_eq_ok, Checked.add_eq_ok] at h
    obtain ⟨_, -, _, -, _, -, _, ⟨hfits, rfl⟩, _, -, _, -, rfl⟩ := h
    exact hfits

theorem Charges.affords (hver : p.ver = .v1T2t) (hread : p.Read) (h : p.Charges input) :
    p.Affords input where
  worthInput hbuys := by
    obtain ⟨effective, fee, hadjusted, -⟩ := h.bought hbuys
    rw [hread.fee, adjustedXInput_eq_ok] at hadjusted
    exact hadjusted.1
  worthOutput hsells amount output hsale := by
    obtain ⟨payout, fee, hpayout, hfee, hle, -⟩ := h.sold hsells amount output hsale
    rw [hread.fee, adjustXOutput_eq_ok] at hpayout
    rw [hread.fee, adjustXFee_eq_ok] at hfee
    obtain ⟨-, rfl⟩ := hfee
    exact ⟨hpayout.1, by omega⟩
  leaves hsells amount output hsale hreserves hfits := by
    obtain ⟨payout, fee, hpayout, hfee, -⟩ := h.sold hsells amount output hsale
    have hpayout' := hpayout
    have hfee' := hfee
    rw [hread.fee, adjustXOutput_eq_ok] at hpayout'
    rw [hread.fee, adjustXFee_eq_ok] at hfee'
    obtain ⟨-, rfl⟩ := hfee'
    have hpaid : payout ≤ p.reservesX := by omega
    have hcovered := h.covered _ (swap_sale hver hsells hsale hpayout hfee hpaid hfits)
    dsimp only at hcovered
    omega
  leavesSame hbuys hsame output houtput hle hfits := by
    obtain ⟨effective, fee, hadjusted, hfee, -⟩ := h.bought hbuys
    have hadjusted' := hadjusted
    have hfee' := hfee
    rw [hread.fee, adjustedXInput_eq_ok] at hadjusted'
    rw [hread.fee, adjustXFee_eq_ok] at hfee'
    obtain ⟨-, rfl⟩ := hfee'
    have heffective : taken input.unwrap - 1 - feeOf input.unwrap = effective := by omega
    rw [heffective] at houtput
    have hcovered := h.covered _ (swap_same hver hbuys hsame hadjusted houtput hfee hle hfits)
    dsimp only at hcovered
    omega

theorem Affords.covered (hver : p.ver = .v1T2t) (hread : p.Read) (h : p.Affords input)
    (hswap : p.swap input = .ok p') : p'.accumulatedXFee ≤ p'.reservesX := by
  obtain ⟨paid, hpays, hmove, hp'⟩ := swap_spec hswap
  have hcollected := accumulatedXFee_lt hver hswap
  have hkept := hread.kept
  rw [Pair.move_eq_ok] at hmove
  generalize p'.accumulatedXFee = collected at hpays hcollected
  cases hpays with
  | v1 hv1 => cases hver.symm.trans hv1
  | @feeOnInput adjusted candidate _ _ _ hbuys hadjusted hcandidate hsafe hfee =>
    rw [hread.fee, adjustedXInput_eq_ok] at hadjusted
    rw [hread.fee, adjustXFee_eq_ok] at hfee
    obtain ⟨-, rfl⟩ := hfee
    have hfee := feeOf_lt_taken hadjusted.1.1
    have htaken := @taken_le input.unwrap
    by_cases henters : p.pair.entersX input
    · rw [if_pos henters] at hmove
      omega
    · rw [if_neg henters] at hmove
      obtain ⟨hfits, hle, hx, -⟩ := hmove
      have hsame : candidate = paid := by
        cases input with
        | bid input => exact Checked.pure_eq_ok.mp hsafe
        | ask input => exact absurd (decide_eq_true hbuys.symm) henters
      have hadjusted' : taken input.unwrap - 1 - feeOf input.unwrap = adjusted := by omega
      have hleaves := h.leavesSame hbuys henters paid (by rw [hadjusted', ← hsame, hcandidate]) hle
        ⟨hfits, hcollected⟩
      omega
  | @feeOnOutput candidate output _ _ _ hsells hcandidate hsafe hpayout hfee =>
    have hsale : p.Sale input candidate output := ⟨hcandidate, hsafe⟩
    rw [hread.fee, adjustXOutput_eq_ok] at hpayout
    rw [hread.fee, adjustXFee_eq_ok] at hfee
    obtain ⟨-, rfl⟩ := hfee
    rw [if_neg (mt buys_of_entersX hsells)] at hmove
    obtain ⟨hfits, hle, hx, -⟩ := hmove
    have hleaves := h.leaves hsells candidate output hsale (by omega) ⟨hfits, hcollected⟩
    omega

theorem Affords.charges (hver : p.ver = .v1T2t) (hread : p.Read) (h : p.Affords input) :
    p.Charges input where
  kept := hread.kept
  bought hbuys := by
    have hworth := h.worthInput hbuys
    have hfee := feeOf_lt_taken hworth.1
    have hlower := @le_taken input.unwrap
    have hupper := @taken_le input.unwrap
    refine ⟨taken input.unwrap - 1 - feeOf input.unwrap, feeOf input.unwrap, ?_, ?_, by omega,
      by omega, fun p' hswap => ?_⟩
    · rw [hread.fee, adjustedXInput_eq_ok]
      exact ⟨hworth, by omega⟩
    · rw [hread.fee, adjustXFee_eq_ok]
      exact ⟨by omega, rfl⟩
    · obtain ⟨paid, hpays, -⟩ := swap_spec hswap
      generalize p'.accumulatedXFee = collected at hpays
      cases hpays with
      | v1 hv1 => cases hver.symm.trans hv1
      | feeOnInput _ _ _ _ _ hfee' =>
        rw [hread.fee, adjustXFee_eq_ok] at hfee'
        rw [hfee'.2]
      | feeOnOutput _ hsells => exact absurd hbuys hsells
  sold hsells amount output hsale := by
    obtain ⟨hworth, hcapped⟩ := h.worthOutput hsells amount output hsale
    have hfee := feeOf_le_taken hworth.1
    have hupper := @taken_le output
    have hsaleLe := hsale.le
    refine ⟨taken output - feeOf output, feeOf output, ?_, ?_, by omega, by omega,
      fun p' hswap => ?_⟩
    · rw [hread.fee, adjustXOutput_eq_ok]
      exact ⟨hworth, by omega⟩
    · rw [hread.fee, adjustXFee_eq_ok]
      exact ⟨by omega, rfl⟩
    · obtain ⟨paid, hpays, hmove, -⟩ := swap_spec hswap
      rw [Pair.move_eq_ok, if_neg (mt buys_of_entersX hsells)] at hmove
      obtain ⟨-, hle, hx, -⟩ := hmove
      generalize p'.accumulatedXFee = collected at hpays
      cases hpays with
      | v1 hv1 => cases hver.symm.trans hv1
      | feeOnInput _ hbuys => exact absurd hbuys hsells
      | feeOnOutput _ _ hcandidate hsafe hpayout hfee' =>
        obtain ⟨rfl, rfl⟩ := hsale.unique ⟨hcandidate, hsafe⟩
        rw [hread.fee, adjustXOutput_eq_ok] at hpayout
        rw [hread.fee, adjustXFee_eq_ok] at hfee'
        rw [hfee'.2]
        exact ⟨rfl, by omega⟩
  covered _ hswap := h.covered hver hread hswap

/-- The fees of a pool that was read from the ledger. -/
theorem charges_iff_affords {repr : TransactionOutput} {ctx : QuadraticPoolContext}
    (h : tryFromLedger repr ctx = .ok (some p)) (hver : p.ver = .v1T2t) (input : OnSide Nat) :
    p.Charges input ↔ p.Affords input :=
  ⟨fun hcharges => hcharges.affords hver (read_of_parsed h hver),
    fun hadmits => hadmits.charges hver (read_of_parsed h hver)⟩

end QuadraticPool

/-- A pool of two tokens that has sold a thousand of them. -/
def sampleQuadraticOutput : TransactionOutput where
  address := .enterprise (.script (.replicate 101))
  value := .ofTokens 2000000
    [(sampleToken 1, 1), (sampleToken 2, 1001), (sampleToken 3, 999999000)]
  datum := some (.datum (.constr 0 [
    (sampleToken 1).intoPd,
    (sampleToken 2).intoPd,
    (sampleToken 3).intoPd,
    .integer 3,
    .integer 1000000,
    .bytes (List.replicate 28 6),
    .integer 1000000000,
    .integer 1]))

def sampleQuadraticContext : QuadraticPoolContext where
  degenQuadraticPoolV1 := ⟨.replicate 100, ⟨0, 0⟩⟩
  degenQuadraticPoolV1T2T := ⟨.replicate 101, ⟨0, 0⟩⟩
  bounds := ⟨0, 0⟩
  operatorCred := .replicate 6
  mints := none
  metadata := none

def sampleQuadratic : QuadraticPool :=
  { sampleCurve .v1T2t (.token (sampleToken 2)) 1001 with
    reservesY := 999999000
    accumulatedXFee := 1 }

theorem sampleQuadratic_parsed :
    QuadraticPool.tryFromLedger sampleQuadraticOutput sampleQuadraticContext =
      .ok (some sampleQuadratic) := by
  decide +kernel

theorem charges_iff_affords_sample :
    @QuadraticPool.Charges exactNumerics sampleQuadratic (.ask 1001) := by
  let _ := exactNumerics
  refine (QuadraticPool.charges_iff_affords sampleQuadratic_parsed rfl (.ask 1001)).mpr
    ⟨fun _ => by decide, fun h => absurd ?_ h, fun h => absurd ?_ h, fun _ h => absurd ?_ h⟩
  · decide
  · decide
  · decide

/-- One unit of x is less than the roundings of the fee. -/
theorem fees_underflow :
    ¬ ∃ _ : Numerics, ∀ (repr : TransactionOutput) (ctx : QuadraticPoolContext)
      (p : QuadraticPool) (input : OnSide Nat),
      QuadraticPool.tryFromLedger repr ctx = .ok (some p) → p.ver = .v1T2t →
      p.Charges input := by
  rintro ⟨_, h⟩
  have hcharges := h _ _ _ (.ask 1) sampleQuadratic_parsed rfl
  obtain ⟨effective, fee, hadjusted, -⟩ := hcharges.bought (by decide)
  have hworth := (QuadraticPool.adjustedXInput_eq_ok.mp hadjusted).1.1
  exact absurd hworth (by decide)

end UtxoMonitor.Pools
