import Mathlib.Data.Nat.Find
import Mathlib.Data.Rat.Floor
import Mathlib.Tactic.Linarith
import Mathlib.Tactic.Positivity
import Mathlib.Tactic.GCongr
import UtxoMonitor.Pools.Quadratic

/-! What a degen pool holds covers what its tokens are worth on the curve. -/
namespace UtxoMonitor.Pools

open Lib LiquidityBook

/-- What the first tokens cost on the curve, up to a supply. -/
def curve (aNum bNum supply : Nat) : ℚ :=
  aNum * supply ^ 3 / (3 * aDenom) + bNum * supply / bDenom

theorem curve_mono {aNum bNum s t : Nat} (h : s ≤ t) : curve aNum bNum s ≤ curve aNum bNum t := by
  have hcast : (s : ℚ) ≤ t := Nat.cast_le.mpr h
  unfold curve
  gcongr

/-- How the numeric search rounds. -/
class FollowsCurve [Numerics] : Prop where
  buy : ∀ aNum bNum supply input, supply ≤ tokenEmission →
    curve aNum bNum (supply + Numerics.curveBuy aNum bNum supply input) ≤
      curve aNum bNum supply + input
  sell_le : ∀ aNum bNum supply input, input ≤ supply → supply ≤ tokenEmission →
    Numerics.curveSell aNum bNum supply input ≤
      curve aNum bNum supply - curve aNum bNum (supply - input)
  lt_sell : ∀ aNum bNum supply input, input ≤ supply → supply ≤ tokenEmission →
    curve aNum bNum supply - curve aNum bNum (supply - input) ≤
      Numerics.curveSell aNum bNum supply input + 1

namespace QuadraticPool

/-! ### Fees of a pool of two tokens -/

section

variable {amount adjusted payout fee : Nat}

theorem fee_le (h : adjustXFee t2tFeeNum amount = .ok fee) : 100 * fee ≤ amount + 99 := by
  simp only [adjustXFee, Checked.bind_eq_ok, Checked.mul_eq_ok, Checked.pure_eq_ok] at h
  obtain ⟨_, ⟨-, rfl⟩, rfl⟩ := h
  split <;> simp only [t2tFeeNum, t2tFeeDenom] at * <;> omega

theorem adjusted_le (h : adjustedXInput t2tFeeNum amount = .ok adjusted) :
    100 * adjusted + 100 ≤ 99 * amount := by
  simp only [adjustedXInput, Checked.bind_eq_ok, Checked.sub_eq_ok, Checked.mul_eq_ok] at h
  obtain ⟨_, ⟨-, rfl⟩, _, ⟨-, rfl⟩, hle, rfl⟩ := h
  split at hle
  · rename_i hexact
    rw [if_pos hexact]
    simp only [t2tFeeNum, t2tFeeDenom] at *
    omega
  · rename_i hrest
    rw [if_neg hrest]
    simp only [t2tFeeNum, t2tFeeDenom] at *
    omega

theorem payout_le (h : adjustXOutput t2tFeeNum amount = .ok payout) :
    100 * payout + 1 ≤ 99 * amount := by
  simp only [adjustXOutput, Checked.bind_eq_ok, Checked.sub_eq_ok, Checked.mul_eq_ok] at h
  obtain ⟨_, ⟨-, rfl⟩, _, ⟨-, rfl⟩, hle, rfl⟩ := h
  split at hle
  · rename_i hexact
    rw [if_pos hexact]
    simp only [t2tFeeNum, t2tFeeDenom] at *
    omega
  · rename_i hrest
    rw [if_neg hrest]
    simp only [t2tFeeNum, t2tFeeDenom] at *
    omega

theorem adjustedXInput_ne_underflow (h : 2 ≤ amount) :
    adjustedXInput t2tFeeNum amount ≠ .error .underflow := by
  refine Checked.bind_ne_error (Checked.sub_ne_error (by decide)) fun num hnum => ?_
  refine Checked.bind_ne_error Checked.mul_ne_underflow fun product hproduct => ?_
  obtain ⟨-, rfl⟩ := Checked.sub_eq_ok.mp hnum
  obtain ⟨-, rfl⟩ := Checked.mul_eq_ok.mp hproduct
  refine Checked.sub_ne_error ?_
  split <;> simp only [t2tFeeNum, t2tFeeDenom] at * <;> omega

theorem adjustXOutput_ne_underflow (h : 1 ≤ amount) :
    adjustXOutput t2tFeeNum amount ≠ .error .underflow := by
  refine Checked.bind_ne_error (Checked.sub_ne_error (by decide)) fun num hnum => ?_
  refine Checked.bind_ne_error Checked.mul_ne_underflow fun product hproduct => ?_
  obtain ⟨-, rfl⟩ := Checked.sub_eq_ok.mp hnum
  obtain ⟨-, rfl⟩ := Checked.mul_eq_ok.mp hproduct
  refine Checked.sub_ne_error ?_
  split <;> simp only [t2tFeeNum, t2tFeeDenom] at * <;> omega

theorem adjustXFee_ne_underflow {xFeeNum : Nat} :
    adjustXFee xFeeNum amount ≠ .error .underflow :=
  Checked.bind_ne_error Checked.mul_ne_underflow fun _ _ => Checked.pure_ne_error

end

/-! ### Solvency -/

/-- The tokens sold so far. -/
def sold (p : QuadraticPool) : Nat := tokenEmission - p.reservesY

def cost (p : QuadraticPool) (supply : Nat) : ℚ := curve p.aNum p.bNum supply

/-- The part of the reserves of x that backs no token. -/
def keptOf : QuadraticPoolVer → Nat → Nat
  | .v1, _ => minAda
  | .v1T2t, accumulatedXFee => accumulatedXFee

def kept (p : QuadraticPool) : Nat := keptOf p.ver p.accumulatedXFee

/-- The tokens that are not for those who buy with Quote. -/
def heldBack : QuadraticPoolVer → Nat
  | .v1 => minAda
  | .v1T2t => 0

/-- Pools of two assets, with the fee of their version. -/
structure WellFormed (p : QuadraticPool) : Prop where
  assets : p.assetX ≠ p.assetY
  fee : p.ver = .v1T2t → p.xFeeNum = t2tFeeNum

/-- The reserves cover the tokens sold. -/
structure Solvent (p : QuadraticPool) : Prop where
  fits : p.reservesX < 2 ^ 64
  emitted : p.reservesY ≤ tokenEmission
  kept_le : p.kept ≤ p.reservesX
  covers : p.cost p.sold ≤ (p.reservesX - p.kept : Nat)

/-- Pools that have sold nothing. -/
structure Fresh (p : QuadraticPool) : Prop where
  wellFormed : p.WellFormed
  fits : p.reservesX < 2 ^ 64
  unsold : p.reservesY = tokenEmission
  kept_le : p.kept ≤ p.reservesX

def Buys (p : QuadraticPool) (input : OnSide Nat) : Prop := p.pair.paid input = p.assetX

instance (p : QuadraticPool) (input : OnSide Nat) : Decidable (p.Buys input) :=
  inferInstanceAs (Decidable (p.pair.paid input = p.assetX))

/-- What is traded of an input of x. -/
def effectiveInput (p : QuadraticPool) (input : OnSide Nat) : Checked Nat :=
  match p.ver with
  | .v1 => return input.unwrap
  | .v1T2t => adjustedXInput p.xFeeNum input.unwrap

/-- What a seller receives of the amount on the curve. -/
def payout (p : QuadraticPool) (amount : Nat) : Checked Nat :=
  match p.ver with
  | .v1 => return amount
  | .v1T2t => adjustXOutput p.xFeeNum amount

/-- Trades that are worth the roundings of the fee, within the tokens left and the tokens sold. -/
structure Admits (p : QuadraticPool) (input : OnSide Nat) : Prop where
  input_le : p.Buys input → p.ver = .v1T2t → 2 ≤ input.unwrap
  left : p.Buys input → p.pair.x = p.pair.quote → ∀ effective,
    p.effectiveInput input = .ok effective →
      p.cost p.sold + effective < p.cost (tokenEmission - heldBack p.ver + 1)
  redeems : ¬ p.Buys input → input.unwrap ≤ p.sold
  worth : ¬ p.Buys input → p.ver = .v1T2t →
    1 < p.cost p.sold - p.cost (p.sold - input.unwrap)

variable [Numerics] {p p' : QuadraticPool} {input : OnSide Nat}
  {output candidate effective fee : Nat}

/-- The amount on the curve of the tokens sold to the pool. -/
def sale (p : QuadraticPool) (input : OnSide Nat) : Nat :=
  Numerics.curveSell p.aNum p.bNum p.sold input.unwrap

omit [Numerics] in
theorem Fresh.solvent (h : p.Fresh) : p.Solvent where
  fits := h.fits
  emitted := h.unsold.le
  kept_le := h.kept_le
  covers := by
    have hzero : p.cost p.sold = 0 := by
      simp only [cost, sold, h.unsold, Nat.sub_self, curve]
      norm_num
    rw [hzero]
    exact Nat.cast_nonneg _

omit [Numerics] in
theorem entersX_eq (hp : p.WellFormed) : p.pair.entersX input = true ↔ p.Buys input :=
  Pair.entersX_iff hp.assets

omit [Numerics] in
theorem supply_eq (hp : p.Solvent) : p.supply = .ok p.sold := if_pos hp.emitted

omit [Numerics] in
theorem lt_of_cost_lt {s t : Nat} (h : p.cost s < p.cost t) : s < t :=
  lt_of_not_ge fun hle => absurd (curve_mono hle) (not_le.mpr h)

/-! ### Sales -/

/-- What is paid for the tokens leaves enough for the others. -/
theorem cost_after_sale [FollowsCurve] (hp : p.Solvent) (h : input.unwrap ≤ p.sold) :
    p.cost (p.sold - input.unwrap) + p.sale input ≤ (p.reservesX - p.kept : Nat) := by
  have hsale := FollowsCurve.sell_le p.aNum p.bNum _ _ h (Nat.sub_le _ _)
  have hcovers := hp.covers
  unfold cost sale at *
  linarith

theorem sale_le [FollowsCurve] (hp : p.Solvent) (h : input.unwrap ≤ p.sold) :
    p.sale input ≤ p.reservesX - p.kept := by
  have hcost : 0 ≤ p.cost (p.sold - input.unwrap) := by
    unfold cost curve
    positivity
  have hle := cost_after_sale hp h
  exact Nat.cast_le (α := ℚ).mp (by linarith)

theorem one_le_sale [FollowsCurve] (h : input.unwrap ≤ p.sold)
    (hworth : 1 < p.cost p.sold - p.cost (p.sold - input.unwrap)) : 1 ≤ p.sale input := by
  have hsale := FollowsCurve.lt_sell p.aNum p.bNum _ _ h (Nat.sub_le _ _)
  have hpos : (0 : ℚ) < p.sale input := by
    unfold cost sale at *
    linarith
  exact Nat.cast_pos.mp hpos

theorem outputAmount_sale [FollowsCurve] (hp : p.Solvent) (hsells : ¬ p.Buys input)
    (h : input.unwrap ≤ p.sold) :
    p.outputAmount (p.pair.paid input) input.unwrap = .ok (p.sale input) := by
  have hsale := (sale_le hp h).trans (Nat.sub_le _ _)
  simp only [outputAmount, Checked.bind_eq_ok, supply_eq hp, Except.ok.injEq, exists_eq_left',
    Checked.pure_eq_ok]
  rw [if_neg (show ¬ p.pair.paid input = p.assetX from hsells)]
  exact if_pos (hsale.trans_lt hp.fits)

theorem safeOutput_sale [FollowsCurve] (hwf : p.WellFormed) (hp : p.Solvent)
    (hsells : ¬ p.Buys input) (h : input.unwrap ≤ p.sold) :
    safeOutput p.ver input (p.sale input) (p.paidReserves input) = .ok (p.sale input) := by
  have hsale := sale_le hp h
  have hkept := hp.kept_le
  have hreserves : p.paidReserves input = p.reservesX :=
    if_neg (mt (entersX_eq hwf).mp hsells)
  rw [hreserves]
  cases input with
  | bid amount =>
    cases hver : p.ver with
    | v1 =>
      simp only [kept, hver, keptOf] at hsale hkept
      have hle : p.sale (.bid amount) + minAda ≤ p.reservesX := by omega
      simp only [safeOutput, Checked.bind_eq_ok, Checked.add_eq_ok, Checked.pure_eq_ok]
      exact ⟨_, ⟨hle.trans_lt hp.fits, rfl⟩, if_pos hle⟩
    | v1T2t => rfl
  | ask amount =>
    have hmin : min (p.sale (.ask amount)) p.reservesX = p.sale (.ask amount) := by omega
    simp only [safeOutput, hmin]
    rfl

/-! ### Purchases -/

theorem outputAmount_bought {supply amount : Nat} (hsupply : p.supply = .ok supply)
    (h : Numerics.curveBuy p.aNum p.bNum supply amount = candidate) (hlt : candidate < 2 ^ 64) :
    p.outputAmount p.assetX amount = .ok candidate := by
  simp only [outputAmount, Checked.bind_eq_ok, hsupply, Except.ok.injEq, exists_eq_left',
    Checked.pure_eq_ok, if_true, h]
  exact if_pos hlt

theorem cost_bought [FollowsCurve] (hp : p.Solvent) {amount : Nat}
    (h : p.outputAmount p.assetX amount = .ok candidate) :
    p.cost (p.sold + candidate) ≤ p.cost p.sold + amount := by
  simp only [outputAmount, Checked.bind_eq_ok, supply_eq hp, Except.ok.injEq, exists_eq_left',
    Checked.pure_eq_ok, if_true] at h
  subst h
  split
  · exact FollowsCurve.buy p.aNum p.bNum p.sold amount (Nat.sub_le _ _)
  · have hamount : (0 : ℚ) ≤ amount := Nat.cast_nonneg _
    rw [Nat.add_zero]
    linarith

/-- A buyer is paid what the reserves hold of the candidate. -/
theorem safeOutput_bought [FollowsCurve] (hwf : p.WellFormed) (hp : p.Solvent)
    (hadm : p.Admits input) (hbuys : p.Buys input)
    (heffective : p.effectiveInput input = .ok effective)
    (hcost : p.cost (p.sold + candidate) ≤ p.cost p.sold + effective)
    (h : safeOutput p.ver input candidate (p.paidReserves input) = .ok output) :
    output ≤ candidate ∧ output ≤ p.reservesY := by
  have hreserves : p.paidReserves input = p.reservesY := if_pos ((entersX_eq hwf).mpr hbuys)
  rw [hreserves] at h
  cases input with
  | bid amount =>
    have hroom : p.sold + candidate < tokenEmission - heldBack p.ver + 1 :=
      lt_of_cost_lt (hcost.trans_lt (hadm.left hbuys hbuys.symm effective heffective))
    have hemitted := hp.emitted
    cases hver : p.ver with
    | v1 =>
      simp only [hver, safeOutput, heldBack, Checked.bind_eq_ok, Checked.add_eq_ok,
        Checked.pure_eq_ok, sold] at h hroom
      obtain ⟨_, ⟨-, rfl⟩, rfl⟩ := h
      have hminAda : minAda ≤ tokenEmission := by decide
      rw [if_pos (by omega)]
      omega
    | v1T2t =>
      simp only [hver, safeOutput, heldBack, Checked.pure_eq_ok, sold] at h hroom
      omega
  | ask amount =>
    simp only [safeOutput, Checked.pure_eq_ok] at h
    omega

/-- A purchase: the fee and what is traded come out of the input. -/
theorem Pays.bought [FollowsCurve] (hwf : p.WellFormed) (hp : p.Solvent) (hadm : p.Admits input)
    (hbuys : p.Buys input) (hpays : p.Pays input output fee) : ∃ effective : Nat,
    keptOf p.ver fee + effective ≤ p.kept + input.unwrap ∧
    p.cost (p.sold + output) ≤ p.cost p.sold + effective := by
  cases hpays with
  | v1 hver hcandidate hsafe =>
    have hcost := cost_bought hp (hbuys ▸ hcandidate)
    have heffective : p.effectiveInput input = .ok input.unwrap := by
      simp only [effectiveInput, hver]
      rfl
    obtain ⟨hle, -⟩ := safeOutput_bought hwf hp hadm hbuys heffective hcost (hver ▸ hsafe)
    refine ⟨input.unwrap, ?_, (curve_mono (Nat.add_le_add_left hle _)).trans hcost⟩
    simp only [kept, hver, keptOf, le_refl]
  | @feeOnInput adjusted _ _ fee hver _ hadjusted hcandidate hsafe hfee =>
    have hcost := cost_bought hp (hbuys ▸ hcandidate)
    have heffective : p.effectiveInput input = .ok adjusted := by
      simp only [effectiveInput, hver, hadjusted]
    obtain ⟨hle, -⟩ := safeOutput_bought hwf hp hadm hbuys heffective hcost (hver ▸ hsafe)
    refine ⟨adjusted, ?_, (curve_mono (Nat.add_le_add_left hle _)).trans hcost⟩
    have hadjustedLe := adjusted_le (hwf.fee hver ▸ hadjusted)
    have hfeeLe := fee_le (hwf.fee hver ▸ hfee)
    simp only [kept, hver, keptOf]
    omega
  | feeOnOutput _ hne => exact absurd hbuys hne

/-- A sale: the fee comes out of what is paid. -/
theorem Pays.sold [FollowsCurve] (hwf : p.WellFormed) (hp : p.Solvent) (hadm : p.Admits input)
    (hsells : ¬ p.Buys input) (hpays : p.Pays input output fee) :
    p.payout (p.sale input) = .ok output ∧
    keptOf p.ver fee + output ≤ p.kept + p.sale input := by
  have hredeems := hadm.redeems hsells
  cases hpays with
  | v1 hver hcandidate hsafe =>
    cases Except.ok.inj ((outputAmount_sale hp hsells hredeems).symm.trans hcandidate)
    have hsale := hver ▸ safeOutput_sale hwf hp hsells hredeems
    cases Except.ok.inj (hsale.symm.trans hsafe)
    simp only [payout, kept, hver, keptOf, le_refl, and_true]
    rfl
  | feeOnInput _ hbuys => exact absurd hbuys hsells
  | feeOnOutput hver _ hcandidate hsafe hpayout hfee =>
    cases Except.ok.inj ((outputAmount_sale hp hsells hredeems).symm.trans hcandidate)
    have hsale := hver ▸ safeOutput_sale hwf hp hsells hredeems
    cases Except.ok.inj (hsale.symm.trans hsafe)
    have hpayoutLe := payout_le (hwf.fee hver ▸ hpayout)
    have hfeeLe := fee_le (hwf.fee hver ▸ hfee)
    simp only [payout, kept, hver, keptOf, hpayout, true_and]
    omega

/-! ### Runs -/

theorem WellFormed.swap (hwf : p.WellFormed) (h : p.swap input = .ok p') : p'.WellFormed := by
  obtain ⟨output, -, -, hp'⟩ := swap_spec h
  rw [hp']
  exact ⟨hwf.assets, hwf.fee⟩

/-- What a trade does to the reserves of a pool that is solvent. -/
theorem Solvent.swap [FollowsCurve] (hwf : p.WellFormed) (hp : p.Solvent) (hadm : p.Admits input)
    (h : p.swap input = .ok p') : p'.Solvent := by
  obtain ⟨output, hpays, hmove, hp'⟩ := swap_spec h
  rw [Pair.move_eq_ok] at hmove
  have hkept : p'.kept = keptOf p.ver p'.accumulatedXFee := by rw [hp', kept]
  have hcost (s : Nat) : p'.cost s = p.cost s := by rw [hp', cost, cost]
  have hfits := hp.fits
  have hemitted := hp.emitted
  have hcovers := hp.covers
  have hkeptLe := hp.kept_le
  by_cases hbuys : p.Buys input
  · rw [if_pos ((entersX_eq hwf).mpr hbuys)] at hmove
    obtain ⟨hlt, hle, hx, hy⟩ := hmove
    obtain ⟨effective, hflow, hbought⟩ := hpays.bought hwf hp hadm hbuys
    have hsold : p'.sold = p.sold + output := by
      rw [sold, sold]
      omega
    have hbacked : p.reservesX - p.kept + effective ≤ p'.reservesX - p'.kept := by omega
    have hbacked' : ((p.reservesX - p.kept : Nat) : ℚ) + effective ≤
        (p'.reservesX - p'.kept : Nat) := by exact_mod_cast hbacked
    refine ⟨by omega, by omega, by omega, ?_⟩
    rw [hcost, hsold]
    linarith
  · rw [if_neg (mt (entersX_eq hwf).mp hbuys)] at hmove
    obtain ⟨hlt, hle, hx, hy⟩ := hmove
    obtain ⟨-, hflow⟩ := hpays.sold hwf hp hadm hbuys
    have hredeems := hadm.redeems hbuys
    have hsale := sale_le hp hredeems
    have hafter := cost_after_sale hp hredeems
    have hsold : p'.sold = p.sold - input.unwrap := by
      rw [sold, sold]
      omega
    have hemitted' : p'.reservesY ≤ tokenEmission := by
      rw [sold] at hredeems
      omega
    have hbacked : p.reservesX - p.kept ≤ p'.reservesX - p'.kept + p.sale input := by omega
    have hbacked' : ((p.reservesX - p.kept : Nat) : ℚ) ≤
        (p'.reservesX - p'.kept : Nat) + p.sale input := by exact_mod_cast hbacked
    refine ⟨by omega, hemitted', by omega, ?_⟩
    rw [hcost, hsold]
    linarith

theorem outputAmount_ne_underflow (hp : p.Solvent) {asset : AssetClass} {amount : Nat} :
    p.outputAmount asset amount ≠ .error .underflow :=
  Checked.bind_ne_error (Checked.sub_ne_error hp.emitted) fun _ _ => Checked.pure_ne_error

omit [Numerics] in
theorem safeOutput_ne_underflow {ver : QuadraticPoolVer} {reserves : Nat} :
    safeOutput ver input candidate reserves ≠ .error .underflow := by
  unfold safeOutput
  split
  · exact Checked.bind_ne_error Checked.add_ne_underflow fun _ _ => Checked.pure_ne_error
  · exact Checked.pure_ne_error
  · exact Checked.pure_ne_error

theorem swap_ne_underflow [FollowsCurve] (hwf : p.WellFormed) (hp : p.Solvent)
    (hadm : p.Admits input) : p.swap input ≠ .error .underflow := by
  have hkept := hp.kept_le
  cases hver : p.ver with
  | v1 =>
    simp only [QuadraticPool.swap, hver]
    refine Checked.bind_ne_error (outputAmount_ne_underflow hp) fun candidate hcandidate => ?_
    refine Checked.bind_ne_error safeOutput_ne_underflow fun output hsafe => ?_
    refine Checked.bind_ne_error (Pair.move_regular ?_ _ (by decide)) fun _ _ =>
      Checked.pure_ne_error
    by_cases hbuys : p.Buys input
    · rw [if_pos ((entersX_eq hwf).mpr hbuys)]
      have heffective : p.effectiveInput input = .ok input.unwrap := by
        simp only [effectiveInput, hver]
        rfl
      exact (safeOutput_bought hwf hp hadm hbuys heffective (cost_bought hp (hbuys ▸ hcandidate))
        (hver ▸ hsafe)).2
    · rw [if_neg (mt (entersX_eq hwf).mp hbuys)]
      obtain ⟨hpayout, -⟩ := (Pays.v1 hver hcandidate hsafe).sold hwf hp hadm hbuys
      simp only [payout, hver, Checked.pure_eq_ok] at hpayout
      have hsale := sale_le hp (hadm.redeems hbuys)
      omega
  | v1T2t =>
    have hfee := hwf.fee hver
    by_cases hbuys : p.Buys input
    · simp only [QuadraticPool.swap, hver]
      rw [if_pos (show p.pair.paid input = p.assetX from hbuys), hfee]
      refine Checked.bind_ne_error (adjustedXInput_ne_underflow (hadm.input_le hbuys hver))
        fun adjusted hadjusted => ?_
      refine Checked.bind_ne_error (outputAmount_ne_underflow hp) fun candidate hcandidate => ?_
      refine Checked.bind_ne_error safeOutput_ne_underflow fun output hsafe => ?_
      refine Checked.bind_ne_error adjustXFee_ne_underflow fun fee _ => ?_
      refine Checked.bind_ne_error Checked.add_ne_underflow fun _ _ => ?_
      refine Checked.bind_ne_error (Pair.move_regular ?_ _ (by decide)) fun _ _ =>
      Checked.pure_ne_error
      rw [if_pos ((entersX_eq hwf).mpr hbuys)]
      have heffective : p.effectiveInput input = .ok adjusted := by
        simp only [effectiveInput, hver, hfee, hadjusted]
      exact (safeOutput_bought hwf hp hadm hbuys heffective (cost_bought hp (hbuys ▸ hcandidate))
        (hver ▸ hsafe)).2
    · have hredeems := hadm.redeems hbuys
      simp only [QuadraticPool.swap, hver]
      rw [if_neg (show ¬ p.pair.paid input = p.assetX from hbuys), hfee]
      refine Checked.bind_ne_error (outputAmount_ne_underflow hp) fun candidate hcandidate => ?_
      cases Except.ok.inj ((outputAmount_sale hp hbuys hredeems).symm.trans hcandidate)
      refine Checked.bind_ne_error safeOutput_ne_underflow fun output hsafe => ?_
      have hsale := hver ▸ safeOutput_sale hwf hp hbuys hredeems
      cases Except.ok.inj (hsale.symm.trans hsafe)
      refine Checked.bind_ne_error adjustXFee_ne_underflow fun fee _ => ?_
      refine Checked.bind_ne_error Checked.add_ne_underflow fun _ _ => ?_
      refine Checked.bind_ne_error (adjustXOutput_ne_underflow
        (one_le_sale hredeems (hadm.worth hbuys hver))) fun payout hpayout => ?_
      refine Checked.bind_ne_error (Pair.move_regular ?_ _ (by decide)) fun _ _ =>
      Checked.pure_ne_error
      rw [if_neg (mt (entersX_eq hwf).mp hbuys)]
      have hpayoutLe := payout_le hpayout
      have hsaleLe := sale_le hp hredeems
      omega

/-- How a pool settles a trade: no subtraction goes below zero, and a seller is paid the full
amount on the curve. -/
structure Settles (p : QuadraticPool) (input : OnSide Nat) : Prop where
  exact : p.swap input ≠ .error .underflow
  covered : ¬ p.Buys input → p.sale input + p.kept ≤ p.reservesX
  uncapped : ¬ p.Buys input →
    p.outputAmount (p.pair.paid input) input.unwrap = .ok (p.sale input) ∧
      safeOutput p.ver input (p.sale input) (p.paidReserves input) = .ok (p.sale input)
  paid : ¬ p.Buys input → ∀ p', p.swap input = .ok p' →
    ∃ amount, p.payout (p.sale input) = .ok amount ∧ p'.reservesX + amount = p.reservesX

theorem Solvent.settles [FollowsCurve] (hwf : p.WellFormed) (hp : p.Solvent)
    (hadm : p.Admits input) : p.Settles input where
  exact := swap_ne_underflow hwf hp hadm
  covered hsells := by
    have hsale := sale_le hp (hadm.redeems hsells)
    have hkept := hp.kept_le
    omega
  uncapped hsells := ⟨outputAmount_sale hp hsells (hadm.redeems hsells),
    safeOutput_sale hwf hp hsells (hadm.redeems hsells)⟩
  paid hsells p' h := by
    obtain ⟨output, hpays, hmove, -⟩ := swap_spec h
    rw [Pair.move_eq_ok, if_neg (mt (entersX_eq hwf).mp hsells)] at hmove
    obtain ⟨hpayout, -⟩ := hpays.sold hwf hp hadm hsells
    exact ⟨output, hpayout, by omega⟩

/-- A trade that a pool admits. -/
def Trades (p p' : QuadraticPool) : Prop := ∃ input, p.Admits input ∧ p.swap input = .ok p'

theorem solvent_of_trades [FollowsCurve] {fresh : QuadraticPool} (hfresh : fresh.Fresh)
    (h : Relation.ReflTransGen Trades fresh p) : p.WellFormed ∧ p.Solvent := by
  induction h with
  | refl => exact ⟨hfresh.wellFormed, hfresh.solvent⟩
  | tail _ htrade ih =>
    obtain ⟨hwf, hp⟩ := ih
    obtain ⟨input, hadm, hswap⟩ := htrade
    exact ⟨hwf.swap hswap, hp.swap hwf hadm hswap⟩

theorem trades_settle [FollowsCurve] {fresh : QuadraticPool} (hfresh : fresh.Fresh)
    (h : Relation.ReflTransGen Trades fresh p) :
    p.Solvent ∧ ∀ input, p.Admits input → p.Settles input := by
  obtain ⟨hwf, hp⟩ := solvent_of_trades hfresh h
  exact ⟨hp, fun input hadm => hp.settles hwf hadm⟩

end QuadraticPool

/-! ### A search over every supply -/

@[reducible] def exactNumerics : Numerics where
  balanceRoot _ _ _ := 0
  curveBuy aNum bNum supply input :=
    Nat.findGreatest (fun output =>
      curve aNum bNum (supply + output) ≤ curve aNum bNum supply + input) tokenEmission
  curveSell aNum bNum supply input :=
    ⌊curve aNum bNum supply - curve aNum bNum (supply - input)⌋₊
  fuel := 255

theorem exactNumerics_followsCurve : @FollowsCurve exactNumerics := by
  refine @FollowsCurve.mk exactNumerics ?_ ?_ ?_
  · intro aNum bNum supply input _
    refine Nat.findGreatest_spec (P := fun output =>
      curve aNum bNum (supply + output) ≤ curve aNum bNum supply + input) (Nat.zero_le _) ?_
    exact le_add_of_nonneg_right (Nat.cast_nonneg _)
  · intro aNum bNum supply input _ _
    exact Nat.floor_le (sub_nonneg.mpr (curve_mono (Nat.sub_le _ _)))
  · intro aNum bNum supply input _ _
    exact (Nat.lt_floor_add_one _).le

/-- A pool that sells at one unit of x and a growing part of it. -/
def sampleCurve (ver : QuadraticPoolVer) (assetX : AssetClass) (reservesX : Nat) : QuadraticPool :=
  { id := sampleToken 1
    reservesX := reservesX
    reservesY := tokenEmission
    assetX := assetX
    assetY := .token (sampleToken 3)
    aNum := 3
    bNum := 1000000
    capThr := 1000000000
    ver := ver
    accumulatedXFee := 0
    xFeeNum := match ver with
      | .v1 => 0
      | .v1T2t => t2tFeeNum
    marginalCost := ⟨0, 0⟩
    bounds := ⟨0, 0⟩
    virgin := false
    capped := false }

theorem curveBuy_sample : exactNumerics.curveBuy 3 1000000 0 1001 = 1000 := by
  refine Nat.findGreatest_eq_iff.mpr ⟨by decide, fun _ => ?_, fun n hlt _ => not_le.mpr ?_⟩
  · norm_num [curve, aDenom, bDenom]
  · calc curve 3 1000000 0 + (1001 : Nat) < curve 3 1000000 1001 := by
          norm_num [curve, aDenom, bDenom]
      _ ≤ curve 3 1000000 (0 + n) := curve_mono (by omega)

theorem trades_settle_sample :
    ({ sampleCurve .v1 .native (minAda + 1001) with
      reservesY := tokenEmission - 1000 } : QuadraticPool).Solvent ∧
    @QuadraticPool.Settles exactNumerics
      { sampleCurve .v1 .native (minAda + 1001) with reservesY := tokenEmission - 1000 }
      (.bid 400) := by
  let _ := exactNumerics
  have _ := exactNumerics_followsCurve
  have hfresh : (sampleCurve .v1 .native minAda).Fresh :=
    ⟨⟨by decide, fun h => by cases h⟩, by decide, rfl, le_refl _⟩
  have hadmits : (sampleCurve .v1 .native minAda).Admits (.ask 1001) :=
    ⟨fun _ h => (by cases h), fun _ h => absurd h (by decide), fun h => absurd h (by decide),
      fun _ h => (by cases h)⟩
  have hbuy : (sampleCurve .v1 .native minAda).Trades
      { sampleCurve .v1 .native (minAda + 1001) with reservesY := tokenEmission - 1000 } :=
    ⟨.ask 1001, hadmits, Checked.bind_eq_ok.mpr ⟨1000,
      QuadraticPool.outputAmount_bought rfl curveBuy_sample (by decide), by decide +kernel⟩⟩
  obtain ⟨hsolvent, hsettles⟩ := QuadraticPool.trades_settle hfresh (.single hbuy)
  exact ⟨hsolvent, hsettles (.bid 400) ⟨fun _ h => (by cases h), fun _ h => absurd h (by decide),
    fun _ => by decide, fun _ h => (by cases h)⟩⟩

/-- A fee of one unit leaves nothing of a trade of one. -/
theorem trades_underflow :
    ¬ ∀ (_ : Numerics) (_ : FollowsCurve) (p : QuadraticPool) (input : OnSide Nat), p.Fresh →
      (¬ p.Buys input → input.unwrap ≤ p.sold) → p.swap input ≠ .error .underflow := by
  intro h
  refine h exactNumerics exactNumerics_followsCurve
    (sampleCurve .v1T2t (.token (sampleToken 2)) 0) (.ask 1)
    ⟨⟨by decide, fun _ => rfl⟩, by decide, rfl, by decide⟩ (fun hsells => absurd ?_ hsells) ?_
  · decide
  · rfl

end UtxoMonitor.Pools
