import Mathlib.Algebra.Order.Ring.Nat
import UtxoMonitor.Pools.ConstFn
import UtxoMonitor.Pools.Balance

/-! Prices and swaps that stop only where an amount does not fit its words. -/
namespace UtxoMonitor.Pools

open Lib LiquidityBook

/-! ### Fees over one denominator -/

namespace Ratio

/-- A fee of so many parts of `feeDen`, reduced or not. -/
structure Is (r : Ratio) (parts : Nat) : Prop where
  denom_dvd : r.denom ∣ feeDen
  numer_mul : r.numer * feeDen = parts * r.denom

variable {a b r : Ratio} {n d v w : Nat}

theorem is_feeDen (n : Nat) : Is ⟨n, feeDen⟩ n := ⟨dvd_refl _, rfl⟩

theorem is_zero (h : d ∣ feeDen) : Is ⟨0, d⟩ 0 := ⟨h, by simp⟩

theorem Is.denom_pos (h : r.Is v) : 0 < r.denom :=
  Nat.pos_of_dvd_of_pos h.denom_dvd (by decide)

theorem Is.denom_le (h : r.Is v) : r.denom ≤ feeDen := Nat.le_of_dvd (by decide) h.denom_dvd

theorem Is.numer_le (h : r.Is v) : r.numer ≤ v := by
  refine Nat.le_of_mul_le_mul_right (c := feeDen) ?_ (by decide)
  rw [h.numer_mul]
  exact Nat.mul_le_mul_left _ h.denom_le

theorem Is.reduced (h : Is ⟨n, d⟩ v) : (reduced n d).Is v := by
  have hpos : 0 < Nat.gcd n d := Nat.gcd_pos_of_pos_right n h.denom_pos
  refine ⟨(Nat.div_dvd_of_dvd (Nat.gcd_dvd_right n d)).trans h.denom_dvd, ?_⟩
  refine Nat.eq_of_mul_eq_mul_left hpos ?_
  calc Nat.gcd n d * (n / Nat.gcd n d * feeDen)
      = Nat.gcd n d * (n / Nat.gcd n d) * feeDen := (mul_assoc _ _ _).symm
    _ = n * feeDen := by rw [Nat.mul_div_cancel' (Nat.gcd_dvd_left n d)]
    _ = v * d := h.numer_mul
    _ = v * (Nat.gcd n d * (d / Nat.gcd n d)) := by
      rw [Nat.mul_div_cancel' (Nat.gcd_dvd_right n d)]
    _ = Nat.gcd n d * (v * (d / Nat.gcd n d)) := Nat.mul_left_comm _ _ _

/-- The parts over another denominator. -/
theorem Is.scale (h : r.Is v) {l : Nat} (hl : r.denom ∣ l) :
    r.numer * (l / r.denom) * feeDen = v * l := by
  calc r.numer * (l / r.denom) * feeDen
      = r.numer * feeDen * (l / r.denom) := Nat.mul_right_comm _ _ _
    _ = v * r.denom * (l / r.denom) := by rw [h.numer_mul]
    _ = v * (r.denom * (l / r.denom)) := mul_assoc _ _ _
    _ = v * l := by rw [Nat.mul_div_cancel' hl]

theorem new_eq_ok (h : 0 < d) : new n d = .ok (Ratio.reduced n d) := if_pos h.ne'

/-- Fees are subtracted in parts, whatever their denominators. -/
theorem Is.sub (ha : a.Is v) (hb : b.Is w) (hle : w ≤ v) (hv : v < 2 ^ 64) :
    ∃ r, a.sub b = .ok r ∧ r.Is (v - w) := by
  unfold Ratio.sub
  split
  · rename_i hdenom
    have hnumer : b.numer ≤ a.numer := by
      refine Nat.le_of_mul_le_mul_right (c := feeDen) ?_ (by decide)
      rw [ha.numer_mul, hb.numer_mul, hdenom]
      exact Nat.mul_le_mul_right _ hle
    refine ⟨_, Checked.bind_eq_ok.mpr
      ⟨_, Checked.sub_eq_ok.mpr ⟨hnumer, rfl⟩, new_eq_ok hb.denom_pos⟩, Is.reduced ?_⟩
    refine ⟨hb.denom_dvd, ?_⟩
    show (a.numer - b.numer) * feeDen = (v - w) * b.denom
    rw [Nat.sub_mul, Nat.sub_mul, ha.numer_mul, hb.numer_mul, hdenom]
  · have hlcm : a.denom * (b.denom / Nat.gcd a.denom b.denom) = Nat.lcm a.denom b.denom :=
      (Nat.mul_div_assoc _ (Nat.gcd_dvd_right _ _)).symm
    have hdvd : Nat.lcm a.denom b.denom ∣ feeDen := Nat.lcm_dvd ha.denom_dvd hb.denom_dvd
    have hpos : 0 < Nat.lcm a.denom b.denom := Nat.lcm_pos ha.denom_pos hb.denom_pos
    have hlt : Nat.lcm a.denom b.denom < 2 ^ 64 :=
      (Nat.le_of_dvd (by decide) hdvd).trans_lt (by decide)
    have hscaleA := ha.scale (Nat.dvd_lcm_left a.denom b.denom)
    have hscaleB := hb.scale (Nat.dvd_lcm_right a.denom b.denom)
    generalize Nat.lcm a.denom b.denom = l at hlcm hdvd hpos hlt hscaleA hscaleB ⊢
    have hl : l ≤ feeDen := Nat.le_of_dvd (by decide) hdvd
    have hA : a.numer * (l / a.denom) ≤ v := by
      refine Nat.le_of_mul_le_mul_right (c := feeDen) ?_ (by decide)
      rw [hscaleA]
      exact Nat.mul_le_mul_left _ hl
    have hB : b.numer * (l / b.denom) ≤ a.numer * (l / a.denom) := by
      refine Nat.le_of_mul_le_mul_right (c := feeDen) ?_ (by decide)
      rw [hscaleA, hscaleB]
      exact Nat.mul_le_mul_right _ hle
    refine ⟨Ratio.reduced (a.numer * (l / a.denom) - b.numer * (l / b.denom)) l, ?_,
      Is.reduced ⟨hdvd, ?_⟩⟩
    · simp only [Checked.bind_eq_ok, Checked.mul_eq_ok, Checked.div_eq_ok, Checked.sub_eq_ok, hlcm]
      exact ⟨_, ⟨hlt, rfl⟩, _, ⟨ha.denom_pos.ne', rfl⟩, _, ⟨hA.trans_lt hv, rfl⟩,
        _, ⟨hb.denom_pos.ne', rfl⟩, _, ⟨hB.trans_lt (hA.trans_lt hv), rfl⟩, _, ⟨hB, rfl⟩,
        new_eq_ok hpos⟩
    · show (a.numer * (l / a.denom) - b.numer * (l / b.denom)) * feeDen = (v - w) * l
      rw [Nat.sub_mul, Nat.sub_mul, hscaleA, hscaleB]

theorem Is.share_regular (h : r.Is v) (amount : Nat) : Checked.Regular (r.share amount) :=
  Checked.regular_bind Checked.regular_mul fun _ _ => Checked.regular_div h.denom_pos.ne'

end Ratio

/-! ### Outputs of constant product pools -/

section

variable {pair : Pair} {x y amount output base quote : Nat} {fee feeX feeY : Ratio}
  {input : OnSide Nat} {asset : AssetClass}

theorem Pair.collect_regular (h : ∀ amount, Checked.Regular (fee.share amount)) :
    Checked.Regular (pair.collect input fee x y) := by
  unfold Pair.collect
  split
  · exact Checked.regular_bind (h _) fun _ _ =>
      Checked.regular_bind Checked.regular_add fun _ _ => Checked.regular_pure
  · exact Checked.regular_bind (h _) fun _ _ =>
      Checked.regular_bind Checked.regular_add fun _ _ => Checked.regular_pure

theorem cfmmQuoteAmount_regular (hbase : 0 < base) (hfee : 0 < fee.denom) :
    Checked.Regular (cfmmQuoteAmount base quote amount fee) := by
  refine Checked.regular_bind Checked.regular_mul fun _ _ =>
    Checked.regular_bind Checked.regular_mul fun num _ =>
    Checked.regular_bind Checked.regular_mul fun kept hkept =>
    Checked.regular_bind Checked.regular_mul fun paid _ =>
    Checked.regular_bind Checked.regular_add fun denom hdenom => Checked.regular_div ?_
  obtain ⟨-, rfl⟩ := Checked.mul_eq_ok.mp hkept
  obtain ⟨-, rfl⟩ := Checked.add_eq_ok.mp hdenom
  exact (Nat.add_pos_left (Nat.mul_pos hbase hfee) _).ne'

/-- Of ADA there has to be more than what is never paid out. -/
theorem capLovelace_regular (hle : output ≤ y)
    (h : asset.isNative → untouchableLovelaceAmount ≤ y) :
    Checked.Regular (capLovelace asset y output) := by
  unfold capLovelace
  split
  · rename_i hnative
    refine Checked.regular_bind (Checked.regular_sub hle) fun left _ => ?_
    split
    · exact Checked.regular_sub (h hnative)
    · exact Checked.regular_pure
  · exact Checked.regular_pure

theorem le_of_capLovelace_regular (h : Checked.Regular (capLovelace asset y 0))
    (hnative : asset.isNative) : untouchableLovelaceAmount ≤ y := by
  by_contra hlt
  refine h .underflow (fun h => by cases h) ((if_pos hnative).trans ?_)
  show (if y - 0 < untouchableLovelaceAmount then Checked.sub y untouchableLovelaceAmount
    else pure 0) = .error .underflow
  rw [if_pos (by omega)]
  exact if_neg hlt

theorem mod_le_of_cfmmQuoteAmount (h : cfmmQuoteAmount base quote amount fee = .ok output) :
    output % 2 ^ 64 ≤ quote := (Nat.mod_le _ _).trans (cfmmQuoteAmount_le h)

theorem classicCfmmOutputAmount_le
    (h : classicCfmmOutputAmount pair x y asset amount feeX feeY = .ok output) :
    output ≤ if asset = pair.x then y else x := by
  unfold classicCfmmOutputAmount at h
  split at h
  · rename_i hx
    rw [if_pos hx]
    obtain ⟨quoteAmount, hquote, h⟩ := Checked.bind_eq_ok.mp h
    exact (capLovelace_le h).trans (mod_le_of_cfmmQuoteAmount hquote)
  · rename_i hx
    rw [if_neg hx]
    obtain ⟨quoteAmount, hquote, h⟩ := Checked.bind_eq_ok.mp h
    exact (capLovelace_le h).trans (mod_le_of_cfmmQuoteAmount hquote)

/-- The ADA of a pool is more than what is never paid out. -/
structure Pair.AboveUntouchable (pair : Pair) (x y : Nat) : Prop where
  y : pair.y.isNative → untouchableLovelaceAmount ≤ y
  x : pair.x.isNative → pair.x ≠ pair.y → untouchableLovelaceAmount ≤ x

theorem classicCfmmOutputAmount_regular (hx : 0 < x) (hy : 0 < y) (hfeeX : 0 < feeX.denom)
    (hfeeY : 0 < feeY.denom) (h : pair.AboveUntouchable x y) :
    Checked.Regular (classicCfmmOutputAmount pair x y (pair.paid input) amount feeX feeY) := by
  unfold classicCfmmOutputAmount
  split
  · exact Checked.regular_bind (cfmmQuoteAmount_regular hx hfeeX) fun _ hquote =>
      capLovelace_regular (mod_le_of_cfmmQuoteAmount hquote) h.y
  · rename_i hpaid
    have hne : pair.x ≠ pair.y := by
      intro heq
      obtain ⟨hbase, hquote⟩ | ⟨hbase, hquote⟩ := pair.base_quote <;> cases input <;>
        simp_all [Pair.paid]
    exact Checked.regular_bind (cfmmQuoteAmount_regular hy hfeeY) fun _ hquote =>
      capLovelace_regular (mod_le_of_cfmmQuoteAmount hquote) fun hnative => h.x hnative hne

theorem cfmmQuoteAmount_zero (hbase : 0 < base) (hlt : base < 2 ^ 64) (hpos : 0 < fee.denom)
    (hfee : fee.denom ≤ feeDen) : cfmmQuoteAmount base quote 0 fee = .ok 0 := by
  have hmul : base * fee.denom < 2 ^ 128 := by
    calc base * fee.denom ≤ base * feeDen := Nat.mul_le_mul_left _ hfee
      _ < 2 ^ 64 * feeDen := (Nat.mul_lt_mul_right (by decide)).mpr hlt
      _ < 2 ^ 128 := by decide
  rw [cfmmQuoteAmount_eq_ok]
  simp only [Nat.mul_zero, Nat.zero_mul, Nat.add_zero, Nat.zero_div, and_true]
  exact ⟨by decide, by decide, hmul, (Nat.mul_pos hbase hpos).ne'⟩

/-- A trade of nothing shows whether the ADA is enough. -/
theorem aboveUntouchable_of_regular (hx : 0 < x) (hxlt : x < 2 ^ 64) (hy : 0 < y)
    (hylt : y < 2 ^ 64) (hfeeX : 0 < feeX.denom) (hfeeX' : feeX.denom ≤ feeDen)
    (hfeeY : 0 < feeY.denom) (hfeeY' : feeY.denom ≤ feeDen)
    (h : ∀ input : OnSide Nat, input.unwrap = 0 →
      Checked.Regular (classicCfmmOutputAmount pair x y (pair.paid input) input.unwrap feeX feeY)) :
    pair.AboveUntouchable x y := by
  have hask := h (.ask 0) rfl
  have hbid := h (.bid 0) rfl
  simp only [classicCfmmOutputAmount, OnSide.unwrap_ask, OnSide.unwrap_bid,
    cfmmQuoteAmount_zero hx hxlt hfeeX hfeeX', cfmmQuoteAmount_zero hy hylt hfeeY hfeeY',
    Pair.paid] at hask hbid
  have hof : ∀ {asset : AssetClass} {liquidity : Nat},
      Checked.Regular ((.ok 0 : Checked Nat) >>= fun quoteAmount =>
        capLovelace asset liquidity (quoteAmount % 2 ^ 64)) → asset.isNative →
      untouchableLovelaceAmount ≤ liquidity := fun h => le_of_capLovelace_regular h
  obtain ⟨hbase, hquote⟩ | ⟨hbase, hquote⟩ := pair.base_quote
  · rw [hbase, if_pos rfl] at hask
    rw [hquote] at hbid
    refine ⟨hof hask, fun hnative hne => ?_⟩
    rw [if_neg hne.symm] at hbid
    exact hof hbid hnative
  · rw [hquote, if_pos rfl] at hbid
    rw [hbase] at hask
    refine ⟨hof hbid, fun hnative hne => ?_⟩
    rw [if_neg hne.symm] at hask
    exact hof hask hnative

end

/-! ### Prices and swaps of constant product pools -/

/-- What the available liquidity of a pool is estimated from, before its floating point. -/
def FeeSwitchPool.available (p : FeeSwitchPool) : Checked (Nat × Nat) := do
  return (← Checked.sub p.reservesX p.treasuryX, ← Checked.sub p.reservesY p.treasuryY)

def RoyaltyPool.available (p : RoyaltyPool) : Checked (Nat × Nat) := do
  return (← p.pureX, ← p.pureY)

def BalancePool.available (p : BalancePool) : Checked (Nat × Nat) := do
  return (← Checked.sub p.reservesX p.treasuryX, ← Checked.sub p.reservesY p.treasuryY)

/-- A trade that takes its output from less than the reserves moves them. -/
theorem Pair.move_regular_of_output {pair : Pair} {x y pureX pureY output : Nat}
    {input : OnSide Nat} (hx : pureX ≤ x) (hy : pureY ≤ y) (hsame : pair.x = pair.y → x = y)
    (h : output ≤ if pair.paid input = pair.x then pureY else pureX) :
    Checked.Regular (pair.move input output x y) := by
  refine Pair.move_regular ?_
  by_cases hne : pair.x = pair.y
  · rw [hsame hne] at hx ⊢
    split at h <;> split <;> omega
  · simp only [Pair.entersX_iff hne]
    split at h <;> rename_i hpaid
    · rw [if_pos hpaid]
      exact h.trans hy
    · rw [if_neg hpaid]
      exact h.trans hx

namespace ClassicPool

variable {p : ClassicPool}

theorem outputAmount_regular (hx : 0 < p.reservesX) (hy : 0 < p.reservesY)
    (hfee : 0 < p.lpFee.denom) (h : p.pair.AboveUntouchable p.reservesX p.reservesY)
    (input : OnSide Nat) : Checked.Regular (p.outputAmount (p.pair.paid input) input.unwrap) :=
  classicCfmmOutputAmount_regular hx hy hfee hfee h

theorem swap_regular (hx : 0 < p.reservesX) (hy : 0 < p.reservesY) (hfee : 0 < p.lpFee.denom)
    (hsame : p.assetX = p.assetY → p.reservesX = p.reservesY)
    (h : p.pair.AboveUntouchable p.reservesX p.reservesY) (input : OnSide Nat) :
    Checked.Regular (p.swap input) :=
  Checked.regular_bind (outputAmount_regular hx hy hfee h input) fun _ houtput =>
    Checked.regular_bind (Pair.move_regular_of_output le_rfl le_rfl hsame
      (classicCfmmOutputAmount_le houtput)) fun _ _ => Checked.regular_pure

end ClassicPool

namespace FeeSwitchPool

variable {p : FeeSwitchPool} {lpX lpY treasury : Nat}

theorem available_regular (hx : p.treasuryX ≤ p.reservesX) (hy : p.treasuryY ≤ p.reservesY) :
    Checked.Regular p.available :=
  Checked.regular_bind (Checked.regular_sub hx) fun _ _ =>
    Checked.regular_bind (Checked.regular_sub hy) fun _ _ => Checked.regular_pure

theorem staticPrice_regular (hx : p.treasuryX ≤ p.reservesX) (hy : p.treasuryY ≤ p.reservesY) :
    Checked.Regular p.staticPrice :=
  Checked.regular_bind (Checked.regular_sub hx) fun _ _ =>
    Checked.regular_bind (Checked.regular_sub hy) fun _ _ => Checked.regular_pure

/-- With its fees in order the output is that of a pool without its treasury. -/
theorem outputAmount_eq (hx : p.treasuryX ≤ p.reservesX) (hy : p.treasuryY ≤ p.reservesY)
    (hlpX : p.lpFeeX.Is lpX) (hlpY : p.lpFeeY.Is lpY) (htreasury : p.treasuryFee.Is treasury)
    (hleX : treasury ≤ lpX) (hleY : treasury ≤ lpY) (hltX : lpX < 2 ^ 64) (hltY : lpY < 2 ^ 64) :
    ∃ feeX feeY, feeX.Is (lpX - treasury) ∧ feeY.Is (lpY - treasury) ∧
      ∀ asset amount, p.outputAmount asset amount = classicCfmmOutputAmount p.pair
        (p.reservesX - p.treasuryX) (p.reservesY - p.treasuryY) asset amount feeX feeY := by
  obtain ⟨feeX, hfeeX, hisX⟩ := hlpX.sub htreasury hleX hltX
  obtain ⟨feeY, hfeeY, hisY⟩ := hlpY.sub htreasury hleY hltY
  refine ⟨feeX, feeY, hisX, hisY, fun asset amount => ?_⟩
  rw [outputAmount, Checked.sub, if_pos hx, Checked.sub, if_pos hy, hfeeX, hfeeY]
  rfl

theorem swap_regular {feeX feeY : Ratio} (hx : p.treasuryX < p.reservesX)
    (hy : p.treasuryY < p.reservesY) (hfeeX : 0 < feeX.denom) (hfeeY : 0 < feeY.denom)
    (htreasury : p.treasuryFee.Is treasury)
    (houtput : ∀ asset amount, p.outputAmount asset amount = classicCfmmOutputAmount p.pair
      (p.reservesX - p.treasuryX) (p.reservesY - p.treasuryY) asset amount feeX feeY)
    (hsame : p.assetX = p.assetY → p.reservesX = p.reservesY)
    (h : p.pair.AboveUntouchable (p.reservesX - p.treasuryX) (p.reservesY - p.treasuryY))
    (input : OnSide Nat) : Checked.Regular (p.swap input) := by
  refine Checked.regular_bind ?_ fun output hok => Checked.regular_bind ?_ fun _ _ =>
    Checked.regular_bind (Pair.collect_regular htreasury.share_regular) fun _ _ =>
    Checked.regular_pure
  · rw [houtput]
    exact classicCfmmOutputAmount_regular (Nat.sub_pos_of_lt hx) (Nat.sub_pos_of_lt hy) hfeeX hfeeY h
  · rw [houtput] at hok
    exact Pair.move_regular_of_output (Nat.sub_le _ _) (Nat.sub_le _ _) hsame
      (classicCfmmOutputAmount_le hok)

end FeeSwitchPool

/-- Three amounts are taken out of one when it holds them all. -/
theorem sub_three_eq_ok {a b c d left : Nat} :
    (do Checked.sub (← Checked.sub (← Checked.sub a b) c) d) = Except.ok left ↔
      b + c + d ≤ a ∧ a - (b + c + d) = left := by
  simp only [Checked.bind_eq_ok, Checked.sub_eq_ok]
  constructor
  · rintro ⟨_, ⟨h, rfl⟩, _, ⟨h', rfl⟩, h'', rfl⟩
    omega
  · rintro ⟨h, rfl⟩
    exact ⟨_, ⟨by omega, rfl⟩, _, ⟨by omega, rfl⟩, by omega, by omega⟩

namespace RoyaltyPool

variable {p : RoyaltyPool} {lp treasury first second : Nat}

/-- What belongs to the treasury and to the owners of royalties. -/
def owedX (p : RoyaltyPool) : Nat := p.treasuryX + p.firstRoyaltyX + p.secondRoyaltyX

def owedY (p : RoyaltyPool) : Nat := p.treasuryY + p.firstRoyaltyY + p.secondRoyaltyY

theorem pureX_eq_ok {pure : Nat} : p.pureX = .ok pure ↔
    p.owedX ≤ p.reservesX ∧ p.reservesX - p.owedX = pure := sub_three_eq_ok

theorem pureY_eq_ok {pure : Nat} : p.pureY = .ok pure ↔
    p.owedY ≤ p.reservesY ∧ p.reservesY - p.owedY = pure := sub_three_eq_ok

theorem available_regular (hx : p.owedX ≤ p.reservesX) (hy : p.owedY ≤ p.reservesY) :
    Checked.Regular p.available := by
  rw [available, pureX_eq_ok.mpr ⟨hx, rfl⟩, pureY_eq_ok.mpr ⟨hy, rfl⟩]
  exact Checked.regular_pure

theorem staticPrice_regular (hx : p.owedX ≤ p.reservesX) (hy : p.owedY ≤ p.reservesY) :
    Checked.Regular p.staticPrice := by
  rw [staticPrice, pureX_eq_ok.mpr ⟨hx, rfl⟩, pureY_eq_ok.mpr ⟨hy, rfl⟩]
  exact Checked.regular_pure

/-- What is traded of an input is what no fee is taken of. -/
theorem poolFee_eq (hlp : p.lpFee.Is lp) (htreasury : p.treasuryFee.Is treasury)
    (hfirst : p.firstRoyaltyFee.Is first) (hsecond : p.secondRoyaltyFee.Is second)
    (hle : treasury + first + second ≤ lp) (hlt : lp < 2 ^ 64) :
    ∃ fee, p.poolFee = .ok fee ∧ fee.Is (lp - treasury - first - second) := by
  obtain ⟨fee, hfee, his⟩ := hlp.sub htreasury (by omega) hlt
  obtain ⟨fee', hfee', his'⟩ := his.sub hfirst (by omega) (by omega)
  obtain ⟨fee'', hfee'', his''⟩ := his'.sub hsecond (by omega) (by omega)
  refine ⟨fee'', ?_, his''⟩
  exact Checked.bind_eq_ok.mpr ⟨fee, hfee, Checked.bind_eq_ok.mpr ⟨fee', hfee', hfee''⟩⟩

theorem outputAmount_eq {fee : Ratio} (hx : p.owedX ≤ p.reservesX) (hy : p.owedY ≤ p.reservesY)
    (hfee : p.poolFee = .ok fee) (asset : AssetClass) (amount : Nat) :
    p.outputAmount asset amount = classicCfmmOutputAmount p.pair (p.reservesX - p.owedX)
      (p.reservesY - p.owedY) asset amount fee fee := by
  rw [outputAmount, pureX_eq_ok.mpr ⟨hx, rfl⟩, pureY_eq_ok.mpr ⟨hy, rfl⟩, hfee]
  rfl

theorem swap_regular {fee : Ratio} (hx : p.owedX < p.reservesX) (hy : p.owedY < p.reservesY)
    (hfee : 0 < fee.denom) (htreasury : p.treasuryFee.Is treasury)
    (hfirst : p.firstRoyaltyFee.Is first) (hsecond : p.secondRoyaltyFee.Is second)
    (hpool : p.poolFee = .ok fee) (hsame : p.assetX = p.assetY → p.reservesX = p.reservesY)
    (h : p.pair.AboveUntouchable (p.reservesX - p.owedX) (p.reservesY - p.owedY))
    (input : OnSide Nat) : Checked.Regular (p.swap input) := by
  have houtput := outputAmount_eq hx.le hy.le hpool
  refine Checked.regular_bind ?_ fun output hok => Checked.regular_bind ?_ fun _ _ =>
    Checked.regular_bind (Pair.collect_regular htreasury.share_regular) fun _ _ =>
    Checked.regular_bind (Pair.collect_regular hfirst.share_regular) fun _ _ =>
    Checked.regular_bind (Pair.collect_regular hsecond.share_regular) fun _ _ =>
    Checked.regular_pure
  · rw [houtput]
    exact classicCfmmOutputAmount_regular (Nat.sub_pos_of_lt hx) (Nat.sub_pos_of_lt hy) hfee hfee h
  · rw [houtput] at hok
    exact Pair.move_regular_of_output (Nat.sub_le _ _) (Nat.sub_le _ _) hsame
      (classicCfmmOutputAmount_le hok)

end RoyaltyPool

/-! ### Prices and swaps of balance pools -/

/-- The numeric libraries round a root down. -/
class FloorsRoot [Numerics] : Prop where
  root_le : ∀ invariant basePart weight root, basePart ≠ 0 → weight ≠ 0 →
    invariant ≤ basePart * root ^ weight → Numerics.balanceRoot invariant basePart weight ≤ root

section

variable {invariant candidate output w a b c : Nat} {newInvariant : Nat → Checked Nat} {fee : Ratio}
  {base baseWeight quote quoteWeight amount : Nat}

theorem powU512_regular : Checked.Regular (powU512 a b) := by
  intro e he
  unfold powU512
  split
  · exact fun h => by cases h
  · exact fun h => he (Except.error.inj h).symm

theorem powU512_eq_ok : powU512 a b = .ok c ↔ a ^ b < 2 ^ 512 ∧ a ^ b = c := Checked.ite_eq_ok

/-- The search for an output ends above nothing, where the invariant is kept. -/
theorem settleOutput_regular (h : ∀ n ≤ candidate, Checked.Regular (newInvariant n))
    (hzero : ∀ value, newInvariant 0 = .ok value → invariant ≤ value) :
    Checked.Regular (settleOutput newInvariant invariant candidate) := by
  induction candidate with
  | zero =>
    refine Checked.regular_bind (h 0 le_rfl) fun value hvalue => ?_
    rw [if_neg (not_lt.mpr (hzero value hvalue))]
    exact Checked.regular_pure
  | succ candidate ih =>
    refine Checked.regular_bind (h _ le_rfl) fun value _ => ?_
    split
    · exact ih fun n hn => h n (Nat.le_succ_of_le hn)
    · exact Checked.regular_pure

theorem settleOutput_le (h : settleOutput newInvariant invariant candidate = .ok output) :
    output ≤ candidate := by
  induction candidate with
  | zero =>
    obtain ⟨value, -, h⟩ := Checked.bind_eq_ok.mp h
    split at h
    · cases h
    · exact (Checked.pure_eq_ok.mp h).ge
  | succ candidate ih =>
    obtain ⟨value, -, h⟩ := Checked.bind_eq_ok.mp h
    split at h
    · exact (ih h).trans (Nat.le_succ _)
    · exact (Checked.pure_eq_ok.mp h).ge

theorem calculateNewInvariantBnU_regular (h : output ≤ quote) (hfee : 0 < fee.denom) :
    Checked.Regular
      (calculateNewInvariantBnU base baseWeight amount quote quoteWeight output fee) :=
  Checked.regular_bind
    (Checked.regular_bind Checked.regular_mul fun _ _ => Checked.regular_div hfee.ne') fun _ _ =>
    Checked.regular_bind Checked.regular_add fun _ _ => Checked.regular_bind powU512_regular
    fun _ _ => Checked.regular_bind (Checked.regular_sub h) fun _ _ =>
    Checked.regular_bind powU512_regular fun _ _ => Checked.regular_mul

/-- Without an output the invariant does not fall. -/
theorem le_calculateNewInvariantBnU_zero {value : Nat}
    (h : calculateNewInvariantBnU base baseWeight amount quote quoteWeight 0 fee = .ok value) :
    base ^ baseWeight * quote ^ quoteWeight ≤ value := by
  simp only [calculateNewInvariantBnU, Checked.bind_eq_ok, Checked.add_eq_ok, Checked.sub_eq_ok,
    Checked.mul_eq_ok, powU512_eq_ok] at h
  obtain ⟨share, -, _, ⟨-, rfl⟩, _, ⟨-, rfl⟩, _, ⟨-, rfl⟩, _, ⟨-, rfl⟩, -, rfl⟩ := h
  exact Nat.mul_le_mul_right _ (Nat.pow_le_pow_left (Nat.le_add_right _ _) _)

theorem calculateBasePartWithFee_regular (hfee : 0 < fee.denom) :
    Checked.Regular (calculateBasePartWithFee base baseWeight amount fee) :=
  Checked.regular_bind Checked.regular_mul fun _ _ =>
    Checked.regular_bind (Checked.regular_div hfee.ne') fun _ _ =>
    Checked.regular_bind Checked.regular_add fun _ _ => powU512_regular

theorem le_calculateBasePartWithFee {value : Nat}
    (h : calculateBasePartWithFee base baseWeight amount fee = .ok value) :
    base ^ baseWeight ≤ value := by
  simp only [calculateBasePartWithFee, Checked.bind_eq_ok, Checked.add_eq_ok, powU512_eq_ok] at h
  obtain ⟨_, -, _, -, _, ⟨-, rfl⟩, -, rfl⟩ := h
  exact Nat.pow_le_pow_left (Nat.le_add_right _ _) _

variable [Numerics]

theorem balanceQuoteAmount_regular [FloorsRoot] (hbase : 0 < base) (hlt : quote < 2 ^ 64)
    (hweight : quoteWeight ≠ 0) (hfee : 0 < fee.denom) :
    Checked.Regular (balanceQuoteAmount base baseWeight quote quoteWeight amount fee) := by
  refine Checked.regular_bind powU512_regular fun _ hbasePart =>
    Checked.regular_bind powU512_regular fun _ hquotePart =>
    Checked.regular_bind Checked.regular_mul fun invariant hinvariant =>
    Checked.regular_bind (calculateBasePartWithFee_regular hfee) fun baseNewPart hnewPart => ?_
  rw [powU512_eq_ok] at hbasePart hquotePart
  rw [Checked.mul_eq_ok] at hinvariant
  have hle := le_calculateBasePartWithFee hnewPart
  have hpos : baseNewPart ≠ 0 := ((Nat.pow_pos hbase).trans_le hle).ne'
  have hroot : Numerics.balanceRoot invariant baseNewPart quoteWeight ≤ quote := by
    refine FloorsRoot.root_le _ _ _ _ hpos hweight ?_
    rw [← hinvariant.2, ← hbasePart.2, ← hquotePart.2]
    exact Nat.mul_le_mul_right _ hle
  rw [if_neg hpos, if_pos (hroot.trans_lt hlt)]
  refine Checked.regular_bind (Checked.regular_sub hroot) fun candidate hcandidate => ?_
  have hcandidate := (Checked.sub_eq_ok.mp hcandidate).2
  refine settleOutput_regular (fun n hn => calculateNewInvariantBnU_regular
    (hn.trans (hcandidate ▸ Nat.sub_le _ _)) hfee) fun value hvalue => ?_
  rw [← hinvariant.2, ← hbasePart.2, ← hquotePart.2]
  exact le_calculateNewInvariantBnU_zero hvalue

theorem balanceQuoteAmount_le
    (h : balanceQuoteAmount base baseWeight quote quoteWeight amount fee = .ok output) :
    output ≤ quote := by
  simp only [balanceQuoteAmount, Checked.bind_eq_ok] at h
  obtain ⟨_, -, _, -, _, -, baseNewPart, -, h⟩ := h
  split at h
  · cases h
  · split at h
    · obtain ⟨candidate, hcandidate, h⟩ := Checked.bind_eq_ok.mp h
      obtain ⟨-, rfl⟩ := Checked.sub_eq_ok.mp hcandidate
      exact (settleOutput_le h).trans (Nat.sub_le _ _)
    · cases h

end

namespace BalancePool

variable {p : BalancePool} {lp treasury : Nat}

theorem available_regular (hx : p.treasuryX ≤ p.reservesX) (hy : p.treasuryY ≤ p.reservesY) :
    Checked.Regular p.available :=
  Checked.regular_bind (Checked.regular_sub hx) fun _ _ =>
    Checked.regular_bind (Checked.regular_sub hy) fun _ _ => Checked.regular_pure

theorem staticPrice_regular (hx : p.treasuryX ≤ p.reservesX) (hy : p.treasuryY ≤ p.reservesY)
    (hweightX : p.weightX ≠ 0) (hweightY : p.weightY ≠ 0) : Checked.Regular p.staticPrice :=
  Checked.regular_bind (Checked.regular_sub hx) fun _ _ =>
    Checked.regular_bind Checked.regular_mul fun _ _ =>
    Checked.regular_bind (Checked.regular_div hweightX) fun _ _ =>
    Checked.regular_bind (Checked.regular_sub hy) fun _ _ =>
    Checked.regular_bind Checked.regular_mul fun _ _ =>
    Checked.regular_bind (Checked.regular_div hweightY) fun _ _ => Checked.regular_pure

variable [Numerics]

theorem outputAmount_eq (hx : p.treasuryX ≤ p.reservesX) (hy : p.treasuryY ≤ p.reservesY)
    (hlpX : p.lpFeeX.Is lp) (hlpY : p.lpFeeY.Is lp) (htreasury : p.treasuryFee.Is treasury)
    (hle : treasury ≤ lp) (hlt : lp < 2 ^ 64) :
    ∃ feeX feeY, feeX.Is (lp - treasury) ∧ feeY.Is (lp - treasury) ∧
      ∀ asset amount, p.outputAmount asset amount = balanceCfmmOutputAmount p.pair
        (p.reservesX - p.treasuryX) p.weightX (p.reservesY - p.treasuryY) p.weightY asset amount
        feeX feeY := by
  obtain ⟨feeX, hfeeX, hisX⟩ := hlpX.sub htreasury hle hlt
  obtain ⟨feeY, hfeeY, hisY⟩ := hlpY.sub htreasury hle hlt
  refine ⟨feeX, feeY, hisX, hisY, fun asset amount => ?_⟩
  rw [outputAmount, Checked.sub, if_pos hx, Checked.sub, if_pos hy, hfeeX, hfeeY]
  rfl

theorem balanceCfmmOutputAmount_regular [FloorsRoot] {pair : Pair}
    {x y weightX weightY amount : Nat} {asset : AssetClass} {feeX feeY : Ratio} (hx : 0 < x)
    (hxlt : x < 2 ^ 64) (hy : 0 < y) (hylt : y < 2 ^ 64) (hweightX : weightX ≠ 0)
    (hweightY : weightY ≠ 0) (hfeeX : 0 < feeX.denom) (hfeeY : 0 < feeY.denom) :
    Checked.Regular
      (balanceCfmmOutputAmount pair x weightX y weightY asset amount feeX feeY) := by
  unfold balanceCfmmOutputAmount
  split
  · exact balanceQuoteAmount_regular hx hylt hweightY hfeeX
  · exact balanceQuoteAmount_regular hy hxlt hweightX hfeeY

theorem balanceCfmmOutputAmount_le {pair : Pair} {x y weightX weightY amount output : Nat}
    {asset : AssetClass} {feeX feeY : Ratio}
    (h : balanceCfmmOutputAmount pair x weightX y weightY asset amount feeX feeY = .ok output) :
    output ≤ if asset = pair.x then y else x := by
  unfold balanceCfmmOutputAmount at h
  split at h
  · rename_i hx
    rw [if_pos hx.symm]
    exact balanceQuoteAmount_le h
  · rename_i hx
    rw [if_neg (Ne.symm hx)]
    exact balanceQuoteAmount_le h

theorem swap_regular {feeX feeY : Ratio}
    (hpure : ∀ asset amount, Checked.Regular (balanceCfmmOutputAmount p.pair
      (p.reservesX - p.treasuryX) p.weightX (p.reservesY - p.treasuryY) p.weightY asset amount
      feeX feeY))
    (htreasury : p.treasuryFee.Is treasury)
    (houtput : ∀ asset amount, p.outputAmount asset amount = balanceCfmmOutputAmount p.pair
      (p.reservesX - p.treasuryX) p.weightX (p.reservesY - p.treasuryY) p.weightY asset amount
      feeX feeY)
    (hsame : p.assetX = p.assetY → p.reservesX = p.reservesY) (input : OnSide Nat) :
    Checked.Regular (p.swap input) := by
  refine Checked.regular_bind ?_ fun output hok => Checked.regular_bind ?_ fun _ _ =>
    Checked.regular_bind (Pair.collect_regular htreasury.share_regular) fun _ _ =>
    Checked.regular_pure
  · rw [houtput]
    exact hpure _ _
  · rw [houtput] at hok
    exact Pair.move_regular_of_output (Nat.sub_le _ _) (Nat.sub_le _ _) hsame
      (balanceCfmmOutputAmount_le hok)

end BalancePool

end UtxoMonitor.Pools
