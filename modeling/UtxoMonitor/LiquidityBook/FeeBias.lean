import Mathlib.Algebra.Order.Ring.Int
import Mathlib.Tactic.Linarith
import Mathlib.Tactic.Ring
import UtxoMonitor.LiquidityBook.Trades

/-! How the fees of two orders move the price at which they settle. -/
namespace UtxoMonitor.LiquidityBook

/-! ### Prices kept within limits -/

section Clamp

variable {low high v v' : AbsolutePrice}

theorem clamp_of_le (h : low ≤ high) (hv : v ≤ low) : clamp v low high = low := by
  unfold clamp
  split
  · rename_i hin
    exact le_antisymm hv hin.1
  · rename_i hout
    have hlt : v < low := lt_of_le_of_ne hv fun heq => hout ⟨heq.ge, hv.trans h⟩
    rw [if_pos hlt]

theorem clamp_of_ge (h : low ≤ high) (hv : high ≤ v) : clamp v low high = high := by
  unfold clamp
  split
  · rename_i hin
    exact le_antisymm hin.2 hv
  · rw [if_neg (h.trans hv).not_gt]

theorem clamp_of_mem (hlow : low ≤ v) (hhigh : v ≤ high) : clamp v low high = v :=
  if_pos ⟨hlow, hhigh⟩

theorem clamp_mono (h : low ≤ high) (hv : v ≤ v') : clamp v low high ≤ clamp v' low high := by
  rcases le_total v low with hlow | hlow
  · rw [clamp_of_le h hlow]
    exact (clamp_mem v' h).1
  rcases le_total high v' with hhigh | hhigh
  · rw [clamp_of_ge h hhigh]
    exact (clamp_mem v h).2
  · rw [clamp_of_mem hlow (hv.trans hhigh), clamp_of_mem (hlow.trans hv) hhigh]
    exact hv

/-- The limits hide that a price has fallen only where they leave no room for it. -/
theorem clamp_le_clamp_iff (h : low ≤ high) :
    clamp v low high ≤ clamp v' low high ↔ v ≤ v' ∨ low = high ∨ high ≤ v' ∨ v ≤ low := by
  constructor
  · intro hle
    by_contra hnot
    obtain ⟨hfall, hne, hhigh, hlow⟩ := by simpa only [not_or, not_le] using hnot
    rcases le_total v' low with hv' | hv'
    · rw [clamp_of_le h hv'] at hle
      rcases le_total high v with hv | hv
      · rw [clamp_of_ge h hv] at hle
        exact hne (le_antisymm h hle)
      · rw [clamp_of_mem hlow.le hv] at hle
        exact hlow.not_ge hle
    · rw [clamp_of_mem hv' hhigh.le] at hle
      rcases le_total high v with hv | hv
      · rw [clamp_of_ge h hv] at hle
        exact hhigh.not_ge hle
      · rw [clamp_of_mem hlow.le hv] at hle
        exact hfall.not_ge hle
  · rintro (hv | rfl | hv | hv)
    · exact clamp_mono h hv
    · exact (clamp_mem v h).2.trans (clamp_mem v' h).1
    · rw [clamp_of_ge h hv]
      exact (clamp_mem v h).2
    · rw [clamp_of_le h hv]
      exact (clamp_mem v' h).1

end Clamp

/-! ### The bias -/

section Bias

variable {feeAsk feeAsk' feeBid feeBid' : Nat}

def biasPercent (feeAsk feeBid : Nat) : Int :=
  if (feeAsk : Int) < feeBid then (-feeAsk * 100 : Int).tdiv feeBid
  else (feeBid * 100 : Int).tdiv feeAsk

/-- The lesser fee in percent of the greater. -/
def feeShare (feeAsk feeBid : Nat) : Nat :=
  if feeAsk < feeBid then feeAsk * 100 / feeBid else feeBid * 100 / feeAsk

theorem biasPercent_eq (feeAsk feeBid : Nat) :
    biasPercent feeAsk feeBid =
      if feeAsk < feeBid then -(feeShare feeAsk feeBid : Int) else feeShare feeAsk feeBid := by
  unfold biasPercent feeShare
  by_cases h : feeAsk < feeBid
  · rw [if_pos h, if_pos h, if_pos (Int.ofNat_lt.mpr h), neg_mul, Int.neg_tdiv]
    rfl
  · rw [if_neg h, if_neg h, if_neg fun hlt => h (Int.ofNat_lt.mp hlt)]
    rfl

theorem feeShare_le (feeAsk feeBid : Nat) : feeShare feeAsk feeBid ≤ 100 := by
  unfold feeShare
  split
  · rename_i h
    exact Nat.div_le_of_le_mul (by omega)
  · rename_i h
    exact Nat.div_le_of_le_mul (by omega)

theorem biasPercent_ge (feeAsk feeBid : Nat) : -100 ≤ biasPercent feeAsk feeBid := by
  have h := feeShare_le feeAsk feeBid
  rw [biasPercent_eq]
  split <;> omega

/-- The one that pays more becomes the other, or the lesser fee keeps its percentage of the greater. -/
def KeepsBias (feeAsk feeBid feeAsk' feeBid' : Nat) : Prop :=
  (feeAsk < feeBid ∧ feeBid' ≤ feeAsk') ∨
    ((feeAsk < feeBid ↔ feeAsk' < feeBid') ∧ feeShare feeAsk feeBid = feeShare feeAsk' feeBid')

/-- As the fee of the ask rises or that of the bid falls, the lesser fee is a greater part of a bid's
and a smaller part of an ask's. -/
theorem biasPercent_le_iff (hask : feeAsk ≤ feeAsk') (hbid : feeBid' ≤ feeBid) :
    biasPercent feeAsk feeBid ≤ biasPercent feeAsk' feeBid' ↔
      KeepsBias feeAsk feeBid feeAsk' feeBid' := by
  rw [biasPercent_eq, biasPercent_eq, KeepsBias]
  by_cases h : feeAsk < feeBid
  · by_cases h' : feeAsk' < feeBid'
    · have hle : feeShare feeAsk feeBid ≤ feeShare feeAsk' feeBid' := by
        rw [feeShare, feeShare, if_pos h, if_pos h']
        exact Nat.div_le_div (Nat.mul_le_mul_right _ hask) hbid (by omega)
      rw [if_pos h, if_pos h']
      constructor
      · intro hbias
        exact .inr ⟨iff_of_true h h', by omega⟩
      · rintro (⟨-, hcross⟩ | ⟨-, hsame⟩) <;> omega
    · rw [if_pos h, if_neg h']
      exact iff_of_true (by omega) (.inl ⟨h, not_lt.mp h'⟩)
  · have h' : ¬ feeAsk' < feeBid' := by omega
    have hle : feeShare feeAsk' feeBid' ≤ feeShare feeAsk feeBid := by
      rw [feeShare, feeShare, if_neg h, if_neg h']
      rcases Nat.eq_zero_or_pos feeAsk with hzero | hpos
      · have hnone : feeBid' = 0 := by omega
        rw [hnone, Nat.zero_mul, Nat.zero_div]
        exact Nat.zero_le _
      · exact Nat.div_le_div (Nat.mul_le_mul_right _ hbid) hask hpos.ne'
    rw [if_neg h, if_neg h']
    constructor
    · intro hbias
      exact .inr ⟨iff_of_false h h', by omega⟩
    · rintro (⟨hcross, -⟩ | ⟨-, hsame⟩) <;> omega

end Bias

/-! ### The settled price -/

/-- The price moved by 3% of it for every hundred percent. -/
def biased (pivot : AbsolutePrice) (bias : Int) : AbsolutePrice :=
  (pivot + pivot * (3 / 100) * (bias / 100) : ℚ).toNNRat

theorem coe_biased {pivot : AbsolutePrice} {bias : Int} (h : -100 ≤ bias) :
    (biased pivot bias : ℚ) = pivot * (1 + 3 * bias / 10000) := by
  have hbias : (-100 : ℚ) ≤ bias := by exact_mod_cast h
  have heq : (pivot + pivot * (3 / 100) * (bias / 100) : ℚ) = pivot * (1 + 3 * bias / 10000) := by
    ring
  rw [biased, heq]
  refine Rat.coe_toNNRat _ (mul_nonneg pivot.coe_nonneg ?_)
  linarith

theorem biased_le_iff {pivot : AbsolutePrice} {bias bias' : Int} (h : -100 ≤ bias)
    (h' : -100 ≤ bias') :
    biased pivot bias ≤ biased pivot bias' ↔ pivot = 0 ∨ bias ≤ bias' := by
  rw [← NNRat.coe_le_coe, coe_biased h, coe_biased h']
  rcases eq_or_ne pivot 0 with rfl | hne
  · simp
  · have hpos : (0 : ℚ) < pivot := NNRat.coe_pos.mpr (pos_iff_ne_zero.mpr hne)
    rw [mul_le_mul_iff_right₀ hpos, ← Int.cast_le (R := ℚ)]
    constructor
    · intro hle
      exact .inr (by linarith)
    · rintro (hzero | hle)
      · exact absurd hzero hne
      · linarith

section Takers

variable {T U : Type} [MarketTaker T U] {ask ask' bid bid' : T}

def pivotalPrice (ask bid : T) (indexPrice : Option SpotPrice) : AbsolutePrice :=
  match indexPrice with
  | some indexPrice => clamp indexPrice (price ask) (price bid)
  | none => price ask + (price bid - price ask) / (2 : Nat)

theorem settlePrice_eq (ask bid : T) (indexPrice : Option SpotPrice) :
    settlePrice ask bid indexPrice =
      clamp (biased (pivotalPrice ask bid indexPrice) (biasPercent (fee ask) (fee bid)))
        (price ask) (price bid) :=
  rfl

/-- The bias does not fall from the one pair of fees to the other, or the limits hide that it does: they
are one, the lower price is beyond the limit of the bid, or the higher beyond that of the ask. -/
def KeepsPrice (ask bid : T) (indexPrice : Option SpotPrice) (feeAsk feeBid feeAsk' feeBid' : Nat) :
    Prop :=
  KeepsBias feeAsk feeBid feeAsk' feeBid' ∨ price ask = price bid ∨
    price bid ≤ biased (pivotalPrice ask bid indexPrice) (biasPercent feeAsk' feeBid') ∨
    biased (pivotalPrice ask bid indexPrice) (biasPercent feeAsk feeBid) ≤ price ask

theorem clamp_biased_le_iff (overlap : price ask ≤ price bid) (indexPrice : Option SpotPrice)
    {feeAsk feeAsk' feeBid feeBid' : Nat} (hask : feeAsk ≤ feeAsk') (hbid : feeBid' ≤ feeBid) :
    clamp (biased (pivotalPrice ask bid indexPrice) (biasPercent feeAsk feeBid))
        (price ask) (price bid) ≤
      clamp (biased (pivotalPrice ask bid indexPrice) (biasPercent feeAsk' feeBid'))
        (price ask) (price bid) ↔
      KeepsPrice ask bid indexPrice feeAsk feeBid feeAsk' feeBid' := by
  rw [clamp_le_clamp_iff overlap, biased_le_iff (biasPercent_ge _ _) (biasPercent_ge _ _),
    biasPercent_le_iff hask hbid, KeepsPrice]
  constructor
  · rintro ((hzero | hkeeps) | hrest)
    · refine .inr (.inr (.inr ?_))
      have hnone : biased (pivotalPrice ask bid indexPrice) (biasPercent feeAsk feeBid) = 0 := by
        rw [← NNRat.coe_inj, coe_biased (biasPercent_ge _ _), hzero, NNRat.coe_zero, zero_mul]
      rw [hnone]
      exact zero_le
    · exact .inl hkeeps
    · exact .inr hrest
  · rintro (hkeeps | hrest)
    · exact .inl (.inr hkeeps)
    · exact .inr hrest

/-- The settled price lies within the limits; it does not fall as the ask pays more, nor rise as the bid
does, just when the bias keeps up with the fees or the limits hide that it does not. -/
theorem settlePrice_monotone_iff (overlap : price ask ≤ price bid) (haskPrice : price ask' = price ask)
    (hbidPrice : price bid' = price bid) (hask : fee ask ≤ fee ask') (hbid : fee bid ≤ fee bid')
    (indexPrice : Option SpotPrice) :
    ((price ask ≤ settlePrice ask bid indexPrice ∧ settlePrice ask bid indexPrice ≤ price bid) ∧
        settlePrice ask bid indexPrice ≤ settlePrice ask' bid indexPrice ∧
        settlePrice ask bid' indexPrice ≤ settlePrice ask bid indexPrice) ↔
      KeepsPrice ask bid indexPrice (fee ask) (fee bid) (fee ask') (fee bid) ∧
        KeepsPrice ask bid indexPrice (fee ask) (fee bid') (fee ask) (fee bid) := by
  have haskPivot : pivotalPrice ask' bid indexPrice = pivotalPrice ask bid indexPrice := by
    cases indexPrice <;> simp only [pivotalPrice, haskPrice]
  have hbidPivot : pivotalPrice ask bid' indexPrice = pivotalPrice ask bid indexPrice := by
    cases indexPrice <;> simp only [pivotalPrice, hbidPrice]
  rw [settlePrice_eq ask' bid, settlePrice_eq ask bid', haskPivot, hbidPivot, haskPrice, hbidPrice,
    settlePrice_eq ask bid, clamp_biased_le_iff overlap indexPrice hask le_rfl,
    clamp_biased_le_iff overlap indexPrice le_rfl hbid]
  constructor
  · exact fun h => h.2
  · exact fun h => ⟨clamp_mem _ overlap, h⟩

end Takers

/-- An order of a price in percent and of a fee. -/
def feeOrder (side : Side) (pricePercent fee : Nat) : SimpleOrderPF :=
  { sampleOrder 1 side 1 1000 0 with price := pricePercent / (100 : Nat), fee := fee }

theorem settlePrice_monotone_sample :
    ((price (feeOrder .ask 30 4000) ≤
          settlePrice (feeOrder .ask 30 4000) (feeOrder .bid 50 2000) (some (2 / 5)) ∧
        settlePrice (feeOrder .ask 30 4000) (feeOrder .bid 50 2000) (some (2 / 5)) ≤
          price (feeOrder .bid 50 2000)) ∧
      settlePrice (feeOrder .ask 30 4000) (feeOrder .bid 50 2000) (some (2 / 5)) ≤
        settlePrice (feeOrder .ask 30 4010) (feeOrder .bid 50 2000) (some (2 / 5)) ∧
      settlePrice (feeOrder .ask 30 4000) (feeOrder .bid 50 6000) (some (2 / 5)) ≤
        settlePrice (feeOrder .ask 30 4000) (feeOrder .bid 50 2000) (some (2 / 5))) ↔
    KeepsPrice (feeOrder .ask 30 4000) (feeOrder .bid 50 2000) (some (2 / 5)) 4000 2000 4010 2000 ∧
      KeepsPrice (feeOrder .ask 30 4000) (feeOrder .bid 50 2000) (some (2 / 5)) 4000 6000 4000 2000 := by
  have overlap : price (feeOrder .ask 30 4000) ≤ price (feeOrder .bid 50 2000) := by decide +kernel
  have haskPrice : price (feeOrder .ask 30 4010) = price (feeOrder .ask 30 4000) := rfl
  have hbidPrice : price (feeOrder .bid 50 6000) = price (feeOrder .bid 50 2000) := rfl
  have hask : fee (feeOrder .ask 30 4000) ≤ fee (feeOrder .ask 30 4010) := by decide
  have hbid : fee (feeOrder .bid 50 2000) ≤ fee (feeOrder .bid 50 6000) := by decide
  exact settlePrice_monotone_iff overlap haskPrice hbidPrice hask hbid _

/-- An ask that pays nothing settles at the index price; one that pays nearly what the bid pays settles
below it. -/
theorem settlePrice_falls :
    ∃ (ask ask' bid : SimpleOrderPF) (indexPrice : Option SpotPrice), price ask ≤ price bid ∧
      price ask' = price ask ∧ fee ask ≤ fee ask' ∧
        ¬ settlePrice ask bid indexPrice ≤ settlePrice ask' bid indexPrice :=
  ⟨feeOrder .ask 30 0, feeOrder .ask 30 999, feeOrder .bid 50 1000, some (2 / 5),
    by decide +kernel, rfl, by decide, by decide +kernel⟩

end UtxoMonitor.LiquidityBook
