import Mathlib.Algebra.Order.Ring.Int
import Mathlib.Data.Int.Cast.Lemmas
import UtxoMonitor.Lib.Fraction
import UtxoMonitor.LiquidityBook.Choice

/-! The choice of the order to serve, in the machine's words. -/
namespace UtxoMonitor.LiquidityBook

open Lib

/-- Orders whose price is kept as a fraction. -/
class RawPriced (T : Type) (U : outParam Type) [MarketTaker T U] where
  rawPrice : T → Fraction
  value_rawPrice : ∀ t : T, (rawPrice t).value = (price t : ℚ)

export RawPriced (rawPrice)

namespace AbsolutePrice

/-- `AbsolutePrice::to_signed`. A part of 128 bits would change its sign. -/
def toSigned (r : Fraction) : Checked Fraction :=
  if Word.i128.Holds r.numer ∧ Word.i128.Holds r.denom then .ok (.reduced r.value)
  else .error .overflow

/-- Both parts are positive numbers of 64 bits. -/
def IsU64 (r : Fraction) : Prop := 0 < r.numer ∧ r.numer < 2 ^ 64 ∧ r.denom < 2 ^ 64

instance (r : Fraction) : Decidable (IsU64 r) := inferInstanceAs (Decidable (_ ∧ _ ∧ _))

end AbsolutePrice

section Takers

variable [FractionArithmetic] {T U : Type} [MarketTaker T U]

/-- `_max_by_volume` at a spot price. -/
def maxByVolumeChecked (ask bid : T) (spotPrice : Fraction) : Checked T := do
  let inverse ← Fraction.new 1 (input bid)
  let bidVol ← FractionArithmetic.mul .u128 inverse spotPrice
  pure (if bidVol.value < input ask then ask else bid)

variable [RawPriced T U]

/-- The choice between an ask and a bid. -/
def farthestChecked (ask bid : T) (spotPrice : Fraction) : Checked T := do
  let absPrice ← AbsolutePrice.toSigned spotPrice
  let askPrice ← AbsolutePrice.toSigned (rawPrice ask)
  let distanceFromAsk ← FractionArithmetic.sub .i128 absPrice askPrice
  let bidPrice ← AbsolutePrice.toSigned (rawPrice bid)
  let difference ← FractionArithmetic.sub .i128 absPrice bidPrice
  let distanceFromBid ← FractionArithmetic.mul .i128 difference (.ofInt (-1))
  if distanceFromBid.value < distanceFromAsk.value then pure ask
  else if distanceFromAsk.value < distanceFromBid.value then pure bid
  else maxByVolumeChecked ask bid spotPrice

variable [Ord T] [SideOrd T]

/-- `max_by_distance_to_spot`, as the machine computes it. -/
def maxByDistanceToSpotChecked (spotPrice : Fraction) (range : AllowedPriceRange)
    (fragments : MarketTakers T) : Checked (Option T × MarketTakers T) :=
  match (fragments.first .ask).bind range.testAsk, (fragments.first .bid).bind range.testBid with
  | some ask, some bid => do
    let taker ← farthestChecked ask bid spotPrice
    pure (some taker, fragments.remove taker)
  | some taker, none => pure (some taker, fragments.remove taker)
  | none, some taker => pure (some taker, fragments.remove taker)
  | none, none => pure (none, fragments)

omit [Ord T] [SideOrd T]

/-- The difference of the two prices in lowest terms has room over their least common denominator. -/
def DistanceFits (spotPrice price : Fraction) : Prop :=
  (Fraction.reduced spotPrice.value).CommonFits .i128 (.reduced price.value)

variable {r a b spotPrice : Fraction} {t ask bid : T}

omit [FractionArithmetic] in
theorem AbsolutePrice.IsU64.toSigned (h : IsU64 r) : toSigned r = .ok (.reduced r.value) := by
  obtain ⟨hpos, hnumer, hdenom⟩ := h
  refine if_pos ⟨⟨?_, ?_⟩, ?_, ?_⟩ <;> omega

omit [FractionArithmetic] in
theorem AbsolutePrice.IsU64.value_pos (h : IsU64 r) : 0 < r.value :=
  div_pos (by exact_mod_cast h.1) (by exact_mod_cast r.denom_pos)

omit [FractionArithmetic] in
theorem scaled_reduced_nonneg {q : ℚ} (hq : 0 ≤ q) (lcm : Nat) :
    0 ≤ (Fraction.reduced q).scaled lcm :=
  mul_nonneg (Rat.num_nonneg.mpr hq) (Int.natCast_nonneg _)

omit [FractionArithmetic] in
/-- Positive prices leave room for their difference, and for turning it around. -/
theorem DistanceFits.subFits (ha : 0 < a.value) (hb : 0 < b.value) (h : DistanceFits a b) :
    (Fraction.reduced a.value).SubFits .i128 (.reduced b.value) ∧
      (Fraction.reduced (a.value - b.value)).MulFits .i128 (.ofInt (-1)) := by
  have hapos := scaled_reduced_nonneg ha.le
    ((Fraction.reduced a.value).denom.lcm (Fraction.reduced b.value).denom)
  have hbpos := scaled_reduced_nonneg hb.le
    ((Fraction.reduced a.value).denom.lcm (Fraction.reduced b.value).denom)
  have hneg := Fraction.CommonFits.neg_sub h hapos hbpos
  rw [Fraction.value_reduced, Fraction.value_reduced] at hneg
  exact ⟨Fraction.CommonFits.subFits h hapos hbpos, hneg⟩

omit [FractionArithmetic] in
theorem inverse_mulFits {input : Nat} (hpos : 0 < input) (hlt : input < 2 ^ 64)
    (h : AbsolutePrice.IsU64 spotPrice) :
    (Fraction.reduced (1 / input)).MulFits .u128 spotPrice := by
  obtain ⟨hspot, hnumer, hdenom⟩ := h
  have hone : (Fraction.reduced (1 / input)).numer = 1 := by
    rw [one_div]
    exact Rat.inv_natCast_num_of_pos hpos
  have hinput : (Fraction.reduced (1 / input)).denom = input := by
    rw [one_div]
    exact Rat.inv_natCast_den_of_pos hpos
  have hgcd : Int.gcd 1 (spotPrice.denom : Int) = 1 := Int.one_gcd
  have hquot : spotPrice.numer / (spotPrice.numer.gcd input : Nat) ≤ spotPrice.numer :=
    Int.ediv_le_self _ hspot.le
  have hdiv : input / spotPrice.numer.gcd input ≤ input := Nat.div_le_self _ _
  have hprod : input / spotPrice.numer.gcd input * spotPrice.denom < 2 ^ 64 * 2 ^ 64 :=
    Nat.mul_lt_mul'' (hdiv.trans_lt hlt) hdenom
  simp only [Fraction.MulFits, hone, hinput, hgcd, Nat.cast_one, Int.ediv_one, one_mul, Nat.div_one]
  refine ⟨⟨Int.ediv_nonneg hspot.le (Int.natCast_nonneg _), ?_⟩, Int.natCast_nonneg _, ?_⟩
  · omega
  · exact_mod_cast hprod

omit [RawPriced T U] in
theorem maxByVolumeChecked_eq (hspot : AbsolutePrice.IsU64 spotPrice)
    (hinput : 0 < input bid ∧ input bid < 2 ^ 64) :
    maxByVolumeChecked ask bid spotPrice =
      .ok (maxByVolume ask bid (some spotPrice.value.toNNRat)) := by
  have hvol : ((1 / input bid * spotPrice.value.toNNRat : ℚ≥0) : ℚ) =
      1 / input bid * spotPrice.value := by
    push_cast
    rw [Rat.coe_toNNRat _ hspot.value_pos.le]
  have hlt : (1 / (input bid : ℚ) * spotPrice.value < input ask) ↔
      (1 / input bid * spotPrice.value.toNNRat : ℚ≥0) < input ask := by
    rw [← hvol]
    exact_mod_cast Iff.rfl
  have hnew : Fraction.new 1 (input bid) = .ok (.reduced (1 / input bid)) := by
    simp only [Fraction.new, if_pos hinput.1, Int.cast_one]
  have hmul := FractionArithmetic.mul_eq_ok.mpr ⟨inverse_mulFits hinput.1 hinput.2 hspot, rfl⟩
  refine Checked.bind_eq_ok.mpr ⟨_, hnew, Checked.bind_eq_ok.mpr ⟨_, hmul, ?_⟩⟩
  simp only [Fraction.value_reduced, hlt, Checked.pure_eq_ok, maxByVolume, Option.getD_some]

theorem farthestChecked_eq_ok (hspot : AbsolutePrice.IsU64 spotPrice)
    (hask : AbsolutePrice.IsU64 (rawPrice ask)) (hbid : AbsolutePrice.IsU64 (rawPrice bid))
    (hinput : 0 < input bid ∧ input bid < 2 ^ 64) :
    farthestChecked ask bid spotPrice = .ok t ↔
      (DistanceFits spotPrice (rawPrice ask) ∧ DistanceFits spotPrice (rawPrice bid)) ∧
        (if (price bid - spotPrice.value : ℚ) < spotPrice.value - price ask then ask
          else if (spotPrice.value - price ask : ℚ) < price bid - spotPrice.value then bid
          else maxByVolume ask bid (some spotPrice.value.toNNRat)) = t := by
  have hneg : (spotPrice.value - price bid) * (-1 : Int) = price bid - spotPrice.value := by
    rw [Int.cast_neg, Int.cast_one, mul_neg_one, neg_sub]
  have hchoice : (if (price bid - spotPrice.value : ℚ) < spotPrice.value - price ask then pure ask
      else if (spotPrice.value - price ask : ℚ) < price bid - spotPrice.value then pure bid
      else maxByVolumeChecked ask bid spotPrice) = Except.ok
        (if (price bid - spotPrice.value : ℚ) < spotPrice.value - price ask then ask
          else if (spotPrice.value - price ask : ℚ) < price bid - spotPrice.value then bid
          else maxByVolume ask bid (some spotPrice.value.toNNRat)) := by
    rw [maxByVolumeChecked_eq hspot hinput]
    split_ifs <;> rfl
  constructor
  · intro h
    simp only [farthestChecked, hspot.toSigned, hask.toSigned, hbid.toSigned,
      Checked.bind_eq_ok, Except.ok.injEq, exists_eq_left', FractionArithmetic.sub_eq_ok,
      FractionArithmetic.mul_eq_ok, Fraction.value_reduced, Fraction.value_ofInt,
      RawPriced.value_rawPrice] at h
    obtain ⟨_, ⟨haskSub, rfl⟩, _, ⟨hbidSub, rfl⟩, _, ⟨-, rfl⟩, h⟩ := h
    simp only [Fraction.value_reduced, hneg] at h
    rw [hchoice, Except.ok.injEq] at h
    simp only [DistanceFits, RawPriced.value_rawPrice]
    exact ⟨⟨haskSub.1, hbidSub.1⟩, h⟩
  · rintro ⟨⟨haskFits, hbidFits⟩, rfl⟩
    have haskSub := haskFits.subFits hspot.value_pos hask.value_pos
    have hbidSub := hbidFits.subFits hspot.value_pos hbid.value_pos
    simp only [RawPriced.value_rawPrice] at haskSub hbidSub
    simp only [farthestChecked, hspot.toSigned, hask.toSigned, hbid.toSigned,
      Checked.bind_eq_ok, Except.ok.injEq, exists_eq_left', FractionArithmetic.sub_eq_ok,
      FractionArithmetic.mul_eq_ok, Fraction.value_reduced, Fraction.value_ofInt, RawPriced.value_rawPrice]
    refine ⟨_, ⟨haskSub.1, rfl⟩, _, ⟨hbidSub.1, rfl⟩, _, ⟨hbidSub.2, rfl⟩, ?_⟩
    simp only [Fraction.value_reduced, hneg]
    exact hchoice

variable [Ord T] [SideOrd T]

/-- The machine chooses as exact arithmetic does just when both distances from the spot price have
room. -/
theorem maxByDistanceToSpotChecked_eq_iff {fragments : MarketTakers T} {range : AllowedPriceRange}
    (hspot : AbsolutePrice.IsU64 spotPrice)
    (hprices : ∀ s t, fragments.first s = some t → AbsolutePrice.IsU64 (rawPrice t))
    (hinputs : ∀ s t, fragments.first s = some t → 0 < input t ∧ input t < 2 ^ 64) :
    maxByDistanceToSpotChecked spotPrice range fragments =
        .ok (maxByDistanceToSpot spotPrice.value.toNNRat range fragments) ↔
      ∀ ask bid, (fragments.first .ask).bind range.testAsk = some ask →
        (fragments.first .bid).bind range.testBid = some bid →
          DistanceFits spotPrice (rawPrice ask) ∧ DistanceFits spotPrice (rawPrice bid) := by
  cases hask : (fragments.first .ask).bind range.testAsk with
  | none =>
    have hexact : maxByDistanceToSpotChecked spotPrice range fragments =
        .ok (maxByDistanceToSpot spotPrice.value.toNNRat range fragments) := by
      simp only [maxByDistanceToSpotChecked, maxByDistanceToSpot, farthestFromSpot, hask]
      cases (fragments.first .bid).bind range.testBid <;> rfl
    simp [hexact]
  | some ask =>
    cases hbid : (fragments.first .bid).bind range.testBid with
    | none =>
      have hexact : maxByDistanceToSpotChecked spotPrice range fragments =
          .ok (maxByDistanceToSpot spotPrice.value.toNNRat range fragments) := by
        simp only [maxByDistanceToSpotChecked, maxByDistanceToSpot, farthestFromSpot, hask, hbid]
        rfl
      simp [hexact]
    | some bid =>
      obtain ⟨haskTested, haskSide⟩ := bind_testAsk_eq_some.mp hask
      obtain ⟨hbidTested, hbidSide⟩ := bind_testBid_eq_some.mp hbid
      have hspec : ∀ t, _ ↔ _ := fun t => farthestChecked_eq_ok (t := t) hspot
        (hprices _ ask haskTested.1) (hprices _ bid hbidTested.1) (hinputs _ bid hbidTested.1)
      have hfar : farthestFromSpot fragments spotPrice.value.toNNRat range =
          some (if (price bid - spotPrice.value : ℚ) < spotPrice.value - price ask then ask
            else if (spotPrice.value - price ask : ℚ) < price bid - spotPrice.value then bid
            else maxByVolume ask bid (some spotPrice.value.toNNRat)) := by
        rw [farthest_of_both haskTested haskSide hbidTested hbidSide]
        simp only [advantage, haskSide, hbidSide, Rat.coe_toNNRat _ hspot.value_pos.le]
        split_ifs <;> rfl
      simp only [maxByDistanceToSpotChecked, maxByDistanceToSpot, hask, hbid, hfar]
      constructor
      · intro h ask' bid' haskEq hbidEq
        cases haskEq
        cases hbidEq
        obtain ⟨t, ht, -⟩ := Checked.bind_eq_ok.mp h
        exact ((hspec t).mp ht).1
      · intro h
        exact Checked.bind_eq_ok.mpr ⟨_, (hspec _).mpr ⟨h ask bid rfl rfl, rfl⟩, rfl⟩

end Takers

instance : RawPriced SimpleOrderPF Nat where
  rawPrice o := .reduced o.price
  value_rawPrice o := Fraction.value_reduced o.price

def sampleTakers (askPrice bidPrice : AbsolutePrice) : MarketTakers SimpleOrderPF :=
  (MarketTakers.empty.insert { sampleOrder 1 .ask 1 100 1 with price := askPrice }).insert
    { sampleOrder 2 .bid 1 100 1 with price := bidPrice }

theorem isU64_sampleTakers (askPrice bidPrice : AbsolutePrice)
    (hask : AbsolutePrice.IsU64 (.reduced askPrice)) (hbid : AbsolutePrice.IsU64 (.reduced bidPrice)) :
    (∀ s t, (sampleTakers askPrice bidPrice).first s = some t →
        AbsolutePrice.IsU64 (rawPrice t)) ∧
      ∀ s t, (sampleTakers askPrice bidPrice).first s = some t → 0 < input t ∧ input t < 2 ^ 64 := by
  have hmem : ∀ s t, (sampleTakers askPrice bidPrice).first s = some t →
      (t.price = askPrice ∨ t.price = bidPrice) ∧ t.input = 100 := by
    intro s t ht
    rcases MarketTakers.mem_insert.mp (MarketTakers.mem_of_first ht).1 with ht | ⟨rfl, -⟩
    · rcases MarketTakers.mem_insert.mp ht with ht | ⟨rfl, -⟩
      · exact absurd ht MarketTakers.not_mem_empty
      · exact ⟨.inl rfl, rfl⟩
    · exact ⟨.inr rfl, rfl⟩
  constructor
  · intro s t ht
    show AbsolutePrice.IsU64 (.reduced t.price)
    rcases (hmem s t ht).1 with h | h
    · rwa [h]
    · rwa [h]
  · intro s t ht
    show 0 < t.input ∧ t.input < 2 ^ 64
    rw [(hmem s t ht).2]
    decide

theorem maxByDistanceToSpotChecked_sample :
    letI := FractionArithmetic.documented
    maxByDistanceToSpotChecked (.ofInt 11) ⟨none, none⟩ (sampleTakers 10 12) =
        .ok (maxByDistanceToSpot (Fraction.ofInt 11).value.toNNRat ⟨none, none⟩ (sampleTakers 10 12)) ↔
      ∀ ask bid, ((sampleTakers 10 12).first .ask).bind
          (AllowedPriceRange.testAsk ⟨none, none⟩) = some ask →
        ((sampleTakers 10 12).first .bid).bind
          (AllowedPriceRange.testBid ⟨none, none⟩) = some bid →
          DistanceFits (.ofInt 11) (rawPrice ask) ∧ DistanceFits (.ofInt 11) (rawPrice bid) := by
  let _ := FractionArithmetic.documented
  have h := isU64_sampleTakers 10 12 (by decide +kernel) (by decide +kernel)
  exact maxByDistanceToSpotChecked_eq_iff (by decide) h.1 h.2

/-- The denominators of two prices have their least common multiple above the signed words. -/
theorem maxByDistanceToSpotChecked_overflows :
    ∃ (_ : FractionArithmetic) (spotPrice : Fraction) (range : AllowedPriceRange)
      (fragments : MarketTakers SimpleOrderPF), AbsolutePrice.IsU64 spotPrice ∧
        (∀ s t, fragments.first s = some t → AbsolutePrice.IsU64 (rawPrice t)) ∧
        (∀ s t, fragments.first s = some t → 0 < input t ∧ input t < 2 ^ 64) ∧
        maxByDistanceToSpotChecked spotPrice range fragments ≠
          .ok (maxByDistanceToSpot spotPrice.value.toNNRat range fragments) := by
  have h := isU64_sampleTakers (1 / 18446744073709551613) 1 (by decide +kernel)
    (by decide +kernel)
  refine ⟨.documented, ⟨1, 18446744073709551615, by decide⟩, ⟨none, none⟩,
    sampleTakers (1 / 18446744073709551613) 1, by decide, h.1, h.2, ?_⟩
  intro hexact
  let _ := FractionArithmetic.documented
  have hfails : (maxByDistanceToSpotChecked ⟨1, 18446744073709551615, by decide⟩ ⟨none, none⟩
      (sampleTakers (1 / 18446744073709551613) 1)).isOk = false := by decide +kernel
  rw [hexact] at hfails
  cases hfails

end UtxoMonitor.LiquidityBook
