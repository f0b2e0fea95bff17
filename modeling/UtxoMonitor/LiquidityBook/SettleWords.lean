import UtxoMonitor.LiquidityBook.ChoiceWords
import UtxoMonitor.LiquidityBook.FeeBias
import UtxoMonitor.LiquidityBook.Limits

/-! The exchange of two orders, in the machine's words. -/
namespace UtxoMonitor.LiquidityBook

open Lib

def clampFraction (value low high : Fraction) : Fraction :=
  if low.value ≤ value.value ∧ value.value ≤ high.value then value
  else if value.value < low.value then low else high

namespace AbsolutePrice

/-- `to_unsigned`. A negative part would become a large one. -/
def toUnsigned (r : Fraction) : Checked Fraction :=
  if 0 ≤ r.numer then .ok (.reduced r.value) else .error .overflow

/-- Both parts are positive numbers of 128 bits. -/
def IsU128 (r : Fraction) : Prop := 0 < r.numer ∧ r.numer < 2 ^ 128 ∧ r.denom < 2 ^ 128

instance (r : Fraction) : Decidable (IsU128 r) := inferInstanceAs (Decidable (_ ∧ _ ∧ _))

end AbsolutePrice

/-- `U256::as_u64` -/
def asU64 (n : Nat) : Checked Nat := if n < 2 ^ 64 then .ok n else .error .overflow

def linearOutputChecked (input : Nat) : OnSide Fraction → Checked Nat
  | .bid price => do
    let product ← Checked.mul 256 input price.denom
    let output ← Checked.div product price.numer.toNat
    asU64 output
  | .ask price => do
    let product ← Checked.mul 256 input price.numer.toNat
    let output ← Checked.div product price.denom
    asU64 output

section Takers

variable [FractionArithmetic] {T U : Type} [MarketTaker T U] [RawPriced T U]

/-- `settle_price`, as the machine computes it. -/
def settlePriceChecked (ask bid : T) (indexPrice : Option Fraction) : Checked Fraction := do
  let d ← FractionArithmetic.sub .u128 (rawPrice bid) (rawPrice ask)
  let pivotalPrice ← match indexPrice with
    | some indexPrice => pure (clampFraction indexPrice (rawPrice ask) (rawPrice bid))
    | none => do
      let half ← FractionArithmetic.mul .u128 d (.reduced (1 / 2))
      FractionArithmetic.add .u128 (rawPrice ask) half
  let maxDeviation ← FractionArithmetic.mul .u128 pivotalPrice (.reduced (3 / 100))
  let signedDeviation ← AbsolutePrice.toSigned maxDeviation
  let deviation ← FractionArithmetic.mul .i128 signedDeviation
    (.reduced (biasPercent (fee ask) (fee bid) / 100))
  let signedPivot ← AbsolutePrice.toSigned pivotalPrice
  let sum ← FractionArithmetic.add .i128 signedPivot deviation
  let correctedPrice ← AbsolutePrice.toUnsigned sum
  pure (clampFraction correctedPrice (rawPrice ask) (rawPrice bid))

variable [TakerBehaviour T]

omit [FractionArithmetic] [RawPriced T U] in
/-- A trade takes the input from the order by an unsigned subtraction. -/
def applyTrade (t : T) (removedInput addedOutput : Nat) : Checked (Next T TerminalTake) :=
  if removedInput ≤ input t then .ok (withAppliedTrade t removedInput addedOutput)
  else .error .underflow

/-- The ask and the bid of a pair. -/
def askAndBid (targetTaker counterTaker : T) : T × T :=
  match side targetTaker with
  | .ask => (targetTaker, counterTaker)
  | .bid => (counterTaker, targetTaker)

omit [FractionArithmetic] [RawPriced T U] [TakerBehaviour T] in
/-- The amounts of quote and of base that an ask and a bid exchange. -/
def tradedChecked (ask bid : T) (price : Fraction) : Checked (Nat × Nat) := do
  let quoteInput := input bid
  let demandBase ← linearOutputChecked quoteInput (.bid price)
  let supplyBase := input ask
  if demandBase < supplyBase then pure (quoteInput, demandBase)
  else if supplyBase < demandBase then do
    let quoteExecuted ← linearOutputChecked supplyBase (.ask price)
    pure (quoteExecuted, supplyBase)
  else pure (quoteInput, demandBase)

/-- `execute_with_taker` with `settle_price` as its matchmaker. -/
def executeWithTakerChecked (targetTaker counterTaker : T) (indexPrice : Option Fraction) :
    Checked (TakeInProgress T × TakeInProgress T) := do
  let ask := (askAndBid targetTaker counterTaker).1
  let bid := (askAndBid targetTaker counterTaker).2
  let price ← settlePriceChecked ask bid indexPrice
  let traded ← tradedChecked ask bid price
  let nextAsk ← applyTrade ask traded.2 traded.1
  let nextBid ← applyTrade bid traded.1 traded.2
  pure (⟨ask, nextAsk⟩, ⟨bid, nextBid⟩)

/-! ### Amounts -/

section Amounts

omit [FractionArithmetic] [MarketTaker T U] [RawPriced T U] [TakerBehaviour T]

variable {r : Fraction} {amount output : Nat} {p : AbsolutePrice}

theorem AbsolutePrice.IsU128.quotients (h : AbsolutePrice.IsU128 r) (hp : r.value = p) :
    amount * r.denom / r.numer.toNat = linearOutputUnsafe amount (.bid p) ∧
      amount * r.numer.toNat / r.denom = linearOutputUnsafe amount (.ask p) := by
  have hnumer : ((r.numer.toNat : Int) : ℚ) = r.numer := by
    rw [Int.toNat_of_nonneg h.1.le]
  have hquot : ((r.numer.toNat : ℚ≥0) / r.denom) = p := by
    rw [← NNRat.coe_inj, ← hp, Fraction.value, ← hnumer]
    push_cast
    rfl
  rw [linearOutputUnsafe_bid, linearOutputUnsafe_ask, ← hquot]
  constructor
  · rw [div_div_eq_mul_div, ← Nat.cast_mul, NNRat.floor_natCast_div_natCast]
  · rw [← mul_div_assoc, ← Nat.cast_mul, NNRat.floor_natCast_div_natCast]

theorem linearOutputChecked_bid (h : AbsolutePrice.IsU128 r) (hp : r.value = p)
    (hamount : amount < 2 ^ 64) :
    linearOutputChecked amount (.bid r) = .ok output ↔
      linearOutputUnsafe amount (.bid p) < 2 ^ 64 ∧ linearOutputUnsafe amount (.bid p) = output := by
  have hproduct : amount * r.denom < 2 ^ 64 * 2 ^ 128 := Nat.mul_lt_mul'' hamount h.2.2
  have hpos : r.numer.toNat ≠ 0 := by
    have := h.1
    omega
  simp only [linearOutputChecked, Checked.bind_eq_ok, Checked.mul_eq_ok, Checked.div_eq_ok, asU64,
    Checked.ite_eq_ok]
  constructor
  · rintro ⟨_, ⟨-, rfl⟩, _, ⟨-, rfl⟩, hlt, rfl⟩
    rw [(h.quotients hp).1] at hlt ⊢
    exact ⟨hlt, rfl⟩
  · rintro ⟨hlt, rfl⟩
    rw [← (h.quotients hp).1] at hlt ⊢
    exact ⟨_, ⟨by omega, rfl⟩, _, ⟨hpos, rfl⟩, hlt, rfl⟩

theorem linearOutputChecked_ask (h : AbsolutePrice.IsU128 r) (hp : r.value = p)
    (hamount : amount < 2 ^ 64) (hlt : linearOutputUnsafe amount (.ask p) < 2 ^ 64) :
    linearOutputChecked amount (.ask r) = .ok (linearOutputUnsafe amount (.ask p)) := by
  have hnumer : r.numer.toNat < 2 ^ 128 := by
    have := h.2.1
    omega
  have hproduct : amount * r.numer.toNat < 2 ^ 64 * 2 ^ 128 := Nat.mul_lt_mul'' hamount hnumer
  simp only [linearOutputChecked, Checked.bind_eq_ok, Checked.mul_eq_ok, Checked.div_eq_ok, asU64,
    Checked.ite_eq_ok]
  rw [← (h.quotients hp).2] at hlt ⊢
  exact ⟨_, ⟨by omega, rfl⟩, _, ⟨r.denom_pos.ne', rfl⟩, hlt, rfl⟩

end Amounts

/-! ### The price -/

section Settled

variable {low high value r : Fraction} {low' high' value' : AbsolutePrice}

omit [FractionArithmetic] [MarketTaker T U] [RawPriced T U] [TakerBehaviour T] in
theorem value_clampFraction (hvalue : value.value = value') (hlow : low.value = low')
    (hhigh : high.value = high') :
    (clampFraction value low high).value = clamp value' low' high' := by
  simp only [clampFraction, clamp, hvalue, hlow, hhigh, NNRat.coe_le_coe, NNRat.coe_lt_coe]
  split_ifs <;> assumption

omit [FractionArithmetic] [MarketTaker T U] [RawPriced T U] [TakerBehaviour T] in
theorem clampFraction_cases (value low high : Fraction) :
    clampFraction value low high = value ∨ clampFraction value low high = low ∨
      clampFraction value low high = high := by
  unfold clampFraction
  split_ifs
  · exact .inl rfl
  · exact .inr (.inl rfl)
  · exact .inr (.inr rfl)

end Settled

variable {ask bid : T} {indexPrice r : Fraction}

/-- The price before the bias: the index price within the limits. -/
def pivotalFraction (ask bid : T) (indexPrice : Fraction) : Fraction :=
  clampFraction indexPrice (rawPrice ask) (rawPrice bid)

/-- The difference of the limits, 3% of the pivotal price, the part of that which the fees make it, and
the pivotal price moved by that part have room in the words they are computed in. -/
structure SettlesWithin (ask bid : T) (indexPrice : Fraction) : Prop where
  difference : (rawPrice bid).SubFits .u128 (rawPrice ask)
  max_deviation : (pivotalFraction ask bid indexPrice).MulFits .u128 (.reduced (3 / 100))
  signed_deviation :
    Word.i128.Holds (Fraction.reduced ((pivotalFraction ask bid indexPrice).value * (3 / 100))).numer ∧
      Word.i128.Holds (Fraction.reduced ((pivotalFraction ask bid indexPrice).value * (3 / 100))).denom
  deviation : (Fraction.reduced ((pivotalFraction ask bid indexPrice).value * (3 / 100))).MulFits .i128
    (.reduced (biasPercent (fee ask) (fee bid) / 100))
  signed_pivot : Word.i128.Holds (pivotalFraction ask bid indexPrice).numer ∧
    Word.i128.Holds (pivotalFraction ask bid indexPrice).denom
  sum : (Fraction.reduced (pivotalFraction ask bid indexPrice).value).AddFits .i128
    (.reduced ((pivotalFraction ask bid indexPrice).value * (3 / 100) *
      (biasPercent (fee ask) (fee bid) / 100)))

omit [TakerBehaviour T] in
theorem settlePriceChecked_eq_ok (hpos : 0 < (pivotalFraction ask bid indexPrice).value) :
    settlePriceChecked ask bid (some indexPrice) = .ok r ↔
      SettlesWithin ask bid indexPrice ∧
        clampFraction (.reduced ((pivotalFraction ask bid indexPrice).value +
          (pivotalFraction ask bid indexPrice).value * (3 / 100) *
            (biasPercent (fee ask) (fee bid) / 100))) (rawPrice ask) (rawPrice bid) = r := by
  have hnonneg : 0 ≤ (Fraction.reduced ((pivotalFraction ask bid indexPrice).value +
      (pivotalFraction ask bid indexPrice).value * (3 / 100) *
        (biasPercent (fee ask) (fee bid) / 100))).numer := by
    have hbias : (-100 : ℚ) ≤ biasPercent (fee ask) (fee bid) := by
      exact_mod_cast biasPercent_ge (fee ask) (fee bid)
    refine Rat.num_nonneg.mpr ?_
    nlinarith
  simp only [settlePriceChecked, Checked.bind_eq_ok, FractionArithmetic.sub_eq_ok,
    FractionArithmetic.mul_eq_ok, FractionArithmetic.add_eq_ok, AbsolutePrice.toSigned,
    AbsolutePrice.toUnsigned, Checked.ite_eq_ok, Checked.pure_eq_ok, Fraction.value_reduced]
  constructor
  · rintro ⟨_, ⟨hdiff, -⟩, _, rfl, _, ⟨hmax, rfl⟩, _, ⟨hmaxSigned, rfl⟩, _, ⟨hdev, rfl⟩, _,
      ⟨hpivot, rfl⟩, _, ⟨hsum, rfl⟩, _, ⟨-, rfl⟩, rfl⟩
    simp only [Fraction.value_reduced] at *
    exact ⟨⟨hdiff, hmax, hmaxSigned, hdev, hpivot, hsum⟩, rfl⟩
  · rintro ⟨⟨hdiff, hmax, hmaxSigned, hdev, hpivot, hsum⟩, rfl⟩
    refine ⟨_, ⟨hdiff, rfl⟩, pivotalFraction ask bid indexPrice, rfl, _, ⟨hmax, rfl⟩, _,
      ⟨hmaxSigned, rfl⟩, _, ⟨?_, rfl⟩, _, ⟨hpivot, rfl⟩, _, ⟨?_, rfl⟩, _, ⟨?_, rfl⟩, ?_⟩
    · simpa only [Fraction.value_reduced] using hdev
    · simpa only [Fraction.value_reduced] using hsum
    · simpa only [Fraction.value_reduced] using hnonneg
    · simp only [Fraction.value_reduced]

omit [FractionArithmetic] [RawPriced T U] [TakerBehaviour T] [MarketTaker T U] in
theorem AbsolutePrice.IsU128.value_pos (h : AbsolutePrice.IsU128 r) : 0 < r.value :=
  div_pos (by exact_mod_cast h.1) (by exact_mod_cast r.denom_pos)

omit [FractionArithmetic] [TakerBehaviour T] in
theorem value_pivotalFraction (ask bid : T) (hindex : 0 < indexPrice.value) :
    (pivotalFraction ask bid indexPrice).value =
      pivotalPrice ask bid (some indexPrice.value.toNNRat) :=
  value_clampFraction (Rat.coe_toNNRat _ hindex.le).symm (RawPriced.value_rawPrice ask)
    (RawPriced.value_rawPrice bid)

omit [FractionArithmetic] [TakerBehaviour T] in
theorem pivotalFraction_pos (hask : AbsolutePrice.IsU128 (rawPrice ask))
    (hbid : AbsolutePrice.IsU128 (rawPrice bid)) (hindex : 0 < indexPrice.value) :
    0 < (pivotalFraction ask bid indexPrice).value := by
  rcases clampFraction_cases indexPrice (rawPrice ask) (rawPrice bid) with h | h | h
  · rwa [pivotalFraction, h]
  · rw [pivotalFraction, h]
    exact hask.value_pos
  · rw [pivotalFraction, h]
    exact hbid.value_pos

omit [TakerBehaviour T] in
/-- A price that is settled at all is that of exact arithmetic. -/
theorem settled_spec (hask : AbsolutePrice.IsU128 (rawPrice ask))
    (hbid : AbsolutePrice.IsU128 (rawPrice bid)) (hindex : 0 < indexPrice.value)
    (h : settlePriceChecked ask bid (some indexPrice) = .ok r) :
    AbsolutePrice.IsU128 r ∧ r.value = settlePrice ask bid (some indexPrice.value.toNNRat) := by
  have hpos := pivotalFraction_pos hask hbid hindex
  obtain ⟨hwithin, rfl⟩ := (settlePriceChecked_eq_ok hpos).mp h
  have hbias : (-100 : ℚ) ≤ biasPercent (fee ask) (fee bid) := by
    exact_mod_cast biasPercent_ge (fee ask) (fee bid)
  have hmoved : (pivotalFraction ask bid indexPrice).value + (pivotalFraction ask bid indexPrice).value *
      (3 / 100) * (biasPercent (fee ask) (fee bid) / 100) =
      biased (pivotalPrice ask bid (some indexPrice.value.toNNRat))
        (biasPercent (fee ask) (fee bid)) := by
    rw [coe_biased (biasPercent_ge _ _), ← value_pivotalFraction ask bid hindex]
    ring
  constructor
  · rcases clampFraction_cases (.reduced ((pivotalFraction ask bid indexPrice).value +
        (pivotalFraction ask bid indexPrice).value * (3 / 100) *
          (biasPercent (fee ask) (fee bid) / 100))) (rawPrice ask) (rawPrice bid) with hr | hr | hr
    · rw [hr]
      have hlt := hwithin.sum.reduced_lt
      simp only [Fraction.value_reduced] at hlt
      refine ⟨Rat.num_pos.mpr ?_, hlt⟩
      nlinarith
    · rwa [hr]
    · rwa [hr]
  · rw [settlePrice_eq]
    refine value_clampFraction ?_ (RawPriced.value_rawPrice ask) (RawPriced.value_rawPrice bid)
    rw [Fraction.value_reduced, hmoved]

/-! ### The exchange -/

/-- What the ask gives the bid receives, and the other way round; nobody gives more than it has, and one
of them gives all. -/
structure Exchange (ask bid : T) (takes : TakeInProgress T × TakeInProgress T) : Prop where
  ask_target : takes.1.target = ask
  bid_target : takes.2.target = bid
  base_moved : takes.1.removedInput = takes.2.addedOutput
  quote_moved : takes.2.removedInput = takes.1.addedOutput
  ask_le : takes.1.removedInput ≤ input ask
  bid_le : takes.2.removedInput ≤ input bid
  consumed : takes.1.removedInput = input ask ∨ takes.2.removedInput = input bid

omit [FractionArithmetic] [RawPriced T U] [TakerBehaviour T] in
theorem tradedAmounts_consume (ask bid : T) (settled : AbsolutePrice) :
    (tradedAmounts ask bid settled).2 = input ask ∨ (tradedAmounts ask bid settled).1 = input bid := by
  unfold tradedAmounts
  dsimp only
  split
  · exact .inr rfl
  split
  · exact .inl rfl
  · exact .inr rfl

omit [FractionArithmetic] [RawPriced T U] in
theorem exchange_of_traded [ExactTaker T] (ask bid : T) (settled : AbsolutePrice) :
    Exchange ask bid
      (⟨ask, withAppliedTrade ask (tradedAmounts ask bid settled).2 (tradedAmounts ask bid settled).1⟩,
        ⟨bid, withAppliedTrade bid (tradedAmounts ask bid settled).1
          (tradedAmounts ask bid settled).2⟩) := by
  obtain ⟨hquote, hbase⟩ := tradedAmounts_le ask bid settled
  obtain ⟨-, haskIn, haskOut⟩ := (ExactTake.refl ask).trade hbase (tradedAmounts ask bid settled).1
  obtain ⟨-, hbidIn, hbidOut⟩ := (ExactTake.refl bid).trade hquote (tradedAmounts ask bid settled).2
  have hconsume := tradedAmounts_consume ask bid settled
  refine ⟨rfl, rfl, ?_, ?_, ?_, ?_, ?_⟩ <;> dsimp only <;> omega

omit [FractionArithmetic] [RawPriced T U] [TakerBehaviour T] in
/-- The second conversion never asks for more than the bid has. -/
theorem tradedChecked_eq_ok {settled : AbsolutePrice} {traded : Nat × Nat}
    (hr : AbsolutePrice.IsU128 r) (hsettled : r.value = settled)
    (hinputs : input ask < 2 ^ 64 ∧ input bid < 2 ^ 64) :
    tradedChecked ask bid r = .ok traded ↔
      linearOutputUnsafe (input bid) (.bid settled) < 2 ^ 64 ∧
        tradedAmounts ask bid settled = traded := by
  have hle := (tradedAmounts_le ask bid settled).1
  simp only [tradedChecked, tradedAmounts, Checked.bind_eq_ok,
    linearOutputChecked_bid hr hsettled hinputs.2] at hle ⊢
  constructor
  · rintro ⟨_, ⟨hlt, rfl⟩, h⟩
    refine ⟨hlt, ?_⟩
    split_ifs at h hle ⊢ with hless hmore
    · exact Checked.pure_eq_ok.mp h
    · rw [linearOutputChecked_ask hr hsettled hinputs.1 (hle.trans_lt hinputs.2)] at h
      exact Except.ok.inj h
    · exact Checked.pure_eq_ok.mp h
  · rintro ⟨hlt, rfl⟩
    refine ⟨_, ⟨hlt, rfl⟩, ?_⟩
    split_ifs at hle ⊢ with hless hmore
    · rfl
    · rw [linearOutputChecked_ask hr hsettled hinputs.1 (hle.trans_lt hinputs.2)]
      rfl
    · rfl

variable {targetTaker counterTaker : T} {takes : TakeInProgress T × TakeInProgress T}

omit [FractionArithmetic] [RawPriced T U] in
theorem executeWithTaker_eq (hpair : askAndBid targetTaker counterTaker = (ask, bid))
    (matchmaker : T → T → AbsolutePrice) :
    executeWithTaker targetTaker counterTaker matchmaker =
      (⟨ask, withAppliedTrade ask (tradedAmounts ask bid (matchmaker ask bid)).2
          (tradedAmounts ask bid (matchmaker ask bid)).1⟩,
        ⟨bid, withAppliedTrade bid (tradedAmounts ask bid (matchmaker ask bid)).1
          (tradedAmounts ask bid (matchmaker ask bid)).2⟩) := by
  unfold askAndBid at hpair
  cases hside : side targetTaker <;>
    · simp only [hside, Prod.mk.injEq] at hpair
      obtain ⟨rfl, rfl⟩ := hpair
      simp only [executeWithTaker, hside]

/-- The machine trades as exact arithmetic does, if the price and the base that is asked for have room. -/
theorem executeWithTakerChecked_eq_ok (hpair : askAndBid targetTaker counterTaker = (ask, bid))
    (hask : AbsolutePrice.IsU128 (rawPrice ask)) (hbid : AbsolutePrice.IsU128 (rawPrice bid))
    (hindex : 0 < indexPrice.value) (hinputs : input ask < 2 ^ 64 ∧ input bid < 2 ^ 64) :
    executeWithTakerChecked targetTaker counterTaker (some indexPrice) = .ok takes ↔
      (SettlesWithin ask bid indexPrice ∧
        linearOutputUnsafe (input bid)
          (.bid (settlePrice ask bid (some indexPrice.value.toNNRat))) < 2 ^ 64) ∧
      executeWithTaker targetTaker counterTaker
        (fun ask bid => settlePrice ask bid (some indexPrice.value.toNNRat)) = takes := by
  obtain ⟨hquote, hbase⟩ :=
    tradedAmounts_le ask bid (settlePrice ask bid (some indexPrice.value.toNNRat))
  have hpos := pivotalFraction_pos hask hbid hindex
  rw [executeWithTaker_eq hpair]
  simp only [executeWithTakerChecked, hpair, Checked.bind_eq_ok]
  constructor
  · rintro ⟨r, hsettle, traded, htraded, nextAsk, hnextAsk, nextBid, hnextBid, h⟩
    obtain ⟨hr, hvalue⟩ := settled_spec hask hbid hindex hsettle
    obtain ⟨hlt, rfl⟩ := (tradedChecked_eq_ok hr hvalue hinputs).mp htraded
    obtain ⟨-, rfl⟩ := Checked.ite_eq_ok.mp hnextAsk
    obtain ⟨-, rfl⟩ := Checked.ite_eq_ok.mp hnextBid
    exact ⟨⟨((settlePriceChecked_eq_ok hpos).mp hsettle).1, hlt⟩, Checked.pure_eq_ok.mp h⟩
  · rintro ⟨⟨hwithin, hlt⟩, rfl⟩
    have hsettle := (settlePriceChecked_eq_ok hpos).mpr ⟨hwithin, rfl⟩
    obtain ⟨hr, hvalue⟩ := settled_spec hask hbid hindex hsettle
    exact ⟨_, hsettle, _, (tradedChecked_eq_ok hr hvalue hinputs).mpr ⟨hlt, rfl⟩, _, if_pos hbase,
      _, if_pos hquote, rfl⟩

/-- Two overlapping orders exchange in full, and no step of it stops, just when the words hold the price
and the base that the bid asks for. -/
theorem executeWithTaker_total_iff [ExactTaker T]
    (hpair : askAndBid targetTaker counterTaker = (ask, bid))
    (hask : AbsolutePrice.IsU128 (rawPrice ask)) (hbid : AbsolutePrice.IsU128 (rawPrice bid))
    (hindex : AbsolutePrice.IsU128 indexPrice) (hinputs : input ask < 2 ^ 64 ∧ input bid < 2 ^ 64) :
    (∃ takes, executeWithTakerChecked targetTaker counterTaker (some indexPrice) = .ok takes ∧
        Exchange ask bid takes) ↔
      SettlesWithin ask bid indexPrice ∧
        linearOutputUnsafe (input bid)
          (.bid (settlePrice ask bid (some indexPrice.value.toNNRat))) < 2 ^ 64 := by
  constructor
  · rintro ⟨takes, htakes, -⟩
    exact ((executeWithTakerChecked_eq_ok hpair hask hbid hindex.value_pos hinputs).mp htakes).1
  · intro h
    refine ⟨_, (executeWithTakerChecked_eq_ok hpair hask hbid hindex.value_pos hinputs).mpr
      ⟨h, rfl⟩, ?_⟩
    rw [executeWithTaker_eq hpair]
    exact exchange_of_traded ask bid _

end Takers

/-- An order at a thousandth of the quote asset. -/
def cheapOrder (side : Side) (input : Nat) : SimpleOrderPF :=
  { sampleOrder 1 side 1 input 0 with price := 1 / 1000 }

theorem executeWithTaker_total_sample :
    letI := FractionArithmetic.documented
    (∃ takes, executeWithTakerChecked (cheapOrder .ask 1000) (cheapOrder .bid 7)
        (some (.reduced (1 / 1000))) = .ok takes ∧
        Exchange (cheapOrder .ask 1000) (cheapOrder .bid 7) takes) ↔
      SettlesWithin (cheapOrder .ask 1000) (cheapOrder .bid 7) (.reduced (1 / 1000)) ∧
        linearOutputUnsafe (input (cheapOrder .bid 7)) (.bid (settlePrice (cheapOrder .ask 1000)
          (cheapOrder .bid 7) (some (Fraction.reduced (1 / 1000)).value.toNNRat))) < 2 ^ 64 := by
  let _ := FractionArithmetic.documented
  have hpair : askAndBid (cheapOrder .ask 1000) (cheapOrder .bid 7) =
      (cheapOrder .ask 1000, cheapOrder .bid 7) := rfl
  have hprice : AbsolutePrice.IsU128 (.reduced (1 / 1000)) := by decide +kernel
  have hask : AbsolutePrice.IsU128 (rawPrice (cheapOrder .ask 1000)) := by decide +kernel
  have hbid : AbsolutePrice.IsU128 (rawPrice (cheapOrder .bid 7)) := by decide +kernel
  exact executeWithTaker_total_iff hpair hask hbid hprice (by decide)

/-- A bid asks for a thousand times its input, which 64 bits do not hold. -/
theorem executeWithTaker_panics :
    ∃ (_ : FractionArithmetic) (ask bid : SimpleOrderPF) (indexPrice : Fraction),
      side ask = .ask ∧ side bid = .bid ∧ price ask ≤ price bid ∧ 0 < price ask ∧
        AbsolutePrice.IsU64 indexPrice ∧ (0 < input ask ∧ input ask < 2 ^ 64) ∧
        (0 < input bid ∧ input bid < 2 ^ 64) ∧
        ¬ ∃ takes, executeWithTakerChecked ask bid (some indexPrice) = .ok takes := by
  refine ⟨.documented, cheapOrder .ask 1000, cheapOrder .bid (2 ^ 60), .reduced (1 / 1000), rfl, rfl,
    le_rfl, by decide +kernel, by decide +kernel, by decide, by decide, ?_⟩
  rintro ⟨takes, htakes⟩
  let _ := FractionArithmetic.documented
  have hfails : (executeWithTakerChecked (cheapOrder .ask 1000) (cheapOrder .bid (2 ^ 60))
      (some (.reduced (1 / 1000)))).isOk = false := by decide +kernel
  rw [htakes] at hfails
  cases hfails

end UtxoMonitor.LiquidityBook
