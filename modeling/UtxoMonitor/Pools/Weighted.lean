import UtxoMonitor.Pools.Parsing

/-! What a balance pool pays keeps its invariant, computed exactly. -/
namespace UtxoMonitor.Pools

open Lib LiquidityBook

/-- A trade between two weighted reserves. -/
structure WeightedTrade where
  baseReserves : Nat
  baseWeight : Nat
  quoteReserves : Nat
  quoteWeight : Nat
  baseAmount : Nat
  poolFee : Ratio

/-- The trade that an amount of an asset makes. -/
def WeightedTrade.of (pair : Pair) (reservesX xWeight reservesY yWeight : Nat)
    (baseAsset : AssetClass) (baseAmount : Nat) (poolFeeX poolFeeY : Ratio) : WeightedTrade :=
  if pair.x = baseAsset then ⟨reservesX, xWeight, reservesY, yWeight, baseAmount, poolFeeX⟩
  else ⟨reservesY, yWeight, reservesX, xWeight, baseAmount, poolFeeY⟩

namespace WeightedTrade

/-- The amount after the fee. -/
def traded (t : WeightedTrade) : Nat := t.baseAmount * t.poolFee.numer / t.poolFee.denom

/-- The amount after the fee, as it is computed in `U512`. -/
def tradedU512 (t : WeightedTrade) : Checked Nat := do
  Checked.div (← Checked.mul 512 t.baseAmount t.poolFee.numer) t.poolFee.denom

def invariant (t : WeightedTrade) : Nat :=
  t.baseReserves ^ t.baseWeight * t.quoteReserves ^ t.quoteWeight

def basePart (t : WeightedTrade) : Nat := (t.baseReserves + t.traded) ^ t.baseWeight

/-- The invariant after an output. -/
def newInvariant (t : WeightedTrade) (output : Nat) : Nat :=
  t.basePart * (t.quoteReserves - output) ^ t.quoteWeight

/-- What the numeric library estimates to be left of the quote. -/
def deltaYRounded [Numerics] (t : WeightedTrade) : Nat :=
  Numerics.balanceRoot t.invariant t.basePart t.quoteWeight

/-- Weights of one and four, and amounts of 64 bits. -/
structure Words (t : WeightedTrade) : Prop where
  weights : t.baseWeight = adaWeight ∧ t.quoteWeight = tokenWeight ∨
    t.baseWeight = tokenWeight ∧ t.quoteWeight = adaWeight
  base : t.baseReserves < 2 ^ 64
  quote : t.quoteReserves < 2 ^ 64
  amount : t.baseAmount < 2 ^ 64
  numer : t.poolFee.numer < 2 ^ 64
  denom : t.poolFee.denom ≠ 0

/-- How a trade is settled: both computations of what is traded agree, every power fits, and the
output keeps the invariant. -/
structure Settles (t : WeightedTrade) (result : Checked Nat) : Prop where
  agrees : t.poolFee.share t.baseAmount = .ok t.traded ∧ t.tradedU512 = .ok t.traded
  basePart_fits : calculateBasePartWithFee t.baseReserves t.baseWeight t.baseAmount t.poolFee =
    .ok t.basePart
  fits : ∀ output ≤ t.quoteReserves,
    calculateNewInvariantBnU t.baseReserves t.baseWeight t.baseAmount t.quoteReserves
      t.quoteWeight output t.poolFee = .ok (t.newInvariant output)
  keeps : ∃ output ≤ t.quoteReserves, result = .ok output ∧ t.invariant ≤ t.newInvariant output

/-- Something is traded, and the fee fits the words it is computed in. -/
structure Tradable (t : WeightedTrade) : Prop where
  fits : t.baseAmount * t.poolFee.numer < 2 ^ 64
  pos : 0 < t.baseReserves + t.traded

variable {t : WeightedTrade} {invariant candidate : Nat}

/-- The search for an output ends above nothing, where the invariant is kept. -/
theorem settleOutput_ok {newInvariant : Nat → Checked Nat} {value : Nat → Nat}
    (h : ∀ n ≤ candidate, newInvariant n = .ok (value n)) (hzero : invariant ≤ value 0) :
    ∃ output ≤ candidate, settleOutput newInvariant invariant candidate = .ok output ∧
      invariant ≤ value output := by
  induction candidate with
  | zero =>
    refine ⟨0, le_rfl, Checked.bind_eq_ok.mpr ⟨_, h 0 le_rfl, ?_⟩, hzero⟩
    rw [if_neg (not_lt.mpr hzero)]
    rfl
  | succ candidate ih =>
    by_cases hlt : value (candidate + 1) < invariant
    · obtain ⟨output, hle, hsettled, hkept⟩ := ih fun n hn => h n (Nat.le_succ_of_le hn)
      refine ⟨output, Nat.le_succ_of_le hle, Checked.bind_eq_ok.mpr ⟨_, h _ le_rfl, ?_⟩, hkept⟩
      rw [if_pos hlt, hsettled]
    · refine ⟨_, le_rfl, Checked.bind_eq_ok.mpr ⟨_, h _ le_rfl, ?_⟩, not_lt.mp hlt⟩
      rw [if_neg hlt]
      rfl

theorem invariant_le : t.invariant ≤ t.newInvariant 0 :=
  Nat.mul_le_mul_right _ (Nat.pow_le_pow_left (Nat.le_add_right _ _) _)

/-! ### Words -/

theorem pow_lt {w a n : Nat} (h : a < 2 ^ w) (hn : n ≠ 0) : a ^ n < 2 ^ (w * n) := by
  rw [Nat.pow_mul]
  exact Nat.pow_lt_pow_left h hn

theorem two_pow_le {m n : Nat} (h : m ≤ n) : 2 ^ m ≤ 2 ^ n := Nat.pow_le_pow_right (by decide) h

theorem Words.product_lt (h : t.Words) : t.baseAmount * t.poolFee.numer < 2 ^ 128 := by
  have hamount := h.amount
  have hnumer := h.numer
  calc t.baseAmount * t.poolFee.numer ≤ (2 ^ 64 - 1) * (2 ^ 64 - 1) :=
        Nat.mul_le_mul (by omega) (by omega)
    _ < 2 ^ 128 := by decide

/-- What the base reserves become fits half of the words of its fourth root. -/
theorem Words.base_lt (h : t.Words) : t.baseReserves + t.traded < 2 ^ 128 := by
  have hbase := h.base
  have hamount := h.amount
  have hnumer := h.numer
  have htraded : t.traded ≤ (2 ^ 64 - 1) * (2 ^ 64 - 1) :=
    (Nat.div_le_self _ _).trans (Nat.mul_le_mul (by omega) (by omega))
  omega

theorem Words.basePart_lt (h : t.Words) : t.basePart < 2 ^ 512 := by
  have hbase := h.base_lt
  unfold basePart
  obtain ⟨hweight, -⟩ | ⟨hweight, -⟩ := h.weights
  · rw [hweight]
    exact (pow_lt hbase (by decide)).trans_le (two_pow_le (by decide))
  · rw [hweight]
    exact (pow_lt hbase (by decide)).trans_le (two_pow_le (by decide))

/-- A product of a power of each of the reserves. -/
theorem Words.mul_pow_lt (h : t.Words) {base quote : Nat} (hbase : base < 2 ^ 65)
    (hquote : quote < 2 ^ 65) : base ^ t.baseWeight * quote ^ t.quoteWeight < 2 ^ 512 := by
  obtain ⟨hx, hy⟩ | ⟨hx, hy⟩ := h.weights
  · have hxPart := pow_lt hbase (n := adaWeight) (by decide)
    have hyPart := pow_lt hquote (n := tokenWeight) (by decide)
    rw [hx, hy]
    refine (Nat.mul_lt_mul'' hxPart hyPart).trans_le ?_
    rw [← Nat.pow_add]
    exact two_pow_le (by decide)
  · have hxPart := pow_lt hbase (n := tokenWeight) (by decide)
    have hyPart := pow_lt hquote (n := adaWeight) (by decide)
    rw [hx, hy]
    refine (Nat.mul_lt_mul'' hxPart hyPart).trans_le ?_
    rw [← Nat.pow_add]
    exact two_pow_le (by decide)

theorem Words.pow_quote_lt (h : t.Words) {quote : Nat} (hquote : quote < 2 ^ 64) :
    quote ^ t.quoteWeight < 2 ^ 512 := by
  have hproduct := h.mul_pow_lt (show 1 < 2 ^ 65 by decide) (show quote < 2 ^ 65 by omega)
  rwa [Nat.one_pow, Nat.one_mul] at hproduct

theorem Words.tradedU512_eq (h : t.Words) : t.tradedU512 = .ok t.traded :=
  Checked.bind_eq_ok.mpr ⟨_, Checked.mul_eq_ok.mpr ⟨h.product_lt.trans_le (two_pow_le (by decide)), rfl⟩,
    Checked.div_eq_ok.mpr ⟨h.denom, rfl⟩⟩

theorem Words.calculateBasePartWithFee_eq (h : t.Words) :
    calculateBasePartWithFee t.baseReserves t.baseWeight t.baseAmount t.poolFee =
      .ok t.basePart := by
  obtain ⟨product, hproduct, hdiv⟩ := Checked.bind_eq_ok.mp h.tradedU512_eq
  exact Checked.bind_eq_ok.mpr ⟨product, hproduct, Checked.bind_eq_ok.mpr ⟨_, hdiv,
    Checked.bind_eq_ok.mpr ⟨_, Checked.add_eq_ok.mpr ⟨h.base_lt.trans_le (two_pow_le (by decide)), rfl⟩,
      powU512_eq_ok.mpr ⟨h.basePart_lt, rfl⟩⟩⟩⟩

/-- The fee computed in 64 bits. -/
theorem Words.share_eq_ok (h : t.Words) {value : Nat} :
    t.poolFee.share t.baseAmount = .ok value ↔
      t.baseAmount * t.poolFee.numer < 2 ^ 64 ∧ t.traded = value := by
  simp only [Ratio.share, Checked.bind_eq_ok, Checked.mul_eq_ok, Checked.div_eq_ok]
  constructor
  · rintro ⟨_, ⟨hfits, rfl⟩, -, rfl⟩
    exact ⟨hfits, rfl⟩
  · rintro ⟨hfits, rfl⟩
    exact ⟨_, ⟨hfits, rfl⟩, h.denom, rfl⟩

theorem Words.calculateNewInvariantBnU_eq (h : t.Words)
    (hfits : t.baseAmount * t.poolFee.numer < 2 ^ 64) (output : Nat)
    (hle : output ≤ t.quoteReserves) :
    calculateNewInvariantBnU t.baseReserves t.baseWeight t.baseAmount t.quoteReserves
      t.quoteWeight output t.poolFee = .ok (t.newInvariant output) := by
  have hbase := h.base
  have hquote := h.quote
  have htraded : t.traded ≤ t.baseAmount * t.poolFee.numer := Nat.div_le_self _ _
  refine Checked.bind_eq_ok.mpr ⟨_, h.share_eq_ok.mpr ⟨hfits, rfl⟩, ?_⟩
  refine Checked.bind_eq_ok.mpr ⟨_, Checked.add_eq_ok.mpr ⟨by omega, rfl⟩, ?_⟩
  refine Checked.bind_eq_ok.mpr ⟨_, powU512_eq_ok.mpr ⟨h.basePart_lt, rfl⟩, ?_⟩
  refine Checked.bind_eq_ok.mpr ⟨_, Checked.sub_eq_ok.mpr ⟨hle, rfl⟩, ?_⟩
  refine Checked.bind_eq_ok.mpr ⟨_, powU512_eq_ok.mpr ⟨h.pow_quote_lt (by omega), rfl⟩, ?_⟩
  exact Checked.mul_eq_ok.mpr ⟨h.mul_pow_lt (by omega) (by omega), rfl⟩

/-! ### Outputs -/

variable [Numerics]

/-- The amount that the search starts from, and what it makes of it. -/
theorem Words.balanceQuoteAmount_eq (h : t.Words) (hestimate : t.deltaYRounded ≤ t.quoteReserves) :
    balanceQuoteAmount t.baseReserves t.baseWeight t.quoteReserves t.quoteWeight t.baseAmount
        t.poolFee =
      if t.basePart = 0 then .error .divisionByZero
      else settleOutput
        (calculateNewInvariantBnU t.baseReserves t.baseWeight t.baseAmount t.quoteReserves
          t.quoteWeight · t.poolFee) t.invariant (t.quoteReserves - t.deltaYRounded) := by
  have hbase : powU512 t.baseReserves t.baseWeight = .ok (t.baseReserves ^ t.baseWeight) :=
    powU512_eq_ok.mpr ⟨lt_of_le_of_lt (Nat.pow_le_pow_left (Nat.le_add_right _ _) _)
      h.basePart_lt, rfl⟩
  have hquote : powU512 t.quoteReserves t.quoteWeight = .ok (t.quoteReserves ^ t.quoteWeight) :=
    powU512_eq_ok.mpr ⟨h.pow_quote_lt h.quote, rfl⟩
  have hinvariant : Checked.mul 512 (t.baseReserves ^ t.baseWeight)
      (t.quoteReserves ^ t.quoteWeight) = .ok t.invariant :=
    Checked.mul_eq_ok.mpr ⟨h.mul_pow_lt (h.base.trans (by decide)) (h.quote.trans (by decide)), rfl⟩
  have hsub : Checked.sub t.quoteReserves t.deltaYRounded =
      .ok (t.quoteReserves - t.deltaYRounded) := if_pos hestimate
  have hfits : t.deltaYRounded < 2 ^ 64 := hestimate.trans_lt h.quote
  simp only [balanceQuoteAmount, hbase, hquote, hinvariant, h.calculateBasePartWithFee_eq,
    Checked.ok_bind]
  split
  · rfl
  · rw [← deltaYRounded, if_pos hfits, hsub, Checked.ok_bind]

omit [Numerics] in
theorem Words.basePart_pos (h : t.Words) : 0 < t.basePart ↔ 0 < t.baseReserves + t.traded := by
  have hweight : t.baseWeight ≠ 0 := by
    obtain ⟨hweight, -⟩ | ⟨hweight, -⟩ := h.weights <;> rw [hweight] <;> decide
  exact Nat.pow_pos_iff.trans (or_iff_left hweight)

theorem Tradable.settles (h : t.Words) (htradable : t.Tradable)
    (hestimate : t.deltaYRounded ≤ t.quoteReserves) :
    t.Settles (balanceQuoteAmount t.baseReserves t.baseWeight t.quoteReserves t.quoteWeight
      t.baseAmount t.poolFee) where
  agrees := ⟨h.share_eq_ok.mpr ⟨htradable.fits, rfl⟩, h.tradedU512_eq⟩
  basePart_fits := h.calculateBasePartWithFee_eq
  fits := h.calculateNewInvariantBnU_eq htradable.fits
  keeps := by
    have hvalues : ∀ n ≤ t.quoteReserves - t.deltaYRounded, _ := fun n hn =>
      h.calculateNewInvariantBnU_eq htradable.fits n (hn.trans (Nat.sub_le _ _))
    obtain ⟨output, hle, hsettled, hkept⟩ := settleOutput_ok hvalues invariant_le
    rw [h.balanceQuoteAmount_eq hestimate, if_neg (h.basePart_pos.mpr htradable.pos).ne']
    exact ⟨output, hle.trans (Nat.sub_le _ _), hsettled, hkept⟩

theorem Settles.tradable (h : t.Words) (hestimate : t.deltaYRounded ≤ t.quoteReserves)
    (hsettles : t.Settles (balanceQuoteAmount t.baseReserves t.baseWeight t.quoteReserves
      t.quoteWeight t.baseAmount t.poolFee)) : t.Tradable where
  fits := (h.share_eq_ok.mp hsettles.agrees.1).1
  pos := by
    obtain ⟨output, -, hresult, -⟩ := hsettles.keeps
    rw [h.balanceQuoteAmount_eq hestimate] at hresult
    split at hresult
    · cases hresult
    · rename_i hpart
      exact h.basePart_pos.mp (Nat.pos_of_ne_zero hpart)

variable (pair : Pair) (reservesX xWeight reservesY yWeight : Nat) (baseAsset : AssetClass)
  (baseAmount : Nat) (poolFeeX poolFeeY : Ratio)

theorem balanceCfmmOutputAmount_eq {t : WeightedTrade}
    (ht : of pair reservesX xWeight reservesY yWeight baseAsset baseAmount poolFeeX poolFeeY = t) :
    balanceCfmmOutputAmount pair reservesX xWeight reservesY yWeight baseAsset baseAmount poolFeeX
        poolFeeY =
      balanceQuoteAmount t.baseReserves t.baseWeight t.quoteReserves t.quoteWeight t.baseAmount
        t.poolFee := by
  subst ht
  unfold balanceCfmmOutputAmount of
  split <;> rfl

/-- An output is settled exactly if what is traded of its input is computed alike in both words. -/
theorem balanceCfmmOutputAmount_settles_iff {t : WeightedTrade}
    (ht : of pair reservesX xWeight reservesY yWeight baseAsset baseAmount poolFeeX poolFeeY = t)
    (hwords : t.Words) (hestimate : t.deltaYRounded ≤ t.quoteReserves) :
    t.Settles (balanceCfmmOutputAmount pair reservesX xWeight reservesY yWeight baseAsset
      baseAmount poolFeeX poolFeeY) ↔ t.Tradable := by
  rw [balanceCfmmOutputAmount_eq pair reservesX xWeight reservesY yWeight baseAsset baseAmount
    poolFeeX poolFeeY ht]
  exact ⟨fun hsettles => hsettles.tradable hwords hestimate,
    fun htradable => htradable.settles hwords hestimate⟩

end WeightedTrade

/-! ### A trade of a part of a million tokens, and of more than the fee fits words for -/

def sampleWeightedTrade (baseAmount : Nat) : WeightedTrade :=
  ⟨1000000, adaWeight, 4000000, tokenWeight, baseAmount, ⟨99700, 100000⟩⟩

theorem sampleWeightedTrade_words {baseAmount : Nat} (h : baseAmount < 2 ^ 64) :
    (sampleWeightedTrade baseAmount).Words :=
  ⟨.inl ⟨rfl, rfl⟩, (by decide : 1000000 < 2 ^ 64), (by decide : 4000000 < 2 ^ 64), h,
    (by decide : 99700 < 2 ^ 64), (by decide : 100000 ≠ 0)⟩

/-- Rounding down leaves an estimate within the reserves. -/
theorem deltaYRounded_le {t : WeightedTrade} (h : t.Words) (hpos : 0 < t.baseReserves + t.traded) :
    @WeightedTrade.deltaYRounded floorNumerics t ≤ t.quoteReserves := by
  have hweight : t.quoteWeight ≠ 0 := by
    obtain ⟨-, hweight⟩ | ⟨-, hweight⟩ := h.weights <;> rw [hweight] <;> decide
  exact @FloorsRoot.root_le floorNumerics floorsRoot _ _ _ _ (h.basePart_pos.mpr hpos).ne' hweight
    (Nat.mul_le_mul_right _ (Nat.pow_le_pow_left (Nat.le_add_right _ _) _))

theorem balanceCfmmOutputAmount_settles_sample :
    (sampleWeightedTrade 50000).Settles (@balanceCfmmOutputAmount floorNumerics
      ⟨.native, .token (sampleToken 2)⟩ 1000000 adaWeight 4000000 tokenWeight .native 50000
      ⟨99700, 100000⟩ ⟨99700, 100000⟩) := by
  let _ := floorNumerics
  have hwords := sampleWeightedTrade_words (show 50000 < 2 ^ 64 by decide)
  exact (WeightedTrade.balanceCfmmOutputAmount_settles_iff ⟨.native, .token (sampleToken 2)⟩
    1000000 adaWeight 4000000 tokenWeight .native 50000 ⟨99700, 100000⟩ ⟨99700, 100000⟩ rfl hwords
    (deltaYRounded_le hwords (by decide))).mpr ⟨by decide, by decide⟩

/-- Two hundred millions of ADA times a fee do not fit 64 bits. -/
theorem balanceCfmmOutputAmount_overflows :
    ¬ ∀ (_ : Numerics) (pair : Pair) (reservesX xWeight reservesY yWeight : Nat)
      (baseAsset : AssetClass) (baseAmount : Nat) (poolFeeX poolFeeY : Ratio) (t : WeightedTrade),
      .of pair reservesX xWeight reservesY yWeight baseAsset baseAmount poolFeeX poolFeeY = t →
      t.Words → t.deltaYRounded ≤ t.quoteReserves →
      t.Settles (balanceCfmmOutputAmount pair reservesX xWeight reservesY yWeight baseAsset
        baseAmount poolFeeX poolFeeY) := by
  intro h
  have hwords := sampleWeightedTrade_words (show 200000000000000 < 2 ^ 64 by decide)
  have hsettles := h floorNumerics ⟨.native, .token (sampleToken 2)⟩ 1000000 adaWeight 4000000
    tokenWeight .native 200000000000000 ⟨99700, 100000⟩ ⟨99700, 100000⟩ _ rfl hwords
    (deltaYRounded_le hwords (by decide))
  exact absurd (hwords.share_eq_ok.mp hsettles.agrees.1).1 (by decide)

end UtxoMonitor.Pools
