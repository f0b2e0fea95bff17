import UtxoMonitor.LiquidityBook.Queries
import UtxoMonitor.LiquidityBook.Simple

/-! Which order is served next, and which should be. -/
namespace UtxoMonitor.LiquidityBook

open Lib

section Takers

variable {T U : Type} [MarketTaker T U]

/-- How far an order lies from the spot price on its advantageous side. -/
def advantage (spotPrice : SpotPrice) (t : T) : ℚ :=
  match side t with
  | .ask => spotPrice - price t
  | .bid => price t - spotPrice

namespace AllowedPriceRange

/-- The limit of the order's own side admits its price. -/
def Admits (range : AllowedPriceRange) (t : T) : Prop :=
  match side t with
  | .ask => ∀ maxAsk, range.maxAskPrice = some maxAsk → price t ≤ maxAsk
  | .bid => ∀ minBid, range.minBidPrice = some minBid → minBid ≤ price t

theorem testAsk_eq_some {range : AllowedPriceRange} {ask t : T} (hside : side ask = .ask) :
    range.testAsk ask = some t ↔ t = ask ∧ range.Admits ask := by
  simp only [testAsk, Admits, hside]
  cases range.maxAskPrice with
  | none => simp [eq_comm]
  | some maxAsk => simp [and_comm, eq_comm]

theorem testBid_eq (range : AllowedPriceRange) (bid : T) :
    range.testBid bid = none ∨ range.testBid bid = some bid := by
  cases h : range.testBid bid with
  | none => exact .inl rfl
  | some t => exact .inr (by rw [eq_of_testBid h])

end AllowedPriceRange

variable [Ord T] [SideOrd T]

/-- The best order of its side, within the range. -/
def IsCandidate (fragments : MarketTakers T) (range : AllowedPriceRange) (t : T) : Prop :=
  fragments.first (side t) = some t ∧ range.Admits t

/-- The choice is the candidate farther from the spot price, and just it is taken out. -/
structure PicksFarthest (fragments : MarketTakers T) (spotPrice : SpotPrice)
    (range : AllowedPriceRange) (choice : Option T) (rest : MarketTakers T) : Prop where
  candidate : ∀ t, choice = some t → IsCandidate fragments range t
  farthest : ∀ t, choice = some t → ∀ u, IsCandidate fragments range u →
    advantage spotPrice u ≤ advantage spotPrice t
  removed : ∀ t, choice = some t → ∀ u, u ∈ rest ↔ u ∈ fragments ∧ u ≠ t
  none_inside : choice = none → ∀ u, ¬ IsCandidate fragments range u
  left : choice = none → rest = fragments

/-- A best bid within its limit that fails the test against the limit of the asks stands behind a best
ask; one beyond its limit that passes the test loses against a best ask. -/
def BidsTested (fragments : MarketTakers T) (spotPrice : SpotPrice) (range : AllowedPriceRange) :
    Prop :=
  ∀ bid, fragments.first .bid = some bid →
    (range.Admits bid → range.testBid bid = none →
      ∃ ask, fragments.first .ask = some ask ∧ range.Admits ask ∧
        advantage spotPrice bid ≤ advantage spotPrice ask) ∧
    (¬ range.Admits bid → range.testBid bid = some bid →
      ∃ ask, fragments.first .ask = some ask ∧ range.Admits ask ∧
        (advantage spotPrice bid < advantage spotPrice ask ∨
          advantage spotPrice bid = advantage spotPrice ask ∧
            (1 / input bid * spotPrice : ℚ≥0) < input ask))

/-! ### What the code chooses from -/

variable {fragments : MarketTakers T} {spotPrice : SpotPrice} {range : AllowedPriceRange}
  {t u ask bid : T}

/-- The best order of its side that passes the test. -/
def IsTested (fragments : MarketTakers T) (range : AllowedPriceRange) (t : T) : Prop :=
  fragments.first (side t) = some t ∧
    match side t with
    | .ask => range.testAsk t = some t
    | .bid => range.testBid t = some t

theorem isTested_iff_of_ask (hside : side t = .ask) :
    IsTested fragments range t ↔ IsCandidate fragments range t := by
  rw [IsTested, IsCandidate, hside]
  simp only [AllowedPriceRange.testAsk_eq_some hside, true_and]

theorem isTested_of_first_ask (hfirst : fragments.first .ask = some ask)
    (hadmits : range.Admits ask) : IsTested fragments range ask := by
  have hside := (MarketTakers.mem_of_first hfirst).2
  rw [isTested_iff_of_ask hside, IsCandidate, hside]
  exact ⟨hfirst, hadmits⟩

theorem bind_testAsk_eq_some :
    (fragments.first .ask).bind range.testAsk = some t ↔ IsTested fragments range t ∧ side t = .ask := by
  constructor
  · intro h
    obtain ⟨ask, hfirst, htest⟩ := Option.bind_eq_some_iff.mp h
    obtain rfl := AllowedPriceRange.eq_of_testAsk htest
    have hside := (MarketTakers.mem_of_first hfirst).2
    simp only [IsTested, hside]
    exact ⟨⟨hfirst, htest⟩, trivial⟩
  · rintro ⟨⟨hfirst, htest⟩, hside⟩
    simp only [hside] at hfirst htest
    exact Option.bind_eq_some_iff.mpr ⟨t, hfirst, htest⟩

theorem bind_testBid_eq_some :
    (fragments.first .bid).bind range.testBid = some t ↔ IsTested fragments range t ∧ side t = .bid := by
  constructor
  · intro h
    obtain ⟨bid, hfirst, htest⟩ := Option.bind_eq_some_iff.mp h
    obtain rfl := AllowedPriceRange.eq_of_testBid htest
    have hside := (MarketTakers.mem_of_first hfirst).2
    simp only [IsTested, hside]
    exact ⟨⟨hfirst, htest⟩, trivial⟩
  · rintro ⟨⟨hfirst, htest⟩, hside⟩
    simp only [hside] at hfirst htest
    exact Option.bind_eq_some_iff.mpr ⟨t, hfirst, htest⟩

theorem IsTested.eq_of_side (ht : IsTested fragments range t) (hu : IsTested fragments range u)
    (hside : side t = side u) : t = u := by
  have hfirst := ht.1
  rw [hside, hu.1] at hfirst
  exact (Option.some.inj hfirst).symm

/-- An ask and a bid that both pass are told apart by their distances, then by their volumes. -/
theorem farthest_of_both (hask : IsTested fragments range ask) (haskSide : side ask = .ask)
    (hbid : IsTested fragments range bid) (hbidSide : side bid = .bid) :
    farthestFromSpot fragments spotPrice range =
      if advantage spotPrice bid < advantage spotPrice ask then some ask
      else if advantage spotPrice ask < advantage spotPrice bid then some bid
      else some (maxByVolume ask bid (some spotPrice)) := by
  have hneg : ((spotPrice : ℚ) - price bid) * -1 = price bid - spotPrice := by
    rw [mul_neg_one, neg_sub]
  simp only [farthestFromSpot, bind_testAsk_eq_some.mpr ⟨hask, haskSide⟩,
    bind_testBid_eq_some.mpr ⟨hbid, hbidSide⟩, advantage, haskSide, hbidSide, hneg]

theorem farthest_of_ask (hask : IsTested fragments range ask) (hside : side ask = .ask)
    (hnone : ∀ bid, IsTested fragments range bid → side bid ≠ .bid) :
    farthestFromSpot fragments spotPrice range = some ask := by
  have hbid : (fragments.first .bid).bind range.testBid = none := by
    refine Option.eq_none_iff_forall_ne_some.mpr ?_
    intro bid hb
    obtain ⟨hb, hbSide⟩ := bind_testBid_eq_some.mp hb
    exact hnone bid hb hbSide
  simp only [farthestFromSpot, bind_testAsk_eq_some.mpr ⟨hask, hside⟩, hbid]

theorem farthest_of_bid (hbid : IsTested fragments range bid) (hside : side bid = .bid)
    (hnone : ∀ ask, IsTested fragments range ask → side ask ≠ .ask) :
    farthestFromSpot fragments spotPrice range = some bid := by
  have hask : (fragments.first .ask).bind range.testAsk = none := by
    refine Option.eq_none_iff_forall_ne_some.mpr ?_
    intro ask ha
    obtain ⟨ha, haSide⟩ := bind_testAsk_eq_some.mp ha
    exact hnone ask ha haSide
  simp only [farthestFromSpot, bind_testBid_eq_some.mpr ⟨hbid, hside⟩, hask]

theorem farthest_of_none (hnone : ∀ t, ¬ IsTested fragments range t) :
    farthestFromSpot fragments spotPrice range = none := by
  have hask : (fragments.first .ask).bind range.testAsk = none :=
    Option.eq_none_iff_forall_ne_some.mpr fun t ht => hnone t (bind_testAsk_eq_some.mp ht).1
  have hbid : (fragments.first .bid).bind range.testBid = none :=
    Option.eq_none_iff_forall_ne_some.mpr fun t ht => hnone t (bind_testBid_eq_some.mp ht).1
  simp only [farthestFromSpot, hask, hbid]

theorem farthest_ge_both (hask : IsTested fragments range ask) (haskSide : side ask = .ask)
    (hbid : IsTested fragments range bid) (hbidSide : side bid = .bid) :
    ∃ t, farthestFromSpot fragments spotPrice range = some t ∧ IsTested fragments range t ∧
      advantage spotPrice ask ≤ advantage spotPrice t ∧
      advantage spotPrice bid ≤ advantage spotPrice t := by
  rw [farthest_of_both hask haskSide hbid hbidSide]
  split_ifs with hfar hfar'
  · exact ⟨ask, rfl, hask, le_rfl, hfar.le⟩
  · exact ⟨bid, rfl, hbid, hfar'.le, le_rfl⟩
  · have heq : advantage spotPrice ask = advantage spotPrice bid :=
      le_antisymm (not_lt.mp hfar) (not_lt.mp hfar')
    rcases maxByVolume_eq ask bid (some spotPrice) with h | h
    · exact ⟨ask, by rw [h], hask, le_rfl, heq.ge⟩
    · exact ⟨bid, by rw [h], hbid, heq.le, le_rfl⟩

/-- Some order is chosen that is as far as any that passes. -/
theorem exists_farthest (spotPrice : SpotPrice) (hu : IsTested fragments range u) :
    ∃ t, farthestFromSpot fragments spotPrice range = some t ∧ IsTested fragments range t ∧
      advantage spotPrice u ≤ advantage spotPrice t := by
  cases hside : side u with
  | ask =>
    by_cases hb : ∃ bid, IsTested fragments range bid ∧ side bid = .bid
    · obtain ⟨bid, hbid, hbidSide⟩ := hb
      obtain ⟨t, h, ht, hle, -⟩ := farthest_ge_both hu hside hbid hbidSide
      exact ⟨t, h, ht, hle⟩
    · exact ⟨u, farthest_of_ask hu hside fun bid h h' => hb ⟨bid, h, h'⟩, hu, le_rfl⟩
  | bid =>
    by_cases ha : ∃ ask, IsTested fragments range ask ∧ side ask = .ask
    · obtain ⟨ask, hask, haskSide⟩ := ha
      obtain ⟨t, h, ht, -, hle⟩ := farthest_ge_both hask haskSide hu hside
      exact ⟨t, h, ht, hle⟩
    · exact ⟨u, farthest_of_bid hu hside fun ask h h' => ha ⟨ask, h, h'⟩, hu, le_rfl⟩

theorem tested_of_farthest (ht : farthestFromSpot fragments spotPrice range = some t) :
    IsTested fragments range t := by
  by_cases hany : ∃ u, IsTested fragments range u
  · obtain ⟨u, hu⟩ := hany
    obtain ⟨t', h, ht', -⟩ := exists_farthest spotPrice hu
    obtain rfl := Option.some.inj (h.symm.trans ht)
    exact ht'
  · rw [farthest_of_none fun u hu => hany ⟨u, hu⟩] at ht
    cases ht

theorem advantage_le_of_farthest (ht : farthestFromSpot fragments spotPrice range = some t)
    (hu : IsTested fragments range u) : advantage spotPrice u ≤ advantage spotPrice t := by
  obtain ⟨t', h, -, hle⟩ := exists_farthest spotPrice hu
  obtain rfl := Option.some.inj (h.symm.trans ht)
  exact hle

/-- What is taken out is what is chosen, so only the choice counts. -/
theorem picksFarthest_iff :
    PicksFarthest fragments spotPrice range (maxByDistanceToSpot spotPrice range fragments).1
        (maxByDistanceToSpot spotPrice range fragments).2 ↔
      (∀ t, farthestFromSpot fragments spotPrice range = some t → IsCandidate fragments range t ∧
        ∀ u, IsCandidate fragments range u → advantage spotPrice u ≤ advantage spotPrice t) ∧
      (farthestFromSpot fragments spotPrice range = none →
        ∀ u, ¬ IsCandidate fragments range u) := by
  have hchoice : (maxByDistanceToSpot spotPrice range fragments).1 =
      farthestFromSpot fragments spotPrice range := by
    cases h : farthestFromSpot fragments spotPrice range <;> simp only [maxByDistanceToSpot, h]
  rw [hchoice]
  constructor
  · intro h
    exact ⟨fun t ht => ⟨h.candidate t ht, h.farthest t ht⟩, h.none_inside⟩
  · rintro ⟨hsome, hnone⟩
    refine ⟨fun t ht => (hsome t ht).1, fun t ht => (hsome t ht).2, ?_, hnone, ?_⟩
    · intro t ht u
      have hmem := mem_of_farthestFromSpot ht
      simp only [maxByDistanceToSpot, ht, MarketTakers.mem_remove]
      constructor
      · rintro ⟨hu, hclash⟩
        refine ⟨hu, ?_⟩
        rintro rfl
        exact hclash (.rfl _)
      · rintro ⟨hu, hne⟩
        exact ⟨hu, fun hc => hne (MarketTakers.eq_of_clash hmem hu hc).symm⟩
    · intro ht
      simp only [maxByDistanceToSpot, ht]

theorem isTested_iff_of_bid (hside : side t = .bid) :
    IsTested fragments range t ↔
      fragments.first .bid = some t ∧ range.testBid t = some t := by
  rw [IsTested, hside]

theorem isCandidate_iff_of_bid (hside : side t = .bid) :
    IsCandidate fragments range t ↔ fragments.first .bid = some t ∧ range.Admits t := by
  rw [IsCandidate, hside]

/-- An ask wins against a bid by its distance, or by its volume. -/
theorem farthest_eq_ask_iff (hask : IsTested fragments range ask) (haskSide : side ask = .ask)
    (hbid : IsTested fragments range bid) (hbidSide : side bid = .bid) :
    farthestFromSpot fragments spotPrice range = some ask ↔
      advantage spotPrice bid < advantage spotPrice ask ∨
        advantage spotPrice bid = advantage spotPrice ask ∧
          (1 / input bid * spotPrice : ℚ≥0) < input ask := by
  have hne : bid ≠ ask := by
    rintro rfl
    rw [haskSide] at hbidSide
    cases hbidSide
  rw [farthest_of_both hask haskSide hbid hbidSide]
  constructor
  · intro h
    split_ifs at h with hfar hfar'
    · exact .inl hfar
    · exact absurd (Option.some.inj h) hne
    · refine .inr ⟨le_antisymm (not_lt.mp hfar') (not_lt.mp hfar), ?_⟩
      by_contra hvol
      rw [maxByVolume, Option.getD_some, if_neg hvol] at h
      exact hne (Option.some.inj h)
  · rintro (hfar | ⟨heq, hvol⟩)
    · rw [if_pos hfar]
    · rw [if_neg heq.not_lt, if_neg heq.not_gt, maxByVolume, Option.getD_some, if_pos hvol]

/-- A candidate that is not seen stands behind one that is. -/
theorem BidsTested.exists_tested (h : BidsTested fragments spotPrice range)
    (hu : IsCandidate fragments range u) :
    ∃ v, IsTested fragments range v ∧ advantage spotPrice u ≤ advantage spotPrice v := by
  cases hside : side u with
  | ask => exact ⟨u, (isTested_iff_of_ask hside).mpr hu, le_rfl⟩
  | bid =>
    obtain ⟨hfirst, hadmits⟩ := (isCandidate_iff_of_bid hside).mp hu
    rcases range.testBid_eq u with htest | htest
    · obtain ⟨ask, haskFirst, haskAdmits, hle⟩ := (h u hfirst).1 hadmits htest
      exact ⟨ask, isTested_of_first_ask haskFirst haskAdmits, hle⟩
    · exact ⟨u, (isTested_iff_of_bid hside).mpr ⟨hfirst, htest⟩, le_rfl⟩

/-- The farthest order within the range is chosen just when the limit of the asks treats the best bid
as its own would, or a best ask decides the choice anyway. -/
theorem maxByDistanceToSpot_picks_iff (fragments : MarketTakers T) (spotPrice : SpotPrice)
    (range : AllowedPriceRange) :
    PicksFarthest fragments spotPrice range (maxByDistanceToSpot spotPrice range fragments).1
        (maxByDistanceToSpot spotPrice range fragments).2 ↔
      BidsTested fragments spotPrice range := by
  rw [picksFarthest_iff]
  constructor
  · rintro ⟨hsome, hnone⟩ bid hfirst
    have hbidSide := (MarketTakers.mem_of_first hfirst).2
    constructor
    · -- the bid stays unseen, so what is chosen instead is an ask
      intro hadmits htest
      have hbid : IsCandidate fragments range bid :=
        (isCandidate_iff_of_bid hbidSide).mpr ⟨hfirst, hadmits⟩
      cases hfar : farthestFromSpot fragments spotPrice range with
      | none => exact absurd hbid (hnone hfar bid)
      | some t =>
        have ht := tested_of_farthest hfar
        obtain ⟨hcand, hle⟩ := hsome t hfar
        cases hside : side t with
        | ask =>
          rw [IsCandidate, hside] at hcand
          exact ⟨t, hcand.1, hcand.2, hle bid hbid⟩
        | bid =>
          rw [isTested_iff_of_bid hside, hfirst] at ht
          obtain rfl := Option.some.inj ht.1
          rw [htest] at ht
          cases ht.2
    · -- the bid passes wrongly, so an ask has to win against it
      intro hadmits htest
      have hbid : IsTested fragments range bid :=
        (isTested_iff_of_bid hbidSide).mpr ⟨hfirst, htest⟩
      obtain ⟨t, hfar, ht, -⟩ := exists_farthest spotPrice hbid
      obtain ⟨hcand, -⟩ := hsome t hfar
      have hside : side t = .ask := by
        cases hside : side t with
        | ask => rfl
        | bid =>
          obtain rfl := ht.eq_of_side hbid (hside.trans hbidSide.symm)
          exact absurd hcand.2 hadmits
      rw [IsCandidate, hside] at hcand
      exact ⟨t, hcand.1, hcand.2, (farthest_eq_ask_iff ht hside hbid hbidSide).mp hfar⟩
  · intro htested
    constructor
    · intro t hfar
      have ht := tested_of_farthest hfar
      constructor
      · cases hside : side t with
        | ask => exact (isTested_iff_of_ask hside).mp ht
        | bid =>
          obtain ⟨hfirst, htest⟩ := (isTested_iff_of_bid hside).mp ht
          refine (isCandidate_iff_of_bid hside).mpr ⟨hfirst, ?_⟩
          by_contra hadmits
          obtain ⟨ask, haskFirst, haskAdmits, hwins⟩ := (htested t hfirst).2 hadmits htest
          have haskSide := (MarketTakers.mem_of_first haskFirst).2
          have hask := isTested_of_first_ask haskFirst haskAdmits
          have hfar' := (farthest_eq_ask_iff hask haskSide ht hside).mpr hwins
          obtain rfl := Option.some.inj (hfar.symm.trans hfar')
          rw [hside] at haskSide
          cases haskSide
      · intro u hu
        obtain ⟨v, hv, hle⟩ := htested.exists_tested hu
        exact hle.trans (advantage_le_of_farthest hfar hv)
    · intro hfar u hu
      obtain ⟨v, hv, -⟩ := htested.exists_tested hu
      obtain ⟨t, hsome, -⟩ := exists_farthest spotPrice hv
      rw [hfar] at hsome
      cases hsome

end Takers

theorem maxByDistanceToSpot_picks_sample :
    PicksFarthest (MarketTakers.empty.insert (sampleOrder 1 .bid 12 100 1)) 11 ⟨some 10, none⟩
        (maxByDistanceToSpot 11 ⟨some 10, none⟩
          (MarketTakers.empty.insert (sampleOrder 1 .bid 12 100 1))).1
        (maxByDistanceToSpot 11 ⟨some 10, none⟩
          (MarketTakers.empty.insert (sampleOrder 1 .bid 12 100 1))).2 ↔
      BidsTested (MarketTakers.empty.insert (sampleOrder 1 .bid 12 100 1)) 11 ⟨some 10, none⟩ :=
  maxByDistanceToSpot_picks_iff (MarketTakers.empty.insert (sampleOrder 1 .bid 12 100 1)) 11
    ⟨some 10, none⟩

/-- Only asks have been put aside, and the one bid of the book, below their prices, is not seen. -/
theorem maxByDistanceToSpot_rejects_inside :
    ∃ (fragments : MarketTakers SimpleOrderPF) (spotPrice : SpotPrice) (range : AllowedPriceRange),
      ¬ PicksFarthest fragments spotPrice range (maxByDistanceToSpot spotPrice range fragments).1
        (maxByDistanceToSpot spotPrice range fragments).2 := by
  refine ⟨MarketTakers.empty.insert (sampleOrder 1 .bid 5 100 1), 11, ⟨some 10, none⟩, ?_⟩
  intro h
  have hnone : (maxByDistanceToSpot 11 ⟨some 10, none⟩
      (MarketTakers.empty.insert (sampleOrder 1 .bid 5 100 1))).1 = none := by decide +kernel
  refine h.none_inside hnone (sampleOrder 1 .bid 5 100 1) ⟨by decide +kernel, ?_⟩
  intro minBid hmin
  cases hmin

end UtxoMonitor.LiquidityBook
