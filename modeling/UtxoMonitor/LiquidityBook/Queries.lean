import Mathlib.Data.List.MinMax
import UtxoMonitor.LiquidityBook.State

/-! What the matchmaking asks of a book: which order to serve next, against whom, in which pool. -/
namespace UtxoMonitor.LiquidityBook

/-- `Iterator::max_by_key`: of several greatest elements the last. -/
def maxByKey {A K : Type} [LE K] [DecidableLE K] (key : A → K) : List A → Option A
  | [] => none
  | a :: l => some (l.foldl (fun best b => if key best ≤ key b then b else best) a)

/-- `Iterator::min_by_key`: of several least elements the first. -/
def minByKey {A K : Type} [LT K] [DecidableLT K] (key : A → K) : List A → Option A
  | [] => none
  | a :: l => some (l.foldl (fun best b => if key b < key best then b else best) a)

section Keys

variable {A K : Type} {key : A → K} {l : List A} {a : A}

theorem foldl_mem {step : A → A → A} (hstep : ∀ a b, step a b = a ∨ step a b = b) (a : A)
    (l : List A) : l.foldl step a ∈ a :: l := by
  induction l generalizing a with
  | nil => exact List.mem_cons_self
  | cons b l ih =>
    rw [List.foldl_cons]
    rcases hstep a b with h | h
    · rw [h]
      rcases List.mem_cons.mp (ih a) with h' | h'
      · rw [h']
        exact List.mem_cons_self
      · exact .tail _ (.tail _ h')
    · rw [h]
      exact .tail _ (ih b)

theorem mem_of_maxByKey [LE K] [DecidableLE K] (h : maxByKey key l = some a) : a ∈ l := by
  cases l with
  | nil => cases h
  | cons b l =>
    obtain rfl := Option.some.inj h
    exact foldl_mem (fun x y => by split <;> simp) b l

theorem mem_of_minByKey [LT K] [DecidableLT K] (h : minByKey key l = some a) : a ∈ l := by
  cases l with
  | nil => cases h
  | cons b l =>
    obtain rfl := Option.some.inj h
    exact foldl_mem (fun x y => by split <;> simp) b l

end Keys

structure AllowedPriceRange where
  maxAskPrice : Option AbsolutePrice
  minBidPrice : Option AbsolutePrice

section Takers

variable {T U : Type} [MarketTaker T U]

namespace AllowedPriceRange

/-- Check if given `ask` falls within the price range. -/
def testAsk (range : AllowedPriceRange) (ask : T) : Option T :=
  match range.maxAskPrice with
  | none => some ask
  | some maxAsk => if price ask ≤ maxAsk then some ask else none

/-- Check if given `bid` falls within the price range. The limit is read from the asks. -/
def testBid (range : AllowedPriceRange) (bid : T) : Option T :=
  match range.maxAskPrice with
  | none => some bid
  | some minBid => if minBid ≤ price bid then some bid else none

theorem eq_of_testAsk {range : AllowedPriceRange} {ask t : T} (h : range.testAsk ask = some t) :
    t = ask := by
  unfold testAsk at h
  split at h
  · exact (Option.some.inj h).symm
  split at h
  · exact (Option.some.inj h).symm
  · cases h

theorem eq_of_testBid {range : AllowedPriceRange} {bid t : T} (h : range.testBid bid = some t) :
    t = bid := by
  unfold testBid at h
  split at h
  · exact (Option.some.inj h).symm
  split at h
  · exact (Option.some.inj h).symm
  · cases h

end AllowedPriceRange

/-- Of an ask and a bid equally far from the spot price, the one of greater volume. -/
def maxByVolume (ask bid : T) (spotPrice : Option SpotPrice) : T :=
  let askVol : ℚ≥0 := input ask
  let bidVol : ℚ≥0 := 1 / input bid * spotPrice.getD (price bid)
  if bidVol < askVol then ask else bid

theorem maxByVolume_eq (ask bid : T) (spotPrice : Option SpotPrice) :
    maxByVolume ask bid spotPrice = ask ∨ maxByVolume ask bid spotPrice = bid := by
  unfold maxByVolume
  dsimp only
  split
  · exact .inl rfl
  · exact .inr rfl

variable [Ord T] [SideOrd T]

/-- The order that `max_by_distance_to_spot` picks. -/
def farthestFromSpot (fragments : MarketTakers T) (spotPrice : SpotPrice)
    (range : AllowedPriceRange) : Option T :=
  match (fragments.first .ask).bind range.testAsk, (fragments.first .bid).bind range.testBid with
  | some ask, some bid =>
    let distanceFromAsk : ℚ := spotPrice - price ask
    let distanceFromBid : ℚ := (spotPrice - price bid) * -1
    if distanceFromBid < distanceFromAsk then some ask
    else if distanceFromAsk < distanceFromBid then some bid
    else some (maxByVolume ask bid (some spotPrice))
  | some taker, none => some taker
  | none, some taker => some taker
  | none, none => none

def maxByDistanceToSpot (spotPrice : SpotPrice) (range : AllowedPriceRange)
    (fragments : MarketTakers T) : Option T × MarketTakers T :=
  match farthestFromSpot fragments spotPrice range with
  | some taker => (some taker, fragments.remove taker)
  | none => (none, fragments)

/-- The best order of a side, if it passes the test. -/
def tryPickFr (s : Side) (test : T → Bool) (activeFrontier : MarketTakers T) :
    Option T × MarketTakers T :=
  match activeFrontier.popFirst s with
  | (some bestFr, rest) =>
    if test bestFr then (some bestFr, rest) else (none, rest.insert bestFr)
  | (none, rest) => (none, rest)

/-- A query over the active orders that takes out the order it returns, and nothing else. -/
structure Picker (T : Type) {U : Type} [MarketTaker T U] [Ord T] [SideOrd T] where
  pick : MarketTakers T → Option T × MarketTakers T
  takes : ∀ fragments, pick fragments = (none, fragments) ∨
    ∃ t ∈ fragments, pick fragments = (some t, fragments.remove t)

namespace MarketTakers

variable {mt : MarketTakers T} {t : T}

theorem insert_remove (h : t ∈ mt) : (mt.remove t).insert t = mt := by
  ext u
  rw [mem_insert, mem_remove]
  constructor
  · rintro (⟨hu, -⟩ | ⟨rfl, -⟩)
    · exact hu
    · exact h
  · intro hu
    by_cases hc : Clash t u
    · obtain rfl := eq_of_clash h hu hc
      exact .inr ⟨rfl, fun v hv => (mem_remove.mp hv).2⟩
    · exact .inl ⟨hu, hc⟩

end MarketTakers

theorem mem_of_farthestFromSpot {fragments : MarketTakers T} {spotPrice : SpotPrice}
    {range : AllowedPriceRange} {t : T}
    (h : farthestFromSpot fragments spotPrice range = some t) : t ∈ fragments := by
  have hask : ∀ u, (fragments.first .ask).bind range.testAsk = some u → u ∈ fragments := by
    intro u hu
    obtain ⟨ask, hfirst, htest⟩ := Option.bind_eq_some_iff.mp hu
    rw [AllowedPriceRange.eq_of_testAsk htest]
    exact (MarketTakers.mem_of_first hfirst).1
  have hbid : ∀ u, (fragments.first .bid).bind range.testBid = some u → u ∈ fragments := by
    intro u hu
    obtain ⟨bid, hfirst, htest⟩ := Option.bind_eq_some_iff.mp hu
    rw [AllowedPriceRange.eq_of_testBid htest]
    exact (MarketTakers.mem_of_first hfirst).1
  unfold farthestFromSpot at h
  split at h
  · rename_i ask bid ha hb
    dsimp only at h
    split_ifs at h
    · exact hask t (ha.trans h)
    · exact hbid t (hb.trans h)
    · rcases maxByVolume_eq ask bid (some spotPrice) with hv | hv
      · exact hask t (ha.trans (hv ▸ h))
      · exact hbid t (hb.trans (hv ▸ h))
  · rename_i ha _
    exact hask t (ha.trans h)
  · rename_i _ hb
    exact hbid t (hb.trans h)
  · cases h

/-- The query with which the matchmaking chooses the order to serve. -/
def Picker.maxByDistanceToSpot (spotPrice : SpotPrice) (range : AllowedPriceRange) : Picker T where
  pick := LiquidityBook.maxByDistanceToSpot spotPrice range
  takes fragments := by
    unfold LiquidityBook.maxByDistanceToSpot
    split
    · rename_i t h
      exact .inr ⟨t, mem_of_farthestFromSpot h, rfl⟩
    · exact .inl rfl

/-- The query with which the matchmaking chooses a counterparty. -/
def Picker.tryPickFr (s : Side) (test : T → Bool) : Picker T where
  pick := LiquidityBook.tryPickFr s test
  takes fragments := by
    unfold LiquidityBook.tryPickFr
    rw [MarketTakers.popFirst_eq]
    cases hfirst : fragments.first s with
    | none => exact .inl rfl
    | some t =>
      have ht := (MarketTakers.mem_of_first hfirst).1
      dsimp only
      split
      · exact .inr ⟨t, ht, rfl⟩
      · rw [MarketTakers.insert_remove ht]
        exact .inl rfl

end Takers

end UtxoMonitor.LiquidityBook
