import UtxoMonitor.LiquidityBook.Matching
import UtxoMonitor.LiquidityBook.Simple
import UtxoMonitor.Orders.Grid

/-! The orders of a book that holds limit and grid orders, and which of them comes first. -/
namespace UtxoMonitor.Orders

open LiquidityBook Pools

/-! ### Weights -/

structure OrderWeight (CostUnits : Type) where
  fee : Nat
  cost : CostUnits

/-- The lower cost weighs more. -/
instance {U : Type} [Ord U] : Ord (OrderWeight U) :=
  ⟨fun a b => (compare a.fee b.fee).then (compare a.cost b.cost).swap⟩

section Takers

variable {T U : Type} [MarketTaker T U]

def weight (t : T) : OrderWeight U := ⟨fee t, MarketTaker.marginalCostHint t⟩

variable [Ord U]

/-- Best price first, then the lesser weight; identifiers break ties. -/
def cmpTakers (stableId : T → Token) (self other : T) : Ordering :=
  let cmpByPrice := compare (price self) (price other)
  let cmpByPrice := if side self = .bid then cmpByPrice.swap else cmpByPrice
  (cmpByPrice.then (compare (weight self) (weight other))).then
    (compare (stableId self) (stableId other))

end Takers

/-! ### Orders -/

namespace GridOrder

def stableId (o : GridOrder) : Token := ⟨o.beacon, .zero⟩

instance : Ord GridOrder := ⟨cmpTakers stableId⟩

end GridOrder

instance : Ord LimitOrder := ⟨fun o o' => o.toLimitOrder.cmp o'.toLimitOrder⟩

inductive AnyOrder where
  | limit (o : LimitOrder)
  | grid (o : GridOrder)
deriving DecidableEq

namespace AnyOrder

def stableId : AnyOrder → Token
  | limit o => o.toLimitOrder.stableId
  | grid o => o.stableId

/-- The variants in the order they are declared, then their own orders. -/
def cmp : AnyOrder → AnyOrder → Ordering
  | limit o, limit o' => compare o o'
  | limit _, grid _ => .lt
  | grid _, limit _ => .gt
  | grid o, grid o' => compare o o'

instance : Ord AnyOrder := ⟨cmp⟩

instance : Stable AnyOrder where
  StableId := Token
  decEqId := inferInstance
  stableId := stableId

instance : MarketTaker AnyOrder ExUnits where
  side
    | limit o => side o
    | grid o => side o
  input
    | limit o => input o
    | grid o => input o
  output
    | limit o => output o
    | grid o => output o
  price
    | limit o => price o
    | grid o => price o
  operatorFee
    | limit o => operatorFee o
    | grid o => operatorFee o
  fee
    | limit o => fee o
    | grid o => fee o
  budget
    | limit o => budget o
    | grid o => budget o
  consumableBudget
    | limit o => consumableBudget o
    | grid o => consumableBudget o
  marginalCostHint
    | limit o => MarketTaker.marginalCostHint o
    | grid o => MarketTaker.marginalCostHint o
  minMarginalOutput
    | limit o => minMarginalOutput o
    | grid o => minMarginalOutput o
  timeBounds
    | limit o => timeBounds o
    | grid o => timeBounds o

end AnyOrder

/-! ### Their orders put a side in a row -/

section Takers

variable {T U : Type} [MarketTaker T U] [Ord U] [Std.TransOrd U]

theorem cmpTakers_eq (stableId : T → Token) (o o' : T) : cmpTakers stableId o o' =
    ((if side o = .bid then compareOn price o' o else compareOn price o o').then
      ((compareOn fee o o').then (compareOn MarketTaker.marginalCostHint o' o))).then
        (compareOn stableId o o') := by
  simp only [cmpTakers, weight, compareOn, Std.OrientedCmp.eq_swap (a := price o'),
    Std.OrientedCmp.eq_swap (a := MarketTaker.marginalCostHint o')]
  rfl

/-- The order of a side. -/
def cmpOn (stableId : T → Token) (s : LiquidityBook.Side) : Sided T s → Sided T s → Ordering :=
  let cmpByPrice := match s with
    | .bid => fun a b => compareOn (price ·.val) b a
    | .ask => compareOn (price ·.val)
  compareLex (compareLex cmpByPrice
    (compareLex (compareOn (fee ·.val)) fun a b => compareOn (MarketTaker.marginalCostHint ·.val) b a))
    (compareOn (stableId ·.val))

instance (stableId : T → Token) (s : LiquidityBook.Side) : Std.TransCmp (cmpOn stableId s) := by
  cases s with
  | bid => exact inferInstanceAs (Std.TransCmp (compareLex (compareLex _ (compareLex _ _)) _))
  | ask => exact inferInstanceAs (Std.TransCmp (compareLex (compareLex _ (compareLex _ _)) _))

theorem transCmp_cmpTakers (stableId : T → Token) (s : LiquidityBook.Side) :
    Std.TransCmp fun a b : Sided T s => cmpTakers stableId a.val b.val := by
  have h : (fun a b : Sided T s => cmpTakers stableId a.val b.val) = cmpOn stableId s := by
    funext a b
    rw [cmpTakers_eq, a.property]
    cases s <;> rfl
  rw [h]
  infer_instance

end Takers

instance : SideOrd LimitOrder where
  trans := transCmp_cmpTakers fun o : LimitOrder => o.toLimitOrder.stableId

instance : SideOrd GridOrder where
  trans := transCmp_cmpTakers GridOrder.stableId

/-- Orders of one side are in a row, whichever variants they are. -/
instance : SideOrd AnyOrder where
  trans s := by
    have hlimit := transCmp_cmpTakers (fun o : LimitOrder => o.toLimitOrder.stableId) s
    have hgrid := transCmp_cmpTakers GridOrder.stableId s
    refine { eq_swap := ?_, isLE_trans := ?_ }
    · rintro ⟨a | a, ha⟩ ⟨b | b, hb⟩
      · exact hlimit.eq_swap (a := ⟨a, ha⟩) (b := ⟨b, hb⟩)
      · rfl
      · rfl
      · exact hgrid.eq_swap (a := ⟨a, ha⟩) (b := ⟨b, hb⟩)
    · rintro ⟨a | a, ha⟩ ⟨b | b, hb⟩ ⟨c | c, hc⟩ hab hbc
      · exact hlimit.isLE_trans (a := ⟨a, ha⟩) (b := ⟨b, hb⟩) (c := ⟨c, hc⟩) hab hbc
      · rfl
      · cases hbc
      · rfl
      · cases hab
      · cases hab
      · cases hbc
      · exact hgrid.isLE_trans (a := ⟨a, ha⟩) (b := ⟨b, hb⟩) (c := ⟨c, hc⟩) hab hbc

/-! ### Which order comes first -/

section Prices

variable {s : LiquidityBook.Side} {p q r : AbsolutePrice}

theorem betterThan_trans (hpq : (s.wrap p).betterThan q) (hqr : (s.wrap q).betterThan r) :
    (s.wrap p).betterThan r := by
  cases s with
  | bid => exact decide_eq_true ((of_decide_eq_true hqr).trans (of_decide_eq_true hpq))
  | ask => exact decide_eq_true ((of_decide_eq_true hpq).trans (of_decide_eq_true hqr))

theorem betterThan_antisymm (hpq : (s.wrap p).betterThan q) (hqp : (s.wrap q).betterThan p) :
    p = q := by
  cases s with
  | bid => exact le_antisymm (of_decide_eq_true hqp) (of_decide_eq_true hpq)
  | ask => exact le_antisymm (of_decide_eq_true hpq) (of_decide_eq_true hqp)

end Prices

section Takers

variable {T U : Type} [MarketTaker T U] [Ord U] {stableId : T → Token} {s : LiquidityBook.Side}
  {o o' : T}

/-- What comes first has no worse price, and among equal prices no greater weight. -/
theorem better_of_isLE (hside : side o = s) (h : (cmpTakers stableId o o').isLE) :
    (s.wrap (price o)).betterThan (price o') ∧
      (price o' = price o → (compare (weight o) (weight o')).isLE) := by
  have hle := Ordering.isLE_left_of_isLE_then h
  obtain ⟨hprice, hrest⟩ := Ordering.isLE_then_iff_and.mp hle
  subst hside
  constructor
  · cases hs : side o with
    | bid =>
      rw [hs, if_pos rfl, Ordering.isLE_swap] at hprice
      exact decide_eq_true (compare_ge_iff_ge.mp (Ordering.ne_lt_iff_isGE.mpr hprice))
    | ask =>
      rw [hs, if_neg (by decide)] at hprice
      exact decide_eq_true (compare_le_iff_le.mp (Ordering.ne_gt_iff_isLE.mpr hprice))
  · intro heq
    rcases hrest with hlt | hweight
    · rw [heq, Std.compare_self] at hlt
      cases hs : side o <;> rw [hs] at hlt <;> cases hlt
    · exact hweight

end Takers

namespace AnyOrder

def IsLimit : AnyOrder → Prop
  | limit _ => True
  | grid _ => False

/-- No order of the side has a better price, and none of the same price weighs more. -/
structure IsBest (mt : MarketTakers AnyOrder) (s : LiquidityBook.Side) (t : AnyOrder) : Prop where
  mem : t ∈ mt
  on_side : side t = s
  best_price : ∀ u ∈ mt, side u = s → (s.wrap (price t)).betterThan (price u)
  best_weight : ∀ u ∈ mt, side u = s → price u = price t → (compare (weight u) (weight t)).isLE

/-- If a side has limit orders, one of them has as good a price as any grid order. Of the orders with the
best price the limit orders, or if it has none the grid orders, weigh no less than any. -/
structure Sorted (mt : MarketTakers AnyOrder) (s : LiquidityBook.Side) : Prop where
  limit_leads : ∀ l ∈ mt, side l = s → l.IsLimit → ∀ g ∈ mt, side g = s → ¬ g.IsLimit →
    ∃ l' ∈ mt, side l' = s ∧ l'.IsLimit ∧ (s.wrap (price l')).betterThan (price g)
  even_weights : ∀ t ∈ mt, side t = s →
    (∀ v ∈ mt, side v = s → (s.wrap (price t)).betterThan (price v)) →
    (t.IsLimit ∨ ∀ v ∈ mt, side v = s → ¬ v.IsLimit) →
    ∀ u ∈ mt, side u = s → price u = price t → (compare (weight u) (weight t)).isLE

variable {mt : MarketTakers AnyOrder} {s : LiquidityBook.Side} {t u : AnyOrder}

/-- A limit order precedes every grid order; within a variant price and weight decide. -/
theorem cmp_isLE (hside : side t = s) (h : (compare t u).isLE) :
    (¬ t.IsLimit → ¬ u.IsLimit) ∧
      ((t.IsLimit ↔ u.IsLimit) → (s.wrap (price t)).betterThan (price u) ∧
        (price u = price t → (compare (weight t) (weight u)).isLE)) := by
  cases t with
  | limit o =>
    have hon : side o = s := hside
    refine ⟨fun hnot => absurd trivial hnot, ?_⟩
    cases u with
    | limit o' =>
      have hle : (cmpTakers (fun o => o.toLimitOrder.stableId) o o').isLE := h
      have hbetter := better_of_isLE hon hle
      exact fun _ => hbetter
    | grid o' => exact fun hiff => (hiff.mp trivial).elim
  | grid o =>
    have hon : side o = s := hside
    cases u with
    | limit o' => cases h
    | grid o' =>
      have hle : (cmpTakers GridOrder.stableId o o').isLE := h
      have hbetter := better_of_isLE hon hle
      exact ⟨fun _ hu => hu.elim, fun _ => hbetter⟩

theorem weight_trans {a b c : OrderWeight ExUnits} (hab : (compare a b).isLE)
    (hbc : (compare b c).isLE) : (compare a c).isLE := by
  have h : (fun a b : OrderWeight ExUnits => compare a b) =
      compareLex (compareOn OrderWeight.fee) fun a b => compareOn OrderWeight.cost b a := by
    funext a b
    show (compare a.fee b.fee).then (compare a.cost b.cost).swap = _
    rw [Std.OrientedOrd.eq_swap (a := a.cost), Ordering.swap_swap]
    rfl
  have htrans : Std.TransCmp fun a b : OrderWeight ExUnits => compare a b := by
    rw [h]
    infer_instance
  exact htrans.isLE_trans hab hbc

/-- The first order of a side is the best of its variant, and a limit order if the side has one. -/
theorem of_first (h : mt.first s = some t) :
    (∀ u ∈ mt, side u = s → ¬ t.IsLimit → ¬ u.IsLimit) ∧
      ∀ u ∈ mt, side u = s → (t.IsLimit ↔ u.IsLimit) → (s.wrap (price t)).betterThan (price u) ∧
        (price u = price t → (compare (weight t) (weight u)).isLE) := by
  have hside := (MarketTakers.mem_of_first h).2
  constructor
  · intro u hu huSide
    exact (cmp_isLE hside (MarketTakers.first_isLE h hu huSide)).1
  · intro u hu huSide
    exact (cmp_isLE hside (MarketTakers.first_isLE h hu huSide)).2

theorem first_best_iff :
    (∀ t, mt.first s = some t → IsBest mt s t) ↔ Sorted mt s := by
  constructor
  · intro hbest
    refine ⟨?_, ?_⟩
    · intro l hl hlSide hlimit g hg hgSide _
      obtain ⟨f, hf⟩ := MarketTakers.exists_first hl
      rw [hlSide] at hf
      have hb := hbest f hf
      refine ⟨f, hb.mem, hb.on_side, ?_, hb.best_price g hg hgSide⟩
      by_contra hnot
      exact (of_first hf).1 l hl hlSide hnot hlimit
    · -- the first order has the best price too, and is of the variant that leads
      intro t ht htSide htBest hlead u hu huSide hprice
      obtain ⟨f, hf⟩ := MarketTakers.exists_first ht
      rw [htSide] at hf
      have hb := hbest f hf
      have hsame : price t = price f :=
        betterThan_antisymm (htBest f hb.mem hb.on_side) (hb.best_price t ht htSide)
      have hvariant : f.IsLimit ↔ t.IsLimit := by
        constructor
        · intro hfLimit
          rcases hlead with hlimit | hnone
          · exact hlimit
          · exact absurd hfLimit (hnone f hb.mem hb.on_side)
        · intro hlimit
          by_contra hnot
          exact (of_first hf).1 t ht htSide hnot hlimit
      exact weight_trans (hb.best_weight u hu huSide (hprice.trans hsame))
        (((of_first hf).2 t ht htSide hvariant).2 hsame)
  · rintro ⟨hlead, heven⟩ t hfirst
    obtain ⟨ht, htSide⟩ := MarketTakers.mem_of_first hfirst
    obtain ⟨hlimits, hbest⟩ := of_first hfirst
    have hprice : ∀ u ∈ mt, side u = s → (s.wrap (price t)).betterThan (price u) := by
      intro u hu huSide
      by_cases htLimit : t.IsLimit
      · by_cases huLimit : u.IsLimit
        · exact (hbest u hu huSide (iff_of_true htLimit huLimit)).1
        · obtain ⟨l, hl, hlSide, hlLimit, hle⟩ := hlead t ht htSide htLimit u hu huSide huLimit
          exact betterThan_trans (hbest l hl hlSide (iff_of_true htLimit hlLimit)).1 hle
      · exact (hbest u hu huSide (iff_of_false htLimit (hlimits u hu huSide htLimit))).1
    refine ⟨ht, htSide, hprice, ?_⟩
    refine heven t ht htSide hprice ?_
    by_cases htLimit : t.IsLimit
    · exact .inl htLimit
    · exact .inr fun v hv hvSide => hlimits v hv hvSide htLimit

/-- The book tells the price of the best order of a side, and gives that order out. -/
structure ServesBest {M : Type} [Stable M] (book : TLBState AnyOrder M) (s : LiquidityBook.Side) :
    Prop where
  first : ∀ t, book.activeFragments.first s = some t → IsBest book.activeFragments s t
  best_taker_price : ∀ p, book.bestTakerPrice s = some p →
    ∃ t, IsBest book.activeFragments s t ∧ p = s.wrap (price t)
  picked : ∀ test t, (book.tryPickTaker s test).1 = some t → IsBest book.activeFragments s t

/-- The orders of a side are in a row, and orders of different identifiers stand in different places. -/
structure Consistent (s : LiquidityBook.Side) : Prop where
  total : Std.TransCmp fun a b : Sided AnyOrder s => compare a.val b.val
  distinct : ∀ a b : Sided AnyOrder s, stableId a.val ≠ stableId b.val → compare a.val b.val ≠ .eq

theorem consistent (s : LiquidityBook.Side) : Consistent s where
  total := SideOrd.trans s
  distinct a b hne heq := by
    obtain ⟨a, ha⟩ := a
    obtain ⟨b, hb⟩ := b
    apply hne
    cases a with
    | limit o =>
      cases b with
      | limit o' =>
        exact @Std.LawfulEqOrd.eq_of_compare Token _ _ _ _ (Ordering.then_eq_eq.mp heq).2
      | grid o' => cases heq
    | grid o =>
      cases b with
      | limit o' => cases heq
      | grid o' => exact @Std.LawfulEqOrd.eq_of_compare Token _ _ _ _ (Ordering.then_eq_eq.mp heq).2

section Books

variable {M : Type} [Stable M] {book : TLBState AnyOrder M}

theorem fst_pickActiveTaker (f : MarketTakers AnyOrder → Option AnyOrder × MarketTakers AnyOrder) :
    (book.pickActiveTaker f).1 = (f book.activeFragments).1 := by
  cases book with
  | idle st =>
    simp only [TLBState.pickActiveTaker, TLBState.activeFragments]
    split <;> rename_i h <;> rw [h]
  | partialPreview st =>
    simp only [TLBState.pickActiveTaker, TLBState.activeFragments]
    split <;> rename_i h <;> rw [h]
  | preview st => rfl

theorem first_of_tryPickTaker {test : AnyOrder → Bool}
    (h : (book.tryPickTaker s test).1 = some t) : book.activeFragments.first s = some t := by
  have hpick : (tryPickFr s test book.activeFragments).1 = some t :=
    (fst_pickActiveTaker _).symm.trans h
  rw [tryPickFr, MarketTakers.popFirst_eq] at hpick
  cases hfirst : book.activeFragments.first s with
  | none =>
    rw [hfirst] at hpick
    cases hpick
  | some u =>
    rw [hfirst] at hpick
    dsimp only at hpick
    split at hpick
    · exact hpick
    · cases hpick

/-- The best order is served first just when the variants and the weights do not get in the way. -/
theorem servesBest_iff (book : TLBState AnyOrder M) (s : LiquidityBook.Side) :
    (ServesBest book s ∧ Consistent s) ↔ Sorted book.activeFragments s := by
  rw [← first_best_iff]
  constructor
  · exact fun h => h.1.first
  · intro h
    refine ⟨⟨h, ?_, ?_⟩, consistent s⟩
    · intro p hp
      obtain ⟨t, ht, rfl⟩ := Option.map_eq_some_iff.mp hp
      exact ⟨t, h t ht, rfl⟩
    · intro test t ht
      exact h t (first_of_tryPickTaker ht)

end Books

def sampleAddress : PlutusAddress := ⟨.pubKey (.replicate 7), none⟩

/-- ADA for tokens. -/
def sampleLimit (beacon : UInt8) (basePrice : ℚ≥0) (fee : Nat) : AnyOrder :=
  .limit {
    beacon := RawBytes.replicate beacon
    inputAsset := .native
    inputAmount := 100000000
    outputAsset := .token (sampleToken 2)
    outputAmount := 0
    basePrice := basePrice
    executionBudget := 1000000
    fee := fee
    maxCostPerExStep := 500000
    minMarginalOutput := 1
    marginalCost := ⟨1, 1⟩
    feeAsset := .native
    redeemerAddress := sampleAddress
    cancellationPkh := .replicate 7
    requiresExecutorSig := false
    virgin := true }

/-- ADA for tokens, by an order that buys. -/
def sampleGridBid (beacon : UInt8) (price : Ratio) : AnyOrder :=
  .grid {
    beacon := .replicate beacon
    baseAsset := .token (sampleToken 2)
    quoteAsset := .native
    buyShiftFactor := ⟨1005, 1000⟩
    sellShiftFactor := ⟨1000, 995⟩
    baseReserves := 0
    quoteReserves := 30000000
    quoteOffer := 20000000
    price := price
    side := .bid
    minMarginalOutputBase := 10000000
    minMarginalOutputQuote := 5000000
    maxExecutionBudgetPerStep := 500000
    remainingExecutionBudget := 500000
    redeemerAddress := sampleAddress
    marginalCost := ⟨0, 0⟩ }

def sampleBook (orders : List AnyOrder) : TLBState AnyOrder SimpleCFMMPool :=
  .idle ⟨⟨0, MarketTakers.empty.insertAll orders, ∅⟩, .empty⟩

/-- A limit order at five tokens an ADA hides a grid order at two, and of two limit orders the one of the
lower fee hides the other. -/
theorem not_servesBest :
    ¬ ServesBest (sampleBook [sampleLimit 1 5 0, sampleGridBid 2 ⟨1, 2⟩]) .ask ∧
      ¬ ServesBest (sampleBook [sampleLimit 1 5 0, sampleLimit 2 5 1000000]) .ask := by
  constructor
  · intro h
    have hfirst : (sampleBook [sampleLimit 1 5 0, sampleGridBid 2 ⟨1, 2⟩]).activeFragments.first
        .ask = some (sampleLimit 1 5 0) := by decide +kernel
    have hgrid : sampleGridBid 2 ⟨1, 2⟩ ∈
        (sampleBook [sampleLimit 1 5 0, sampleGridBid 2 ⟨1, 2⟩]).activeFragments := by
      show Std.ExtTreeSet.get? _ _ = some _
      decide +kernel
    have hbetter := (h.first _ hfirst).best_price _ hgrid (by decide +kernel)
    exact absurd hbetter (by decide +kernel)
  · intro h
    have hfirst : (sampleBook [sampleLimit 1 5 0, sampleLimit 2 5 1000000]).activeFragments.first
        .ask = some (sampleLimit 1 5 0) := by decide +kernel
    have hheavy : sampleLimit 2 5 1000000 ∈
        (sampleBook [sampleLimit 1 5 0, sampleLimit 2 5 1000000]).activeFragments := by
      show Std.ExtTreeSet.get? _ _ = some _
      decide +kernel
    have hweight := (h.first _ hfirst).best_weight _ hheavy (by decide +kernel) rfl
    exact absurd hweight (by decide +kernel)

end AnyOrder

end UtxoMonitor.Orders
