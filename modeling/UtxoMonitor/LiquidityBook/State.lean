import Mathlib.Data.List.AList
import Std.Data.ExtTreeMap
import UtxoMonitor.LiquidityBook.Types
import UtxoMonitor.Lib.OrderedSet

/-! The state of a liquidity book: settled, or with changes of a matchmaking attempt on top. -/
namespace UtxoMonitor.LiquidityBook

open Lib

/-! ### Orders -/

abbrev BTreeSet (T : Type) {U : Type} [MarketTaker T U] [Ord T] (s : Side) :=
  Std.ExtTreeSet (Sided T s) fun a b => compare a.val b.val

/-- The active orders, either side in the order of the book. -/
structure MarketTakers (T : Type) {U : Type} [MarketTaker T U] [Ord T] where
  asks : BTreeSet T .ask
  bids : BTreeSet T .bid

namespace MarketTakers

variable {T U : Type} [MarketTaker T U] [Ord T]

def on (mt : MarketTakers T) : (s : Side) → BTreeSet T s
  | .ask => mt.asks
  | .bid => mt.bids

def update (mt : MarketTakers T) : (s : Side) → (BTreeSet T s → BTreeSet T s) → MarketTakers T
  | .ask, f => { mt with asks := f mt.asks }
  | .bid, f => { mt with bids := f mt.bids }

@[simp] theorem on_update_self (mt : MarketTakers T) (s : Side) (f : BTreeSet T s → BTreeSet T s) :
    (mt.update s f).on s = f (mt.on s) := by
  cases s <;> rfl

theorem on_update_of_ne {s s' : Side} (h : s' ≠ s) (mt : MarketTakers T)
    (f : BTreeSet T s → BTreeSet T s) : (mt.update s f).on s' = mt.on s' := by
  cases s <;> cases s' <;> first | rfl | exact absurd rfl h

variable [SideOrd T]

instance (s : Side) : Std.TransCmp fun a b : Sided T s => compare a.val b.val := SideOrd.trans s

def empty : MarketTakers T := ⟨∅, ∅⟩

def insert (mt : MarketTakers T) (fr : T) : MarketTakers T :=
  mt.update (side fr) (·.insert ⟨fr, rfl⟩)

def remove (mt : MarketTakers T) (fr : T) : MarketTakers T :=
  mt.update (side fr) (·.erase ⟨fr, rfl⟩)

/-- The best order of a side. -/
def first (mt : MarketTakers T) (s : Side) : Option T := (mt.on s).toList.head?.map Subtype.val

def popFirst (mt : MarketTakers T) (s : Side) : Option T × MarketTakers T :=
  match (mt.on s).toList.head? with
  | none => (none, mt)
  | some fr => (some fr.val, mt.update s (·.erase fr))

instance : Membership T (MarketTakers T) where
  mem mt t := Elem (mt.on (side t)) ⟨t, rfl⟩

/-- Two orders that the book cannot hold at once. -/
def Clash (t u : T) : Prop := side t = side u ∧ compare t u = .eq

variable {mt mt' : MarketTakers T} {t u : T}

theorem mem_iff {s : Side} (h : side t = s) : t ∈ mt ↔ Elem (mt.on s) ⟨t, h⟩ := by
  subst h
  rfl

@[ext] theorem ext_mem (h : ∀ t, t ∈ mt ↔ t ∈ mt') : mt = mt' := by
  have hon : ∀ s, mt.on s = mt'.on s := by
    intro s
    apply ext_elem
    rintro ⟨t, rfl⟩
    exact h t
  cases mt
  cases mt'
  have hasks := hon .ask
  have hbids := hon .bid
  simp only [on] at hasks hbids
  subst hasks hbids
  rfl

@[simp] theorem not_mem_empty : t ∉ (empty : MarketTakers T) := by
  have h : ∀ s, (empty : MarketTakers T).on s = ∅ := by
    intro s
    cases s <;> rfl
  intro ht
  rw [mem_iff rfl, h] at ht
  exact not_elem_empty ht

theorem Clash.symm (h : Clash t u) : Clash u t := by
  obtain ⟨hside, hcmp⟩ := h
  refine ⟨hside.symm, ?_⟩
  exact @Std.OrientedCmp.eq_symm (Sided T (side u)) (fun a b => compare a.val b.val) _ ⟨t, hside⟩
    ⟨u, rfl⟩ hcmp

theorem Clash.rfl (t : T) : Clash t t := by
  refine ⟨Eq.refl _, ?_⟩
  exact @Std.ReflCmp.compare_self (Sided T (side t)) (fun a b => compare a.val b.val) _
    ⟨t, Eq.refl _⟩

/-- The book holds only one of two orders that clash. -/
theorem eq_of_clash (ht : t ∈ mt) (hu : u ∈ mt) (h : Clash t u) : t = u := by
  rw [mem_iff h.1] at ht
  rw [mem_iff rfl] at hu
  exact congrArg Subtype.val (ht.unique hu h.2)

theorem mem_insert : u ∈ mt.insert t ↔ u ∈ mt ∨ (u = t ∧ ∀ v ∈ mt, ¬ Clash t v) := by
  by_cases hs : side u = side t
  · have hnew : (⟨t, rfl⟩ : Sided T (side t)) ∉ mt.on (side t) ↔ ∀ v ∈ mt, ¬ Clash t v := by
      rw [mem_iff_elem]
      constructor
      · rintro h v hv ⟨hside, hcmp⟩
        exact h ⟨⟨v, hside.symm⟩, (mem_iff hside.symm).mp hv, hcmp⟩
      · rintro h ⟨⟨v, hside⟩, hv, hcmp⟩
        exact h v ((mem_iff hside).mpr hv) ⟨hside.symm, hcmp⟩
    rw [mem_iff hs, insert, on_update_self, elem_insert, ← mem_iff hs, hnew, Subtype.mk.injEq]
  · have hne : u ≠ t := by
      rintro rfl
      exact hs (Eq.refl _)
    have hsame : u ∈ mt.insert t ↔ u ∈ mt := by
      rw [mem_iff rfl, mem_iff rfl, insert, on_update_of_ne hs]
    rw [hsame]
    simp only [hne, false_and, or_false]

theorem mem_remove : u ∈ mt.remove t ↔ u ∈ mt ∧ ¬ Clash t u := by
  by_cases hs : side u = side t
  · rw [mem_iff hs, remove, on_update_self, elem_erase, ← mem_iff hs, Clash, hs, eq_self, true_and]
  · have hsame : u ∈ mt.remove t ↔ u ∈ mt := by
      rw [mem_iff rfl, mem_iff rfl, remove, on_update_of_ne hs]
    rw [hsame, Clash]
    simp only [Ne.symm hs, false_and, not_false_eq_true, and_true]

theorem mem_of_first {s : Side} (h : mt.first s = some t) : t ∈ mt ∧ side t = s := by
  obtain ⟨⟨t, hs⟩, hhead, rfl⟩ := Option.map_eq_some_iff.mp h
  exact ⟨(mem_iff hs).mpr (elem_of_head? hhead), hs⟩

theorem exists_first (h : t ∈ mt) : ∃ u, mt.first (side t) = some u := by
  obtain ⟨fr, hfr⟩ := exists_head? ((mem_iff rfl).mp h)
  exact ⟨fr.val, by rw [first, hfr]; rfl⟩

theorem first_isLE {s : Side} (h : mt.first s = some t) (hu : u ∈ mt) (hside : side u = s) :
    (compare t u).isLE := by
  obtain ⟨fr, hhead, rfl⟩ := Option.map_eq_some_iff.mp h
  have hle := isLE_of_head? hhead ((mem_iff hside).mp hu)
  exact hle

theorem popFirst_eq (mt : MarketTakers T) (s : Side) :
    mt.popFirst s = (mt.first s, match mt.first s with
      | none => mt
      | some t => mt.remove t) := by
  unfold popFirst first
  cases (mt.on s).toList.head? with
  | none => rfl
  | some fr =>
    obtain ⟨t, rfl⟩ := fr
    rfl

/-- Orders put in one after the other. -/
def insertAll (mt : MarketTakers T) (ts : List T) : MarketTakers T := ts.foldl insert mt

def removeAll (mt : MarketTakers T) (ts : List T) : MarketTakers T := ts.foldl remove mt

end MarketTakers

/-- Liquidity fragments spread across time axis. -/
structure Chronology (T : Type) {U : Type} [MarketTaker T U] [Ord T] where
  timeNow : Nat
  active : MarketTakers T
  inactive : Std.ExtTreeMap Nat (MarketTakers T) compare

/-! ### Pools -/

structure MarketMakers (M : Type) [Stable M] where
  values : AList fun _ : StableId M => M
  qualityIndex : Std.ExtTreeMap Nat (StableId M) compare
  /-- Every pool is filed under its identifier. -/
  keyed : ∀ pid pool, values.lookup pid = some pool → stableId pool = pid

namespace MarketMakers

variable {M U : Type} [Stable M]

def empty : MarketMakers M := ⟨∅, ∅, fun pid pool h => by cases h⟩

/-- The pools, in the order in which the map stores them. -/
def pools (mm : MarketMakers M) : List M := mm.values.entries.map Sigma.snd

def updatePool [MarketMaker M U] (mm : MarketMakers M) (pool : M) : MarketMakers M where
  values := mm.values.insert (stableId pool) pool
  qualityIndex :=
    (match mm.values.lookup (stableId pool) with
      | some oldPool => mm.qualityIndex.erase (quality oldPool)
      | none => mm.qualityIndex).insert (quality pool) (stableId pool)
  keyed pid pool' h := by
    by_cases hid : pid = stableId pool
    · subst hid
      rw [AList.lookup_insert] at h
      rw [Option.some.inj h]
    · rw [AList.lookup_insert_ne hid] at h
      exact mm.keyed pid pool' h

/-- Takes a pool out; the index by quality stays as it is. -/
def take (mm : MarketMakers M) (pid : StableId M) : MarketMakers M where
  values := mm.values.erase pid
  qualityIndex := mm.qualityIndex
  keyed pid' pool h := by
    by_cases hid : pid' = pid
    · subst hid
      rw [AList.lookup_erase] at h
      cases h
    · rw [AList.lookup_erase_ne hid] at h
      exact mm.keyed pid' pool h

theorem exists_lookup_of_mem {mm : MarketMakers M} {pool : M} (h : pool ∈ mm.pools) :
    mm.values.lookup (stableId pool) = some pool := by
  obtain ⟨⟨pid, pool⟩, hmem, rfl⟩ := List.mem_map.mp h
  have hlookup := AList.mem_lookup_iff.mpr hmem
  rw [← mm.keyed pid pool hlookup] at hlookup
  exact hlookup

theorem mem_pools {mm : MarketMakers M} {pid : StableId M} {pool : M}
    (h : mm.values.lookup pid = some pool) : pool ∈ mm.pools :=
  List.mem_map_of_mem (AList.mem_lookup_iff.mp h)

end MarketMakers

/-! ### States -/

section States

variable (T M : Type) {U : Type} [MarketTaker T U] [Ord T] [Stable M]

/-- State with no uncommitted changes. -/
structure IdleState where
  takers : Chronology T
  makers : MarketMakers M

/-- Changed state that reflects only consumption of orders and full preview of pools. -/
structure PartialPreviewState where
  takersPreview : Chronology T
  consumedActiveTakers : List T
  stashedActiveTakers : List T
  makersIntact : MarketMakers M
  makersPreview : MarketMakers M

/-- State with areas of uncommitted changes. -/
structure PreviewState where
  /-- Orders before changes. -/
  takersIntact : Chronology T
  /-- Active orders with changes pre-applied. -/
  activeTakersPreview : MarketTakers T
  stashedActiveTakers : List T
  /-- New inactive orders, with the time at which each becomes active. -/
  inactiveTakersChangeset : List (Nat × T)
  makersIntact : MarketMakers M
  makersPreview : MarketMakers M

inductive TLBState where
  | idle (st : IdleState T M)
  | partialPreview (st : PartialPreviewState T M)
  | preview (st : PreviewState T M)

end States

variable {T M U : Type} [MarketTaker T U] [Ord T] [SideOrd T] [Stable M]

namespace PartialPreviewState

def commit (st : PartialPreviewState T M) : IdleState T M where
  takers := st.takersPreview
  makers := st.makersPreview

/-- The orders before the attempt: the consumed ones go back, the latest first. -/
def takersIntact (st : PartialPreviewState T M) : Chronology T :=
  { st.takersPreview with
    active := st.takersPreview.active.insertAll st.consumedActiveTakers.reverse }

end PartialPreviewState

/-- What both previews do on rollback, from the orders and pools before the attempt. -/
def rollbackTo (takersIntact : Chronology T) (stashed : List T) (makersIntact : MarketMakers M) :
    StashingOption T → TLBState T M
  | .stash toStash =>
    let takers := { takersIntact with active := takersIntact.active.removeAll toStash }
    let stashed := stashed ++ toStash
    if stashed.isEmpty then .idle ⟨takers, makersIntact⟩
    else .partialPreview ⟨takers, [], stashed, makersIntact, makersIntact⟩
  | .unstash =>
    .idle ⟨{ takersIntact with active := takersIntact.active.insertAll stashed }, makersIntact⟩

def PartialPreviewState.rollback (st : PartialPreviewState T M) :
    StashingOption T → TLBState T M :=
  rollbackTo st.takersIntact st.stashedActiveTakers st.makersIntact

namespace PreviewState

/-- Files an order under the time at which it becomes active. -/
def addInactive (inactive : Std.ExtTreeMap Nat (MarketTakers T) compare) (entry : Nat × T) :
    Std.ExtTreeMap Nat (MarketTakers T) compare :=
  inactive.insert entry.1 ((inactive[entry.1]?.getD MarketTakers.empty).insert entry.2)

def commit (st : PreviewState T M) : IdleState T M where
  takers :=
    { timeNow := st.takersIntact.timeNow
      active := st.activeTakersPreview.insertAll st.stashedActiveTakers
      inactive := st.inactiveTakersChangeset.reverse.foldl addInactive st.takersIntact.inactive }
  makers := st.makersPreview

def rollback (st : PreviewState T M) : StashingOption T → TLBState T M :=
  rollbackTo st.takersIntact st.stashedActiveTakers st.makersIntact

end PreviewState

/-! ### Operations -/

namespace TLBState

def activeFragments : TLBState T M → MarketTakers T
  | idle st => st.takers.active
  | partialPreview st => st.takersPreview.active
  | preview st => st.activeTakersPreview

def pools : TLBState T M → MarketMakers M
  | idle st => st.makers
  | partialPreview st => st.makersPreview
  | preview st => st.makersPreview

def currentTime : TLBState T M → Nat
  | idle st => st.takers.timeNow
  | partialPreview st => st.takersPreview.timeNow
  | preview st => st.takersIntact.timeNow

def stashed : TLBState T M → List T
  | idle _ => []
  | partialPreview st => st.stashedActiveTakers
  | preview st => st.stashedActiveTakers

def commit : TLBState T M → TLBState T M
  | idle st => idle st
  | partialPreview st => idle st.commit
  | preview st => idle st.commit

def rollback (self : TLBState T M) (stashingOpt : StashingOption T) : TLBState T M :=
  match self with
  | idle st => idle st
  | partialPreview st => st.rollback stashingOpt
  | preview st => st.rollback stashingOpt

def moveIntoPartialPreview (st : IdleState T M) : PartialPreviewState T M where
  takersPreview := st.takers
  consumedActiveTakers := []
  stashedActiveTakers := []
  makersIntact := st.makers
  makersPreview := st.makers

/-- A preview that is there already is kept. -/
def moveIntoPreview : TLBState T M → PreviewState T M
  | idle st =>
    { takersIntact := st.takers
      activeTakersPreview := st.takers.active
      stashedActiveTakers := []
      inactiveTakersChangeset := []
      makersIntact := st.makers
      makersPreview := st.makers }
  | partialPreview st =>
    { takersIntact := st.takersIntact
      activeTakersPreview := st.takersPreview.active
      stashedActiveTakers := st.stashedActiveTakers
      inactiveTakersChangeset := []
      makersIntact := st.makersIntact
      makersPreview := st.makersPreview }
  | preview st => st

/-- Add preview order. -/
def preAddTaker (self : TLBState T M) (taker : T) : TLBState T M :=
  let st := self.moveIntoPreview
  match (timeBounds taker).lowerBound with
  | some lowerBound =>
    if self.currentTime < lowerBound then
      preview { st with
        inactiveTakersChangeset := st.inactiveTakersChangeset ++ [(lowerBound, taker)] }
    else preview { st with activeTakersPreview := st.activeTakersPreview.insert taker }
  | none => preview { st with activeTakersPreview := st.activeTakersPreview.insert taker }

/-- Add preview pool. -/
def preAddMaker [MarketMaker M U] (self : TLBState T M) (pool : M) : TLBState T M :=
  let st := self.moveIntoPreview
  preview { st with makersPreview := st.makersPreview.updatePool pool }

/-- Pick active order ensuring the book is in proper state. -/
def pickActiveTaker (f : MarketTakers T → Option T × MarketTakers T) :
    TLBState T M → Option T × TLBState T M
  | idle st =>
    match f st.takers.active with
    | (some choice, active) =>
      (some choice, partialPreview { moveIntoPartialPreview
        { st with takers := { st.takers with active := active } } with
          consumedActiveTakers := [choice] })
    | (none, active) => (none, idle { st with takers := { st.takers with active := active } })
  | partialPreview st =>
    match f st.takersPreview.active with
    | (some choice, active) =>
      (some choice, partialPreview { st with
        takersPreview := { st.takersPreview with active := active }
        consumedActiveTakers := st.consumedActiveTakers ++ [choice] })
    | (none, active) =>
      (none, partialPreview { st with
        takersPreview := { st.takersPreview with active := active } })
  | preview st =>
    match f st.activeTakersPreview with
    | (res, active) => (res, preview { st with activeTakersPreview := active })

/-- Pick pool ensuring the book is in proper state. -/
def pickMakerById (pid : StableId M) : TLBState T M → Option M × TLBState T M
  | idle st =>
    (st.makers.values.lookup pid, partialPreview { moveIntoPartialPreview st with
      makersPreview := st.makers.take pid })
  | partialPreview st =>
    (st.makersPreview.values.lookup pid, partialPreview { st with
      makersPreview := st.makersPreview.take pid })
  | preview st =>
    (st.makersPreview.values.lookup pid, preview { st with
      makersPreview := st.makersPreview.take pid })

end TLBState

end UtxoMonitor.LiquidityBook
