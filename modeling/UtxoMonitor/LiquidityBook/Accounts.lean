import UtxoMonitor.LiquidityBook.Turns

/-! Where every order of the book is while a pass goes on: still active, added for later, in hand, or
used up. -/
namespace UtxoMonitor.LiquidityBook

open MarketTakers

variable {T M U : Type} [Stable T] [MarketTaker T U] [TakerBehaviour T] [Ord T] [SideOrd T]
  [Stable M]

/-- No two orders of a kind share an identifier. -/
def Distinct (P : T → Prop) : Prop := ∀ t u, P t → P u → stableId t = stableId u → t = u

omit [SideOrd T] in
theorem Distinct.clear [LawfulTaker T] {P : T → Prop} (h : Distinct P) : Clear P :=
  fun t u ht hu hc => h t u ht hu (LawfulTaker.stableId_of_eq hc.1 hc.2)

omit [TakerBehaviour T] in
/-- `u` is what has become of the order of its identifier: as in `base`, or as its take left it. -/
def Standing (base : MarketTakers T) (batch : MatchmakingAttempt T M U) (u : T) : Prop :=
  match batch.takes.lookup (stableId u) with
  | none => u ∈ base
  | some take => take.result = .succ u

/-- The order is among those added for later. -/
def TLBState.AddsLater (book : TLBState T M) (u : T) : Prop := u ∈ book.changeset.map Prod.snd

/-- Every take starts from an order of `base`, and its remainder keeps the identifier. -/
structure Rooted (base : MarketTakers T) (batch : MatchmakingAttempt T M U) : Prop where
  target : ∀ {sid take}, batch.takes.lookup sid = some take →
    take.target ∈ base ∧ stableId take.target = sid
  result : ∀ {sid take next}, batch.takes.lookup sid = some take → take.result = .succ next →
    stableId next = sid

/-- Every order is in one place; those in `held` are in hand. -/
structure Accounts (base : MarketTakers T) (batch : MatchmakingAttempt T M U) (book : TLBState T M)
    (held : Set T) : Prop extends Rooted base batch where
  standing : ∀ u, Standing base batch u ↔
    u ∈ book.activeFragments ∨ book.AddsLater u ∨ u ∈ held
  active : ∀ u ∈ book.activeFragments, ¬ book.AddsLater u ∧ u ∉ held
  later : ∀ u ∈ held, ¬ book.AddsLater u

section Standing

variable {base : MarketTakers T} {batch : MatchmakingAttempt T M U} {t u : T}

omit [TakerBehaviour T] in
theorem Rooted.exists_root (h : Rooted base batch) (hu : Standing base batch u) :
    ∃ t ∈ base, stableId t = stableId u := by
  unfold Standing at hu
  split at hu
  · exact ⟨u, hu, rfl⟩
  · rename_i take hlookup
    exact ⟨take.target, h.target hlookup⟩

omit [TakerBehaviour T] in
theorem standing_distinct (hbase : Distinct (· ∈ base)) : Distinct (Standing base batch) := by
  intro t u ht hu hid
  unfold Standing at ht hu
  rw [hid] at ht
  split at hu
  · rename_i hlookup
    rw [hlookup] at ht
    exact hbase t u ht hu hid
  · rename_i take hlookup
    rw [hlookup] at ht
    simpa using ht.symm.trans hu

end Standing

/-! ### Takes -/

section AddTake

variable [Add U] {base : MarketTakers T} {batch : MatchmakingAttempt T M U}
  {take : TakeInProgress T} {sid : StableId T} {u : T}

omit [TakerBehaviour T] in
/-- A take decides what stands for its identifier. -/
theorem standing_addTake : Standing base (batch.addTake take) u ↔
    if stableId u = stableId take.target then take.result = .succ u
    else Standing base batch u := by
  rw [Standing, MatchmakingAttempt.lookup_addTake]
  by_cases hid : stableId u = stableId take.target
  · rw [if_pos hid, if_pos hid]
  · rw [if_neg hid, if_neg hid]
    exact Iff.rfl

omit [TakerBehaviour T] in
theorem Rooted.addTake (h : Rooted base batch) (htarget : Standing base batch take.target)
    (hnext : KeepsId take) :
    Rooted base (batch.addTake take) where
  target {sid take'} hlookup := by
    rcases MatchmakingAttempt.target_of_lookup_addTake hlookup with
      ⟨existing, hold, hsame⟩ | ⟨hold, rfl, hsame⟩
    · rw [hsame]
      exact h.target hold
    · rw [hsame]
      rw [Standing, hold] at htarget
      exact ⟨htarget, rfl⟩
  result {sid take' next} hlookup hres := by
    rw [MatchmakingAttempt.lookup_addTake] at hlookup
    split at hlookup
    · rename_i hid
      obtain rfl := Option.some.inj hlookup
      exact (hnext next hres).trans hid.symm
    · exact h.result hlookup hres

end AddTake

/-! ### Orders that move -/

omit [Stable T] [TakerBehaviour T] in
/-- An order that clashes with no active one is added, at once or for later. -/
theorem preAddTaker_mem {book : TLBState T M} {next : T}
    (hclash : ∀ v ∈ book.activeFragments, ¬ Clash next v) (hlater : ¬ book.AddsLater next)
    (hapart : ∀ u ∈ book.activeFragments, ¬ book.AddsLater u) :
    (∀ u, (u ∈ (book.preAddTaker next).activeFragments ∨ (book.preAddTaker next).AddsLater u) ↔
      (u ∈ book.activeFragments ∨ book.AddsLater u) ∨ u = next) ∧
    ∀ u ∈ (book.preAddTaker next).activeFragments, ¬ (book.preAddTaker next).AddsLater u := by
  have hnew : next ∉ book.activeFragments := fun hnext => hclash next hnext (Clash.rfl next)
  rcases book.preAddTaker_cases next with ⟨hactive, hchangeset⟩ | ⟨hactive, time, hchangeset⟩
  · have hmem : ∀ u, u ∈ (book.preAddTaker next).activeFragments ↔
        u ∈ book.activeFragments ∨ u = next := by
      intro u
      rw [hactive, mem_insert]
      exact or_congr_right ⟨And.left, fun hu => ⟨hu, hclash⟩⟩
    have hsame : ∀ u, (book.preAddTaker next).AddsLater u ↔ book.AddsLater u := by
      simp [TLBState.AddsLater, hchangeset]
    constructor
    · intro u
      rw [hmem, hsame, or_right_comm]
    · intro u hu
      rw [hsame]
      rcases (hmem u).mp hu with hu | rfl
      · exact hapart u hu
      · exact hlater
  · have hsame : ∀ u, (book.preAddTaker next).AddsLater u ↔ book.AddsLater u ∨ u = next := by
      simp [TLBState.AddsLater, hchangeset]
    constructor
    · intro u
      rw [hactive, hsame, or_assoc]
    · intro u hu
      rw [hactive] at hu
      rw [hsame, not_or]
      refine ⟨hapart u hu, ?_⟩
      rintro rfl
      exact hnew hu

namespace Accounts

variable {base : MarketTakers T} {batch batch' : MatchmakingAttempt T M U}
  {book book' : TLBState T M} {held : Set T} {t u : T}

omit [TakerBehaviour T] in
/-- A picked order is in hand. -/
theorem pick (h : Accounts base batch book held) (hpick : Picked book t book') :
    Accounts base batch book' (insert t held) := by
  obtain ⟨ht, hactive, hchangeset, -⟩ := hpick.spec
  have hmem : ∀ u, u ∈ book'.activeFragments ↔ u ∈ book.activeFragments ∧ u ≠ t := by
    intro u
    rw [hactive, (clear_mem book.activeFragments).mem_remove (fun _ hv => hv) ht]
  have hsame : ∀ u, book'.AddsLater u ↔ book.AddsLater u := by
    simp [TLBState.AddsLater, hchangeset]
  refine { toRooted := h.toRooted, standing := ?_, active := ?_, later := ?_ }
  · intro u
    rw [h.standing, hmem, hsame, Set.mem_insert_iff]
    by_cases hu : u = t
    · simp [hu, ht]
    · simp [hu]
  · intro u hu
    obtain ⟨hu, hne⟩ := (hmem u).mp hu
    rw [hsame, Set.mem_insert_iff, not_or]
    exact ⟨(h.active u hu).1, hne, (h.active u hu).2⟩
  · intro u hu
    rw [hsame]
    rcases hu with rfl | hu
    · exact (h.active u ht).1
    · exact h.later u hu

variable [LawfulTaker T]

/-- An order in hand is given up for the one that now stands for its identifier, if any. -/
theorem settle (h : Accounts base batch book held) (hbase : Distinct (· ∈ base)) (ht : t ∈ held)
    (hroot : Rooted base batch') {n : Option T}
    (hnext : ∀ u, n = some u → stableId u = stableId t)
    (hstanding : ∀ u, Standing base batch' u ↔ if stableId u = stableId t then n = some u
      else Standing base batch u) :
    Accounts base batch' (n.elim book book.preAddTaker) (held \ {t}) := by
  have hdistinct : Distinct (Standing base batch) := standing_distinct hbase
  have hheld : ∀ u ∈ held, Standing base batch u := fun u hu =>
    (h.standing u).mpr (.inr (.inr hu))
  have heq : ∀ u, Standing base batch u → (stableId u = stableId t ↔ u = t) := fun u hu =>
    ⟨hdistinct u t hu (hheld t ht), fun he => he ▸ rfl⟩
  have hactive : t ∉ book.activeFragments := fun hmem => (h.active t hmem).2 ht
  have hstands : ∀ u, Standing base batch' u ↔
      ((u ∈ book.activeFragments ∨ book.AddsLater u) ∨ u ∈ held \ {t}) ∨ n = some u := by
    intro u
    rw [hstanding, or_assoc, or_assoc, Set.mem_sdiff, Set.mem_singleton_iff]
    split
    · rename_i hid
      constructor
      · exact fun hu => .inr (.inr (.inr hu))
      · rintro (hu | hu | ⟨hu, hne⟩ | hu)
        · obtain rfl := (heq u ((h.standing u).mpr (.inl hu))).mp hid
          exact absurd hu hactive
        · obtain rfl := (heq u ((h.standing u).mpr (.inr (.inl hu)))).mp hid
          exact absurd hu (h.later u ht)
        · exact absurd ((heq u (hheld u hu)).mp hid) hne
        · exact hu
    · rename_i hid
      rw [h.standing]
      constructor
      · rintro (hu | hu | hu)
        · exact .inl hu
        · exact .inr (.inl hu)
        · refine .inr (.inr (.inl ⟨hu, ?_⟩))
          rintro rfl
          exact hid rfl
      · rintro (hu | hu | ⟨hu, -⟩ | hu)
        · exact .inl hu
        · exact .inr (.inl hu)
        · exact .inr (.inr hu)
        · exact absurd (hnext u hu) hid
  cases n with
  | none =>
    refine { toRooted := hroot, standing := ?_, active := ?_, later := ?_ }
    · intro u
      rw [hstands]
      simp [or_assoc]
    · exact fun u hu => ⟨(h.active u hu).1, fun hheld' => (h.active u hu).2 hheld'.1⟩
    · exact fun u hu => h.later u hu.1
  | some next =>
    have hid : stableId next = stableId t := hnext next rfl
    have hfresh : ∀ v, Standing base batch v → stableId v = stableId next → v = t := fun v hv he =>
      (heq v hv).mp (he.trans hid)
    have hclash : ∀ v ∈ book.activeFragments, ¬ Clash next v := by
      intro v hv hc
      obtain rfl := hfresh v ((h.standing v).mpr (.inl hv))
        (LawfulTaker.stableId_of_eq hc.1 hc.2).symm
      exact hactive hv
    have hlater : ¬ book.AddsLater next := by
      intro hl
      obtain rfl := hfresh next ((h.standing next).mpr (.inr (.inl hl))) rfl
      exact h.later next ht hl
    obtain ⟨hadded, hapart⟩ := preAddTaker_mem hclash hlater fun u hu => (h.active u hu).1
    have hnew : next ∉ held \ {t} := fun hu => hu.2 (hfresh next (hheld next hu.1) rfl)
    refine { toRooted := hroot, standing := ?_, active := ?_, later := ?_ }
    · intro u
      rw [hstands, ← or_assoc, Option.elim, hadded, Option.some.injEq, or_right_comm,
        eq_comm (a := next)]
    · intro u hu
      refine ⟨hapart u hu, ?_⟩
      rcases (hadded u).mp (.inl hu) with (hu | hu) | rfl
      · exact fun hheld' => (h.active u hu).2 hheld'.1
      · exact fun hheld' => h.later u hheld'.1 hu
      · exact hnew
    · intro u hu hl
      rcases (hadded u).mp (.inr hl) with (hu' | hl') | rfl
      · exact (h.active u hu').2 hu.1
      · exact h.later u hu.1 hl'
      · exact hnew hu

/-- The order in hand goes back. -/
theorem restore (h : Accounts base batch book held) (hbase : Distinct (· ∈ base)) (ht : t ∈ held) :
    Accounts base batch (book.preAddTaker t) (held \ {t}) := by
  have hstands : Standing base batch t := (h.standing t).mpr (.inr (.inr ht))
  refine h.settle (n := some t) hbase ht h.toRooted (fun u hu => ?_) fun u => ?_
  · rw [Option.some.inj hu]
  · split
    · rename_i hid
      rw [Option.some.injEq]
      constructor
      · exact fun hu => standing_distinct hbase t u hstands hu hid.symm
      · rintro rfl
        exact hstands
    · exact Iff.rfl

/-- The order in hand is traded. -/
theorem serve [Add U] (h : Accounts base batch book held) (hbase : Distinct (· ∈ base))
    {take : TakeInProgress T} (ht : take.target ∈ held)
    (hnext : KeepsId take) :
    Accounts base (batch.addTake take) (book.onTake take.result) (held \ {take.target}) := by
  have hroot := h.toRooted.addTake ((h.standing _).mpr (.inr (.inr ht))) hnext
  have hstands : ∀ u, Standing base (batch.addTake take) u ↔
      if stableId u = stableId take.target then take.result.succ? = some u
      else Standing base batch u := by
    intro u
    rw [standing_addTake]
    cases take.result <;> simp [Next.succ?]
  have hsettled := h.settle (n := take.result.succ?) hbase ht hroot (fun u hu => ?_) hstands
  · cases hres : take.result with
    | succ next => rwa [hres] at hsettled
    | term last => rwa [hres] at hsettled
  · cases hres : take.result with
    | succ next =>
      rw [hres] at hu
      obtain rfl := Option.some.inj hu
      exact hnext next hres
    | term last =>
      rw [hres] at hu
      cases hu

end Accounts

end UtxoMonitor.LiquidityBook
