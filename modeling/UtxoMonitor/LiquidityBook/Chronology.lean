import UtxoMonitor.Lib.Runs
import UtxoMonitor.LiquidityBook.Rollback
import UtxoMonitor.LiquidityBook.Simple

/-! Orders across the time axis, while orders come and go and the clock advances. -/
namespace UtxoMonitor.LiquidityBook

open MarketTakers

namespace TimeBounds

/-- The bounds as they are documented. -/
def InBounds : TimeBounds → Nat → Prop
  | .until t, x => x ≤ t
  | .after t, x => t ≤ x
  | .within t₀ t₁, x => t₀ ≤ x ∧ x ≤ t₁
  | .none, _ => True

instance : (b : TimeBounds) → (x : Nat) → Decidable (b.InBounds x)
  | .until t, x => inferInstanceAs (Decidable (x ≤ t))
  | .after t, x => inferInstanceAs (Decidable (t ≤ x))
  | .within t₀ t₁, x => inferInstanceAs (Decidable (t₀ ≤ x ∧ x ≤ t₁))
  | .none, _ => inferInstanceAs (Decidable True)

/-- The time from which on an order may be active. -/
def opens (b : TimeBounds) : Nat := b.lowerBound.getD 0

/-- Whether the order is not past its upper bound. -/
def Unexpired : TimeBounds → Nat → Prop
  | .until t, x => x ≤ t
  | .within _ t₁, x => x ≤ t₁
  | .after _, _ => True
  | .none, _ => True

variable {b : TimeBounds} {x y : Nat}

theorem inBounds_iff : b.InBounds x ↔ b.opens ≤ x ∧ b.Unexpired x := by
  cases b <;> simp [InBounds, opens, lowerBound, Unexpired]

theorem Unexpired.mono (h : b.Unexpired y) (hle : x ≤ y) : b.Unexpired x := by
  cases b with
  | «until» t => exact Nat.le_trans hle h
  | within t₀ t₁ => exact Nat.le_trans hle h
  | after t => trivial
  | none => trivial

end TimeBounds

/-- An order that is told the time. -/
class TimedTaker (T : Type) where
  withUpdatedTime : T → Nat → Next T Unit

export TimedTaker (withUpdatedTime)

/-- Orders are kept while they are in bounds, and are never changed. -/
class KeepsInBounds (T : Type) {U : Type} [MarketTaker T U] [TimedTaker T] : Prop where
  succ_of_inBounds : ∀ {t : T} {time : Nat}, (timeBounds t).InBounds time →
    withUpdatedTime t time = .succ t
  eq_of_succ : ∀ {t next : T} {time : Nat}, withUpdatedTime t time = .succ next → next = t

namespace Chronology

variable {T U : Type} [MarketTaker T U] [Ord T]

def new (timeNow : Nat) : Chronology T := ⟨timeNow, ⟨∅, ∅⟩, ∅⟩

/-- The orders that become active at a time. -/
def slot (self : Chronology T) (time : Nat) : MarketTakers T :=
  self.inactive[time]?.getD ⟨∅, ∅⟩

variable [SideOrd T]

/-- Turns to the orders of the time's own slot, and keeps of the active ones those that say so. -/
def advanceClocks [TimedTaker T] (self : Chronology T) (newTime : Nat) : Chronology T :=
  let next := (self.active.asks.toList.map Subtype.val ++ self.active.bids.toList.map Subtype.val)
  { timeNow := newTime
    active := (self.slot newTime).insertAll
      (next.filterMap fun fr => (withUpdatedTime fr newTime).succ?)
    inactive := self.inactive.erase newTime }

def removeFragment (self : Chronology T) (fr : T) : Chronology T :=
  match (timeBounds fr).lowerBound with
  | some lowerBound =>
    if self.timeNow < lowerBound then
      match self.inactive[lowerBound]? with
      | some mt => { self with inactive := self.inactive.insert lowerBound (mt.remove fr) }
      | none => self
    else { self with active := self.active.remove fr }
  | none => { self with active := self.active.remove fr }

def addFragment (self : Chronology T) (fr : T) : Chronology T :=
  match (timeBounds fr).lowerBound with
  | some lowerBound =>
    if self.timeNow < lowerBound then
      { self with inactive := PreviewState.addInactive self.inactive (lowerBound, fr) }
    else { self with active := self.active.insert fr }
  | none => { self with active := self.active.insert fr }

end Chronology

inductive ChronologyCall (T : Type) where
  | addFragment (fr : T)
  | removeFragment (fr : T)
  | advanceClocks (newTime : Nat)

section Runs

variable {T U : Type} [MarketTaker T U] [Ord T] [SideOrd T]

namespace Chronology

def apply [TimedTaker T] (self : Chronology T) : ChronologyCall T → Chronology T
  | .addFragment fr => self.addFragment fr
  | .removeFragment fr => self.removeFragment fr
  | .advanceClocks newTime => self.advanceClocks newTime

def run [TimedTaker T] (timeNow : Nat) (calls : List (ChronologyCall T)) : Chronology T :=
  calls.foldl apply (new timeNow)

/-! ### Single calls -/

variable {self : Chronology T} {fr t : T} {k : Nat}

omit [SideOrd T] in
theorem slot_insert (inactive : Std.ExtTreeMap Nat (MarketTakers T) compare) (timeNow time : Nat)
    (active mt : MarketTakers T) : (Chronology.mk timeNow active (inactive.insert time mt)).slot k =
      if k = time then mt else (Chronology.mk timeNow active inactive).slot k := by
  simp only [slot, Std.ExtTreeMap.getElem?_insert]
  by_cases h : k = time
  · subst h
    simp
  · simp [h, Ne.symm h]

theorem addFragment_eq (self : Chronology T) (fr : T) : self.addFragment fr =
    if self.timeNow < (timeBounds fr).opens then
      { self with inactive := PreviewState.addInactive self.inactive ((timeBounds fr).opens, fr) }
    else { self with active := self.active.insert fr } := by
  cases hlower : (timeBounds fr).lowerBound with
  | none => simp [addFragment, TimeBounds.opens, hlower]
  | some lowerBound => simp [addFragment, TimeBounds.opens, hlower]

theorem mem_slot_removeFragment : t ∈ (self.removeFragment fr).slot k ↔
    t ∈ self.slot k ∧
      ¬ (self.timeNow < (timeBounds fr).opens ∧ k = (timeBounds fr).opens ∧ Clash fr t) := by
  simp only [removeFragment, TimeBounds.opens]
  cases (timeBounds fr).lowerBound with
  | none => simp [slot]
  | some lowerBound =>
    by_cases hlt : self.timeNow < lowerBound
    · cases hget : self.inactive[lowerBound]? with
      | none =>
        simp only [hlt, if_true, hget, Option.getD_some, true_and, iff_self_and]
        rintro ht ⟨rfl, _⟩
        rw [slot, hget] at ht
        exact not_mem_empty ht
      | some mt =>
        simp only [hlt, if_true, hget, Option.getD_some, true_and, slot_insert]
        split
        · rename_i hk
          subst hk
          simp [slot, hget, mem_remove]
        · rename_i hk
          simp [hk]
    · simp [hlt, slot]

theorem mem_active_removeFragment : t ∈ (self.removeFragment fr).active ↔
    t ∈ self.active ∧ ¬ ((timeBounds fr).opens ≤ self.timeNow ∧ Clash fr t) := by
  simp only [removeFragment, TimeBounds.opens]
  cases (timeBounds fr).lowerBound with
  | none => simp [mem_remove]
  | some lowerBound =>
    by_cases hlt : self.timeNow < lowerBound
    · have hnot : ¬ lowerBound ≤ self.timeNow := Nat.not_le.mpr hlt
      cases hget : self.inactive[lowerBound]? <;> simp [hlt, hnot, hget]
    · simp [hlt, Nat.not_lt.mp hlt, mem_remove]

@[simp] theorem timeNow_addFragment : (self.addFragment fr).timeNow = self.timeNow := by
  rw [addFragment_eq]
  split <;> rfl

@[simp] theorem timeNow_removeFragment : (self.removeFragment fr).timeNow = self.timeNow := by
  unfold removeFragment
  split
  · split
    · split <;> rfl
    · rfl
  · rfl

/-- The order is somewhere on the time axis. -/
def Has (self : Chronology T) (t : T) : Prop := t ∈ self.active ∨ ∃ k, t ∈ self.slot k

theorem has_slot (h : t ∈ self.slot k) : self.Has t := Or.inr ⟨k, h⟩

/-- The only order on the axis that clashes with `fr` is `fr` itself. -/
def Fits (self : Chronology T) (fr : T) : Prop := ∀ u, self.Has u → Clash fr u → u = fr

/-- No two orders on the axis clash. -/
theorem Fits.clear (h : self.Fits fr) (hclear : Clear self.Has) :
    Clear fun t => self.Has t ∨ t = fr := by
  rintro t u (ht | rfl) (hu | rfl) hclash
  · exact hclear t u ht hu hclash
  · exact h t ht hclash.symm
  · exact (h u hu hclash).symm
  · rfl

theorem mem_active_addFragment (h : self.Fits fr) (hclear : Clear self.Has) :
    t ∈ (self.addFragment fr).active ↔
      t ∈ self.active ∨ ((timeBounds fr).opens ≤ self.timeNow ∧ t = fr) := by
  rw [addFragment_eq]
  split
  · rename_i hlt
    simp [Nat.not_le.mpr hlt]
  · rename_i hle
    have hactive : ∀ v ∈ self.active, self.Has v ∨ v = fr := fun v hv => Or.inl (Or.inl hv)
    have hinsert := (h.clear hclear).mem_insert (u := t) hactive (Or.inr rfl)
    simpa [Nat.not_lt.mp hle] using hinsert

theorem mem_slot_addFragment (h : self.Fits fr) (hclear : Clear self.Has) :
    t ∈ (self.addFragment fr).slot k ↔
      t ∈ self.slot k ∨ (self.timeNow < (timeBounds fr).opens ∧ k = (timeBounds fr).opens ∧ t = fr)
    := by
  rw [addFragment_eq]
  split
  · rename_i hlt
    rw [PreviewState.addInactive, slot_insert]
    split
    · rename_i hk
      subst hk
      have hslot : ∀ v ∈ self.slot (timeBounds fr).opens, self.Has v ∨ v = fr :=
        fun v hv => Or.inl (has_slot hv)
      have hinsert := (h.clear hclear).mem_insert (u := t) hslot (Or.inr rfl)
      refine hinsert.trans ?_
      simp [hlt]
    · rename_i hk
      simp [hk]
  · rename_i hle
    simp [hle, slot]

theorem slot_advanceClocks [TimedTaker T] (self : Chronology T) (newTime : Nat) :
    (self.advanceClocks newTime).slot k = if k = newTime then ⟨∅, ∅⟩ else self.slot k := by
  simp only [slot, advanceClocks, Std.ExtTreeMap.getElem?_erase]
  by_cases h : k = newTime
  · subst h
    simp
  · simp [h, Ne.symm h]

theorem mem_toList (mt : MarketTakers T) :
    t ∈ mt.asks.toList.map Subtype.val ++ mt.bids.toList.map Subtype.val ↔ t ∈ mt := by
  simp only [List.mem_append, List.mem_map, Lib.mem_toList_iff_elem]
  constructor
  · rintro (⟨⟨u, hside⟩, hu, rfl⟩ | ⟨⟨u, hside⟩, hu, rfl⟩)
    · exact (mem_iff hside).mpr hu
    · exact (mem_iff hside).mpr hu
  · intro ht
    cases hside : side t with
    | ask => exact Or.inl ⟨⟨t, hside⟩, (mem_iff hside).mp ht, rfl⟩
    | bid => exact Or.inr ⟨⟨t, hside⟩, (mem_iff hside).mp ht, rfl⟩

theorem mem_active_advanceClocks [TimedTaker T] [KeepsInBounds T] (hclear : Clear self.Has)
    {newTime : Nat} :
    t ∈ (self.advanceClocks newTime).active ↔
      t ∈ self.slot newTime ∨ (t ∈ self.active ∧ withUpdatedTime t newTime = .succ t) := by
  have hnext : ∀ u, u ∈ (self.active.asks.toList.map Subtype.val ++
      self.active.bids.toList.map Subtype.val).filterMap
        (fun fr => (withUpdatedTime fr newTime).succ?) ↔
      u ∈ self.active ∧ withUpdatedTime u newTime = .succ u := by
    intro u
    rw [List.mem_filterMap]
    constructor
    · rintro ⟨v, hv, hsucc⟩
      rw [mem_toList] at hv
      cases hnext : withUpdatedTime v newTime with
      | succ next =>
        rw [hnext] at hsucc
        obtain rfl := Option.some.inj hsucc
        obtain rfl := KeepsInBounds.eq_of_succ U hnext
        exact ⟨hv, hnext⟩
      | term last =>
        rw [hnext] at hsucc
        cases hsucc
    · rintro ⟨hu, hsucc⟩
      refine ⟨u, (mem_toList _).mpr hu, ?_⟩
      rw [hsucc]
      rfl
  rw [advanceClocks, hclear.mem_insertAll (fun v hv => has_slot hv)
    fun v hv => Or.inl ((hnext v).mp hv).1, hnext]

/-! ### The law -/

/-- What callers are expected to do: times increase, and an order is not added or removed while a
different one stands in its place. -/
def Admits (self : Chronology T) : ChronologyCall T → Prop
  | .addFragment fr => self.Fits fr
  | .removeFragment fr => self.Fits fr
  | .advanceClocks newTime => self.timeNow < newTime

/-- No time at which orders become active is jumped over. -/
def SkipsNothing (self : Chronology T) (call : ChronologyCall T) : Prop :=
  ∀ newTime, call = .advanceClocks newTime → ∀ k < newTime, ∀ t, t ∉ self.slot k

/-- The order was added, and not removed since. -/
def Added (calls : List (ChronologyCall T)) (t : T) : Prop :=
  ∃ before after, calls = before ++ .addFragment t :: after ∧ .removeFragment t ∉ after

structure TimeWindowLaw (calls : List (ChronologyCall T)) (st : Chronology T) : Prop where
  active_iff : ∀ t, Added calls t → (timeBounds t).Unexpired st.timeNow →
    (t ∈ st.active ↔ (timeBounds t).opens ≤ st.timeNow)
  inactive_iff : ∀ t, Added calls t → ∀ k, t ∈ st.slot k ↔
    k = (timeBounds t).opens ∧ st.timeNow < k
  apart : ∀ t ∈ st.active, ∀ k, t ∉ st.slot k
  added : ∀ t, st.Has t → Added calls t

variable {calls : List (ChronologyCall T)} {call : ChronologyCall T} {timeNow : Nat}

omit [MarketTaker T U] [Ord T] [SideOrd T] in
theorem added_snoc : Added (calls ++ [call]) t ↔
    call = .addFragment t ∨ (Added calls t ∧ call ≠ .removeFragment t) := by
  constructor
  · rintro ⟨before, after, heq, hafter⟩
    obtain rfl | ⟨after, last, rfl⟩ := List.eq_nil_or_concat after
    · have hlast := (List.append_inj' heq rfl).2
      simp only [List.cons.injEq, and_true] at hlast
      exact Or.inl hlast
    · rw [List.concat_eq_append] at heq hafter
      rw [← List.cons_append, ← List.append_assoc] at heq
      obtain ⟨rfl, hlast⟩ := List.append_inj' heq rfl
      simp only [List.cons.injEq, and_true] at hlast
      subst hlast
      refine Or.inr ⟨⟨before, after, rfl, fun h => hafter (List.mem_append_left _ h)⟩, ?_⟩
      rintro rfl
      exact hafter (by simp)
  · rintro (rfl | ⟨⟨before, after, rfl, hafter⟩, hne⟩)
    · exact ⟨calls, [], rfl, by simp⟩
    · refine ⟨before, after ++ [call], by simp, ?_⟩
      intro h
      rcases List.mem_append.mp h with h | h
      · exact hafter h
      · exact hne (List.mem_singleton.mp h).symm

/-- What an admitted call leaves on the axis was there before, or has just been added. -/
theorem has_apply [TimedTaker T] [KeepsInBounds T] (hclear : Clear self.Has)
    (hadm : self.Admits call) (h : (self.apply call).Has t) :
    self.Has t ∨ (call = .addFragment t ∧ self.Fits t) := by
  cases call with
  | addFragment fr =>
    rcases h with h | ⟨k, h⟩
    · rcases (mem_active_addFragment hadm hclear).mp h with h | ⟨_, rfl⟩
      · exact Or.inl (Or.inl h)
      · exact Or.inr ⟨rfl, hadm⟩
    · rcases (mem_slot_addFragment hadm hclear).mp h with h | ⟨_, _, rfl⟩
      · exact Or.inl (has_slot h)
      · exact Or.inr ⟨rfl, hadm⟩
  | removeFragment fr =>
    rcases h with h | ⟨k, h⟩
    · exact Or.inl (Or.inl (mem_active_removeFragment.mp h).1)
    · exact Or.inl (has_slot (mem_slot_removeFragment.mp h).1)
  | advanceClocks newTime =>
    rcases h with h | ⟨k, h⟩
    · rcases (mem_active_advanceClocks hclear).mp h with h | ⟨h, _⟩
      · exact Or.inl (has_slot h)
      · exact Or.inl (Or.inl h)
    · rw [apply, slot_advanceClocks] at h
      split at h
      · exact absurd h not_mem_empty
      · exact Or.inl (has_slot h)

theorem clear_apply [TimedTaker T] [KeepsInBounds T] (hclear : Clear self.Has)
    (hadm : self.Admits call) : Clear (self.apply call).Has := by
  intro t u ht hu hclash
  have ht' := has_apply hclear hadm ht
  have hu' := has_apply hclear hadm hu
  rcases ht' with ht' | ⟨htadd, hfits⟩
  · rcases hu' with hu' | ⟨_, hfits⟩
    · exact hclear t u ht' hu' hclash
    · exact hfits t ht' hclash.symm
  · rcases hu' with hu' | ⟨huadd, _⟩
    · exact (hfits u hu' hclash).symm
    · rw [htadd] at huadd
      exact ChronologyCall.addFragment.inj huadd

/-- An active order may be active by now. -/
theorem TimeWindowLaw.opens_le (h : TimeWindowLaw calls self) (ht : t ∈ self.active) :
    (timeBounds t).opens ≤ self.timeNow := by
  by_contra hlt
  have hslot := (h.inactive_iff t (h.added t (Or.inl ht)) _).mpr ⟨rfl, Nat.not_le.mp hlt⟩
  exact h.apart t ht _ hslot

theorem TimeWindowLaw.of_mem_slot (h : TimeWindowLaw calls self) (ht : t ∈ self.slot k) :
    k = (timeBounds t).opens ∧ self.timeNow < k :=
  (h.inactive_iff t (h.added t (has_slot ht)) k).mp ht

theorem TimeWindowLaw.addFragment (h : TimeWindowLaw calls self) (hclear : Clear self.Has)
    (hfits : self.Fits fr) :
    TimeWindowLaw (calls ++ [.addFragment fr]) (self.addFragment fr) where
  active_iff t hadded hup := by
    rw [timeNow_addFragment] at hup ⊢
    rw [mem_active_addFragment hfits hclear]
    constructor
    · rintro (ht | ⟨hopens, rfl⟩)
      · exact h.opens_le ht
      · exact hopens
    · intro hopens
      rcases added_snoc.mp hadded with heq | ⟨hadded, _⟩
      · obtain rfl := ChronologyCall.addFragment.inj heq
        exact Or.inr ⟨hopens, rfl⟩
      · exact Or.inl ((h.active_iff t hadded hup).mpr hopens)
  inactive_iff t hadded k := by
    rw [timeNow_addFragment, mem_slot_addFragment hfits hclear]
    constructor
    · rintro (ht | ⟨hlt, rfl, rfl⟩)
      · exact h.of_mem_slot ht
      · exact ⟨rfl, hlt⟩
    · rintro ⟨rfl, hlt⟩
      rcases added_snoc.mp hadded with heq | ⟨hadded, _⟩
      · obtain rfl := ChronologyCall.addFragment.inj heq
        exact Or.inr ⟨hlt, rfl, rfl⟩
      · exact Or.inl ((h.inactive_iff t hadded _).mpr ⟨rfl, hlt⟩)
  apart t hactive k hslot := by
    rw [mem_slot_addFragment hfits hclear] at hslot
    rcases (mem_active_addFragment hfits hclear).mp hactive with ht | ⟨hopens, rfl⟩
    · rcases hslot with hslot | ⟨hlt, _, rfl⟩
      · exact h.apart t ht k hslot
      · exact Nat.not_le.mpr hlt (h.opens_le ht)
    · rcases hslot with hslot | ⟨hlt, _, _⟩
      · obtain ⟨rfl, hlt⟩ := h.of_mem_slot hslot
        exact Nat.not_le.mpr hlt hopens
      · exact Nat.not_le.mpr hlt hopens
  added t ht := by
    rw [added_snoc]
    rcases ht with ht | ⟨k, ht⟩
    · rcases (mem_active_addFragment hfits hclear).mp ht with ht | ⟨_, rfl⟩
      · exact Or.inr ⟨h.added t (Or.inl ht), fun heq => by cases heq⟩
      · exact Or.inl rfl
    · rcases (mem_slot_addFragment hfits hclear).mp ht with ht | ⟨_, _, rfl⟩
      · exact Or.inr ⟨h.added t (has_slot ht), fun heq => by cases heq⟩
      · exact Or.inl rfl

theorem TimeWindowLaw.removeFragment (h : TimeWindowLaw calls self) (hfits : self.Fits fr) :
    TimeWindowLaw (calls ++ [.removeFragment fr]) (self.removeFragment fr) where
  active_iff t hadded hup := by
    rw [timeNow_removeFragment] at hup ⊢
    rw [added_snoc] at hadded
    obtain ⟨hadded, hne⟩ := hadded.resolve_left fun heq => by cases heq
    rw [mem_active_removeFragment, ← h.active_iff t hadded hup]
    constructor
    · exact And.left
    · intro ht
      refine ⟨ht, fun hclash => hne ?_⟩
      rw [hfits t (Or.inl ht) hclash.2]
  inactive_iff t hadded k := by
    rw [timeNow_removeFragment]
    rw [added_snoc] at hadded
    obtain ⟨hadded, hne⟩ := hadded.resolve_left fun heq => by cases heq
    rw [mem_slot_removeFragment, ← h.inactive_iff t hadded k]
    constructor
    · exact And.left
    · intro ht
      refine ⟨ht, fun hclash => hne ?_⟩
      rw [hfits t (has_slot ht) hclash.2.2]
  apart t hactive k hslot := by
    exact h.apart t (mem_active_removeFragment.mp hactive).1 k (mem_slot_removeFragment.mp hslot).1
  added t ht := by
    rw [added_snoc]
    rcases ht with ht | ⟨k, ht⟩
    · obtain ⟨ht, hkept⟩ := mem_active_removeFragment.mp ht
      refine Or.inr ⟨h.added t (Or.inl ht), ?_⟩
      intro heq
      obtain rfl := ChronologyCall.removeFragment.inj heq
      exact hkept ⟨h.opens_le ht, Clash.rfl fr⟩
    · obtain ⟨ht, hkept⟩ := mem_slot_removeFragment.mp ht
      refine Or.inr ⟨h.added t (has_slot ht), ?_⟩
      intro heq
      obtain rfl := ChronologyCall.removeFragment.inj heq
      obtain ⟨rfl, hlt⟩ := h.of_mem_slot ht
      exact hkept ⟨hlt, rfl, Clash.rfl fr⟩

theorem TimeWindowLaw.advanceClocks [TimedTaker T] [KeepsInBounds T]
    (h : TimeWindowLaw calls self) (hclear : Clear self.Has) {newTime : Nat}
    (htime : self.timeNow < newTime) (hskip : ∀ k < newTime, ∀ t, t ∉ self.slot k) :
    TimeWindowLaw (calls ++ [.advanceClocks newTime]) (self.advanceClocks newTime) where
  active_iff t hadded hup := by
    have hup' : (timeBounds t).Unexpired newTime := hup
    rw [added_snoc] at hadded
    obtain ⟨hadded, _⟩ := hadded.resolve_left fun heq => by cases heq
    change _ ↔ (timeBounds t).opens ≤ newTime
    rw [mem_active_advanceClocks hclear]
    constructor
    · rintro (ht | ⟨ht, _⟩)
      · rw [(h.of_mem_slot ht).1]
      · exact Nat.le_trans (h.opens_le ht) (Nat.le_of_lt htime)
    · intro hopens
      by_cases hnow : (timeBounds t).opens ≤ self.timeNow
      · refine Or.inr ⟨(h.active_iff t hadded (hup'.mono (Nat.le_of_lt htime))).mpr hnow, ?_⟩
        exact KeepsInBounds.succ_of_inBounds (TimeBounds.inBounds_iff.mpr ⟨hopens, hup'⟩)
      · -- The order waits in a slot that is not jumped over: this one.
        have hslot := (h.inactive_iff t hadded _).mpr ⟨rfl, Nat.not_le.mp hnow⟩
        have heq : (timeBounds t).opens = newTime := by
          by_contra hne
          exact hskip _ (Nat.lt_of_le_of_ne hopens hne) t hslot
        rw [heq] at hslot
        exact Or.inl hslot
  inactive_iff t hadded k := by
    rw [added_snoc] at hadded
    obtain ⟨hadded, _⟩ := hadded.resolve_left fun heq => by cases heq
    change _ ↔ k = (timeBounds t).opens ∧ newTime < k
    rw [slot_advanceClocks]
    split
    · rename_i hk
      subst hk
      simp only [Nat.lt_irrefl, and_false, iff_false]
      exact not_mem_empty
    · rename_i hk
      rw [h.inactive_iff t hadded k]
      constructor
      · rintro ⟨heq, hlt⟩
        refine ⟨heq, ?_⟩
        have hslot := (h.inactive_iff t hadded k).mpr ⟨heq, hlt⟩
        have hge : ¬ k < newTime := fun hlt' => hskip k hlt' t hslot
        omega
      · rintro ⟨heq, hlt⟩
        exact ⟨heq, Nat.lt_trans htime hlt⟩
  apart t hactive k hslot := by
    rw [slot_advanceClocks] at hslot
    split at hslot
    · exact not_mem_empty hslot
    · rename_i hk
      rcases (mem_active_advanceClocks hclear).mp hactive with ht | ⟨ht, _⟩
      · exact hk ((h.of_mem_slot hslot).1.trans (h.of_mem_slot ht).1.symm)
      · exact h.apart t ht k hslot
  added t ht := by
    rw [added_snoc]
    refine Or.inr ⟨h.added t ?_, fun heq => by cases heq⟩
    have hadm : self.Admits (.advanceClocks newTime) := htime
    rcases has_apply hclear hadm ht with hself | ⟨heq, _⟩
    · exact hself
    · cases heq

/-- An admitted call keeps the law exactly if no slot that has orders is jumped over. -/
theorem law_apply_iff [TimedTaker T] [KeepsInBounds T] (hclear : Clear self.Has)
    (hadm : self.Admits call) (h : TimeWindowLaw calls self) :
    TimeWindowLaw (calls ++ [call]) (self.apply call) ↔ self.SkipsNothing call := by
  cases call with
  | addFragment fr =>
    refine iff_of_true (h.addFragment hclear hadm) ?_
    intro newTime heq
    cases heq
  | removeFragment fr =>
    refine iff_of_true (h.removeFragment hadm) ?_
    intro newTime heq
    cases heq
  | advanceClocks newTime =>
    constructor
    · rintro hlaw _ ⟨⟩ k hk t ht
      have hslot : t ∈ (self.advanceClocks newTime).slot k := by
        rw [slot_advanceClocks, if_neg (Nat.ne_of_lt hk)]
        exact ht
      have hlt := (hlaw.of_mem_slot hslot).2
      exact Nat.lt_asymm hk hlt
    · intro hskip
      exact h.advanceClocks hclear hadm (hskip newTime rfl)

theorem clear_run [TimedTaker T] [KeepsInBounds T]
    (hadm : ∀ pre call, pre ++ [call] <+: calls → (run timeNow pre).Admits call) :
    Clear (run timeNow calls).Has := by
  induction calls using List.reverseRecOn with
  | nil =>
    rintro t u (ht | ⟨k, ht⟩)
    · exact absurd ht not_mem_empty
    · exact absurd ht not_mem_empty
  | append_singleton calls call ih =>
    rw [run, List.foldl_append]
    refine clear_apply (ih fun pre c hpre => ?_) (hadm calls call List.prefix_rfl)
    exact hadm pre c (hpre.trans (List.prefix_append _ _))

theorem law_new (timeNow : Nat) : TimeWindowLaw [] (new timeNow : Chronology T) where
  active_iff t h := by
    obtain ⟨before, after, heq, _⟩ := h
    exact absurd heq.symm (by simp)
  inactive_iff t h := by
    obtain ⟨before, after, heq, _⟩ := h
    exact absurd heq.symm (by simp)
  apart t ht := absurd ht not_mem_empty
  added t ht := by
    rcases ht with ht | ⟨k, ht⟩
    · exact absurd ht not_mem_empty
    · exact absurd ht not_mem_empty

/-- While times increase and orders are told apart by their order in the book, the law holds all
along exactly if the clock never jumps over a time at which orders become active. -/
theorem time_window_law_iff [TimedTaker T] [KeepsInBounds T]
    (hadm : ∀ pre call, pre ++ [call] <+: calls → (run timeNow pre).Admits call) :
    (∀ pre, pre <+: calls → TimeWindowLaw pre (run timeNow pre)) ↔
      ∀ pre call, pre ++ [call] <+: calls → (run timeNow pre).SkipsNothing call := by
  have halong := Lib.holds_along_iff
    (fun pre => pre <+: calls → TimeWindowLaw pre (run timeNow pre))
    (fun pre call => pre ++ [call] <+: calls → (run timeNow pre).SkipsNothing call)
    (fun _ => law_new timeNow) ?_ calls
  · constructor
    · intro h pre call hpre
      exact halong.mp (fun pre hpre _ => h pre hpre) pre call hpre hpre
    · intro h pre hpre
      exact halong.mpr (fun pre call hpre _ => h pre call hpre) pre hpre hpre
  · intro pre call hlaw
    refine imp_congr_right fun hpre => ?_
    have hbefore := (List.prefix_append pre [call]).trans hpre
    have hclear : Clear (run timeNow pre).Has :=
      clear_run fun pre' c hpre' => hadm pre' c (hpre'.trans hbefore)
    have hrun : run timeNow (pre ++ [call]) = (run timeNow pre).apply call := by
      rw [run, List.foldl_append]
      rfl
    rw [hrun]
    exact law_apply_iff hclear (hadm pre call hpre) (hlaw hbefore)

end Chronology

end Runs

/-! ### A jump of the clock -/

/-- Orders that disregard the time, as those on the chain do. -/
@[reducible] def sampleTimed : TimedTaker SimpleOrderPF := ⟨fun o _ => .succ o⟩

theorem sampleTimed_keeps : @KeepsInBounds SimpleOrderPF Nat _ sampleTimed :=
  @KeepsInBounds.mk SimpleOrderPF Nat _ sampleTimed (fun _ => rfl)
    fun h => (Next.succ.inj h).symm

def sampleLate : SimpleOrderPF :=
  ⟨⟨List.replicate 28 0, rfl⟩, .ask, 1000000000, 0, 0, 1, 100, 0, 0, .after 1100⟩

def sampleCalls (newTime : Nat) : List (ChronologyCall SimpleOrderPF) :=
  [.addFragment sampleLate, .advanceClocks newTime]

theorem sampleCalls_admitted (newTime : Nat) (h : 1000 < newTime) : let _ := sampleTimed
    ∀ pre call, pre ++ [call] <+: sampleCalls newTime →
      (Chronology.run 1000 pre).Admits call := by
  rintro inst pre call ⟨rest, heq⟩
  cases pre with
  | nil =>
    obtain ⟨rfl, _⟩ := List.cons.inj heq
    rintro u (hu | ⟨k, hu⟩) _
    · exact absurd hu MarketTakers.not_mem_empty
    · exact absurd hu MarketTakers.not_mem_empty
  | cons first pre =>
    obtain ⟨hfirst, heq⟩ := List.cons.inj heq
    cases pre with
    | nil =>
      obtain ⟨rfl, _⟩ := List.cons.inj heq
      rw [hfirst]
      exact h
    | cons second pre =>
      obtain ⟨_, heq⟩ := List.cons.inj heq
      cases pre <;> cases heq

theorem time_window_law_iff_sample : let _ := sampleTimed
    (∀ pre, pre <+: sampleCalls 1100 → Chronology.TimeWindowLaw pre (Chronology.run 1000 pre)) ↔
      ∀ pre call, pre ++ [call] <+: sampleCalls 1100 →
        (Chronology.run 1000 pre).SkipsNothing call :=
  @Chronology.time_window_law_iff SimpleOrderPF Nat _ _ _ (sampleCalls 1100) 1000 sampleTimed
    sampleTimed_keeps (sampleCalls_admitted 1100 (by decide))

/-- The order is due at 1100. When the clock goes from 1000 to 1200, it keeps waiting. -/
theorem jumped_over : let _ := sampleTimed
    sampleLate ∈ (Chronology.run 1000 (sampleCalls 1200)).slot 1100 ∧
      sampleLate ∉ (Chronology.run 1000 (sampleCalls 1200)).active ∧
      ¬ Chronology.TimeWindowLaw (sampleCalls 1200) (Chronology.run 1000 (sampleCalls 1200)) := by
  intro inst
  have hget : (((Chronology.run 1000 (sampleCalls 1200)).slot 1100).on .ask).get?
      ⟨sampleLate, rfl⟩ = some ⟨sampleLate, rfl⟩ := by decide +kernel
  have hslot := (MarketTakers.mem_iff (s := .ask) rfl).mpr hget
  refine ⟨hslot, fun hactive => ?_, fun hlaw => ?_⟩
  · have hsome := Lib.Elem.get? ((MarketTakers.mem_iff (s := .ask) rfl).mp hactive)
    cases hsome
  · exact Nat.not_lt.mpr (by decide) (hlaw.of_mem_slot hslot).2

end UtxoMonitor.LiquidityBook
