import UtxoMonitor.LiquidityBook.Queries
import UtxoMonitor.LiquidityBook.Simple

/-! A failed matchmaking attempt gives the book back as it was. -/
namespace UtxoMonitor.LiquidityBook

variable {T M U : Type} [MarketTaker T U] [Ord T] [SideOrd T] [Stable M]

namespace MarketTakers

/-- No two orders of a kind clash. -/
def Clear (P : T → Prop) : Prop := ∀ t u, P t → P u → Clash t u → t = u

theorem clear_mem (mt : MarketTakers T) : Clear (· ∈ mt) := fun _ _ ht hu => eq_of_clash ht hu

variable {P : T → Prop} {mt : MarketTakers T} {t u : T} {ts : List T}

/-- Among orders that do not clash, putting one in adds it and nothing else. -/
theorem Clear.mem_insert (hP : Clear P) (hsub : ∀ v ∈ mt, P v) (ht : P t) :
    u ∈ mt.insert t ↔ u ∈ mt ∨ u = t := by
  rw [MarketTakers.mem_insert]
  constructor
  · rintro (hu | ⟨rfl, -⟩)
    · exact .inl hu
    · exact .inr rfl
  · rintro (hu | rfl)
    · exact .inl hu
    · by_cases hu : u ∈ mt
      · exact .inl hu
      · refine .inr ⟨rfl, ?_⟩
        intro v hv hc
        rw [hP u v ht (hsub v hv) hc] at hu
        exact hu hv

theorem Clear.mem_remove (hP : Clear P) (hsub : ∀ v ∈ mt, P v) (ht : P t) :
    u ∈ mt.remove t ↔ u ∈ mt ∧ u ≠ t := by
  rw [MarketTakers.mem_remove]
  constructor
  · rintro ⟨hu, hc⟩
    refine ⟨hu, ?_⟩
    rintro rfl
    exact hc (Clash.rfl u)
  · rintro ⟨hu, hne⟩
    exact ⟨hu, fun hc => hne (hP t u ht (hsub u hu) hc).symm⟩

theorem mem_insertAll_of_mem (h : u ∈ mt) : u ∈ mt.insertAll ts := by
  induction ts generalizing mt with
  | nil => exact h
  | cons t ts ih => exact ih (MarketTakers.mem_insert.mpr (.inl h))

theorem mem_of_mem_insertAll (h : u ∈ mt.insertAll ts) : u ∈ mt ∨ u ∈ ts := by
  induction ts generalizing mt with
  | nil => exact .inl h
  | cons t ts ih =>
    rcases ih h with hu | hu
    · rcases MarketTakers.mem_insert.mp hu with hu | ⟨rfl, -⟩
      · exact .inl hu
      · exact .inr List.mem_cons_self
    · exact .inr (.tail _ hu)

theorem Clear.mem_insertAll (hP : Clear P) (hsub : ∀ v ∈ mt, P v) (hts : ∀ v ∈ ts, P v) :
    u ∈ mt.insertAll ts ↔ u ∈ mt ∨ u ∈ ts := by
  induction ts generalizing mt with
  | nil => simp [insertAll]
  | cons t ts ih =>
    have ht := hts t List.mem_cons_self
    have hsub' : ∀ v ∈ mt.insert t, P v := by
      intro v hv
      rcases (hP.mem_insert hsub ht).mp hv with hv | rfl
      · exact hsub v hv
      · exact ht
    have hstep := ih hsub' fun v hv => hts v (.tail _ hv)
    rw [insertAll, List.foldl_cons, ← insertAll, hstep, hP.mem_insert hsub ht, List.mem_cons,
      or_assoc]

theorem Clear.mem_removeAll (hP : Clear P) (hsub : ∀ v ∈ mt, P v) (hts : ∀ v ∈ ts, P v) :
    u ∈ mt.removeAll ts ↔ u ∈ mt ∧ u ∉ ts := by
  induction ts generalizing mt with
  | nil => simp [removeAll]
  | cons t ts ih =>
    have ht := hts t List.mem_cons_self
    have hsub' : ∀ v ∈ mt.remove t, P v := fun v hv => hsub v ((hP.mem_remove hsub ht).mp hv).1
    have hstep := ih hsub' fun v hv => hts v (.tail _ hv)
    rw [removeAll, List.foldl_cons, ← removeAll, hstep, hP.mem_remove hsub ht, List.mem_cons,
      not_or, and_assoc]

end MarketTakers

open MarketTakers

/-! ### What a changed book goes back to -/

/-- The orders and pools from which a pass of the matchmaking starts, with the orders put aside. -/
structure Base (T M : Type) {U : Type} [MarketTaker T U] [Ord T] [Stable M] where
  takers : Chronology T
  stashed : List T
  makers : MarketMakers M

namespace Base

/-- The book at the start of the pass. -/
def book (b : Base T M) : TLBState T M :=
  if b.stashed.isEmpty then .idle ⟨b.takers, b.makers⟩
  else .partialPreview ⟨b.takers, [], b.stashed, b.makers, b.makers⟩

def stash (b : Base T M) (ts : List T) : Base T M :=
  { b with
    takers := { b.takers with active := b.takers.active.removeAll ts }
    stashed := b.stashed ++ ts }

def unstash (b : Base T M) : IdleState T M :=
  ⟨{ b.takers with active := b.takers.active.insertAll b.stashed }, b.makers⟩

end Base

namespace TLBState

def base : TLBState T M → Base T M
  | idle st => ⟨st.takers, [], st.makers⟩
  | partialPreview st => ⟨st.takersIntact, st.stashedActiveTakers, st.makersIntact⟩
  | preview st => ⟨st.takersIntact, st.stashedActiveTakers, st.makersIntact⟩

def consumed : TLBState T M → List T
  | partialPreview st => st.consumedActiveTakers
  | _ => []

/-- The consumed orders can all go back. -/
def Sound (self : TLBState T M) : Prop := ∀ t ∈ self.consumed, t ∈ self.base.takers.active

variable {self : TLBState T M}

@[simp] theorem stashed_base (self : TLBState T M) : self.base.stashed = self.stashed := by
  cases self <;> rfl

theorem rollback_stash (self : TLBState T M) (ts : List T) :
    self.rollback (.stash ts) = (self.base.stash ts).book ∨
      (self.rollback (.stash ts) = self ∧ ∃ st, self = idle st) := by
  cases self with
  | idle st => exact .inr ⟨rfl, st, rfl⟩
  | partialPreview st => exact .inl rfl
  | preview st => exact .inl rfl

theorem rollback_unstash (self : TLBState T M) :
    self.rollback .unstash = idle self.base.unstash := by
  cases self <;> rfl

end TLBState

@[simp] theorem Base.base_book (b : Base T M) : b.book.base = b := by
  unfold Base.book
  split
  · rename_i h
    obtain ⟨takers, stashed, makers⟩ := b
    rw [List.isEmpty_iff] at h
    exact congrArg (Base.mk takers · makers) h.symm
  · rfl

theorem Base.sound_book (b : Base T M) : b.book.Sound := by
  intro t ht
  unfold Base.book at ht
  split at ht <;> cases ht

/-! ### The operations of an attempt -/

namespace TLBState.Sound

variable {self : TLBState T M}

theorem pickActiveTaker (h : self.Sound) (f : Picker T) :
    (self.pickActiveTaker f.pick).2.Sound ∧ (self.pickActiveTaker f.pick).2.base = self.base := by
  cases self with
  | idle st =>
    rcases f.takes st.takers.active with hf | ⟨t, ht, hf⟩
    · rw [TLBState.pickActiveTaker, hf]
      exact ⟨h, rfl⟩
    · rw [TLBState.pickActiveTaker, hf]
      have hback : (st.takers.active.remove t).insertAll [t] = st.takers.active := insert_remove ht
      constructor
      · intro u hu
        obtain rfl := List.mem_singleton.mp hu
        show u ∈ (st.takers.active.remove u).insertAll [u]
        rwa [hback]
      · exact congrArg (fun active => Base.mk { st.takers with active := active } [] st.makers) hback
  | partialPreview st =>
    rcases f.takes st.takersPreview.active with hf | ⟨t, ht, hf⟩
    · rw [TLBState.pickActiveTaker, hf]
      exact ⟨h, rfl⟩
    · rw [TLBState.pickActiveTaker, hf]
      have hclear := clear_mem st.takersIntact.active
      have hsub : ∀ v ∈ st.takersPreview.active, v ∈ st.takersIntact.active := fun v hv =>
        mem_insertAll_of_mem hv
      have hsub' : ∀ v ∈ st.takersPreview.active.remove t, v ∈ st.takersIntact.active := fun v hv =>
        hsub v (mem_remove.mp hv).1
      have hall : ∀ v ∈ (st.consumedActiveTakers ++ [t]).reverse, v ∈ st.takersIntact.active := by
        intro v hv
        rcases List.mem_append.mp (List.mem_reverse.mp hv) with hv | hv
        · exact h v hv
        · exact hsub v (List.mem_singleton.mp hv ▸ ht)
      have hintact : ∀ u, u ∈ st.takersIntact.active ↔
          u ∈ st.takersPreview.active ∨ u ∈ st.consumedActiveTakers := by
        intro u
        have hiff := hclear.mem_insertAll (u := u) hsub fun v hv => h v (List.mem_reverse.mp hv)
        exact hiff.trans (by rw [TLBState.consumed, List.mem_reverse])
      have hback : (st.takersPreview.active.remove t).insertAll
          (st.consumedActiveTakers ++ [t]).reverse = st.takersIntact.active := by
        ext u
        rw [hclear.mem_insertAll hsub' hall, hclear.mem_remove hsub (hsub t ht), hintact,
          List.mem_reverse, List.mem_append, List.mem_singleton]
        by_cases hu : u = t
        · simp [hu, ht]
        · simp [hu]
      constructor
      · intro u hu
        show u ∈ (st.takersPreview.active.remove t).insertAll
          (st.consumedActiveTakers ++ [t]).reverse
        rw [hback]
        exact hall u (List.mem_reverse.mpr hu)
      · exact congrArg (fun active => Base.mk { st.takersPreview with active := active }
          st.stashedActiveTakers st.makersIntact) hback
  | preview st => exact ⟨h, rfl⟩

theorem pickMakerById (h : self.Sound) (pid : StableId M) :
    (self.pickMakerById pid).2.Sound ∧ (self.pickMakerById pid).2.base = self.base := by
  cases self with
  | idle st => exact ⟨h, rfl⟩
  | partialPreview st => exact ⟨h, rfl⟩
  | preview st => exact ⟨h, rfl⟩

end TLBState.Sound

namespace TLBState

variable {self : TLBState T M}

theorem sound_preview (st : PreviewState T M) : (preview st).Sound := by
  intro t ht
  cases ht

theorem sound_idle (st : IdleState T M) : (idle st).Sound := by
  intro t ht
  cases ht

theorem moveIntoPreview_base (self : TLBState T M) :
    (preview self.moveIntoPreview).base = self.base := by
  cases self <;> rfl

theorem preAddTaker_base (self : TLBState T M) (taker : T) :
    (self.preAddTaker taker).Sound ∧ (self.preAddTaker taker).base = self.base := by
  rw [← self.moveIntoPreview_base]
  unfold preAddTaker
  dsimp only
  split
  · split
    · exact ⟨sound_preview _, rfl⟩
    · exact ⟨sound_preview _, rfl⟩
  · exact ⟨sound_preview _, rfl⟩

theorem preAddMaker_base [MarketMaker M U] (self : TLBState T M) (pool : M) :
    (self.preAddMaker pool).Sound ∧ (self.preAddMaker pool).base = self.base := by
  rw [← self.moveIntoPreview_base]
  exact ⟨sound_preview _, rfl⟩

end TLBState

inductive BookOp (T M : Type) {U : Type} [MarketTaker T U] [Ord T] [SideOrd T] [Stable M] where
  | pickActiveTaker (f : Picker T)
  | tryPickTaker (s : Side) (test : T → Bool)
  | pickMakerById (pid : StableId M)
  | preAddTaker (taker : T)
  | preAddMaker (pool : M)
  | rollback (stashingOpt : StashingOption T)

variable [MarketMaker M U]

def BookOp.perform (self : TLBState T M) : BookOp T M → TLBState T M
  | pickActiveTaker f => (self.pickActiveTaker f.pick).2
  | tryPickTaker s test => (self.pickActiveTaker (tryPickFr s test)).2
  | pickMakerById pid => (self.pickMakerById pid).2
  | preAddTaker taker => self.preAddTaker taker
  | preAddMaker pool => self.preAddMaker pool
  | rollback stashingOpt => self.rollback stashingOpt

/-- Whatever the operation stashes was active in the settled book. -/
def BookOp.StashesFrom (s : IdleState T M) : BookOp T M → Prop
  | rollback (.stash ts) => ∀ t ∈ ts, t ∈ s.takers.active
  | _ => True

/-! ### Back to the settled book -/

/-- The base holds what the settled book `s` does, less the orders put aside. -/
structure Base.Intact (b : Base T M) (s : IdleState T M) : Prop where
  timeNow : b.takers.timeNow = s.takers.timeNow
  inactive : b.takers.inactive = s.takers.inactive
  makers : b.makers = s.makers
  active : ∀ t, t ∈ s.takers.active ↔ t ∈ b.takers.active ∨ t ∈ b.stashed

namespace Base.Intact

variable {s : IdleState T M} {b : Base T M} {ts : List T}

omit [MarketMaker M U]

theorem refl (s : IdleState T M) : Intact (TLBState.idle s).base s :=
  ⟨rfl, rfl, rfl, fun _ => by simp [TLBState.base]⟩

theorem stash (h : b.Intact s) (hts : ∀ t ∈ ts, t ∈ s.takers.active) :
    (b.stash ts).Intact s := by
  refine ⟨h.timeNow, h.inactive, h.makers, ?_⟩
  intro t
  have hsub : ∀ v ∈ b.takers.active, v ∈ s.takers.active := fun v hv => (h.active v).mpr (.inl hv)
  rw [Base.stash, (clear_mem s.takers.active).mem_removeAll hsub hts, List.mem_append, h.active]
  by_cases ht : t ∈ ts
  · simp [ht, ← h.active t, hts t ht]
  · simp [ht]

theorem unstash (h : b.Intact s) : b.unstash = s := by
  have hactive : b.takers.active.insertAll b.stashed = s.takers.active := by
    ext t
    rw [(clear_mem s.takers.active).mem_insertAll (fun v hv => (h.active v).mpr (.inl hv))
      fun v hv => (h.active v).mpr (.inr hv), h.active]
  obtain ⟨⟨time, active, inactive⟩, makers⟩ := s
  have htime := h.timeNow
  have hinactive := h.inactive
  have hmakers := h.makers
  simp only at hactive htime hinactive hmakers
  subst htime hinactive hmakers
  rw [Base.unstash, hactive]

end Base.Intact

/-- The book can go back to the settled book `s`. -/
structure Restores (s : IdleState T M) (book : TLBState T M) : Prop where
  sound : book.Sound
  intact : book.base.Intact s

namespace Restores

variable {s : IdleState T M} {self : TLBState T M}

/-- Every operation leaves the book able to go back. -/
theorem perform (h : Restores s self) {op : BookOp T M} (hop : op.StashesFrom s) :
    Restores s (op.perform self) := by
  have hkeeps : ∀ next : TLBState T M, next.Sound ∧ next.base = self.base → Restores s next :=
    fun next hnext => ⟨hnext.1, hnext.2 ▸ h.intact⟩
  cases op with
  | pickActiveTaker f => exact hkeeps _ (h.sound.pickActiveTaker f)
  | tryPickTaker side test => exact hkeeps _ (h.sound.pickActiveTaker (Picker.tryPickFr side test))
  | pickMakerById pid => exact hkeeps _ (h.sound.pickMakerById pid)
  | preAddTaker taker => exact hkeeps _ (self.preAddTaker_base taker)
  | preAddMaker pool => exact hkeeps _ (self.preAddMaker_base pool)
  | rollback opt =>
    cases opt with
    | stash ts =>
      rcases self.rollback_stash ts with hback | ⟨hsame, -⟩
      · rw [BookOp.perform, hback]
        exact ⟨Base.sound_book _, by
          rw [Base.base_book]
          exact h.intact.stash hop⟩
      · rwa [BookOp.perform, hsame]
    | unstash =>
      rw [BookOp.perform, self.rollback_unstash, h.intact.unstash]
      exact ⟨TLBState.sound_idle s, Base.Intact.refl s⟩

theorem run (h : Restores s self) {ops : List (BookOp T M)} (hops : ∀ op ∈ ops, op.StashesFrom s) :
    Restores s (ops.foldl BookOp.perform self) := by
  induction ops generalizing self with
  | nil => exact h
  | cons op ops ih =>
    exact ih (h.perform (hops op List.mem_cons_self)) fun op' hop' => hops op' (.tail _ hop')

end Restores

/-- Whatever an attempt does to a settled book, a rollback that unstashes undoes it. -/
theorem rollback_unstash_restores (s : IdleState T M) (ops : List (BookOp T M))
    (hops : ∀ op ∈ ops, op.StashesFrom s) :
    (ops.foldl BookOp.perform (.idle s)).rollback .unstash = .idle s := by
  have hstart : Restores s (.idle s) := ⟨TLBState.sound_idle s, Base.Intact.refl s⟩
  rw [TLBState.rollback_unstash, (hstart.run hops).intact.unstash]

/-! ### Samples -/

/-- A settled book with the orders and one pool. -/
def bookOf (ts : List SimpleOrderPF) : IdleState SimpleOrderPF SimpleCFMMPool where
  takers := ⟨0, MarketTakers.empty.insertAll ts, ∅⟩
  makers := MarketMakers.empty.updatePool samplePool

def sampleConf : ExecutionConfig Nat := ⟨⟨1000, 1000⟩, true, 1⟩

/-- An order is picked, put aside, and another order is added in between. -/
theorem rollback_unstash_restores_sample :
    (([.pickActiveTaker (.maxByDistanceToSpot 1 ⟨none, none⟩),
      .rollback (.stash [sampleOrder 1 .ask 1 1000 0]), .preAddTaker (sampleOrder 1 .ask 1 1 0),
      .pickMakerById (RawBytes.replicate 9)] :
      List (BookOp SimpleOrderPF SimpleCFMMPool)).foldl BookOp.perform
        (.idle (bookOf [sampleOrder 1 .ask 1 1000 0]))).rollback .unstash =
          .idle (bookOf [sampleOrder 1 .ask 1 1000 0]) := by
  apply rollback_unstash_restores
  intro op hop
  simp only [List.mem_cons, List.not_mem_nil, or_false] at hop
  rcases hop with rfl | rfl | rfl | rfl
  · trivial
  · intro t ht
    rw [List.mem_singleton.mp ht]
    exact mem_insert.mpr (.inr ⟨rfl, fun _ hv => absurd hv not_mem_empty⟩)
  · trivial
  · trivial

end UtxoMonitor.LiquidityBook
