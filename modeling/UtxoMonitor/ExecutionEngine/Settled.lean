import Mathlib.Logic.Relation
import UtxoMonitor.ExecutionEngine.Executor
import UtxoMonitor.Lib.Checked

/-! No book is changed from outside while an attempt on it is under way. -/
namespace UtxoMonitor.LiquidityBook

/-- The computation finds every book settled that it changes. -/
abbrev Safe {A : Type} (Q : A → Prop) (m : Except Panic A) : Prop := Lib.Yields (· = .previewMutated) Q m

namespace TLB

variable {T M U : Type} [MarketTaker T U] [TakerBehaviour T] [Ord T] [SideOrd T] [Stable M]
  [MarketMaker M U] [MakerBehavior M] {self : TLB T M}

omit [TakerBehaviour T] [SideOrd T] [MarketMaker M U] [MakerBehavior M] in
theorem Idle.safe (h : self.Idle) (f : IdleState T M → IdleState T M) :
    Safe TLB.Idle (self.requiringSettledState f) := by
  obtain ⟨book, hbook, hidle⟩ := h.requiringSettledState f
  rw [hbook]
  exact hidle

end TLB

end UtxoMonitor.LiquidityBook

namespace UtxoMonitor.ExecutionEngine

open LiquidityBook Domain

namespace Executor

variable {IX L PR CO P V B SO SID U LCX TC TX : Type} [DecidableEq PR] [MarketTaker CO U] [Ord CO]
  [Stable P] [Ord B]

/-! ### Settled books -/

/-- No batch is pending, and all books are settled. -/
structure Quiet (exec : Executor IX L PR CO P V B SO) : Prop where
  idle : ∀ pair, (exec.multiBook.get pair).Idle
  noPending : exec.pendingEffects = none

/-- No batch is pending, and all books but one are settled. -/
structure QuietBut (pair : PR) (exec : Executor IX L PR CO P V B SO) : Prop where
  idle : ∀ pair', pair' ≠ pair → (exec.multiBook.get pair').Idle
  noPending : exec.pendingEffects = none

variable {self self' : Executor IX L PR CO P V B SO} {pair : PR}

theorem Quiet.but (h : self.Quiet) (pair : PR) : self.QuietBut pair where
  idle pair' _ := h.idle pair'
  noPending := h.noPending

/-- Only the books and the batch count. -/
theorem Quiet.of_eq (h : self.Quiet) (hbook : self'.multiBook = self.multiBook)
    (hpending : self'.pendingEffects = self.pendingEffects) : self'.Quiet where
  idle pair := by
    rw [hbook]
    exact h.idle pair
  noPending := hpending.trans h.noPending

theorem QuietBut.put (h : self.QuietBut pair) {book : TLB CO P} (hbook : book.Idle) :
    ({ self with multiBook := self.multiBook.put pair book }).Quiet where
  idle pair' := by
    rw [MultiPair.get_put]
    split
    · exact hbook
    · exact h.idle pair' ‹_›
  noPending := h.noPending

theorem QuietBut.attempt (h : self.QuietBut pair) (book : TLB CO P) :
    ({ self with multiBook := self.multiBook.put pair book }).QuietBut pair where
  idle pair' hne := by
    rw [MultiPair.get_put, if_neg hne]
    exact h.idle pair' hne
  noPending := h.noPending

theorem QuietBut.withBook (h : self.QuietBut pair) {f : TLB CO P → Except Panic (TLB CO P)}
    (hf : Safe TLB.Idle (f (self.multiBook.get pair))) : Safe Quiet (self.withBook pair f) :=
  hf.bind fun _ hbook => h.put hbook

theorem Quiet.withBook (h : self.Quiet) {f : TLB CO P → Except Panic (TLB CO P)}
    (hf : ∀ book, book.Idle → Safe TLB.Idle (f book)) : Safe Quiet (self.withBook pair f) :=
  (h.but pair).withBook (hf _ (h.idle pair))

/-! ### Syncing -/

section

variable [SideOrd CO] [MarketMaker P U]

theorem Quiet.syncBook (h : self.Quiet) (tr : Ior (BakedEntity CO P V) (BakedEntity CO P V)) :
    Safe Quiet (self.syncBook pair tr) := by
  rcases tr with (o | p) | (new | new) | ⟨old | old, new | new⟩
  · exact h.withBook fun _ hbook => hbook.safe _
  · exact h.withBook fun _ hbook => hbook.safe _
  · exact h.withBook fun _ hbook => hbook.safe _
  · exact h.withBook fun _ hbook => hbook.safe _
  · have hremoved : Safe Quiet (self.withBook pair fun book => book.removeTaker old.entity) :=
      h.withBook fun _ hbook => hbook.safe _
    exact hremoved.bind fun self hself => hself.withBook fun _ hbook => hbook.safe _
  · exact h.withBook fun _ hbook => hbook.safe _
  · intro hunreachable
    cases hunreachable
  · exact h.withBook fun _ hbook => hbook.safe _

theorem Quiet.syncBookWith (h : self.Quiet)
    (transition : Option (Ior (BakedEntity CO P V) (BakedEntity CO P V))) :
    Safe Quiet (self.syncBookWith pair transition) := by
  cases transition with
  | some tr => exact h.syncBook tr
  | none => exact h

theorem QuietBut.linkageFailure (h : self.QuietBut pair) (orphans : List (CO ⊕ P)) :
    Safe Quiet (self.onLinkageFailure pair orphans) := by
  refine h.withBook (.foldlM (fun book fragment hbook => ?_) _ (TLB.idle_onRecipeFailed _))
  cases fragment with
  | inl taker => exact hbook.safe _
  | inr maker => exact hbook.safe _

end

section

variable [DecidableEq V] [DecidableEq SID] [Stable CO] [Composable CO P SID]
  [StateIndex IX (EvolvingEntity CO P V B)]

theorem Quiet.invalidateVersions [SideOrd CO] [MarketMaker P U] (h : self.Quiet) (versions : List V) :
    Safe (fun result => Quiet result.1) (self.invalidateVersions pair versions) := by
  induction versions generalizing self with
  | nil => exact h
  | cons ver versions ih =>
    rw [Executor.invalidateVersions]
    cases StateIndex.getState (T := EvolvingEntity CO P V B) self.index ver with
    | some state =>
      have hindex : ({ self with
          index := StateIndex.invalidateVersion (T := EvolvingEntity CO P V B) self.index ver }).Quiet :=
        h.of_eq rfl rfl
      exact (hindex.syncBookWith _).bind fun self hself => ih hself
    | none => exact (ih h).bind fun result hresult => hresult

omit [DecidableEq PR] in
theorem observeState_keeps (self : Executor IX L PR CO P V B SO)
    (update : Channel (Transition (EvolvingEntity CO P V B)) LCX)
    (newState : EvolvingEntity CO P V B) (stateToRollback : Option V) (isRollbackUpd : Bool) :
    (self.observeState update newState stateToRollback isRollbackUpd).2.multiBook = self.multiBook ∧
      (self.observeState update newState stateToRollback isRollbackUpd).2.pendingEffects =
        self.pendingEffects := by
  by_cases hskipped : self.skipFilter.contains (entityVersion newState.entity) ∧ ¬ isRollbackUpd
  · simp only [observeState, if_pos hskipped, and_self]
  · simp only [observeState, if_neg hskipped, and_self]

omit [DecidableEq PR] in
theorem eliminateState_keeps (self : Executor IX L PR CO P V B SO)
    (update : Channel (Transition (EvolvingEntity CO P V B)) LCX) (st : EvolvingEntity CO P V B) :
    (self.eliminateState update st).2.multiBook = self.multiBook ∧
      (self.eliminateState update st).2.pendingEffects = self.pendingEffects := by
  simp only [eliminateState, apply_ite multiBook, apply_ite pendingEffects, ite_self, and_self]

omit [DecidableEq PR] in
theorem updateState_keeps (self : Executor IX L PR CO P V B SO)
    (update : Channel (Transition (EvolvingEntity CO P V B)) LCX) :
    (self.updateState update).2.multiBook = self.multiBook ∧
      (self.updateState update).2.pendingEffects = self.pendingEffects := by
  unfold updateState
  split
  · exact observeState_keeps self update _ _ _
  · exact observeState_keeps self update _ _ _
  · exact observeState_keeps self update _ _ _
  · exact observeState_keeps self update _ _ _
  · exact eliminateState_keeps self update _
  · exact eliminateState_keeps self update _

theorem Quiet.updateState (h : self.Quiet)
    (update : Channel (Transition (EvolvingEntity CO P V B)) LCX) : (self.updateState update).2.Quiet :=
  h.of_eq (updateState_keeps self update).1 (updateState_keeps self update).2

/-- An entity is moved on from, and the book is told. -/
theorem Quiet.process [SideOrd CO] [MarketMaker P U] (h : self.Quiet) (pair : PR) (ver : V)
    (update : Channel (Transition (EvolvingEntity CO P V B)) LCX) :
    Safe Quiet (((self.onEntityProcessed ver).updateState update).2.syncBookWith pair
      ((self.onEntityProcessed ver).updateState update).1) := by
  have hprocessed : (self.onEntityProcessed ver).Quiet := h.of_eq rfl rfl
  exact (hprocessed.updateState update).syncBookWith _

theorem Quiet.applyEffects [SideOrd CO] [MarketMaker P U] (h : self.Quiet)
    (effs : List (ExecutionEff (EvolvingEntity CO P V B) (EvolvingEntity CO P V B))) :
    Safe Quiet (self.applyEffects pair effs) := by
  induction effs generalizing self with
  | nil => exact h
  | cons eff effs ih =>
    cases eff with
    | updated elim upd =>
      have hprocessed := h.process pair (entityVersion elim.entity)
        (.localTxSubmit (.forward (.both elim upd)) : Channel _ Unit)
      exact hprocessed.bind fun self hself => ih hself
    | eliminated elim =>
      have hprocessed := h.process pair (entityVersion elim.entity)
        (.localTxSubmit (.forward (.left elim)) : Channel _ Unit)
      exact hprocessed.bind fun self hself => ih hself

end

variable [DecidableEq V] [DecidableEq SID] [Stable CO] [TakerBehaviour CO] [SideOrd CO]
  [MarketMaker P U] [MakerBehavior P] [Composable CO P SID] [Std.TransOrd B]
  [StateIndex IX (EvolvingEntity CO P V B)] [SpecializedOrder SO V SID]
  [HotBacklog L (Bundled SO B) V]

/-! ### Feedback -/

/-- The books are settled, but for the one whose batch waits for its feedback. -/
def Awaits (effects : ExecutionEffectsByPair PR CO SO P V B) (exec : Executor IX L PR CO P V B SO) :
    Prop :=
  match effects.pendingEffects with
  | .fromLiquidityBook _ => exec.QuietBut effects.pair
  | .fromBacklog _ _ => exec.Quiet

variable {effects : ExecutionEffectsByPair PR CO SO P V B}

omit [TakerBehaviour CO] [MakerBehavior P] [Std.TransOrd B] [HotBacklog L (Bundled SO B) V] in
theorem Awaits.success (h : self.Awaits effects) :
    Safe Quiet (self.onExecutionEffectsSuccess effects) := by
  obtain ⟨pair, consumedVersions, pendingEffects⟩ := effects
  cases pendingEffects with
  | fromLiquidityBook effs =>
    have hcommitted : Safe Quiet (self.withBook pair fun book => return book.onRecipeSucceeded) :=
      h.withBook (TLB.idle_onRecipeSucceeded _)
    exact hcommitted.bind fun self hself => hself.applyEffects _
  | fromBacklog newPool consumedOrd =>
    have hprocessed : (self.onEntityProcessed (SpecializedOrder.getSelfRef consumedOrd.entity)).Quiet :=
      Quiet.of_eq h rfl rfl
    exact hprocessed.updateState _

omit [TakerBehaviour CO] [MakerBehavior P] [Std.TransOrd B] in
theorem Awaits.failure (h : self.Awaits effects) (missingInputs : Option (Finset V))
    (relevantBearers : List V) :
    Safe Quiet (self.onExecutionEffectsFailure missingInputs effects relevantBearers) := by
  obtain ⟨pair, consumedVersions, pendingEffects⟩ := effects
  cases missingInputs with
  | some missingInputs =>
    cases pendingEffects with
    | fromLiquidityBook effs =>
      have hfailed : Safe Quiet (self.withBook pair fun book => return book.onRecipeFailed) :=
        h.withBook (TLB.idle_onRecipeFailed _)
      refine hfailed.bind fun self hself => ?_
      refine (hself.invalidateVersions relevantBearers).bind fun result hresult => ?_
      show Safe Quiet (if result.2 = [] then pure result.1 else throw .stateInconsistency)
      split
      · exact hresult
      · intro hinconsistent
        cases hinconsistent
    | fromBacklog newPool order =>
      have hbacklog (f : L → L) : (self.withBacklog pair f).Quiet := Quiet.of_eq h rfl rfl
      exact ((hbacklog _).invalidateVersions relevantBearers).bind fun result hresult => hresult
  | none =>
    cases pendingEffects with
    | fromLiquidityBook effs =>
      refine QuietBut.withBook (f := fun book =>
        (consumedOrders effs).foldlM TLB.removeTaker book.onRecipeFailed) h ?_
      exact .foldlM (fun book order hbook => hbook.safe _) _ (TLB.idle_onRecipeFailed _)
    | fromBacklog newPool order => exact Quiet.of_eq h rfl rfl

/-! ### Matchmaking -/

/-- A transaction is made, and the executor waits for what comes of it. -/
def Submits (exec : Executor IX L PR CO P V B SO) : Prop :=
  ∃ effects, exec.pendingEffects = some effects ∧
    ({ exec with pendingEffects := none }).Awaits effects.execution

/-- Where the executor stands after it looked for a match. -/
def Matched : Executor IX L PR CO P V B SO × Option TX → Prop
  | (exec, none) => exec.Quiet
  | (exec, some _) => exec.Submits

variable [Zero U] [Add U] [LT U] {interpreters : Interpreters CO SO P V B TC TX}

omit [SpecializedOrder SO V SID] [HotBacklog L (Bundled SO B) V] in
theorem Quiet.triesBook (h : self.Quiet) {focusSet : FocusSet PR}
    {outcome : Except Panic (Executor IX L PR CO P V B SO × Option TX)}
    (htries : TriesBook interpreters pair { self with focusSet := focusSet } outcome) :
    Safe Matched outcome := by
  have hquiet : ({ self with focusSet := focusSet }).Quiet := h.of_eq rfl rfl
  have hfocus := hquiet.but pair
  cases htries with
  | noRecipe attempt => exact hfocus.put (TLB.idle_of_attempted attempt)
  | @submitted book _ _ _ _ _ attempt link pop run =>
    exact ⟨_, rfl, (hfocus.attempt book).idle, rfl⟩
  | noFunding attempt link pop => exact hfocus.put (TLB.idle_onRecipeFailed _)
  | @orphaned book _ _ attempt link =>
    exact ((hfocus.attempt book).linkageFailure _).map fun self hself => hself

omit [TakerBehaviour CO] [SideOrd CO] [MarketMaker P U] [MakerBehavior P] [Std.TransOrd B] [Zero U]
  [Add U] [LT U] in
theorem Quiet.triesBacklog (h : self.Quiet) {result : Executor IX L PR CO P V B SO × Option TX}
    (htries : TriesBacklog interpreters pair self result) : Matched result := by
  cases htries with
  | noOrder pop => exact h.of_eq rfl rfl
  | noPool pop resolved => exact h.of_eq rfl rfl
  | notRun pop resolved run => exact h.of_eq rfl rfl
  | submitted pop resolved run => exact ⟨_, rfl, h.of_eq rfl h.noPending.symm⟩

theorem Quiet.matchmakes (h : self.Quiet)
    {outcome : Except Panic (Executor IX L PR CO P V B SO × Option TX)}
    (hmatch : Matchmakes interpreters self outcome) : Safe Matched outcome := by
  induction hmatch with
  | exhausted pop => exact h
  | panics pop book => exact h.triesBook book
  | trade pop book => exact h.triesBook book
  | order pop book backlog =>
    have hbook := h.triesBook book
    exact Quiet.triesBacklog hbook backlog
  | next pop book backlog rest ih =>
    have hbook := h.triesBook book
    exact ih (Quiet.triesBacklog hbook backlog)

/-! ### Events -/

omit [TakerBehaviour CO] [MakerBehavior P] [Std.TransOrd B] [Zero U] [Add U] [LT U] in
theorem Quiet.onPairEvent (h : self.Quiet) (event : Event CO SO P B V LCX) :
    Safe Quiet (self.onPairEvent pair event) := by
  cases event with
  | inl evolvingEntity =>
    have hsynced : Safe Quiet ((self.updateState evolvingEntity).2.syncBookWith pair
        (self.updateState evolvingEntity).1) :=
      (h.updateState evolvingEntity).syncBookWith _
    exact hsynced.bind fun self hself => hself.of_eq rfl rfl
  | inr atomicEntity =>
    have hsynced : (self.syncBacklog pair atomicEntity).Quiet := by
      unfold syncBacklog
      split
      · split
        · exact h
        · exact h.of_eq rfl rfl
      · split
        · exact h.of_eq rfl rfl
        · exact h.of_eq rfl rfl
    exact hsynced.of_eq rfl rfl

end Executor

namespace ExecutionPart

variable {IX L PR CO P V B SO SID U LCX TC TX E : Type} [DecidableEq PR] [MarketTaker CO U] [Ord CO]
  [Stable P] [Ord B] {s : ExecutionPart IX L PR CO P V B SO TX E}

/-- An executor over new books, before any event. -/
def start (index : IX) (timeNow : Nat) (conf : ExecutionConfig U) (multiBacklog : MultiPair PR L) :
    ExecutionPart IX L PR CO P V B SO TX E where
  executor := .new index (.new fun _ => .new timeNow conf) multiBacklog
  feedback := []
  submission := none

/-- Between two polls there is nothing to wait for, or a submission is under way, or what came of it is
in the channel. -/
inductive Phase (s : ExecutionPart IX L PR CO P V B SO TX E) : Prop where
  | quiet (hexec : s.executor.Quiet) (hfeedback : s.feedback = []) (hsubmission : s.submission = none)
  | submitting {tx : TX} (hexec : s.executor.Submits) (hfeedback : s.feedback = [])
    (hsubmission : s.submission = some tx)
  | answered {result : Except E Unit} (hexec : s.executor.Submits) (hfeedback : s.feedback = [result])
    (hsubmission : s.submission = none)

theorem phase_start (index : IX) (timeNow : Nat) (conf : ExecutionConfig U)
    (multiBacklog : MultiPair PR L) :
    (start index timeNow conf multiBacklog : ExecutionPart IX L PR CO P V B SO TX E).Phase :=
  .quiet ⟨fun _ => TLB.idle_new timeNow conf, rfl⟩ rfl rfl

/-- An executor that is polled and has no feedback to handle waits for none. -/
theorem Phase.quiet_of_polled (h : s.Phase) (hpolled : s.Polled) :
    s.executor.Quiet ∧ s.feedback = [] := by
  obtain ⟨hnone, hhandled⟩ := hpolled
  rcases h with ⟨hexec, hfeedback, -⟩ | ⟨-, -, hsubmission⟩ | ⟨⟨effects, hpending, -⟩, hfeedback, -⟩
  · exact ⟨hexec, hfeedback⟩
  · rw [hnone] at hsubmission
    cases hsubmission
  · rw [hpending, hfeedback] at hhandled
    simp at hhandled

/-- Feedback is only there for a batch that waits for it, and there is one of it. -/
theorem Phase.awaits_of_feedback (h : s.Phase) {effects : Effects PR CO SO P V B}
    {result : Except E Unit} {feedback : List (Except E Unit)}
    (hpending : s.executor.pendingEffects = some effects)
    (hfeedback : s.feedback = result :: feedback) :
    ({ s.executor with pendingEffects := none }).Awaits effects.execution ∧ feedback = [] := by
  rcases h with ⟨-, hnone, -⟩ | ⟨-, hnone, -⟩ | ⟨⟨effects', hpending', hawaits⟩, hone, -⟩
  · rw [hfeedback] at hnone
    cases hnone
  · rw [hfeedback] at hnone
    cases hnone
  · rw [hpending, Option.some.injEq] at hpending'
    rw [hfeedback, List.cons.injEq] at hone
    rw [hpending']
    exact ⟨hawaits, hone.2⟩

variable [DecidableEq V] [DecidableEq SID] [Stable CO] [TakerBehaviour CO] [SideOrd CO]
  [MarketMaker P U] [MakerBehavior P] [Composable CO P SID] [Std.TransOrd B]
  [StateIndex IX (EvolvingEntity CO P V B)] [SpecializedOrder SO V SID]
  [HotBacklog L (Bundled SO B) V] [HasVersion B V] [Zero U] [Add U] [LT U]
  {interpreters : Interpreters CO SO P V B TC TX} {missingInputs : E → Option (Finset V)}
  {outcome : Except Panic (ExecutionPart IX L PR CO P V B SO TX E)}

theorem Phase.step (h : s.Phase) (hstep : Step LCX interpreters missingInputs s outcome) :
    Safe Phase outcome := by
  cases hstep with
  | submitted result hsubmission =>
    rcases h with ⟨-, -, hnone⟩ | ⟨hexec, hfeedback, -⟩ | ⟨-, -, hnone⟩
    · rw [hsubmission] at hnone
      cases hnone
    · refine .answered hexec (show s.feedback ++ [result] = [result] from ?_) rfl
      rw [hfeedback, List.nil_append]
    · rw [hsubmission] at hnone
      cases hnone
  | accepted hsubmission hpending hfeedback =>
    obtain ⟨hawaits, hrest⟩ := h.awaits_of_feedback hpending hfeedback
    exact hawaits.success.map fun executor hquiet => .quiet (hquiet.of_eq rfl rfl) hrest hsubmission
  | rejected relevantBearers hsubmission hpending hfeedback hnodup hrelevant =>
    obtain ⟨hawaits, hrest⟩ := h.awaits_of_feedback hpending hfeedback
    exact (hawaits.failure _ relevantBearers).map fun executor hquiet =>
      .quiet (hquiet.of_eq rfl rfl) hrest hsubmission
  | upstream pair event hpolled =>
    obtain ⟨hquiet, hfeedback⟩ := h.quiet_of_polled hpolled
    exact (hquiet.onPairEvent event).map fun executor hexec => .quiet hexec hfeedback hpolled.1
  | funding event hpolled =>
    obtain ⟨hquiet, hfeedback⟩ := h.quiet_of_polled hpolled
    have hfunded : (s.executor.onFundingEvent event).Quiet := by
      cases event with
      | consumed fundingBearer => exact hquiet.of_eq rfl rfl
      | produced fundingBearer => exact hquiet.of_eq rfl rfl
    exact .quiet hfunded hfeedback hpolled.1
  | block blocker hpolled hblocker =>
    obtain ⟨hquiet, hfeedback⟩ := h.quiet_of_polled hpolled
    exact .quiet (hquiet.of_eq rfl rfl) hfeedback hpolled.1
  | unblock hpolled =>
    obtain ⟨hquiet, hfeedback⟩ := h.quiet_of_polled hpolled
    exact .quiet (hquiet.of_eq rfl rfl) hfeedback hpolled.1
  | matchmake hpolled hblocker hmatch =>
    obtain ⟨hquiet, hfeedback⟩ := h.quiet_of_polled hpolled
    refine (hquiet.matchmakes hmatch).map fun result hmatched => ?_
    obtain ⟨executor, submission⟩ := result
    cases submission with
    | none => exact .quiet hmatched hfeedback rfl
    | some tx => exact .submitting hmatched hfeedback rfl

/-- What a run comes to, whatever the events, the feedback and the order in which they come. -/
abbrev Reaches (LCX : Type) (interpreters : Interpreters CO SO P V B TC TX)
    (missingInputs : E → Option (Finset V)) (s s' : ExecutionPart IX L PR CO P V B SO TX E) : Prop :=
  Relation.ReflTransGen (fun s s' => Step LCX interpreters missingInputs s (.ok s')) s s'

theorem phase_of_reaches {s' : ExecutionPart IX L PR CO P V B SO TX E}
    (hrun : Reaches LCX interpreters missingInputs s s') (h : s.Phase) : s'.Phase := by
  induction hrun with
  | refl => exact h
  | tail _ hstep ih => exact ih.step hstep

/-- No step of a run finds a book in preview that it would change. -/
theorem preview_never_mutated (interpreters : Interpreters CO SO P V B TC TX)
    (missingInputs : E → Option (Finset V)) (index : IX) (timeNow : Nat) (conf : ExecutionConfig U)
    (multiBacklog : MultiPair PR L)
    (hrun : Reaches LCX interpreters missingInputs (start index timeNow conf multiBacklog) s)
    (hstep : Step LCX interpreters missingInputs s outcome) : outcome ≠ .error .previewMutated := by
  have hphase := phase_of_reaches hrun (phase_start index timeNow conf multiBacklog)
  have hsafe := hphase.step hstep
  rintro rfl
  exact hsafe rfl

end ExecutionPart

/-! ### An order that appears and goes again -/

/-- An order for a pool, which names itself. -/
structure SampleDeposit where
  selfRef : Nat
  poolRef : TokenId
deriving DecidableEq

instance : Composable SimpleOrderPF SimpleCFMMPool TokenId where
  takerId id := id
  makerId id := id
  isQuasiPermanentTaker _ := false
  isQuasiPermanentMaker _ := true

instance : SpecializedOrder SampleDeposit Nat TokenId where
  getSelfRef := SampleDeposit.selfRef
  getPoolRef := SampleDeposit.poolRef

instance : Backlog.UniqueOrder (Bundled SampleDeposit Nat) Nat := ⟨fun order => order.entity.selfRef⟩

instance : Backlog.Weighted (Bundled SampleDeposit Nat) Nat := ⟨Bundled.bearer⟩

instance : HasVersion Nat Nat := ⟨id⟩

instance : RawStableId (EvolvingEntity SimpleOrderPF SimpleCFMMPool Nat Nat) :=
  ⟨fun id => ⟨(show TokenId from id).val ++ List.replicate 32 0, by simp [(show TokenId from id).2]⟩⟩

namespace ExecutionPart

/-- The order, in the box of the first version. -/
def sampleNews : Bundled (BakedEntity SimpleOrderPF SimpleCFMMPool Nat) Nat :=
  ⟨.inl ⟨sampleOrder 1 .ask 1 100 1, 1⟩, 1⟩

/-- No transaction is made, and errors tell nothing. -/
def sampleInterpreters : Interpreters SimpleOrderPF SampleDeposit SimpleCFMMPool Nat Nat Unit Unit where
  tradeInterpreter _ _ _ := False
  specInterpreter _ _ result := result = none
  prove := id

def samplePart : ExecutionPart (InMemoryStateIndex (EvolvingEntity SimpleOrderPF SimpleCFMMPool Nat Nat))
    (Backlog.HotPriorityBacklog Backlog.SampleQueue (Bundled SampleDeposit Nat) Nat) Unit SimpleOrderPF
    SimpleCFMMPool Nat Nat SampleDeposit Unit Unit :=
  start .new 0 ⟨⟨100, 200⟩, true, 10⟩ (.new fun _ => .new 10)

theorem preview_never_mutated_sample :
    (do
      let executor ← samplePart.executor.onPairEvent () (.inl (.mempool (.forward (.right sampleNews))) :
        Event SimpleOrderPF SampleDeposit SimpleCFMMPool Nat Nat Unit)
      executor.onPairEvent () (.inl (.ledger (.forward (.left sampleNews)) ()))) ≠
      .error .previewMutated := by
  intro h
  have happears : ExecutionPart.Step Unit sampleInterpreters (fun _ => none) samplePart _ :=
    .upstream () (.inl (.mempool (.forward (.right sampleNews)))) ⟨rfl, .inl rfl⟩
  cases hfirst : samplePart.executor.onPairEvent () (.inl (.mempool (.forward (.right sampleNews))) :
      Event SimpleOrderPF SampleDeposit SimpleCFMMPool Nat Nat Unit) with
  | error why =>
    rw [hfirst] at h happears
    exact preview_never_mutated sampleInterpreters (fun _ => none) _ _ _ _ .refl happears
      (congrArg Except.error (Except.error.inj h))
  | ok executor =>
    rw [hfirst] at h happears
    have hgone := preview_never_mutated sampleInterpreters (fun _ => none) _ _ _ _ (.single happears)
      (.upstream () (.inl (.ledger (.forward (.left sampleNews)) ())) ⟨rfl, .inr rfl⟩)
    exact hgone (congrArg _ h)

end ExecutionPart

end UtxoMonitor.ExecutionEngine
