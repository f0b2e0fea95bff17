import UtxoMonitor.ExecutionEngine.Blueprint
import UtxoMonitor.ExecutionEngine.Settled

/-! The boxes that transactions are funded with, over the runs of an executor. -/
namespace UtxoMonitor.ExecutionEngine

open LiquidityBook Domain Lib

/-! ### What is heard of funding boxes -/

/-- The funding box that a transaction was made with, whether it spends it or not. -/
def FundingIO.input {T K : Type} : FundingIO T K → T
  | .replaced consumed _ => consumed
  | .added unused _ => unused
  | .notUsed unused => unused

/-- The operator's transactions account for the funding box that they are made with. -/
theorem TxBlueprint.input_of_projectOntoBuilder {self : TxBlueprint} {txb txb' : TransactionBuilder}
    {operatorAddress : Address} {operatorFunding : EventSink.FinalizedTxOut}
    {operatorInterest : UInt64}
    {fundingIo : FundingIO EventSink.FinalizedTxOut Pools.TransactionOutput}
    (h : self.projectOntoBuilder txb operatorAddress operatorFunding operatorInterest =
      .ok (txb', fundingIo)) : fundingIo.input = operatorFunding := by
  obtain ⟨⟨entry, io⟩, hentry, hbuilt⟩ := Checked.bind_eq_ok.mp h
  obtain ⟨-, rfl⟩ := Prod.mk.inj (Checked.pure_eq_ok.mp hbuilt)
  unfold fundingEntry at hentry
  split at hentry
  · split at hentry
    · split at hentry
      · cases hentry
        rfl
      · cases hentry
        rfl
    · dsimp only at hentry
      split at hentry
      · cases hentry
        rfl
      · cases hentry
  · cases hentry
    rfl

variable {B V : Type} [Ord B]

namespace FundingEvent

def consumes (b : B) : FundingEvent B → Bool
  | .consumed funding => compare funding b == .eq
  | .produced _ => false

def produces (b : B) : FundingEvent B → Bool
  | .consumed _ => false
  | .produced funding => compare funding b == .eq

variable [HasVersion B V] [DecidableEq V]

/-- The event consumes a box that is named as missing. -/
def misses (missingInputs : Option (Finset V)) : FundingEvent B → Bool
  | .consumed funding => HasVersion.select funding ∈ missingInputs.getD ∅
  | .produced _ => false

end FundingEvent

/-- What an executor hears of funding boxes: what others do with them, and what came of a transaction
of its own. -/
inductive FundingNews (B V : Type) where
  | announced (event : FundingEvent B)
  | accepted (effects : List (FundingEvent B))
  | rejected (missingInputs : Option (Finset V)) (effects : List (FundingEvent B))
  | nothing

namespace FundingNews

/-- How often a box comes into being. -/
def makes (b : B) : FundingNews B V → Nat
  | .announced event => if event.produces b then 1 else 0
  | .accepted effects => effects.countP (·.produces b)
  | .rejected _ _ => 0
  | .nothing => 0

/-- A box is taken back by others. -/
def retracts (b : B) : FundingNews B V → Bool
  | .announced event => event.consumes b
  | _ => false

variable [HasVersion B V] [DecidableEq V]

/-- How often a box is spent by a transaction of the executor, or turns out to be spent already. -/
def spends (b : B) : FundingNews B V → Nat
  | .announced _ => 0
  | .accepted effects => effects.countP (·.consumes b)
  | .rejected missingInputs effects =>
    effects.countP fun event => event.consumes b && event.misses missingInputs
  | .nothing => 0

end FundingNews

namespace Executor

variable {IX L PR CO P SO SID U LCX TC TX : Type} [MarketTaker CO U] [Ord CO] [Stable P]
  {self : Executor IX L PR CO P V B SO} {pair : PR} {b : B}

/-! ### The pool of funding boxes -/

section

variable [Std.TransOrd B]

theorem mem_onFundingEvent {event : FundingEvent B} : b ∈ (self.onFundingEvent event).fundingPool ↔
    event.produces b ∨ (b ∈ self.fundingPool ∧ ¬ event.consumes b) := by
  cases event with
  | consumed funding =>
    simp [onFundingEvent, FundingEvent.produces, FundingEvent.consumes, Std.ExtTreeSet.mem_erase,
      and_comm]
  | produced funding =>
    simp [onFundingEvent, FundingEvent.produces, FundingEvent.consumes, Std.ExtTreeSet.mem_insert]

theorem mem_onFundingEffectsSuccess {effects : List (FundingEvent B)} :
    b ∈ (self.onFundingEffectsSuccess effects).fundingPool ↔
      b ∈ self.fundingPool ∨ ∃ event ∈ effects, event.produces b := by
  simp only [onFundingEffectsSuccess, List.foldl_reverse]
  induction effects with
  | nil => simp
  | cons event effects ih =>
    cases event with
    | consumed funding =>
      rw [List.foldr_cons, ih]
      simp [FundingEvent.produces]
    | produced funding =>
      rw [List.foldr_cons, Std.ExtTreeSet.mem_insert, ih]
      simp [FundingEvent.produces, or_left_comm]

theorem mem_onFundingEffectsFailure [HasVersion B V] [DecidableEq V]
    {missingInputs : Option (Finset V)} {effects : List (FundingEvent B)} :
    b ∈ (self.onFundingEffectsFailure missingInputs effects).fundingPool ↔
      b ∈ self.fundingPool ∨
        ∃ event ∈ effects, event.consumes b ∧ ¬ event.misses missingInputs := by
  simp only [onFundingEffectsFailure, List.foldl_reverse]
  induction effects with
  | nil => simp
  | cons event effects ih =>
    cases event with
    | consumed funding =>
      rw [List.foldr_cons]
      by_cases hmissing : HasVersion.select funding ∈ missingInputs.getD ∅
      · simp only [if_pos hmissing, ih]
        simp [FundingEvent.misses, hmissing]
      · simp only [if_neg hmissing, Std.ExtTreeSet.mem_insert, ih]
        simp [FundingEvent.consumes, FundingEvent.misses, hmissing, or_left_comm]
    | produced funding =>
      rw [List.foldr_cons, ih]
      simp [FundingEvent.consumes]

end

section

variable [Std.TransOrd B]

/-! ### Where a box is -/

/-- The box waits in the pool. -/
def pooled (self : Executor IX L PR CO P V B SO) (b : B) : Nat :=
  if b ∈ self.fundingPool then 1 else 0

/-- The box is in the transaction of which the fate is not known yet. -/
def lent (self : Executor IX L PR CO P V B SO) (b : B) : Nat :=
  self.pendingEffects.elim 0 fun effects => effects.funding.countP (·.consumes b)

omit [Std.TransOrd B] in
theorem lent_of_pending {effects : Effects PR CO SO P V B} (h : self.pendingEffects = some effects) :
    self.lent b = effects.funding.countP (·.consumes b) := by
  rw [lent, h]
  rfl

theorem pooled_pos : 0 < self.pooled b ↔ b ∈ self.fundingPool := by
  unfold pooled
  by_cases h : b ∈ self.fundingPool
  · simp [h]
  · simp [h]

theorem pooled_le {self' : Executor IX L PR CO P V B SO} {n : Nat}
    (h : b ∈ self'.fundingPool → b ∈ self.fundingPool ∨ 0 < n) :
    self'.pooled b ≤ self.pooled b + n := by
  unfold pooled
  by_cases h' : b ∈ self'.fundingPool
  · rcases h h' with hmem | hn
    · simp [h', hmem]
    · simp only [h', if_true]
      omega
  · simp [h']

theorem pooled_congr {self' : Executor IX L PR CO P V B SO}
    (h : b ∈ self.fundingPool ↔ b ∈ self'.fundingPool) : self.pooled b = self'.pooled b := by
  unfold pooled
  exact if_congr h rfl rfl

/-- A transaction is made without funding, or with the first box of the pool. -/
inductive Hands (self exec : Executor IX L PR CO P V B SO) : Prop where
  | nothing (hpool : exec.fundingPool = self.fundingPool)
    (hpending : ∃ execution, exec.pendingEffects = some ⟨execution, []⟩)
  | first {funding : B} {io : FundingIO B B} (hpop : self.fundingPool.min? = some funding)
    (hinput : compare io.input funding = .eq)
    (hpool : exec.fundingPool = io.intoEffects.1.elim (self.fundingPool.erase funding)
      fun unused => (self.fundingPool.erase funding).insert unused)
    (hpending : ∃ execution, exec.pendingEffects = some ⟨execution, io.intoEffects.2⟩)

/-- What a look for a match does with the funding boxes. -/
def Looked (self : Executor IX L PR CO P V B SO) :
    Executor IX L PR CO P V B SO × Option TX → Prop
  | (exec, none) => exec.fundingPool = self.fundingPool
  | (exec, some _) => self.Hands exec

theorem Hands.of_pool {self' exec : Executor IX L PR CO P V B SO} (h : self.Hands exec)
    (hpool : self.fundingPool = self'.fundingPool) : self'.Hands exec := by
  cases h with
  | nothing hkept hpending => exact .nothing (hkept.trans hpool) hpending
  | first hpop hinput htaken hpending =>
    rw [hpool] at hpop htaken
    exact .first hpop hinput htaken hpending

theorem Looked.of_pool {self' : Executor IX L PR CO P V B SO}
    {result : Executor IX L PR CO P V B SO × Option TX} (h : self.Looked result)
    (hpool : self.fundingPool = self'.fundingPool) : self'.Looked result := by
  obtain ⟨exec, submission⟩ := result
  cases submission with
  | none => exact h.trans hpool
  | some tx => exact Hands.of_pool h hpool

/-- A box that is handed out is in the transaction, or back in the pool. -/
theorem Hands.accounts {exec : Executor IX L PR CO P V B SO} (h : self.Hands exec) :
    exec.lent b + exec.pooled b = self.pooled b := by
  cases h with
  | nothing hpool hpending =>
    obtain ⟨execution, hpending⟩ := hpending
    rw [lent_of_pending hpending, List.countP_nil, Nat.zero_add, pooled, pooled, hpool]
  | @first funding io hpop hinput hpool hpending =>
    obtain ⟨execution, hpending⟩ := hpending
    have hfunding : funding ∈ self.fundingPool := Std.ExtTreeSet.min?_mem hpop
    have hsame : compare io.input b = compare funding b := Std.TransCmp.congr_left hinput
    have hmem : compare funding b = .eq → b ∈ self.fundingPool :=
      fun heq => (Std.ExtTreeSet.mem_congr heq).mp hfunding
    -- The box that the transaction was made with went back to the pool.
    have hback : compare io.input b = .eq ∨ (compare funding b ≠ .eq ∧ b ∈ self.fundingPool) ↔
        b ∈ self.fundingPool := by
      rw [hsame]
      constructor
      · rintro (heq | ⟨-, hmem'⟩)
        · exact hmem heq
        · exact hmem'
      · intro hmem'
        by_cases heq : compare funding b = .eq
        · exact Or.inl heq
        · exact Or.inr ⟨heq, hmem'⟩
    rw [lent_of_pending hpending]
    cases io with
    | replaced consumed produced =>
      have hpool' : exec.fundingPool = self.fundingPool.erase funding := hpool
      have hsame' : compare consumed b = compare funding b := hsame
      simp only [ FundingIO.intoEffects, List.countP_cons, List.countP_nil, FundingEvent.consumes,
        hsame', pooled, hpool', Std.ExtTreeSet.mem_erase]
      by_cases heq : compare funding b = .eq
      · simp [heq, hmem heq]
      · simp [heq]
    | added unused produced =>
      have hpool' : exec.fundingPool = (self.fundingPool.erase funding).insert unused := hpool
      have hkept : b ∈ exec.fundingPool ↔ b ∈ self.fundingPool := by
        rw [hpool', Std.ExtTreeSet.mem_insert, Std.ExtTreeSet.mem_erase]
        exact hback
      rw [pooled_congr hkept]
      simp [ FundingIO.intoEffects, FundingEvent.consumes]
    | notUsed unused =>
      have hpool' : exec.fundingPool = (self.fundingPool.erase funding).insert unused := hpool
      have hkept : b ∈ exec.fundingPool ↔ b ∈ self.fundingPool := by
        rw [hpool', Std.ExtTreeSet.mem_insert, Std.ExtTreeSet.mem_erase]
        exact hback
      rw [pooled_congr hkept]
      simp [ FundingIO.intoEffects]

end

/-! ### What leaves the pool alone -/

variable [DecidableEq PR]

theorem lent_of_quiet (h : self.Quiet) : self.lent b = 0 := by
  rw [lent, h.noPending]
  rfl

/-- The computation, where it does not panic, leaves the funding boxes of an executor alone. -/
abbrev KeepsFunds (self : Executor IX L PR CO P V B SO)
    (m : Except Panic (Executor IX L PR CO P V B SO)) : Prop :=
  Yields (fun _ => False) (fun exec => exec.fundingPool = self.fundingPool) m

theorem withBook_keepsFunds (self : Executor IX L PR CO P V B SO) (pair : PR)
    (f : TLB CO P → Except Panic (TLB CO P)) :
    self.KeepsFunds (self.withBook pair f) := by
  have hf : Yields (fun _ => False) (fun _ => True) (f (self.multiBook.get pair)) := by
    cases f (self.multiBook.get pair) with
    | ok book => exact trivial
    | error why => exact fun h => h
  exact hf.bind fun book _ => rfl

section

variable [SideOrd CO] [MarketMaker P U]

theorem syncBook_keepsFunds (tr : Ior (BakedEntity CO P V) (BakedEntity CO P V)) :
    self.KeepsFunds (self.syncBook pair tr) := by
  rcases tr with (o | p) | (new | new) | ⟨old | old, new | new⟩
  · rw [syncBook]
    exact withBook_keepsFunds self pair _
  · rw [syncBook]
    exact withBook_keepsFunds self pair _
  · rw [syncBook]
    exact withBook_keepsFunds self pair _
  · rw [syncBook]
    exact withBook_keepsFunds self pair _
  · refine (withBook_keepsFunds self pair _).bind fun removed hremoved => ?_
    exact (withBook_keepsFunds removed pair _).mono fun exec hexec => hexec.trans hremoved
  · rw [syncBook]
    exact withBook_keepsFunds self pair _
  · exact fun h => h
  · rw [syncBook]
    exact withBook_keepsFunds self pair _

theorem syncBookWith_keepsFunds (transition : Option (Ior (BakedEntity CO P V) (BakedEntity CO P V))) :
    self.KeepsFunds (self.syncBookWith pair transition) := by
  cases transition with
  | some tr => exact syncBook_keepsFunds tr
  | none => rfl

end

section

variable [DecidableEq V] [DecidableEq SID] [Stable CO] [Composable CO P SID]
  [StateIndex IX (EvolvingEntity CO P V B)]

theorem invalidateVersions_keepsFunds [SideOrd CO] [MarketMaker P U] (versions : List V) :
    Yields (fun _ => False) (fun result => result.1.fundingPool = self.fundingPool)
      (self.invalidateVersions pair versions) := by
  induction versions generalizing self with
  | nil => rfl
  | cons ver versions ih =>
    rw [Executor.invalidateVersions]
    cases StateIndex.getState (T := EvolvingEntity CO P V B) self.index ver with
    | some state =>
      refine (syncBookWith_keepsFunds _).bind fun synced hsynced => ?_
      exact ih.mono fun result hresult => hresult.trans hsynced
    | none => exact ih.bind fun result hresult => hresult

omit [DecidableEq PR] in
theorem updateState_keepsFunds (self : Executor IX L PR CO P V B SO)
    (update : Channel (Transition (EvolvingEntity CO P V B)) LCX) :
    (self.updateState update).2.fundingPool = self.fundingPool := by
  have hobserve : ∀ newState stateToRollback isRollbackUpd,
      (self.observeState update newState stateToRollback isRollbackUpd).2.fundingPool =
        self.fundingPool := by
    intro newState stateToRollback isRollbackUpd
    by_cases hskipped :
        self.skipFilter.contains (entityVersion newState.entity) ∧ ¬ isRollbackUpd
    · simp only [observeState, if_pos hskipped]
    · simp only [observeState, if_neg hskipped]
  have heliminate : ∀ st, (self.eliminateState update st).2.fundingPool = self.fundingPool := by
    intro st
    simp only [eliminateState, apply_ite fundingPool, ite_self]
  unfold updateState
  split
  · exact hobserve _ _ _
  · exact hobserve _ _ _
  · exact hobserve _ _ _
  · exact hobserve _ _ _
  · exact heliminate _
  · exact heliminate _

/-- An entity is moved on from, and the book is told. -/
theorem process_keepsFunds [SideOrd CO] [MarketMaker P U] (self : Executor IX L PR CO P V B SO)
    (pair : PR) (ver : V) (update : Channel (Transition (EvolvingEntity CO P V B)) LCX) :
    self.KeepsFunds (((self.onEntityProcessed ver).updateState update).2.syncBookWith pair
      ((self.onEntityProcessed ver).updateState update).1) :=
  (syncBookWith_keepsFunds _).mono fun _ hexec => hexec.trans (updateState_keepsFunds _ update)

theorem applyEffects_keepsFunds [SideOrd CO] [MarketMaker P U]
    (effs : List (ExecutionEff (EvolvingEntity CO P V B) (EvolvingEntity CO P V B))) :
    self.KeepsFunds (self.applyEffects pair effs) := by
  induction effs generalizing self with
  | nil => rfl
  | cons eff effs ih =>
    cases eff with
    | updated elim upd =>
      have hprocessed := self.process_keepsFunds pair (entityVersion elim.entity)
        (.localTxSubmit (.forward (.both elim upd)) : Channel _ Unit)
      refine hprocessed.bind fun processed hprocessed => ?_
      exact ih.mono fun exec hexec => hexec.trans hprocessed
    | eliminated elim =>
      have hprocessed := self.process_keepsFunds pair (entityVersion elim.entity)
        (.localTxSubmit (.forward (.left elim)) : Channel _ Unit)
      refine hprocessed.bind fun processed hprocessed => ?_
      exact ih.mono fun exec hexec => hexec.trans hprocessed

end

variable [DecidableEq V] [DecidableEq SID] [Stable CO] [TakerBehaviour CO] [SideOrd CO]
  [MarketMaker P U] [MakerBehavior P] [Composable CO P SID] [Std.TransOrd B]
  [StateIndex IX (EvolvingEntity CO P V B)] [SpecializedOrder SO V SID]
  [HotBacklog L (Bundled SO B) V]

omit [TakerBehaviour CO] [MakerBehavior P] [Std.TransOrd B] [HotBacklog L (Bundled SO B) V] in
theorem onExecutionEffectsSuccess_keepsFunds (self : Executor IX L PR CO P V B SO)
    (effects : ExecutionEffectsByPair PR CO SO P V B) :
    self.KeepsFunds (self.onExecutionEffectsSuccess effects) := by
  obtain ⟨pair, consumedVersions, pendingEffects⟩ := effects
  cases pendingEffects with
  | fromLiquidityBook effs =>
    refine (withBook_keepsFunds _ _ _).bind fun committed hcommitted => ?_
    exact (applyEffects_keepsFunds _).mono fun exec hexec => hexec.trans hcommitted
  | fromBacklog newPool consumedOrd => exact updateState_keepsFunds _ _

omit [TakerBehaviour CO] [MakerBehavior P] [Std.TransOrd B] in
theorem onExecutionEffectsFailure_keepsFunds (self : Executor IX L PR CO P V B SO)
    (missingInputs : Option (Finset V)) (effects : ExecutionEffectsByPair PR CO SO P V B) (relevantBearers : List V) :
    self.KeepsFunds (self.onExecutionEffectsFailure missingInputs effects relevantBearers) := by
  obtain ⟨pair, consumedVersions, pendingEffects⟩ := effects
  cases missingInputs with
  | some missingInputs =>
    cases pendingEffects with
    | fromLiquidityBook effs =>
      refine (withBook_keepsFunds _ _ _).bind fun failed hfailed => ?_
      refine (invalidateVersions_keepsFunds relevantBearers).bind fun result hresult => ?_
      show self.KeepsFunds (if result.2 = [] then pure result.1 else throw .stateInconsistency)
      split
      · exact hresult.trans hfailed
      · exact fun h => h
    | fromBacklog newPool order =>
      exact (invalidateVersions_keepsFunds relevantBearers).bind fun result hresult => hresult
  | none =>
    cases pendingEffects with
    | fromLiquidityBook effs =>
      rw [onExecutionEffectsFailure]
      exact withBook_keepsFunds self pair _
    | fromBacklog newPool order => rfl

omit [TakerBehaviour CO] [MakerBehavior P] [Std.TransOrd B] in
theorem onPairEvent_keepsFunds (self : Executor IX L PR CO P V B SO) (pair : PR)
    (event : Event CO SO P B V LCX) :
    self.KeepsFunds (self.onPairEvent pair event) := by
  cases event with
  | inl evolvingEntity =>
    refine (syncBookWith_keepsFunds _).bind fun synced hsynced => ?_
    exact hsynced.trans (updateState_keepsFunds _ _)
  | inr atomicEntity =>
    show (self.syncBacklog pair atomicEntity).fundingPool = self.fundingPool
    unfold syncBacklog
    split
    · split
      · rfl
      · rfl
    · split
      · rfl
      · rfl

/-! ### Matchmaking -/

/-- Interpreters account for the funding box that they are given. -/
def AccountsForFunding (interpreters : Interpreters CO SO P V B TC TX) : Prop :=
  ∀ linkedRecipe funding result, interpreters.tradeInterpreter linkedRecipe funding result →
    compare result.fundingIO.input funding = .eq

variable [Zero U] [Add U] [LT U] {interpreters : Interpreters CO SO P V B TC TX}

omit [SpecializedOrder SO V SID] [HotBacklog L (Bundled SO B) V] in
theorem looked_triesBook (hfunds : AccountsForFunding interpreters)
    {outcome : Except Panic (Executor IX L PR CO P V B SO × Option TX)}
    (htries : TriesBook interpreters pair self outcome) :
    Yields (fun _ => False) self.Looked outcome := by
  cases htries with
  | noRecipe attempt => rfl
  | @submitted book recipe linkedRecipe consumedVersions funding result attempt link pop run =>
    refine .first pop (hfunds _ _ _ run) ?_ ⟨_, rfl⟩
    rcases result with ⟨txc, effects, consumed | unused | unused⟩
    · rfl
    · rfl
    · rfl
  | noFunding attempt link pop => rfl
  | orphaned attempt link => exact (withBook_keepsFunds _ _ _).map fun exec hexec => hexec

omit [TakerBehaviour CO] [SideOrd CO] [MarketMaker P U] [MakerBehavior P] [Zero U] [Add U]
  [LT U] in
theorem looked_triesBacklog {result : Executor IX L PR CO P V B SO × Option TX}
    (htries : TriesBacklog interpreters pair self result) : self.Looked result := by
  cases htries with
  | noOrder pop => rfl
  | noPool pop resolved => rfl
  | notRun pop resolved run => rfl
  | submitted pop resolved run => exact .nothing rfl ⟨_, rfl⟩

/-- However many pairs are tried, at most one funding box is handed out. -/
theorem looked_matchmakes (hfunds : AccountsForFunding interpreters)
    {outcome : Except Panic (Executor IX L PR CO P V B SO × Option TX)}
    (hmatch : Matchmakes interpreters self outcome) :
    Yields (fun _ => False) self.Looked outcome := by
  induction hmatch with
  | exhausted pop => rfl
  | panics pop book => exact fun h => h
  | trade pop book =>
    exact (looked_triesBook hfunds book).mono fun result hbook => hbook.of_pool rfl
  | @order self self' self'' _ _ _ pop book backlog =>
    have hbook : self'.fundingPool = self.fundingPool := looked_triesBook hfunds book
    exact (looked_triesBacklog backlog).of_pool hbook
  | @next self self' self'' _ _ _ pop book backlog rest ih =>
    have hbook : self'.fundingPool = self.fundingPool := looked_triesBook hfunds book
    have hbacklog : self''.fundingPool = self'.fundingPool := looked_triesBacklog backlog
    exact ih.mono fun result hresult => hresult.of_pool (hbacklog.trans hbook)

end Executor

namespace ExecutionPart

section

variable {IX L PR CO P SO U TX E : Type} [DecidableEq PR] [DecidableEq V] [MarketTaker CO U] [Ord CO]
  [Stable P] [Std.TransOrd B] [HasVersion B V] {news : FundingNews B V}
  {s s' : ExecutionPart IX L PR CO P V B SO TX E}

/-! ### Accounts -/

/-- What a step does to the accounts of a box. A box may come into being that is in the pool already,
so they need not be even. -/
structure Accounts (b : B) (news : FundingNews B V)
    (s s' : ExecutionPart IX L PR CO P V B SO TX E) : Prop where
  spent_le : news.spends b + (s'.executor.lent b + s'.executor.pooled b) ≤
    s.executor.lent b + s.executor.pooled b + news.makes b
  kept : 0 < s.executor.lent b + s.executor.pooled b → news.spends b = 0 →
    news.retracts b = false → 0 < s'.executor.lent b + s'.executor.pooled b

omit [DecidableEq PR] in
/-- Steps that leave a box where it is, or lend it. -/
theorem Accounts.of_eq {b : B} (h : s'.executor.lent b + s'.executor.pooled b =
    s.executor.lent b + s.executor.pooled b) : Accounts b .nothing s s' where
  spent_le := by
    rw [h, FundingNews.spends, FundingNews.makes]
    omega
  kept hpos _ _ := by
    rw [h]
    exact hpos

/-- What came of the transaction is known, so nothing is lent any more. -/
theorem Accounts.of_settled {b : B} {effects : Effects PR CO SO P V B} (returned : Nat)
    (hpending : s.executor.pendingEffects = some effects) (hquiet : s'.executor.Quiet)
    (hmem : b ∈ s'.executor.fundingPool ↔ b ∈ s.executor.fundingPool ∨ 0 < returned + news.makes b)
    (hcount : effects.funding.countP (·.consumes b) = news.spends b + returned) :
    Accounts b news s s' where
  spent_le := by
    rw [Executor.lent_of_quiet hquiet, Executor.lent_of_pending hpending, hcount]
    have hle := Executor.pooled_le hmem.mp
    omega
  kept hpos hspends _ := by
    rw [Executor.lent_of_pending hpending, hcount, hspends] at hpos
    have hback : b ∈ s'.executor.fundingPool := by
      rw [hmem]
      by_cases hpooled : b ∈ s.executor.fundingPool
      · exact Or.inl hpooled
      · rw [Executor.pooled, if_neg hpooled] at hpos
        exact Or.inr (by omega)
    rw [Executor.pooled, if_pos hback]
    omega

end

variable {IX L PR CO P SO SID U TC TX E : Type} [DecidableEq PR] [DecidableEq V] [DecidableEq SID]
  [Stable CO] [MarketTaker CO U] [TakerBehaviour CO] [Ord CO] [SideOrd CO] [Stable P]
  [MarketMaker P U] [MakerBehavior P] [Composable CO P SID] [Std.TransOrd B]
  [StateIndex IX (EvolvingEntity CO P V B)] [SpecializedOrder SO V SID]
  [HotBacklog L (Bundled SO B) V] [HasVersion B V] [Zero U] [Add U] [LT U]

/-! ### Runs with what is heard in them -/

/-- A step, with what the executor hears of funding boxes. -/
inductive Hears (LCX : Type) (interpreters : Interpreters CO SO P V B TC TX)
    (missingInputs : E → Option (Finset V)) (s : ExecutionPart IX L PR CO P V B SO TX E) :
    FundingNews B V → ExecutionPart IX L PR CO P V B SO TX E → Prop where
  | submitted {tx : TX} (result : Except E Unit) (hsubmission : s.submission = some tx) :
    Hears LCX interpreters missingInputs s .nothing
      { s with feedback := s.feedback ++ [result], submission := none }
  | accepted {effects : Effects PR CO SO P V B} {feedback : List (Except E Unit)}
    {executor : Executor IX L PR CO P V B SO} (hsubmission : s.submission = none)
    (hpending : s.executor.pendingEffects = some effects) (hfeedback : s.feedback = .ok () :: feedback)
    (hexec : { s.executor with pendingEffects := none }.onExecutionEffectsSuccess
      effects.execution = .ok executor) :
    Hears LCX interpreters missingInputs s (.accepted effects.funding)
      { s with
        executor := executor.onFundingEffectsSuccess effects.funding
        feedback := feedback }
  | rejected {effects : Effects PR CO SO P V B} {feedback : List (Except E Unit)} {err : E}
    {executor : Executor IX L PR CO P V B SO} (relevantBearers : List V)
    (hsubmission : s.submission = none) (hpending : s.executor.pendingEffects = some effects)
    (hfeedback : s.feedback = .error err :: feedback) (hnodup : relevantBearers.Nodup)
    (hrelevant : relevantBearers.toFinset =
      (missingInputs err).getD ∅ ∩ effects.execution.consumedVersions)
    (hexec : { s.executor with pendingEffects := none }.onExecutionEffectsFailure
      (missingInputs err) effects.execution relevantBearers = .ok executor) :
    Hears LCX interpreters missingInputs s (.rejected (missingInputs err) effects.funding)
      { s with
        executor := executor.onFundingEffectsFailure (missingInputs err) effects.funding
        feedback := feedback }
  | upstream (pair : PR) (event : Event CO SO P B V LCX) {executor : Executor IX L PR CO P V B SO}
    (hpolled : s.Polled) (hexec : s.executor.onPairEvent pair event = .ok executor) :
    Hears LCX interpreters missingInputs s .nothing { s with executor := executor }
  | announced (event : FundingEvent B) (hpolled : s.Polled) :
    Hears LCX interpreters missingInputs s (.announced event)
      { s with executor := s.executor.onFundingEvent event }
  | block (blocker : Blocker) (hpolled : s.Polled) (hblocker : s.executor.blocker = none) :
    Hears LCX interpreters missingInputs s .nothing
      { s with executor := { s.executor with blocker := some blocker } }
  | unblock (hpolled : s.Polled) :
    Hears LCX interpreters missingInputs s .nothing
      { s with executor := { s.executor with blocker := none } }
  | matchmake {executor : Executor IX L PR CO P V B SO} {submission : Option TX}
    (hpolled : s.Polled) (hblocker : s.executor.blocker = none)
    (hmatch : Executor.Matchmakes interpreters s.executor (.ok (executor, submission))) :
    Hears LCX interpreters missingInputs s .nothing
      { s with executor := executor, submission := submission }

section

variable {s s' t : ExecutionPart IX L PR CO P V B SO TX E} {news : FundingNews B V}
  {log log' : List (FundingNews B V)} {interpreters : Interpreters CO SO P V B TC TX}
  {missingInputs : E → Option (Finset V)} {LCX : Type}

theorem Hears.step (h : Hears LCX interpreters missingInputs s news s') :
    Step LCX interpreters missingInputs s (.ok s') := by
  cases h with
  | submitted result hsubmission => exact .submitted result hsubmission
  | accepted hsubmission hpending hfeedback hexec =>
    have hstep : Step LCX interpreters missingInputs s _ :=
      .accepted hsubmission hpending hfeedback
    rwa [hexec] at hstep
  | rejected relevantBearers hsubmission hpending hfeedback hnodup hrelevant hexec =>
    have hstep : Step LCX interpreters missingInputs s _ :=
      .rejected relevantBearers hsubmission hpending hfeedback hnodup hrelevant
    rwa [hexec] at hstep
  | upstream pair event hpolled hexec =>
    have hstep : Step LCX interpreters missingInputs s _ := .upstream pair event hpolled
    rwa [hexec] at hstep
  | announced event hpolled => exact .funding event hpolled
  | block blocker hpolled hblocker => exact .block blocker hpolled hblocker
  | unblock hpolled => exact .unblock hpolled
  | matchmake hpolled hblocker hmatch => exact .matchmake hpolled hblocker hmatch

/-- In every step that does not panic the executor hears something, if only nothing. -/
theorem exists_hears {outcome : Except Panic (ExecutionPart IX L PR CO P V B SO TX E)}
    (h : Step LCX interpreters missingInputs s outcome) :
    Yields (fun _ => False) (fun s' => ∃ news, Hears LCX interpreters missingInputs s news s')
      outcome := by
  have hself : ∀ {A : Type} (m : Except Panic A), Yields (fun _ => False) (fun a => m = .ok a) m := by
    intro A m
    cases m with
    | ok a => rfl
    | error why => exact fun h => h
  cases h with
  | submitted result hsubmission => exact ⟨_, .submitted result hsubmission⟩
  | accepted hsubmission hpending hfeedback =>
    exact (hself _).map fun executor hexec =>
      ⟨_, .accepted hsubmission hpending hfeedback hexec⟩
  | rejected relevantBearers hsubmission hpending hfeedback hnodup hrelevant =>
    exact (hself _).map fun executor hexec =>
      ⟨_, .rejected relevantBearers hsubmission hpending hfeedback hnodup hrelevant hexec⟩
  | upstream pair event hpolled =>
    exact (hself _).map fun executor hexec => ⟨_, .upstream pair event hpolled hexec⟩
  | funding event hpolled => exact ⟨_, .announced event hpolled⟩
  | block blocker hpolled hblocker => exact ⟨_, .block blocker hpolled hblocker⟩
  | unblock hpolled => exact ⟨_, .unblock hpolled⟩
  | @matchmake outcome hpolled hblocker hmatch =>
    cases outcome with
    | ok result => exact ⟨_, .matchmake hpolled hblocker hmatch⟩
    | error why => exact fun h => h

/-- A run, with all that is heard in it. -/
inductive Run (LCX : Type) (interpreters : Interpreters CO SO P V B TC TX)
    (missingInputs : E → Option (Finset V)) (s : ExecutionPart IX L PR CO P V B SO TX E) :
    List (FundingNews B V) → ExecutionPart IX L PR CO P V B SO TX E → Prop where
  | refl : Run LCX interpreters missingInputs s [] s
  | tail {log : List (FundingNews B V)} {news : FundingNews B V}
    {t t' : ExecutionPart IX L PR CO P V B SO TX E}
    (run : Run LCX interpreters missingInputs s log t)
    (hears : Hears LCX interpreters missingInputs t news t') :
    Run LCX interpreters missingInputs s (log ++ [news]) t'

theorem Run.reaches (h : Run LCX interpreters missingInputs s log s') :
    Reaches LCX interpreters missingInputs s s' := by
  induction h with
  | refl => exact .refl
  | tail _ hears ih => exact ih.tail hears.step

theorem exists_run (h : Reaches LCX interpreters missingInputs s s') :
    ∃ log, Run LCX interpreters missingInputs s log s' := by
  induction h with
  | refl => exact ⟨[], .refl⟩
  | tail _ hstep ih =>
    obtain ⟨log, run⟩ := ih
    obtain ⟨news, hears⟩ : ∃ news, Hears LCX interpreters missingInputs _ news _ :=
      exists_hears hstep
    exact ⟨_, run.tail hears⟩

theorem Phase.accounts (h : s.Phase) (hfunds : Executor.AccountsForFunding interpreters)
    (hears : Hears LCX interpreters missingInputs s news s') (b : B) : Accounts b news s s' := by
  cases hears with
  | submitted result hsubmission => exact .of_eq rfl
  | @accepted effects feedback executor hsubmission hpending hfeedback hexec =>
    have hawaits := (h.awaits_of_feedback hpending hfeedback).1.success
    have hpool := Executor.onExecutionEffectsSuccess_keepsFunds
      { s.executor with pendingEffects := none } effects.execution
    rw [hexec] at hawaits hpool
    have hpool : executor.fundingPool = s.executor.fundingPool := hpool
    refine Accounts.of_settled 0 hpending (Executor.Quiet.of_eq hawaits rfl rfl) ?_ rfl
    rw [Executor.mem_onFundingEffectsSuccess, hpool, Nat.zero_add, FundingNews.makes,
      List.countP_pos_iff]
  | @rejected effects feedback err executor relevantBearers _ hpending hfeedback _ _ hexec =>
    have hawaits := (h.awaits_of_feedback hpending hfeedback).1.failure (missingInputs err)
      relevantBearers
    have hpool := Executor.onExecutionEffectsFailure_keepsFunds
      { s.executor with pendingEffects := none } (missingInputs err) effects.execution
      relevantBearers
    rw [hexec] at hawaits hpool
    have hpool : executor.fundingPool = s.executor.fundingPool := hpool
    -- Of what the transaction consumes, some is missing and the rest goes back.
    have hcount := List.countP_eq_countP_filter_add effects.funding (·.consumes b)
      (·.misses (missingInputs err))
    rw [List.countP_filter, List.countP_filter] at hcount
    refine Accounts.of_settled _ hpending (Executor.Quiet.of_eq hawaits rfl rfl) ?_ hcount
    rw [Executor.mem_onFundingEffectsFailure, hpool, FundingNews.makes, Nat.add_zero,
      List.countP_pos_iff]
    simp only [Bool.and_eq_true, Bool.not_eq_true', Bool.not_eq_true]
  | @upstream pair event executor hpolled hexec =>
    have hquiet := (h.quiet_of_polled hpolled).1
    have hquiet' : Safe Executor.Quiet (s.executor.onPairEvent pair event) := hquiet.onPairEvent event
    have hpool := s.executor.onPairEvent_keepsFunds pair event
    rw [hexec] at hquiet' hpool
    have hpool : executor.fundingPool = s.executor.fundingPool := hpool
    refine .of_eq ?_
    show executor.lent b + executor.pooled b = _
    rw [Executor.lent_of_quiet hquiet', Executor.lent_of_quiet hquiet, Executor.pooled,
      Executor.pooled, hpool]
  | announced event hpolled =>
    have hquiet := (h.quiet_of_polled hpolled).1
    have hquiet' : (s.executor.onFundingEvent event).Quiet := by
      cases event with
      | consumed funding => exact hquiet.of_eq rfl rfl
      | produced funding => exact hquiet.of_eq rfl rfl
    have hmem : b ∈ (s.executor.onFundingEvent event).fundingPool ↔
        event.produces b ∨ (b ∈ s.executor.fundingPool ∧ ¬ event.consumes b) :=
      Executor.mem_onFundingEvent
    constructor
    · have hle : (s.executor.onFundingEvent event).pooled b ≤
          s.executor.pooled b + (FundingNews.announced (V := V) event).makes b := by
        refine Executor.pooled_le fun hb => ?_
        rcases hmem.mp hb with hproduced | ⟨hb, -⟩
        · exact Or.inr (by simp [FundingNews.makes, hproduced])
        · exact Or.inl hb
      show 0 + ((s.executor.onFundingEvent event).lent b +
        (s.executor.onFundingEvent event).pooled b) ≤ _
      rw [Executor.lent_of_quiet hquiet, Executor.lent_of_quiet hquiet']
      omega
    · intro hpos _ hretracts
      have hretracts : event.consumes b = false := hretracts
      rw [Executor.lent_of_quiet hquiet, Nat.zero_add, Executor.pooled_pos] at hpos
      show 0 < (s.executor.onFundingEvent event).lent b +
        (s.executor.onFundingEvent event).pooled b
      rw [Executor.lent_of_quiet hquiet', Nat.zero_add, Executor.pooled_pos, hmem]
      exact Or.inr ⟨hpos, by simp [hretracts]⟩
  | block blocker hpolled hblocker => exact .of_eq rfl
  | unblock hpolled => exact .of_eq rfl
  | @matchmake executor submission hpolled hblocker hmatch =>
    have hquiet := (h.quiet_of_polled hpolled).1
    have hmatched := hquiet.matchmakes hmatch
    have hlooked := Executor.looked_matchmakes hfunds hmatch
    refine .of_eq ?_
    show executor.lent b + executor.pooled b = _
    rw [Executor.lent_of_quiet hquiet, Nat.zero_add]
    cases submission with
    | none =>
      have hquiet' : executor.Quiet := hmatched
      have hpool : executor.fundingPool = s.executor.fundingPool := hlooked
      rw [Executor.lent_of_quiet hquiet', Nat.zero_add, Executor.pooled, Executor.pooled, hpool]
    | some tx =>
      have hhands : s.executor.Hands executor := hlooked
      exact hhands.accounts

/-- In every run, a box is spent, lent and in the pool no more often than it came into being. -/
theorem Run.spent_le (run : Run LCX interpreters missingInputs s log s') (h : s.Phase)
    (hfunds : Executor.AccountsForFunding interpreters) (b : B) :
    (log.map (·.spends b)).sum + (s'.executor.lent b + s'.executor.pooled b) ≤
      s.executor.lent b + s.executor.pooled b + (log.map (·.makes b)).sum := by
  induction run with
  | refl => simp
  | tail run hears ih =>
    have hstep := ((phase_of_reaches run.reaches h).accounts hfunds hears b).spent_le
    simp only [List.map_append, List.map_cons, List.map_nil, List.sum_append, List.sum_cons,
      List.sum_nil]
    omega

/-- A box that is lent or in the pool stays so until it is spent or taken back. -/
theorem Run.kept (run : Run LCX interpreters missingInputs s log s') (h : s.Phase)
    (hfunds : Executor.AccountsForFunding interpreters) {b : B}
    (hpos : 0 < s.executor.lent b + s.executor.pooled b)
    (hlog : ∀ news ∈ log, news.spends b = 0 ∧ news.retracts b = false) :
    0 < s'.executor.lent b + s'.executor.pooled b := by
  induction run with
  | refl => exact hpos
  | tail run hears ih =>
    have hbefore := ih fun news hnews => hlog news (List.mem_append_left _ hnews)
    obtain ⟨hspends, hretracts⟩ := hlog _ (List.mem_append_right _ (List.mem_singleton_self _))
    have hphase := phase_of_reaches run.reaches h
    exact (hphase.accounts hfunds hears b).kept hbefore hspends hretracts

end

/-- Whatever the executor hears, and in whichever order: a funding box is spent by its transactions,
waits in one or is in the pool no more often than it came into being, so none is spent twice; and one
that it has is neither lost nor forgotten until it is spent or others take it back. -/
theorem funding_accounted (interpreters : Interpreters CO SO P V B TC TX)
    (missingInputs : E → Option (Finset V))
    (hfunds : Executor.AccountsForFunding interpreters) (index : IX) (timeNow : Nat)
    (conf : ExecutionConfig U) (multiBacklog : MultiPair PR L) {log : List (FundingNews B V)}
    {s : ExecutionPart IX L PR CO P V B SO TX E}
    (run : Run LCX interpreters missingInputs (start index timeNow conf multiBacklog) log s) (b : B) :
    (log.map (·.spends b)).sum + (s.executor.lent b + s.executor.pooled b) ≤
        (log.map (·.makes b)).sum ∧
      ∀ log' s', Run LCX interpreters missingInputs s log' s' →
        0 < s.executor.lent b + s.executor.pooled b →
        (∀ news ∈ log', news.spends b = 0 ∧ news.retracts b = false) →
        0 < s'.executor.lent b + s'.executor.pooled b := by
  have hphase : Phase (start index timeNow conf multiBacklog :
      ExecutionPart IX L PR CO P V B SO TX E) := phase_start index timeNow conf multiBacklog
  constructor
  · have hle := run.spent_le hphase hfunds b
    have hempty : (start index timeNow conf multiBacklog :
        ExecutionPart IX L PR CO P V B SO TX E).executor.lent b +
          (start index timeNow conf multiBacklog :
            ExecutionPart IX L PR CO P V B SO TX E).executor.pooled b = 0 := by
      simp [start, Executor.new, Executor.lent, Executor.pooled]
    omega
  · intro log' s' run' hpos hlog
    exact run'.kept (phase_of_reaches run.reaches hphase) hfunds hpos hlog

/-! ### Two orders that fill each other, with a funding box -/

section Sample

/-- Every transaction spends its funding box for the next one. -/
def sampleFunders :
    Interpreters SimpleOrderPF SampleDeposit SimpleCFMMPool Nat Nat Unit Unit where
  tradeInterpreter _ funding result := result = ⟨(), [], .replaced funding (funding + 1)⟩
  specInterpreter _ _ result := result = none
  prove := id

theorem accountsForFunding_sampleFunders : Executor.AccountsForFunding sampleFunders := by
  rintro linkedRecipe funding result rfl
  exact Std.ReflCmp.compare_self

abbrev SampleExecutor := Executor
  (InMemoryStateIndex (EvolvingEntity SimpleOrderPF SimpleCFMMPool Nat Nat))
  (Backlog.HotPriorityBacklog Backlog.SampleQueue (Bundled SampleDeposit Nat) Nat) Unit SimpleOrderPF
  SimpleCFMMPool Nat Nat SampleDeposit

def sampleMarket : ExecutionPart
    (InMemoryStateIndex (EvolvingEntity SimpleOrderPF SimpleCFMMPool Nat Nat))
    (Backlog.HotPriorityBacklog Backlog.SampleQueue (Bundled SampleDeposit Nat) Nat) Unit SimpleOrderPF
    SimpleCFMMPool Nat Nat SampleDeposit Unit E :=
  start .new 0 sampleConf (.new fun _ => .new 10)

/-- An entity appears, in the box of a version. -/
def appears (entity : BakedEntity SimpleOrderPF SimpleCFMMPool Nat) (box : Nat) :
    Event SimpleOrderPF SampleDeposit SimpleCFMMPool Nat Nat Unit :=
  .inl (.mempool (.forward (.right ⟨entity, box⟩)))

def poolAppears : Event SimpleOrderPF SampleDeposit SimpleCFMMPool Nat Nat Unit :=
  appears (.inr ⟨samplePool, 9⟩) 9

def askAppears : Event SimpleOrderPF SampleDeposit SimpleCFMMPool Nat Nat Unit :=
  appears (.inl ⟨sampleOrder 2 .ask 2 500 0, 2⟩) 2

/-- The order that fills the other. -/
def bidAppears : Event SimpleOrderPF SampleDeposit SimpleCFMMPool Nat Nat Unit :=
  appears (.inl ⟨sampleOrder 3 .bid 2 1000 0, 3⟩) 3

def sampleExecutor : SampleExecutor :=
  .new .new (.new fun _ => .new 0 sampleConf) (.new fun _ => .new 10)

def sampleListing : Option (SampleExecutor × SampleExecutor × SampleExecutor) := do
  let listed ← (sampleExecutor.onPairEvent () poolAppears).toOption
  let asked ← (listed.onPairEvent () askAppears).toOption
  let bidden ← (asked.onPairEvent () bidAppears).toOption
  return (listed, asked, bidden)

/-- The target of an instruction has a state that it can be linked to. -/
def linked (executor : SampleExecutor) :
    TakeInProgress SimpleOrderPF ⊕ MakeInProgress SimpleCFMMPool → Bool
  | .inl take => (executor.linkTo (show TokenId from stableId take.target)).isSome
  | .inr make => (executor.linkTo (show TokenId from stableId make.target)).isSome

theorem exists_link {executor : SampleExecutor}
    {recipe : MatchmakingRecipe SimpleOrderPF SimpleCFMMPool}
    (h : ∀ instruction ∈ recipe.instructions, linked executor instruction) :
    ∃ result, ExecutionRecipe.link recipe executor.linkTo = .ok result := by
  obtain ⟨instructions⟩ := recipe
  have horphans : (linkInstructions executor.linkTo instructions).2.2 = [] := by
    induction instructions with
    | nil => rfl
    | cons instruction rest ih =>
      have hrest := ih fun later hlater => h later (List.mem_cons_of_mem _ hlater)
      have hfirst := h instruction List.mem_cons_self
      cases instruction with
      | inl take =>
        obtain ⟨state, hstate⟩ := Option.isSome_iff_exists.mp hfirst
        simp only [linkInstructions, Composable.takerId, hstate, hrest]
      | inr make =>
        obtain ⟨state, hstate⟩ := Option.isSome_iff_exists.mp hfirst
        simp only [linkInstructions, Composable.makerId, hstate, hrest]
  rw [ExecutionRecipe.link]
  generalize linkInstructions executor.linkTo instructions = result at horphans
  obtain ⟨executions, versions, orphans⟩ := result
  obtain rfl : orphans = [] := horphans
  exact ⟨_, rfl⟩

/-- The instructions of what was matched, in any order. -/
def instructionsOf (batch : MatchmakingAttempt SimpleOrderPF SimpleCFMMPool Nat) :
    List (TakeInProgress SimpleOrderPF ⊕ MakeInProgress SimpleCFMMPool) :=
  ((batch.finalized (batch.takes.entries.map Sigma.snd) (batch.makes.entries.map Sigma.snd)).elim []
    fun final => final.takes.map .inl ++ final.makes.map .inr)

theorem mem_instructionsOf {conf : ExecutionConfig Nat} {n : Nat}
    {book book' : TLBState SimpleOrderPF SimpleCFMMPool} {stashed : List SimpleOrderPF}
    {batch : MatchmakingAttempt SimpleOrderPF SimpleCFMMPool Nat}
    {recipe : MatchmakingRecipe SimpleOrderPF SimpleCFMMPool}
    (h : Attempt.outcome conf n book = some (stashed, batch, recipe, book'))
    {instruction : TakeInProgress SimpleOrderPF ⊕ MakeInProgress SimpleCFMMPool}
    (hmem : instruction ∈ recipe.instructions) : instruction ∈ instructionsOf batch := by
  unfold Attempt.outcome at h
  split at h
  · split at h
    · rename_i formed hrecipe
      cases h
      have hcase := outcome_case batch (batch.takes.entries.map Sigma.snd)
        (batch.makes.entries.map Sigma.snd) conf.baseStepBudget
      rw [hrecipe] at hcase
      cases hcase with
      | ok complete hfinal =>
        rw [instructionsOf, hfinal]
        simpa [FinalRecipe.instructions] using hmem
    · cases h
  · cases h

/-- The match in the only pair, if nothing blocks the executor and all that is matched can be
linked. -/
def sampleMatch (executor : SampleExecutor) :=
  (Attempt.outcome (executor.multiBook.get ()).conf 2 (executor.multiBook.get ()).state).filter
    fun found => executor.blocker.isNone && (instructionsOf found.2.1).all (linked executor)

theorem toOption_eq_some {A E : Type} {m : Except E A} {a : A} : m.toOption = some a ↔ m = .ok a := by
  cases m with
  | ok a' => simp [Except.toOption]
  | error e => simp [Except.toOption]

/-- The pool is as empty as it was at the start. -/
theorem fundingPool_of_sampleListing {listed asked bidden : SampleExecutor}
    (h : sampleListing = some (listed, asked, bidden)) : bidden.fundingPool = ∅ := by
  simp only [sampleListing, Option.bind_eq_bind, Option.bind_eq_some_iff, toOption_eq_some,
    Option.pure_def, Option.some.injEq, Prod.mk.injEq] at h
  obtain ⟨_, hlisted, _, hasked, _, hbidden, rfl, rfl, rfl⟩ := h
  have hkept : ∀ {self exec : SampleExecutor}
      {event : Event SimpleOrderPF SampleDeposit SimpleCFMMPool Nat Nat Unit},
      self.onPairEvent () event = .ok exec → exec.fundingPool = self.fundingPool := by
    intro self exec event hexec
    have hkeeps := self.onPairEvent_keepsFunds () event
    rw [hexec] at hkeeps
    exact hkeeps
  rw [hkept hbidden, hkept hasked, hkept hlisted]
  rfl

/-- The orders are matched in a transaction that is to spend the funding box for another. -/
theorem exists_sampleTrade : ∃ listed asked bidden traded consumedVersions,
    sampleExecutor.onPairEvent () poolAppears = .ok listed ∧
      listed.onPairEvent () askAppears = .ok asked ∧ asked.onPairEvent () bidAppears = .ok bidden ∧
      bidden.blocker = none ∧
      Executor.Matchmakes sampleFunders (bidden.onFundingEvent (.produced 5))
        (.ok (traded, some ())) ∧
      traded.pendingEffects = some
        ⟨⟨(), consumedVersions, .fromLiquidityBook []⟩, [.consumed 5, .produced 6]⟩ := by
  have hfound : (sampleListing.bind fun executors =>
      executors.2.2.focusSet.popFront.bind fun _ => sampleMatch executors.2.2).isSome := by
    decide +kernel
  obtain ⟨found, hfound⟩ := Option.isSome_iff_exists.mp hfound
  obtain ⟨⟨listed, asked, bidden⟩, hlisting, hfound⟩ := Option.bind_eq_some_iff.mp hfound
  obtain ⟨⟨focusPair, focusSet⟩, hfocus, hfound⟩ := Option.bind_eq_some_iff.mp hfound
  obtain ⟨stashed, batch, recipe, book⟩ := found
  obtain ⟨houtcome, hready⟩ := Option.filter_eq_some_iff.mp hfound
  obtain ⟨hblocker, hlinked⟩ := Bool.and_eq_true_iff.mp hready
  have hpool := fundingPool_of_sampleListing hlisting
  simp only [sampleListing, Option.bind_eq_bind, Option.bind_eq_some_iff, toOption_eq_some,
    Option.pure_def, Option.some.injEq, Prod.mk.injEq] at hlisting
  obtain ⟨listed, hlisted, asked, hasked, bidden, hbidden, rfl, rfl, rfl⟩ := hlisting
  have hlinks : ∀ instruction ∈ recipe.instructions, linked bidden instruction :=
    fun instruction hmem => List.all_eq_true.mp hlinked _ (mem_instructionsOf houtcome hmem)
  obtain ⟨⟨linkedRecipe, consumedVersions⟩, hlink⟩ := exists_link hlinks
  obtain ⟨optimized, hformed, hreturned⟩ := Attempt.run_of_outcome houtcome
  have hattempt : (bidden.multiBook.get ()).Attempted (some recipe)
      { bidden.multiBook.get () with state := book } := ⟨rfl, _, hformed.step hreturned⟩
  have hpop : (bidden.onFundingEvent (.produced 5)).fundingPool.min? = some 5 := by
    rw [Executor.onFundingEvent, hpool]
    simp [Std.ExtTreeSet.min?_insert]
  exact ⟨listed, asked, bidden, _, consumedVersions, hlisted, hasked, hbidden,
    Option.isNone_iff_eq_none.mp hblocker,
    .trade hfocus (.submitted hattempt hlink hpop rfl), rfl⟩

/-- The first box is spent, and so has come into being. -/
theorem funding_accounted_sample :
    ∃ log s, Run Unit sampleFunders (fun _ : Unit => none) sampleMarket log s ∧
      (log.map (·.spends 5)).sum = 1 ∧
      (log.map (·.spends 5)).sum + (s.executor.lent 5 + s.executor.pooled 5) ≤
        (log.map (·.makes 5)).sum := by
  obtain ⟨listed, asked, bidden, traded, consumedVersions, hlisted, hasked, hbidden, hblocker, hmatch,
    hpending⟩ := exists_sampleTrade
  have run : Run Unit sampleFunders (fun _ : Unit => none) sampleMarket [] sampleMarket := .refl
  have run := run.tail (.upstream () poolAppears ⟨rfl, .inl rfl⟩ hlisted)
  have run := run.tail (.upstream () askAppears ⟨rfl, .inr rfl⟩ hasked)
  have run := run.tail (.upstream () bidAppears ⟨rfl, .inr rfl⟩ hbidden)
  have run := run.tail (.announced (.produced 5) ⟨rfl, .inr rfl⟩)
  have run := run.tail (.matchmake ⟨rfl, .inr rfl⟩ hblocker hmatch)
  have run := run.tail (.submitted (.ok ()) rfl)
  have run := run.tail (.accepted rfl hpending rfl rfl)
  exact ⟨_, _, run, rfl, (funding_accounted sampleFunders (fun _ => none)
    accountsForFunding_sampleFunders .new 0 sampleConf (.new fun _ => .new 10) run 5).1⟩

end Sample

end ExecutionPart

end UtxoMonitor.ExecutionEngine
