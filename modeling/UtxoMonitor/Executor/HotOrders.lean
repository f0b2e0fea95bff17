import UtxoMonitor.Backlog.Hot
import UtxoMonitor.BoxResolver.Resolve
import UtxoMonitor.Pools.ClassicalOrders

/-! The executor that runs one order against one pool at a time, and what becomes of the orders. -/
namespace UtxoMonitor.Executor

open Lib LiquidityBook Domain BoxResolver Backlog
open Pools (RunOrderError)

/-! ### Refusals -/

inductive TxSubmissionError where
  | poolUtxoIsSpent
  | orderUtxoIsSpent
  | unknownError (info : String)
deriving DecidableEq

/-- The answer of the node has the hash in the reference, after the head of a string of 32 bytes. -/
def Mentions (txError reference : String) : Prop :=
  "25820".toList ++ reference.toList.takeWhile (fun c => c ≠ '#') <:+: txError.toList

instance (txError reference : String) : Decidable (Mentions txError reference) :=
  inferInstanceAs (Decidable (_ <:+: _))

def processTxRejectedError (txError prevPoolVersion orderVersion : String) :
    List TxSubmissionError :=
  let patterns : List (String × TxSubmissionError) :=
    [(prevPoolVersion, .poolUtxoIsSpent), (orderVersion, .orderUtxoIsSpent)]
  let parsedErrors := patterns.filterMap fun (reference, error) =>
    if Mentions txError reference then some error else none
  if txError.isEmpty then [.unknownError txError] else parsedErrors

/-! ### The executor -/

/-- What the executor is given besides the two stores. -/
structure HotOrderExecutor (Pool TOrd TOrderId TxCandidate Tx : Type) [EntitySnapshot Pool] where
  getPoolRef : TOrd → StableId Pool
  tryRun : Pool → TOrd → Checked (Except (RunOrderError TOrd) (TxCandidate × Pool))
  prove : TxCandidate → Tx
  displayVersion : Version Pool → String
  displayRef : TOrderId → String

/-- How an attempt to run an order against a pool ends. -/
inductive Outcome (Pool : Type) where
  | notRun
  | accepted (next : Pool)
  | poolIsSpent
  | bothAreSpent
  | refused

variable {Pool TOrd TOrderId TxCandidate Tx Q W R : Type} [EntitySnapshot Pool]
  [DecidableEq TOrderId] [LE W] [PriorityQueue Q TOrderId W] [UniqueOrder TOrd TOrderId]
  [Weighted TOrd W] [EntityRepo Pool R]

/-- The order is run, and its transaction submitted, with the answer of the node. -/
def HotOrderExecutor.attempt (x : HotOrderExecutor Pool TOrd TOrderId TxCandidate Tx)
    (submitTx : Tx → Except String Unit) (ord : TOrd) (entity : Pool) : Checked (Outcome Pool) := do
  match ← x.tryRun entity ord with
  | .error _ => return .notRun
  | .ok (txCandidate, nextEntityState) =>
    match submitTx (x.prove txCandidate) with
    | .ok () => return .accepted nextEntityState
    | .error err =>
      let errors := processTxRejectedError err (x.displayVersion (version entity))
        (x.displayRef (getSelfRef ord))
      if .poolUtxoIsSpent ∈ errors ∧ .orderUtxoIsSpent ∈ errors then return .bothAreSpent
      else if .poolUtxoIsSpent ∈ errors then return .poolIsSpent
      else return .refused

/-- The store of pools, after an attempt on this one. -/
def Outcome.settle (pools : R) (entity : Pool) : Outcome Pool → R
  | notRun => pools
  | accepted next => EntityRepo.putPredicted pools next (some (version entity))
  | poolIsSpent => EntityRepo.invalidate (T := Pool) pools (version entity) (stableId entity)
  | bothAreSpent => EntityRepo.invalidate (T := Pool) pools (version entity) (stableId entity)
  | refused => pools

/-- The backlog, after an attempt to run this order. -/
def Outcome.putBack (backlog : HotPriorityBacklog Q TOrd TOrderId) (ord : TOrd) :
    Outcome Pool → HotPriorityBacklog Q TOrd TOrderId
  | poolIsSpent => backlog.put ord
  | _ => backlog

/-- Execute next available order, and tell whether there was one with a pool, unless the fuel is used
up before. -/
def HotOrderExecutor.tryExecuteNext (x : HotOrderExecutor Pool TOrd TOrderId TxCandidate Tx)
    (fuel : Nat) (submitTx : Tx → Except String Unit)
    (backlog : HotPriorityBacklog Q TOrd TOrderId) (pools : R) :
    Option (Checked (Bool × HotPriorityBacklog Q TOrd TOrderId × R)) :=
  match backlog.tryPop with
  | (none, backlog) => some (.ok (false, backlog, pools))
  | (some ord, backlog) =>
    (resolveEntityState (T := Pool) pools (x.getPoolRef ord) fuel).map fun
      | none => .ok (false, backlog, pools)
      | some entity => do
        let outcome ← x.attempt submitTx ord entity
        return (true, outcome.putBack backlog ord, outcome.settle pools entity)

/-! ### Turns of the executor between calls of others -/

/-- Where the executor is in its turn. -/
inductive Stage (Pool TOrd : Type) where
  | idle
  | popped (ord : TOrd)
  | resolved (ord : TOrd) (entity : Pool)

structure State (Pool TOrd TOrderId Q R : Type) where
  backlog : HotPriorityBacklog Q TOrd TOrderId
  pools : R
  stage : Stage Pool TOrd

/-- A part of a turn, under one lock or the other, or a call of others on one store or the other. -/
inductive Move (Pool TOrd TOrderId Tx : Type) [EntitySnapshot Pool] where
  | pop
  | resolve (fuel : Nat)
  | attempt (submitTx : Tx → Except String Unit)
  | backlog (c : HotCall TOrd TOrderId)
  | pools (c : RepoCall Pool)

/-- What a move does with an order. -/
inductive Report (Pool TOrd TOrderId : Type) where
  | quiet
  | takenIn (oid : TOrderId)
  | takenOut (oid : TOrderId)
  | poolNotFound (ord : TOrd)
  | attempted (ord : TOrd) (entity : Pool) (outcome : Outcome Pool) (kept : Bool)

/-- What a call of others does with an order. -/
def reportOf (backlog : HotPriorityBacklog Q TOrd TOrderId) :
    HotCall TOrd TOrderId → Report Pool TOrd TOrderId
  | .put ord => if backlog.Accepts ord then .takenIn (getSelfRef ord) else .quiet
  | .tryPop =>
    match backlog.tryPop.1 with
    | some ord => .takenOut (getSelfRef ord)
    | none => .quiet
  | .softEvict _ => .quiet
  | .remove oid => if oid ∈ backlog.store then .takenOut oid else .quiet

/-- Whether the backlog takes the order in again. -/
def Outcome.keeps (backlog : HotPriorityBacklog Q TOrd TOrderId) (ord : TOrd) :
    Outcome Pool → Bool
  | poolIsSpent => backlog.Accepts ord
  | _ => false

/-- What an attempt does with an order. -/
def reportOfAttempt (backlog : HotPriorityBacklog Q TOrd TOrderId) (ord : TOrd) (entity : Pool)
    (outcome : Outcome Pool) : Report Pool TOrd TOrderId :=
  .attempted ord entity outcome (outcome.keeps backlog ord)

namespace HotOrderExecutor

variable (x : HotOrderExecutor Pool TOrd TOrderId TxCandidate Tx)

/-- A move, if it can be made. -/
def step (s : State Pool TOrd TOrderId Q R) :
    Move Pool TOrd TOrderId Tx → Option (State Pool TOrd TOrderId Q R × Report Pool TOrd TOrderId)
  | .pop =>
    match s.stage, s.backlog.tryPop with
    | .idle, (some ord, backlog) => some (⟨backlog, s.pools, .popped ord⟩, .quiet)
    | .idle, (none, backlog) => some (⟨backlog, s.pools, .idle⟩, .quiet)
    | _, _ => none
  | .resolve fuel =>
    match s.stage with
    | .popped ord =>
      match resolveEntityState (T := Pool) s.pools (x.getPoolRef ord) fuel with
      | some (some entity) => some (⟨s.backlog, s.pools, .resolved ord entity⟩, .quiet)
      | some none => some (⟨s.backlog, s.pools, .idle⟩, .poolNotFound ord)
      | none => none
    | _ => none
  | .attempt submitTx =>
    match s.stage with
    | .resolved ord entity =>
      match x.attempt submitTx ord entity with
      | .ok outcome =>
        some (⟨outcome.putBack s.backlog ord, outcome.settle s.pools entity, .idle⟩,
          reportOfAttempt s.backlog ord entity outcome)
      | .error _ => none
    | _ => none
  | .backlog c => some (⟨s.backlog.call c, s.pools, s.stage⟩, reportOf s.backlog c)
  | .pools c => some (⟨s.backlog, EntityRepo.call s.pools c, s.stage⟩, .quiet)

/-- The moves one after another, with their reports. -/
def run (s : State Pool TOrd TOrderId Q R) : List (Move Pool TOrd TOrderId Tx) →
    Option (State Pool TOrd TOrderId Q R × List (Report Pool TOrd TOrderId))
  | [] => some (s, [])
  | move :: moves =>
    match x.step s move with
    | some (s', report) => (run s' moves).map fun (s'', reports) => (s'', report :: reports)
    | none => none

end HotOrderExecutor

variable {x : HotOrderExecutor Pool TOrd TOrderId TxCandidate Tx}
  {s s' s'' : State Pool TOrd TOrderId Q R} {moves moves' : List (Move Pool TOrd TOrderId Tx)}
  {reports reports' : List (Report Pool TOrd TOrderId)} {capacity : Nat} {oid : TOrderId}

namespace HotOrderExecutor

variable (x s) in
/-- What a move does. -/
inductive Made : Move Pool TOrd TOrderId Tx → State Pool TOrd TOrderId Q R →
    Report Pool TOrd TOrderId → Prop where
  | popped {ord : TOrd} {backlog : HotPriorityBacklog Q TOrd TOrderId} (idle : s.stage = .idle)
      (pop : s.backlog.tryPop = (some ord, backlog)) :
      Made .pop ⟨backlog, s.pools, .popped ord⟩ .quiet
  | exhausted {backlog : HotPriorityBacklog Q TOrd TOrderId} (idle : s.stage = .idle)
      (pop : s.backlog.tryPop = (none, backlog)) : Made .pop ⟨backlog, s.pools, .idle⟩ .quiet
  | found {fuel : Nat} {ord : TOrd} {entity : Pool} (popped : s.stage = .popped ord)
      (found : resolveEntityState s.pools (x.getPoolRef ord) fuel = some (some entity)) :
      Made (.resolve fuel) ⟨s.backlog, s.pools, .resolved ord entity⟩ .quiet
  | notFound {fuel : Nat} {ord : TOrd} (popped : s.stage = .popped ord)
      (notFound : resolveEntityState (T := Pool) s.pools (x.getPoolRef ord) fuel = some none) :
      Made (.resolve fuel) ⟨s.backlog, s.pools, .idle⟩ (.poolNotFound ord)
  | attempted {submitTx : Tx → Except String Unit} {ord : TOrd} {entity : Pool}
      {outcome : Outcome Pool} (resolved : s.stage = .resolved ord entity)
      (attempted : x.attempt submitTx ord entity = .ok outcome) :
      Made (.attempt submitTx)
        ⟨outcome.putBack s.backlog ord, outcome.settle s.pools entity, .idle⟩
        (reportOfAttempt s.backlog ord entity outcome)
  | backlog (c : HotCall TOrd TOrderId) :
      Made (.backlog c) ⟨s.backlog.call c, s.pools, s.stage⟩ (reportOf s.backlog c)
  | pools (c : RepoCall Pool) :
      Made (.pools c) ⟨s.backlog, EntityRepo.call s.pools c, s.stage⟩ .quiet

theorem made_of_step {move : Move Pool TOrd TOrderId Tx} {report : Report Pool TOrd TOrderId}
    (h : x.step s move = some (s', report)) : Made x s move s' report := by
  cases move with
  | pop =>
    cases hstage : s.stage with
    | idle =>
      rcases hpop : s.backlog.tryPop with ⟨_ | ord, backlog⟩
      · simp only [step, hstage, hpop] at h
        cases h
        exact .exhausted hstage hpop
      · simp only [step, hstage, hpop] at h
        cases h
        exact .popped hstage hpop
    | popped ord =>
      simp only [step, hstage] at h
      cases h
    | resolved ord entity =>
      simp only [step, hstage] at h
      cases h
  | resolve fuel =>
    simp only [step] at h
    split at h
    · rename_i ord hstage
      split at h
      · rename_i entity hfound
        cases h
        exact .found hstage hfound
      · rename_i hnone
        cases h
        exact .notFound hstage hnone
      · cases h
    · cases h
  | attempt submitTx =>
    simp only [step] at h
    split at h
    · rename_i ord entity hstage
      split at h
      · rename_i outcome hattempt
        cases h
        exact .attempted hstage hattempt
      · cases h
    · cases h
  | backlog c =>
    cases h
    exact .backlog c
  | pools c =>
    cases h
    exact .pools c

theorem run_cons_eq_some {move : Move Pool TOrd TOrderId Tx} :
    x.run s (move :: moves) = some (s', reports) ↔ ∃ mid report reports',
      x.step s move = some (mid, report) ∧ x.run mid moves = some (s', reports') ∧
        reports = report :: reports' := by
  rw [run]
  cases x.step s move with
  | none => simp
  | some result =>
    obtain ⟨mid, report⟩ := result
    simp only [Option.map_eq_some_iff, Option.some.injEq, Prod.mk.injEq]
    constructor
    · rintro ⟨⟨s'', reports'⟩, hrun, rfl, rfl⟩
      exact ⟨mid, report, reports', ⟨rfl, rfl⟩, hrun, rfl⟩
    · rintro ⟨_, _, reports', ⟨rfl, rfl⟩, hrun, rfl⟩
      exact ⟨(s', reports'), hrun, rfl, rfl⟩

theorem run_cons_of_step {move : Move Pool TOrd TOrderId Tx} {report : Report Pool TOrd TOrderId}
    (h : x.step s move = some (s', report)) (hrun : x.run s' moves = some (s'', reports)) :
    x.run s (move :: moves) = some (s'', report :: reports) :=
  run_cons_eq_some.mpr ⟨s', report, reports, h, hrun, rfl⟩

/-- A turn is its parts, one after another with nothing between them. -/
theorem run_of_tryExecuteNext {fuel : Nat} {submitTx : Tx → Except String Unit} {found : Bool}
    {backlog backlog' : HotPriorityBacklog Q TOrd TOrderId} {pools pools' : R}
    (h : x.tryExecuteNext fuel submitTx backlog pools = some (.ok (found, backlog', pools'))) :
    ∃ moves reports, moves <+: [.pop, .resolve fuel, .attempt submitTx] ∧
      x.run ⟨backlog, pools, .idle⟩ moves = some (⟨backlog', pools', .idle⟩, reports) ∧
      (found = true ↔ moves = [.pop, .resolve fuel, .attempt submitTx]) := by
  unfold tryExecuteNext at h
  split at h
  · rename_i popped hpop
    have hpop' : x.step ⟨backlog, pools, .idle⟩ .pop = some (⟨popped, pools, .idle⟩, .quiet) := by
      simp only [step, hpop]
    cases h
    exact ⟨[.pop], [.quiet], by simp, run_cons_of_step hpop' rfl, by simp⟩
  · rename_i ord popped hpop
    have hpop' : x.step ⟨backlog, pools, .idle⟩ .pop =
        some (⟨popped, pools, .popped ord⟩, .quiet) := by
      simp only [step, hpop]
    obtain ⟨resolved, hresolve, h⟩ := Option.map_eq_some_iff.mp h
    cases resolved with
    | none =>
      have hresolve' : x.step ⟨popped, pools, .popped ord⟩ (.resolve fuel) =
          some (⟨popped, pools, .idle⟩, .poolNotFound ord) := by
        simp only [step, hresolve]
      cases h
      exact ⟨[.pop, .resolve fuel], [.quiet, .poolNotFound ord], by simp,
        run_cons_of_step hpop' (run_cons_of_step hresolve' rfl), by simp⟩
    | some entity =>
      obtain ⟨outcome, hattempt, h⟩ := Checked.bind_eq_ok.mp h
      have hresolve' : x.step ⟨popped, pools, .popped ord⟩ (.resolve fuel) =
          some (⟨popped, pools, .resolved ord entity⟩, .quiet) := by
        simp only [step, hresolve]
      have hattempt' : x.step ⟨popped, pools, .resolved ord entity⟩ (.attempt submitTx) =
          some (⟨outcome.putBack popped ord, outcome.settle pools entity, .idle⟩,
            reportOfAttempt popped ord entity outcome) := by
        simp only [step, hattempt]
      cases h
      exact ⟨_, _, List.prefix_rfl,
        run_cons_of_step hpop' (run_cons_of_step hresolve' (run_cons_of_step hattempt' rfl)),
        by simp⟩

end HotOrderExecutor

/-! ### What becomes of an order -/

namespace Report

def isTakenIn (oid : TOrderId) : Report Pool TOrd TOrderId → Bool
  | takenIn oid' => oid' = oid
  | _ => false

def isTakenOut (oid : TOrderId) : Report Pool TOrd TOrderId → Bool
  | takenOut oid' => oid' = oid
  | _ => false

/-- A transaction that runs the order is accepted. -/
def isAccepted (oid : TOrderId) : Report Pool TOrd TOrderId → Bool
  | attempted ord _ (.accepted _) _ => getSelfRef ord = oid
  | _ => false

/-- The order is neither run nor put back. -/
def isDropped (oid : TOrderId) : Report Pool TOrd TOrderId → Bool
  | poolNotFound ord => getSelfRef ord = oid
  | attempted _ _ (.accepted _) _ => false
  | attempted ord _ _ kept => getSelfRef ord = oid ∧ ¬ kept
  | _ => false

end Report

/-! ### Orders in the backlog -/

section Backlog

variable {backlog : HotPriorityBacklog Q TOrd TOrderId} {ord : TOrd}
  {store : AList fun _ : TOrderId => TOrd} {a : TOrderId}

/-- How often the order is in the backlog. -/
def stored (backlog : HotPriorityBacklog Q TOrd TOrderId) (oid : TOrderId) : Nat :=
  if oid ∈ backlog.store then 1 else 0

omit [UniqueOrder TOrd TOrderId] in
theorem ite_mem_erase (h : a ∈ store) (oid : TOrderId) :
    (if oid ∈ store.erase a then 1 else 0) + (if a = oid then 1 else 0) =
      if oid ∈ store then 1 else 0 := by
  by_cases heq : a = oid
  · subst heq
    simp [h]
  · simp [heq, Ne.symm heq]

theorem stored_put : stored (backlog.put ord) oid =
    stored backlog oid + if backlog.Accepts ord ∧ getSelfRef ord = oid then 1 else 0 := by
  unfold stored HotPriorityBacklog.put
  by_cases haccepts : backlog.Accepts ord
  · have hnew := haccepts.2.1
    rw [if_pos haccepts]
    by_cases heq : getSelfRef ord = oid
    · subst heq
      simp [haccepts, hnew]
    · simp [heq, Ne.symm heq]
  · simp [haccepts]

theorem stored_of_popped (h : backlog.Sound capacity) (hpop : backlog.tryPop.1 = some ord)
    (oid : TOrderId) : stored backlog.tryPop.2 oid + (if getSelfRef ord = oid then 1 else 0) =
      stored backlog oid := by
  have hpopped := HotPriorityBacklog.popped_of_tryPop h hpop
  have hmem : getSelfRef ord ∈ backlog.store := by
    rw [← AList.lookup_isSome, hpopped.stored]
    rfl
  rw [stored, hpopped.store]
  exact ite_mem_erase hmem oid

theorem stored_of_exhausted (h : backlog.Sound capacity) (hpop : backlog.tryPop.1 = none)
    (oid : TOrderId) : stored backlog.tryPop.2 oid = stored backlog oid := by
  obtain ⟨-, hempty | ⟨ord, hpopped⟩⟩ := HotPriorityBacklog.tryPop_cases h.backs
  · rw [stored, hempty.store, stored]
  · cases hpop.symm.trans hpopped.popped

omit [UniqueOrder TOrd TOrderId] in
theorem stored_remove (backlog : HotPriorityBacklog Q TOrd TOrderId) (a oid : TOrderId) :
    stored (backlog.remove a) oid +
    (if a ∈ backlog.store ∧ a = oid then 1 else 0) = stored backlog oid := by
  unfold stored HotPriorityBacklog.remove
  by_cases hmem : a ∈ backlog.store
  · rw [if_pos hmem]
    simp only [hmem, true_and]
    exact ite_mem_erase hmem oid
  · simp [hmem]

variable (Pool) in
omit [EntitySnapshot Pool] in
/-- Others take in and take out what they report. -/
theorem stored_call (h : backlog.Sound capacity) (c : HotCall TOrd TOrderId) (oid : TOrderId) :
    stored (backlog.call c) oid +
      (if (reportOf backlog c : Report Pool TOrd TOrderId).isTakenOut oid then 1 else 0) =
    stored backlog oid +
      if (reportOf backlog c : Report Pool TOrd TOrderId).isTakenIn oid then 1 else 0 := by
  cases c with
  | put ord =>
    rw [HotPriorityBacklog.call, stored_put, reportOf]
    by_cases haccepts : backlog.Accepts ord
    · simp [haccepts, Report.isTakenIn, Report.isTakenOut]
    · simp [haccepts, Report.isTakenIn, Report.isTakenOut]
  | tryPop =>
    rw [HotPriorityBacklog.call, reportOf]
    cases hpop : backlog.tryPop.1 with
    | none => simpa [Report.isTakenIn, Report.isTakenOut] using stored_of_exhausted h hpop oid
    | some ord => simpa [Report.isTakenIn, Report.isTakenOut] using stored_of_popped h hpop oid
  | softEvict oid' => rfl
  | remove a =>
    have hremove := stored_remove backlog a oid
    rw [HotPriorityBacklog.call, reportOf]
    by_cases hmem : a ∈ backlog.store
    · simpa [hmem, Report.isTakenIn, Report.isTakenOut] using hremove
    · simpa [hmem, Report.isTakenIn, Report.isTakenOut] using hremove

end Backlog

/-! ### The account of an order -/

/-- The order of the turn under way. -/
def Stage.order : Stage Pool TOrd → Option TOrd
  | idle => none
  | popped ord => some ord
  | resolved ord _ => some ord

/-- How often the order is in the backlog and in the turn under way. -/
def State.held (s : State Pool TOrd TOrderId Q R) (oid : TOrderId) : Nat :=
  stored s.backlog oid +
    (if s.stage.order.map getSelfRef = some oid then 1 else 0)

variable (Pool) in
omit [EntitySnapshot Pool] [Weighted TOrd W] in
/-- A report of others takes nothing to its end. -/
theorem reportOf_ends (backlog : HotPriorityBacklog Q TOrd TOrderId) (c : HotCall TOrd TOrderId)
    (oid : TOrderId) : (reportOf backlog c : Report Pool TOrd TOrderId).isAccepted oid = false ∧
      (reportOf backlog c : Report Pool TOrd TOrderId).isDropped oid = false := by
  cases c with
  | put ord =>
    rw [reportOf]
    split <;> exact ⟨rfl, rfl⟩
  | tryPop =>
    rw [reportOf]
    split <;> exact ⟨rfl, rfl⟩
  | softEvict oid' => exact ⟨rfl, rfl⟩
  | remove oid' =>
    rw [reportOf]
    split <;> exact ⟨rfl, rfl⟩

omit [EntitySnapshot Pool] in
/-- An order that is attempted has its transaction accepted, is put back or is dropped. -/
theorem stored_putBack (backlog : HotPriorityBacklog Q TOrd TOrderId) (ord : TOrd) (entity : Pool)
    (outcome : Outcome Pool) (oid : TOrderId) : stored (outcome.putBack backlog ord) oid +
        (if (reportOfAttempt backlog ord entity outcome).isAccepted oid then 1 else 0) +
        (if (reportOfAttempt backlog ord entity outcome).isDropped oid then 1 else 0) =
      stored backlog oid + if getSelfRef ord = oid then 1 else 0 := by
  unfold reportOfAttempt
  cases outcome with
  | accepted next => simp [Outcome.putBack, Report.isAccepted, Report.isDropped]
  | poolIsSpent =>
    rw [Outcome.putBack, stored_put]
    by_cases haccepts : backlog.Accepts ord
    · simp [Outcome.keeps, Report.isAccepted, Report.isDropped, haccepts]
    · simp [Outcome.keeps, Report.isAccepted, Report.isDropped, haccepts]
  | notRun => simp [Outcome.putBack, Outcome.keeps, Report.isAccepted, Report.isDropped]
  | bothAreSpent => simp [Outcome.putBack, Outcome.keeps, Report.isAccepted, Report.isDropped]
  | refused => simp [Outcome.putBack, Outcome.keeps, Report.isAccepted, Report.isDropped]

omit [EntitySnapshot Pool] [EntityRepo Pool R] in
theorem held_of_stage {stage : Stage Pool TOrd} (h : s.stage = stage) (oid : TOrderId) :
    s.held oid = stored s.backlog oid + if stage.order.map getSelfRef = some oid then 1 else 0 := by
  rw [State.held, h]

/-- What a move takes in is held until a move ends it. -/
theorem HotOrderExecutor.step_held {move : Move Pool TOrd TOrderId Tx}
    {report : Report Pool TOrd TOrderId} (hsound : s.backlog.Sound capacity)
    (h : x.step s move = some (s', report)) (oid : TOrderId) :
    s'.held oid + (if report.isAccepted oid then 1 else 0) +
        (if report.isDropped oid then 1 else 0) + (if report.isTakenOut oid then 1 else 0) =
      s.held oid + if report.isTakenIn oid then 1 else 0 := by
  cases made_of_step h with
  | popped hidle hpop =>
    have hstored := stored_of_popped hsound (congrArg Prod.fst hpop) oid
    rw [hpop] at hstored
    rw [held_of_stage hidle]
    simpa [State.held, Stage.order, Report.isTakenIn, Report.isTakenOut, Report.isAccepted,
      Report.isDropped] using hstored
  | exhausted hidle hpop =>
    have hstored := stored_of_exhausted hsound (congrArg Prod.fst hpop) oid
    rw [hpop] at hstored
    rw [held_of_stage hidle]
    simpa [State.held, Stage.order, Report.isTakenIn, Report.isTakenOut, Report.isAccepted,
      Report.isDropped] using hstored
  | found hpopped _ =>
    rw [held_of_stage hpopped]
    rfl
  | notFound hpopped _ =>
    rw [held_of_stage hpopped]
    simp [State.held, Stage.order, Report.isTakenIn, Report.isTakenOut, Report.isAccepted,
      Report.isDropped]
  | @attempted _ ord entity outcome hresolved _ =>
    have hput := stored_putBack s.backlog ord entity outcome oid
    rw [held_of_stage hresolved]
    simpa [State.held, Stage.order, reportOfAttempt, Report.isTakenIn, Report.isTakenOut] using hput
  | backlog c =>
    have hcall := stored_call Pool hsound c oid
    obtain ⟨haccepted, hdropped⟩ := reportOf_ends Pool s.backlog c oid
    simp only [State.held, haccepted, hdropped, Bool.false_eq_true, if_false]
    omega
  | pools c => rfl

theorem HotOrderExecutor.step_sound {move : Move Pool TOrd TOrderId Tx}
    {report : Report Pool TOrd TOrderId} (hsound : s.backlog.Sound capacity)
    (h : x.step s move = some (s', report)) : s'.backlog.Sound capacity := by
  cases made_of_step h with
  | popped _ hpop =>
    have htry := hsound.tryPop
    rwa [hpop] at htry
  | exhausted _ hpop =>
    have htry := hsound.tryPop
    rwa [hpop] at htry
  | found _ _ => exact hsound
  | notFound _ _ => exact hsound
  | @attempted _ ord _ outcome _ _ =>
    cases outcome with
    | poolIsSpent => exact hsound.put ord
    | _ => exact hsound
  | backlog c => exact hsound.call c
  | pools c => exact hsound

theorem HotOrderExecutor.run_held (hsound : s.backlog.Sound capacity)
    (h : x.run s moves = some (s', reports)) (oid : TOrderId) :
    s'.held oid + reports.countP (Report.isAccepted oid) + reports.countP (Report.isDropped oid) +
        reports.countP (Report.isTakenOut oid) =
      s.held oid + reports.countP (Report.isTakenIn oid) := by
  induction moves generalizing s reports with
  | nil =>
    cases h
    rfl
  | cons move moves ih =>
    obtain ⟨mid, report, reports', hstep, hrun, rfl⟩ := run_cons_eq_some.mp h
    have hmove := step_held hsound hstep oid
    have hrest := ih (step_sound hsound hstep) hrun
    simp only [List.countP_cons]
    omega

/-- However the calls of others come between the parts of the executor's turns, and whatever the node
answers: as often as an order is taken in, its transaction is accepted, or it is dropped, or taken
out by others, or still there. -/
theorem orders_accounted {pools : R}
    (h : x.run ⟨.new capacity, pools, .idle⟩ moves = some (s, reports)) (oid : TOrderId) :
    reports.countP (Report.isTakenIn oid) = reports.countP (Report.isAccepted oid) +
      reports.countP (Report.isDropped oid) + reports.countP (Report.isTakenOut oid) +
        s.held oid := by
  have hrun := HotOrderExecutor.run_held (HotPriorityBacklog.Sound.new capacity) h oid
  have hstart : (⟨.new capacity, pools, .idle⟩ : State Pool TOrd TOrderId Q R).held oid = 0 := by
    simp [State.held, stored, Stage.order, HotPriorityBacklog.new]
  omega

/-! ### An order that is put back -/

def sampleExecutor : HotOrderExecutor TestEntity SampleOrder Nat Unit Unit where
  getPoolRef _ := (1 : UInt8)
  tryRun entity ord :=
    if entity.boxId = 255 then .ok (.error (.fatal "" ord))
    else .ok (.ok ((), ⟨entity.tokenId, entity.boxId + 1⟩))
  prove := id
  displayVersion _ := "aa#0"
  displayRef _ := "bb#1"

/-- The pool is spent at the first attempt, which says nothing of the order. -/
def sampleMoves : List (Move TestEntity SampleOrder Nat Unit) :=
  [.backlog (.put ⟨1, 5⟩), .pop, .backlog (.put ⟨2, 3⟩), .resolve 9,
    .attempt fun _ => .error "825820aa", .pop, .pools (.putConfirmed sampleBox), .resolve 9,
    .attempt fun _ => .ok ()]

def sampleStart : State TestEntity SampleOrder Nat SampleQueue (InMemoryEntityRepo TestEntity) :=
  ⟨.new 10, repoAfter [.putConfirmed sampleBox], .idle⟩

theorem orders_accounted_sample : ∃ s reports,
    sampleExecutor.run sampleStart sampleMoves = some (s, reports) ∧ s.held 1 = 0 ∧
      reports.countP (Report.isTakenIn 1) = reports.countP (Report.isAccepted 1) +
        reports.countP (Report.isDropped 1) + reports.countP (Report.isTakenOut 1) + s.held 1 := by
  have hrun : ((sampleExecutor.run sampleStart sampleMoves).map fun r => r.1.held 1) = some 0 := by
    decide +kernel
  obtain ⟨⟨s, reports⟩, hrun, hheld⟩ := Option.map_eq_some_iff.mp hrun
  exact ⟨s, reports, hrun, hheld, orders_accounted hrun 1⟩

end UtxoMonitor.Executor
