import Mathlib.Algebra.Order.BigOperators.Group.List
import Mathlib.Algebra.Order.Field.Basic
import Mathlib.Algebra.Order.Ring.NNRat
import UtxoMonitor.LiquidityBook.Commit
import UtxoMonitor.LiquidityBook.Termination

/-! Attempts that ask for a downgrade once more, and orders whose budgets spare an attempt from it. -/
namespace UtxoMonitor.LiquidityBook

open MarketTakers

variable {T M U : Type} [Stable T] [MarketTaker T U] [TakerBehaviour T] [Ord T] [SideOrd T]
  [Stable M]

/-! ### Orders that are over -/

section Ended

variable [Add U] {batch : MatchmakingAttempt T M U} {take : TakeInProgress T}

/-- How many of the orders taken are over. -/
def MatchmakingAttempt.numEnded (batch : MatchmakingAttempt T M U) : Nat :=
  batch.takes.entries.countP fun entry => entry.2.result.succ?.isNone

theorem countP_insert {A : Type} {B : A → Type} [DecidableEq A] (s : AList B) (a : A) (b : B a)
    (p : Sigma B → Bool) (h : ∀ c, s.lookup a = some c → p ⟨a, c⟩ = false) :
    (s.insert a b).entries.countP p = s.entries.countP p + if p ⟨a, b⟩ then 1 else 0 := by
  have hrest : (s.entries.kerase a).countP p = s.entries.countP p := by
    by_cases ha : a ∈ s
    · obtain ⟨c, l₁, l₂, -, hentries, hrest⟩ := List.exists_of_kerase ha
      have hlookup : s.lookup a = some c := AList.mem_lookup_iff.mpr (by simp [hentries])
      rw [hrest, hentries, List.countP_append, List.countP_append, List.countP_cons,
        h c hlookup]
      simp
    · rw [List.kerase_of_notMem_keys ha]
  rw [AList.entries_insert, List.countP_cons, hrest]

omit [TakerBehaviour T] [Ord T] [SideOrd T] in
/-- A take of an order that is not over counts if it leaves nothing. -/
theorem MatchmakingAttempt.numEnded_addTake
    (h : ∀ existing, batch.takes.lookup (stableId take.target) = some existing →
      existing.result.succ?.isNone = false) :
    (batch.addTake take).numEnded =
      batch.numEnded + if take.result.succ?.isNone then 1 else 0 := by
  unfold addTake
  dsimp only
  split
  · exact countP_insert _ _ _ _ h
  · exact countP_insert _ _ _ _ h

omit [TakerBehaviour T] [Ord T] [SideOrd T] [MarketTaker T U] in
theorem MatchmakingAttempt.numMakes_addMake_le [MarketMaker M U]
    (batch : MatchmakingAttempt T M U) (make : MakeInProgress M) :
    (batch.addMake make).numMakes ≤ batch.numMakes + 1 := by
  have hinsert : ∀ sid make', (batch.makes.insert sid make').entries.length ≤ batch.numMakes + 1 :=
    fun sid make' => Nat.succ_le_succ (List.kerase_sublist sid batch.makes.entries).length_le
  unfold addMake
  dsimp only
  split
  · exact hinsert _ _
  · exact hinsert _ _

end Ended

/-! ### Makes and orders that are over -/

section Turns

variable [MarketMaker M U] [MakerBehavior M] [Add U] [LawfulTaker T] [SpendsInput T]
  {s : IdleState T M} {stashed : List T} {batch batch' : MatchmakingAttempt T M U}
  {book book' : TLBState T M} {t : T}

omit [TakerBehaviour T] [LawfulTaker T] [SpendsInput T] [MarketMaker M U] [MakerBehavior M]
  [Add U] in
/-- An active order is not over. -/
theorem Pass.not_ended (h : Pass s stashed batch book ∅) (ht : t ∈ book.activeFragments)
    (existing : TakeInProgress T) (hlookup : batch.takes.lookup (stableId t) = some existing) :
    existing.result.succ?.isNone = false := by
  have hstanding := (h.accounts.standing t).mpr (.inl ht)
  rw [Standing, hlookup] at hstanding
  rw [hstanding]
  rfl

omit [LawfulTaker T] in
/-- Outside the optimized mode every make uses up an order. -/
theorem Pass.numMakes_le (hs : s.HoldsOnce) (h : Pass s stashed batch book ∅)
    (hcase : TurnCase false batch book (.next batch' book'))
    (hle : batch.numMakes ≤ batch.numEnded) : batch'.numMakes ≤ batch'.numEnded := by
  cases hcase with
  | taker picked counterPicked opposite matched =>
    rename_i target counter book₁ book₂ takes matchmaker
    obtain ⟨ask, bid, price, htakes, hne, hboth⟩ := executeWithTaker_spec opposite matchmaker
    rw [htakes] at matched
    have hcounter : counter ∈ book.activeFragments := by
      have hmem := counterPicked.spec.1
      rw [picked.spec.2.1] at hmem
      exact (mem_remove.mp hmem).1
    have hactive : ask ∈ book.activeFragments ∧ bid ∈ book.activeFragments := by
      rcases hboth with ⟨rfl, rfl⟩ | ⟨rfl, rfl⟩
      · exact ⟨picked.spec.1, hcounter⟩
      · exact ⟨hcounter, picked.spec.1⟩
    have hid : stableId bid ≠ stableId ask := by
      intro hid
      have hstanding : ∀ t ∈ book.activeFragments, Standing book.base.takers.active batch t :=
        fun t ht => (h.accounts.standing t).mpr (.inl ht)
      obtain rfl := standing_distinct (h.splits.distinct hs) bid ask (hstanding bid hactive.2)
        (hstanding ask hactive.1) hid
      exact hne rfl
    have hask : (batch.addTake takes.1).numEnded = batch.numEnded + _ :=
      MatchmakingAttempt.numEnded_addTake (by
        rw [matched]
        exact h.not_ended hactive.1)
    have hbid : ((batch.addTake takes.1).addTake takes.2).numEnded =
        (batch.addTake takes.1).numEnded + _ :=
      MatchmakingAttempt.numEnded_addTake (by
        rw [MatchmakingAttempt.lookup_addTake, matched, if_neg hid]
        exact h.not_ended hactive.2)
    have hmakes : ((batch.addTake takes.1).addTake takes.2).numMakes = batch.numMakes := by
      rw [MatchmakingAttempt.numMakes, MatchmakingAttempt.makes_addTake,
        MatchmakingAttempt.makes_addTake, MatchmakingAttempt.numMakes]
    rw [hmakes, hbid, hask]
    omega
  | maker picked chunk_le chunk_zero whole matched =>
    rename_i target maker book₁ chunk pair
    have htarget : pair.1.target = target := congrArg (·.1.target) matched
    have hended : pair.1.result.succ?.isNone := by
      rw [matched, executeWithMaker, OnSide.unwrap_wrap, whole rfl]
      exact Option.isNone_iff_eq_none.mpr (succ?_withAppliedTrade (Nat.le_refl _))
    have hcount : ((batch.addMake pair.2).addTake pair.1).numEnded = batch.numEnded + 1 := by
      rw [MatchmakingAttempt.numEnded_addTake, if_pos hended, MatchmakingAttempt.numEnded,
        batch.takes_addMake]
      · rfl
      · rw [batch.takes_addMake, htarget]
        exact h.not_ended picked.spec.1
    have hmakes : ((batch.addMake pair.2).addTake pair.1).numMakes ≤ batch.numMakes + 1 := by
      rw [MatchmakingAttempt.numMakes, MatchmakingAttempt.makes_addTake]
      exact batch.numMakes_addMake_le pair.2
    omega

end Turns

/-! ### Budgets -/

section Budgets

variable [MarketMaker M U] [MakerBehavior M]

omit [Ord T] [SideOrd T] in
theorem length_makes_finalized {batch : MatchmakingAttempt T M U} {takes : List (TakeInProgress T)}
    {makes : List (MakeInProgress M)} {final : FinalRecipe T M}
    (h : batch.finalized takes makes = some final) : final.makes.length = makes.length := by
  have hmapM : ∀ (makes : List (MakeInProgress M)) (balanced : List (MakeInProgress M × Excess)),
      makes.mapM MakeInProgress.finalized = some balanced → balanced.length = makes.length := by
    intro makes
    induction makes with
    | nil =>
      intro balanced h
      cases h
      rfl
    | cons make makes ih =>
      intro balanced h
      rw [List.mapM_cons] at h
      obtain ⟨first, -, h⟩ := Option.bind_eq_some_iff.mp h
      obtain ⟨rest, hrest, h⟩ := Option.bind_eq_some_iff.mp h
      cases h
      rw [List.length_cons, List.length_cons, ih rest hrest]
  obtain ⟨balanced, hbalanced, h⟩ := Option.bind_eq_some_iff.mp h
  dsimp only at h
  split at h
  · cases h
    rw [List.length_map, hmapM makes balanced hbalanced]
  · cases h

omit [TakerBehaviour T] [Ord T] [SideOrd T] [Stable M] [MarketMaker M U] [MakerBehavior M] in
/-- No more makes than takes, and orders that pay for half a step each, make a recipe cheap enough. -/
theorem checkRecipeComplexity_of_budgets {final : FinalRecipe T M} {baseStepBudget : Nat}
    (hle : final.makes.length ≤ final.takes.length)
    (hbudget : ∀ t ∈ final.takes.map Trans.target,
      max baseStepBudget 1 ≤ 2 * consumableBudget t) :
    final.checkRecipeComplexity baseStepBudget := by
  unfold FinalRecipe.checkRecipeComplexity
  split
  · rename_i hmakes
    obtain ⟨take, htake⟩ := List.exists_mem_of_length_pos (hmakes.trans_le hle)
    have hpays : max baseStepBudget 1 ≤
        2 * (final.takes.map fun take => consumableBudget take.target).sum := by
      refine (hbudget _ (List.mem_map_of_mem htake)).trans (Nat.mul_le_mul_left 2 ?_)
      exact List.single_le_sum (fun _ _ => Nat.zero_le _) _
        (List.mem_map_of_mem (f := fun take => consumableBudget take.target) htake)
    have hcross := Nat.mul_le_mul hle hpays
    have hmakes' : (0 : ℚ≥0) < final.makes.length := Nat.cast_pos.mpr hmakes
    have hbase : (0 : ℚ≥0) < (max baseStepBudget 1 : Nat) :=
      Nat.cast_pos.mpr (Nat.lt_of_lt_of_le Nat.one_pos (Nat.le_max_right _ _))
    dsimp only
    rw [decide_eq_true_iff, div_mul_div_comm, div_le_div_iff₀ two_pos (mul_pos hmakes' hbase)]
    have hnat : 1 * (final.makes.length * max baseStepBudget 1) ≤
        final.takes.length * (final.takes.map fun take => consumableBudget take.target).sum * 2 := by
      rw [Nat.one_mul, Nat.mul_assoc, Nat.mul_comm _ 2]
      exact hcross
    exact_mod_cast hnat
  · rfl

end Budgets

/-! ### Attempts -/

section Attempts

variable [MarketMaker M U] [MakerBehavior M] [Zero U] [Add U] [LT U] [LawfulTaker T] [SpendsInput T]
  {conf : ExecutionConfig U} {s : IdleState T M} {stashed us : List T} {a b : Attempt T M U}

namespace Attempt

/-- Outside the optimized mode there are no more makes than orders that are over. -/
def EndsOrders : Attempt T M U → Prop
  | .matching false batch _ => batch.numMakes ≤ batch.numEnded
  | .formed false batch _ => batch.numMakes ≤ batch.numEnded
  | _ => True

omit [TakerBehaviour T] [SideOrd T] [MarketMaker M U] [MakerBehavior M] [LT U] [LawfulTaker T]
  [SpendsInput T] [Add U] in
theorem endsOrders_empty {optimized : Bool} {book : TLBState T M} :
    (Attempt.matching optimized (.empty : MatchmakingAttempt T M U) book).EndsOrders := by
  cases optimized with
  | true => trivial
  | false => exact Nat.zero_le _

omit [LawfulTaker T] in
theorem EndsOrders.step (hs : s.HoldsOnce) (hkeeps : a.Keeps s stashed) (h : a.EndsOrders)
    (hstep : Step conf a us b) : b.EndsOrders := by
  cases step_case hstep with
  | next hturn =>
    rename_i optimized batch batch' book book'
    cases optimized with
    | true => trivial
    | false => exact hkeeps.1.numMakes_le hs hturn h
  | stop hturn =>
    rename_i optimized batch book book'
    cases optimized with
    | true => trivial
    | false => exact h
  | full =>
    rename_i optimized batch book
    cases optimized with
    | true => trivial
    | false => exact h
  | failed => trivial
  | ok madeOf => trivial
  | dissatisfiedTakers complete hne hts => exact endsOrders_empty
  | downgradeNeeded walk walk' hout complete => exact endsOrders_empty

theorem EndsOrders.run (hs : s.HoldsOnce) (hrun : Run conf (start (.idle s)) us a) :
    a.EndsOrders := by
  induction hrun with
  | refl => exact endsOrders_empty
  | step run hstep ih => exact ih.step hs (Keeps.run hs run) hstep

/-- Outside the optimized mode orders that pay for half a step each pay for every pass. -/
theorem affordable_of_budgets (hs : s.HoldsOnce)
    (hbudget : ∀ t ∈ s.takers.active, max conf.baseStepBudget 1 ≤ 2 * consumableBudget t) :
    Affordable conf (start (.idle s)) := by
  intro ts batch book takes makes hrun walk walk' hout
  obtain ⟨hpass, -⟩ := Keeps.run hs hrun
  have hends : batch.numMakes ≤ batch.numEnded := EndsOrders.run hs hrun
  have hcase := outcome_case batch takes makes conf.baseStepBudget
  rw [hout] at hcase
  cases hcase with
  | downgradeNeeded complete hfinal complex =>
    rename_i final
    have htargets := targets_finalized hfinal
    have hlength : final.makes.length ≤ final.takes.length := by
      calc final.makes.length = batch.numMakes := by
            rw [length_makes_finalized hfinal, walk'.length_eq, List.length_map,
              MatchmakingAttempt.numMakes]
        _ ≤ batch.numEnded := hends
        _ ≤ batch.takes.entries.length := List.countP_le_length
        _ = takes.length := by rw [walk.length_eq, List.length_map]
        _ = final.takes.length := by simpa using congrArg List.length htargets.symm
    refine complex (checkRecipeComplexity_of_budgets hlength fun t ht => ?_)
    rw [htargets, (walk.map Trans.target).mem_iff] at ht
    exact hbudget t ((hpass.splits.active t).mpr (.inl (hpass.mem_of_target ht)))

end Attempt

/-- An attempt on a settled book whose orders pay for half a step each comes to an end. -/
theorem attempt_terminates_of_budgets (hs : s.HoldsOnce)
    (hbudget : ∀ t ∈ s.takers.active, max conf.baseStepBudget 1 ≤ 2 * consumableBudget t) :
    Acc (Attempt.Next conf) (.start (.idle s)) :=
  Attempt.acc_of_affordable (Attempt.affordable_of_budgets hs hbudget)

/-- An attempt comes to an end, whichever of its steps it takes, exactly if no pass outside the
optimized mode asks for a downgrade. -/
theorem attempt_terminates_iff (conf : ExecutionConfig U) (book : TLBState T M) :
    Acc (Attempt.Next conf) (.start book) ↔ Attempt.Affordable conf (.start book) :=
  ⟨Attempt.affordable_of_acc, Attempt.acc_of_affordable⟩

end Attempts

section Sample

/-- After `n` steps a pass outside the optimized mode asks for a downgrade. -/
def Attempt.downgrades [MarketMaker M U] [MakerBehavior M] [Zero U] [Add U] [LT U] [DecidableLT U]
    (conf : ExecutionConfig U) (n : Nat) (book : TLBState T M) : Bool :=
  match (start book).advances conf n with
  | (_, .formed false batch _) =>
    match MatchmakingRecipe.tryFrom batch (batch.takes.entries.map Sigma.snd)
      (batch.makes.entries.map Sigma.snd) conf.baseStepBudget with
    | .error .downgradeNeeded => true
    | _ => false
  | _ => false

theorem Attempt.not_affordable_of_downgrades [MarketMaker M U] [MakerBehavior M] [Zero U] [Add U]
    [LT U] [DecidableLT U] {conf : ExecutionConfig U} {n : Nat} {book : TLBState T M}
    (h : downgrades conf n book) : ¬ Affordable conf (start book) := by
  have hrun := run_advances conf (start book) n
  unfold downgrades at h
  split at h
  · rename_i ts batch book' hformed
    split at h
    · rename_i hout
      rw [hformed] at hrun
      exact fun haff => haff hrun (.refl _) (.refl _) hout
    · cases h
  · cases h

/-- The bid pays for the step that fills it. -/
theorem attempt_terminates_iff_sample :
    Acc (Attempt.Next sampleConf)
      (.start (.idle (bookOf [{ sampleOrder 1 .bid 10 10 0 with exBudget := 1 }]))) := by
  refine (attempt_terminates_iff sampleConf _).mpr (Attempt.affordable_of_budgets ?_ ?_)
  · refine holdsOnce_bookOf fun t u ht hu _ => ?_
    rw [List.mem_singleton.mp ht, List.mem_singleton.mp hu]
  · intro t ht
    rcases mem_of_mem_insertAll ht with ht | ht
    · exact absurd ht not_mem_empty
    · rw [List.mem_singleton.mp ht]
      decide

/-- Without a budget the bid is filled by the pool as well, in either mode. -/
theorem attempt_runs_on :
    ¬ Acc (Attempt.Next sampleConf) (.start (.idle (bookOf [sampleOrder 1 .bid 10 10 0]))) := by
  have hdowngrade :
      Attempt.downgrades sampleConf 5 (.idle (bookOf [sampleOrder 1 .bid 10 10 0])) := by
    decide +kernel
  exact fun hacc => Attempt.not_affordable_of_downgrades hdowngrade
    (Attempt.affordable_of_acc hacc)

end Sample

end UtxoMonitor.LiquidityBook
