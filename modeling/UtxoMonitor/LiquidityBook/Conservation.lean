import UtxoMonitor.Lib.Assoc
import UtxoMonitor.LiquidityBook.Trades

/-! What recipes take from orders and pools, and what they give to them. -/
namespace UtxoMonitor.LiquidityBook

open Lib MarketTakers

/-! ### Reserves and swaps -/

/-- The reserve of the asset that is paid in on a side. -/
def AbsoluteReserves.on (reserves : AbsoluteReserves) : Side → Nat
  | .ask => reserves.base
  | .bid => reserves.quote

/-- The excess of the asset that is paid in on a side. -/
def Excess.on (excess : Excess) : Side → Nat
  | .ask => excess.base
  | .bid => excess.quote

@[simp] theorem Excess.on_add (a b : Excess) (s : Side) : (a + b).on s = a.on s + b.on s := by
  cases s <;> rfl

section Makers

variable {M U : Type} [Stable M] [MarketMaker M U]

/-- The whole input goes to the reserves that a pool counts, and the output comes out of them. -/
structure ExactSwap (maker next : M) (s : Side) (amount : Nat) : Prop where
  id : stableId next = stableId maker
  taken : (liquidity next).on s = (liquidity maker).on s + amount
  paid : (liquidity next).on s.not ≤ (liquidity maker).on s.not

/-- What the pool of the make has received of the asset of a side. -/
def MakeInProgress.received (reserves : M → AbsoluteReserves) (s : Side)
    (make : MakeInProgress M) : Int :=
  match make.result with
  | .succ next => (reserves next).on s - (reserves make.target).on s
  | .term void => void.elim

/-- The swap of a pool pays for its input what leaves its reserves. -/
theorem ExactSwap.loss_eq {maker next : M} {s : Side} {amount : Nat}
    (h : ExactSwap maker next s amount) (hpos : 0 < amount) :
    (liquidity next).on s.not +
      ((MakeInProgress.loss ⟨maker, .succ next⟩).map OnSide.unwrap).getD 0 =
        (liquidity maker).on s.not := by
  obtain ⟨-, htaken, hpaid⟩ := h
  cases s with
  | ask =>
    have hbase : (liquidity next).base = (liquidity maker).base + amount := htaken
    have hquote : (liquidity next).quote ≤ (liquidity maker).quote := hpaid
    have hgrown : ¬ (liquidity next).base ≤ (liquidity maker).base := by omega
    simp only [MakeInProgress.loss, AbsoluteReserves.loss, checkedSub, hgrown, hquote, if_false,
      if_true, Option.map_none, Option.map_some, Option.none_or, OnSide.unwrap, Option.getD_some]
    exact Nat.add_sub_cancel' hquote
  | bid =>
    have hbase : (liquidity next).base ≤ (liquidity maker).base := hpaid
    simp only [MakeInProgress.loss, AbsoluteReserves.loss, checkedSub, hbase, if_true,
      Option.map_some, Option.some_or, OnSide.unwrap, Option.getD_some]
    exact Nat.add_sub_cancel' hbase

variable [MakerBehavior M]

/-- Swaps between sound states of a pool are exact. -/
def ExactMaker (Sound : M → Prop) : Prop :=
  ∀ {maker next : M} {s : Side} {amount : Nat}, swap maker (s.wrap amount) = .succ next →
    Sound maker → Sound next → ExactSwap maker next s amount

/-- The swap that replaces those of a make moves as much, less what is left over. -/
theorem MakeInProgress.finalized_received {Sound : M → Prop} (hexact : ExactMaker Sound)
    {make balanced : MakeInProgress M} {excess : Excess}
    (h : make.finalized = some (balanced, excess)) (htarget : Sound make.target)
    (hbalanced : ∀ next, balanced.result = .succ next → Sound next) (s : Side) :
    balanced.received liquidity s = make.received liquidity s - excess.on s := by
  obtain ⟨target, result⟩ := make
  cases result with
  | term void => exact void.elim
  | succ next =>
    unfold finalized at h
    dsimp only at h
    split at h
    · rename_i tradeInput hinput
      split at h
      · rename_i void _
        exact void.elim
      rename_i rebalanced hswap
      obtain ⟨excessQuote, hexcess, heq⟩ := Option.map_eq_some_iff.mp h
      cases heq
      obtain ⟨-, htaken, -⟩ := hexact (s := .ask) hswap htarget (hbalanced _ rfl)
      simp only [checkedSub, Option.ite_none_right_eq_some, Option.some.injEq] at hinput hexcess
      cases s with
      | ask =>
        simp only [received, AbsoluteReserves.on, Excess.on] at htaken ⊢
        omega
      | bid =>
        simp only [received, AbsoluteReserves.on, Excess.on] at htaken ⊢
        omega
    · obtain ⟨tradeInput, hinput, h⟩ := Option.bind_eq_some_iff.mp h
      split at h
      · rename_i void _
        exact void.elim
      rename_i rebalanced hswap
      obtain ⟨excessBase, hexcess, heq⟩ := Option.map_eq_some_iff.mp h
      cases heq
      obtain ⟨-, htaken, -⟩ := hexact (s := .bid) hswap htarget (hbalanced _ rfl)
      simp only [checkedSub, Option.ite_none_right_eq_some, Option.some.injEq] at hinput hexcess
      cases s with
      | ask =>
        simp only [received, AbsoluteReserves.on, Excess.on] at htaken ⊢
        omega
      | bid =>
        simp only [received, AbsoluteReserves.on, Excess.on] at htaken ⊢
        omega

/-- The make is one swap between sound states of its pool. -/
def MakeInProgress.IsSwap (Sound : M → Prop) (make : MakeInProgress M) : Prop :=
  ∃ (s : Side) (amount : Nat) (next : M), make.result = .succ next ∧
    swap make.target (s.wrap amount) = .succ next ∧ Sound make.target ∧ Sound next

omit [Stable M] in
theorem MakeInProgress.isSwap_of_finalized {Sound : M → Prop}
    {make balanced : MakeInProgress M} {excess : Excess}
    (h : make.finalized = some (balanced, excess)) (htarget : Sound make.target)
    (hbalanced : ∀ next, balanced.result = .succ next → Sound next) : balanced.IsSwap Sound := by
  obtain ⟨target, result⟩ := make
  cases result with
  | term void => exact void.elim
  | succ next =>
    unfold finalized at h
    dsimp only at h
    split at h
    · rename_i tradeInput _
      split at h
      · rename_i void _
        exact void.elim
      rename_i rebalanced hswap
      obtain ⟨excessQuote, -, heq⟩ := Option.map_eq_some_iff.mp h
      cases heq
      exact ⟨.ask, tradeInput, rebalanced, rfl, hswap, htarget, hbalanced _ rfl⟩
    · obtain ⟨tradeInput, -, h⟩ := Option.bind_eq_some_iff.mp h
      split at h
      · rename_i void _
        exact void.elim
      rename_i rebalanced hswap
      obtain ⟨excessBase, -, heq⟩ := Option.map_eq_some_iff.mp h
      cases heq
      exact ⟨.bid, tradeInput, rebalanced, rfl, hswap, htarget, hbalanced _ rfl⟩

theorem Excess.on_foldl (l : List Excess) (excess : Excess) (s : Side) :
    (l.foldl (· + ·) excess).on s = excess.on s + (l.map fun e => e.on s).sum := by
  induction l generalizing excess with
  | nil => rfl
  | cons e l ih =>
    rw [List.foldl_cons, ih, Excess.on_add, List.map_cons, List.sum_cons, Nat.add_assoc]

omit [Stable M] in
theorem exists_of_mem_mapM {makes : List (MakeInProgress M)}
    {balanced : List (MakeInProgress M × Excess)} {b : MakeInProgress M × Excess}
    (h : makes.mapM MakeInProgress.finalized = some balanced) (hb : b ∈ balanced) :
    ∃ make ∈ makes, make.finalized = some b := by
  induction makes generalizing balanced with
  | nil =>
    cases h
    cases hb
  | cons make makes ih =>
    rw [List.mapM_cons] at h
    obtain ⟨first, hfirst, h⟩ := Option.bind_eq_some_iff.mp h
    obtain ⟨rest, hrest, heq⟩ := Option.bind_eq_some_iff.mp h
    cases heq
    rcases List.mem_cons.mp hb with rfl | hb
    · exact ⟨make, List.mem_cons_self, hfirst⟩
    · obtain ⟨make', hmem, hmake'⟩ := ih hrest hb
      exact ⟨make', .tail _ hmem, hmake'⟩

/-- The makes made final receive as much, less all that is left over. -/
theorem sum_received_finalized {Sound : M → Prop} (hexact : ExactMaker Sound)
    {makes : List (MakeInProgress M)} {balanced : List (MakeInProgress M × Excess)}
    (h : makes.mapM MakeInProgress.finalized = some balanced)
    (hsound : ∀ make ∈ makes, Sound make.target ∧ ∀ balanced excess,
      make.finalized = some (balanced, excess) → ∀ next, balanced.result = .succ next → Sound next)
    (s : Side) :
    ((balanced.map Prod.fst).map (MakeInProgress.received liquidity s)).sum =
      (makes.map (MakeInProgress.received liquidity s)).sum -
        ((balanced.map Prod.snd).foldl (· + ·) (⟨0, 0⟩ : Excess)).on s := by
  have hnothing : (⟨0, 0⟩ : Excess).on s = 0 := by cases s <;> rfl
  rw [Excess.on_foldl, hnothing, Nat.zero_add]
  induction makes generalizing balanced with
  | nil =>
    cases h
    rfl
  | cons make makes ih =>
    rw [List.mapM_cons] at h
    obtain ⟨⟨first, excess⟩, hfirst, h⟩ := Option.bind_eq_some_iff.mp h
    obtain ⟨rest, hrest, heq⟩ := Option.bind_eq_some_iff.mp h
    cases heq
    obtain ⟨htarget, hbalanced⟩ := hsound make List.mem_cons_self
    have hmake := MakeInProgress.finalized_received hexact hfirst htarget
      (hbalanced first excess hfirst) s
    have hmakes := ih hrest fun make' hmem => hsound make' (.tail _ hmem)
    simp only [List.map_cons, List.sum_cons, Nat.cast_add]
    omega

end Makers

/-! ### Takes -/

section Takes

variable {T U : Type} [MarketTaker T U]

/-- What the take has given of the asset of a side, less what it has got of it. -/
def TakeInProgress.flow (s : Side) (take : TakeInProgress T) : Int :=
  if side take.target = s then take.removedInput else -(take.addedOutput : Int)

variable [TakerBehaviour T] [ExactTaker T] {t u : T} {removedInput : Nat}

theorem ExactTake.flow_trade (h : ExactTake ⟨t, .succ u⟩) (hle : removedInput ≤ input u)
    (addedOutput : Nat) (s : Side) :
    TakeInProgress.flow s ⟨t, withAppliedTrade u removedInput addedOutput⟩ =
      TakeInProgress.flow s ⟨t, .succ u⟩ +
        if side u = s then (removedInput : Int) else -(addedOutput : Int) := by
  obtain ⟨-, hremoved, hadded⟩ := h.trade hle addedOutput
  have hside : side u = side t := (h.same u rfl).1
  have hbefore : TakeInProgress.removedInput ⟨t, .succ u⟩ = input t - input u := rfl
  have hbefore' : TakeInProgress.addedOutput ⟨t, .succ u⟩ = output u - output t := rfl
  unfold TakeInProgress.flow
  rw [hremoved, hadded, hbefore, hbefore', hside]
  dsimp only
  split
  · exact Nat.cast_add _ _
  · rw [Nat.cast_add, neg_add]

/-- What is left over is given to the order. -/
theorem ExactTake.flow_finalized {take : TakeInProgress T} (h : ExactTake take) (excess : Nat)
    (s : Side) : (take.finalized excess).flow s =
      take.flow s - if side take.target = s then 0 else (excess : Int) := by
  obtain ⟨hremaining, hreceived⟩ := take.finalized_result excess
  have hle := h.received_ge
  unfold TakeInProgress.flow
  rw [TakeInProgress.removedInput_eq, TakeInProgress.addedOutput_eq, TakeInProgress.removedInput_eq,
    TakeInProgress.addedOutput_eq, hremaining, hreceived]
  have htarget : (take.finalized excess).target = take.target := rfl
  rw [htarget]
  split
  · exact (Int.sub_zero _).symm
  · omega

/-- The excess of an asset is given to orders that get it, and the rest is left. -/
theorem flow_balanceTakes {takes : List (TakeInProgress T)} (h : ∀ take ∈ takes, ExactTake take)
    (excess : Excess) (s : Side) :
    ((MatchmakingAttempt.balanceTakes excess takes).1.map (TakeInProgress.flow s)).sum =
      (takes.map (TakeInProgress.flow s)).sum -
        (excess.on s - (MatchmakingAttempt.balanceTakes excess takes).2.on s) := by
  induction takes generalizing excess with
  | nil => simp [MatchmakingAttempt.balanceTakes]
  | cons take takes ih =>
    have hexact := h take List.mem_cons_self
    have hrest := fun excess => ih (fun take' hmem => h take' (.tail _ hmem)) excess
    rw [MatchmakingAttempt.balanceTakes]
    split
    · rename_i hside
      simp only [List.map_cons, List.sum_cons]
      rw [hrest, hexact.flow_finalized, hside]
      cases s with
      | ask =>
        simp only [Excess.on, reduceCtorEq, if_false]
        omega
      | bid =>
        simp only [Excess.on, if_true]
        omega
    · rename_i hside
      simp only [List.map_cons, List.sum_cons]
      rw [hrest, hexact.flow_finalized, hside]
      cases s with
      | ask =>
        simp only [Excess.on, if_true]
        omega
      | bid =>
        simp only [Excess.on, reduceCtorEq, if_false]
        omega

end Takes

/-! ### Attempts -/

variable {T M U : Type} [Stable T] [MarketTaker T U] [TakerBehaviour T] [Ord T] [SideOrd T]
  [Stable M] [MarketMaker M U] [MakerBehavior M]

/-- All pools of the attempt are sound, as they were and as they have been swapped. -/
def MatchmakingAttempt.Sound (Sound : M → Prop) (batch : MatchmakingAttempt T M U) : Prop :=
  ∀ {pid make}, batch.makes.lookup pid = some make →
    Sound make.target ∧ ∀ next, make.result = .succ next → Sound next

/-- The takes of the attempt are exact, and leave no order without input. -/
def MatchmakingAttempt.Exact (batch : MatchmakingAttempt T M U) : Prop :=
  ∀ sid take, batch.takes.lookup sid = some take →
    ExactTake take ∧ ∀ next, take.result = .succ next → 0 < input next

/-- What the takes of the attempt give, its makes receive. -/
structure Balanced (batch : MatchmakingAttempt T M U) (book : TLBState T M) : Prop where
  takes : batch.Exact
  makes : ∀ {pid make}, batch.makes.lookup pid = some make →
    ∃ next, make.result = .succ next ∧ book.pools.values.lookup pid = some next
  flows : ∀ s, mapTotal (TakeInProgress.flow s) batch.takes =
    mapTotal (MakeInProgress.received liquidity s) batch.makes

section Trades

variable [Add U] [ExactTaker T] [SpendsInput T] {base : MarketTakers T} {optimized : Bool}
  {batch batch' : MatchmakingAttempt T M U} {book book' : TLBState T M} {t : T}
  {removedInput : Nat}

omit [MarketMaker M U] [MakerBehavior M] [Add U] [ExactTaker T] [SpendsInput T]
  [TakerBehaviour T] in
theorem input_pos_of_standing (hbase : ∀ t ∈ base, 0 < input t)
    (h : batch.Exact) (hstands : Standing base batch t) : 0 < input t := by
  unfold Standing at hstands
  split at hstands
  · exact hbase t hstands
  · rename_i take hlookup
    exact (h _ _ hlookup).2 t hstands

omit [SpendsInput T] [MarketMaker M U] [MakerBehavior M] in
/-- A trade adds its amounts to the flows. -/
theorem flow_addTake (h : batch.Exact) (hstands : Standing base batch t) (hle : removedInput ≤ input t)
    (addedOutput : Nat) (s : Side) : mapTotal (TakeInProgress.flow s)
        (batch.addTake ⟨t, withAppliedTrade t removedInput addedOutput⟩).takes =
      mapTotal (TakeInProgress.flow s) batch.takes +
        if side t = s then (removedInput : Int) else -(addedOutput : Int) := by
  have hrefl : TakeInProgress.flow s ⟨t, .succ t⟩ = 0 := by
    simp [TakeInProgress.flow, TakeInProgress.removedInput, TakeInProgress.addedOutput]
  unfold Standing at hstands
  unfold MatchmakingAttempt.addTake
  dsimp only
  cases hlookup : batch.takes.lookup (stableId t) with
  | none =>
    dsimp only
    rw [mapTotal_insert_of_none hlookup, (ExactTake.refl t).flow_trade hle, hrefl, zero_add]
  | some existing =>
    simp only [hlookup] at hstands
    dsimp only
    have hexact := (h _ _ hlookup).1
    have hexisting : existing = ⟨existing.target, .succ t⟩ := by rw [← hstands]
    rw [mapTotal_insert_of_some hlookup, Trans.combine]
    dsimp only
    rw [hexisting] at hexact ⊢
    rw [hexact.flow_trade hle, add_sub_cancel_left]

omit [MarketMaker M U] [MakerBehavior M] in
theorem exact_addTake (h : batch.Exact) (hstands : Standing base batch t)
    (hle : removedInput ≤ input t) (addedOutput : Nat) :
    (batch.addTake ⟨t, withAppliedTrade t removedInput addedOutput⟩).Exact := by
  intro sid take hlookup
  rw [MatchmakingAttempt.lookup_addTake] at hlookup
  split at hlookup
  · rename_i hid
    subst hid
    have hpos : ∀ next, withAppliedTrade t removedInput addedOutput = .succ next → 0 < input next :=
      fun next hnext => (SpendsInput.input_of_succ (U := U) hnext).1
    unfold Standing at hstands
    split at hstands
    · rename_i hnone
      rw [hnone] at hlookup
      cases hlookup
      exact ⟨((ExactTake.refl t).trade hle addedOutput).1, hpos⟩
    · rename_i existing hsome
      rw [hsome] at hlookup
      cases hlookup
      have hexact := (h _ _ hsome).1
      have hexisting : existing = ⟨existing.target, .succ t⟩ := by rw [← hstands]
      rw [hexisting] at hexact
      exact ⟨(hexact.trade hle addedOutput).1, hpos⟩
  · exact h _ _ hlookup

omit [MarketTaker T U] [TakerBehaviour T] [Ord T] [SideOrd T] [ExactTaker T] [SpendsInput T]
  [MakerBehavior M] in
theorem lookup_addMake {make : MakeInProgress M} {pid : StableId M}
    {batch : MatchmakingAttempt T M U} : (batch.addMake make).makes.lookup pid =
      if pid = stableId make.target then
        some ⟨((batch.makes.lookup pid).map Trans.target).getD make.target, make.result⟩
      else batch.makes.lookup pid := by
  unfold MatchmakingAttempt.addMake
  dsimp only
  by_cases hid : pid = stableId make.target
  · subst hid
    rw [if_pos rfl]
    split
    · rename_i hlookup
      rw [AList.lookup_insert, hlookup]
      rfl
    · rename_i existing hlookup
      rw [AList.lookup_insert, hlookup]
      rfl
  · rw [if_neg hid]
    split
    · rw [AList.lookup_insert_ne hid]
    · rw [AList.lookup_insert_ne hid]

omit [TakerBehaviour T] [SideOrd T] [ExactTaker T] [SpendsInput T] [MakerBehavior M] in
/-- A swap adds what it moves to what its pool has received. -/
theorem received_addMake {maker next : M} (h : ∀ {pid make}, batch.makes.lookup pid = some make →
      ∃ next, make.result = .succ next ∧ book.pools.values.lookup pid = some next)
    (stored : book.pools.values.lookup (stableId maker) = some maker) (s : Side) :
    mapTotal (MakeInProgress.received liquidity s) (batch.addMake ⟨maker, .succ next⟩).makes =
      mapTotal (MakeInProgress.received liquidity s) batch.makes +
        ((liquidity next).on s - (liquidity maker).on s) := by
  unfold MatchmakingAttempt.addMake
  dsimp only
  cases hlookup : batch.makes.lookup (stableId maker) with
  | none =>
    dsimp only
    rw [mapTotal_insert_of_none hlookup]
    rfl
  | some existing =>
    dsimp only
    obtain ⟨last, hresult, hlast⟩ := h hlookup
    obtain rfl := Option.some.inj (hlast.symm.trans stored)
    have hexisting : existing = ⟨existing.target, .succ last⟩ := by rw [← hresult]
    rw [mapTotal_insert_of_some hlookup, hexisting, Trans.combine]
    simp only [MakeInProgress.received]
    omega

theorem Balanced.trade {Sound : M → Prop} (hexact : ExactMaker Sound)
    (hbase : ∀ t ∈ base, 0 < input t) (h : Balanced batch book)
    (htrade : Trade base optimized batch batch' book book') (hsound : batch.Sound Sound)
    (hsound' : batch'.Sound Sound) :
    Balanced batch' book' := by
  cases htrade with
  | takers hask hbid askSide bidSide apart low high hbatch hpools =>
    rename_i ask bid settled
    have hle := tradedAmounts_le ask bid settled
    subst hbatch
    have hbid' : Standing base (batch.addTake ⟨ask, withAppliedTrade ask
        (tradedAmounts ask bid settled).2 (tradedAmounts ask bid settled).1⟩) bid := by
      rw [standing_addTake, if_neg apart]
      exact hbid
    have htakes := exact_addTake h.takes hask hle.2 (tradedAmounts ask bid settled).1
    refine ⟨exact_addTake htakes hbid' hle.1 _, ?_, fun s => ?_⟩
    · rw [MatchmakingAttempt.makes_addTake, MatchmakingAttempt.makes_addTake, hpools]
      exact h.makes
    · rw [flow_addTake htakes hbid' hle.1, flow_addTake h.takes hask hle.2,
        MatchmakingAttempt.makes_addTake, MatchmakingAttempt.makes_addTake, h.flows, askSide, bidSide]
      cases s <;> simp
  | maker standing stored fills overlap hswap hbatch hpools =>
    rename_i target maker next fill
    have hlookup : batch'.makes.lookup (stableId maker) = some
        ⟨((batch.makes.lookup (stableId maker)).map Trans.target).getD maker, .succ next⟩ := by
      rw [hbatch, MatchmakingAttempt.makes_addTake, lookup_addMake, if_pos rfl]
    have hmaker : Sound maker := by
      cases hold : batch.makes.lookup (stableId maker) with
      | none =>
        have htarget := (hsound' hlookup).1
        rwa [hold] at htarget
      | some existing =>
        obtain ⟨last, hresult, hlast⟩ := h.makes hold
        obtain rfl := Option.some.inj (hlast.symm.trans stored)
        exact (hsound hold).2 last hresult
    have hnext : Sound next := (hsound' hlookup).2 next rfl
    have hswapped := hexact hswap hmaker hnext
    have hpos : 0 < fill.input := by
      refine Nat.pos_of_ne_zero fun hzero => ?_
      exact (input_pos_of_standing hbase h.takes standing).ne' (fills.demand_eq_zero hzero)
    have hpaid := hswapped.loss_eq hpos
    have htake : (executeWithMaker target maker ((side target).wrap fill.input)).1 = ⟨target,
        withAppliedTrade target fill.input
          (((MakeInProgress.loss ⟨maker, .succ next⟩).map OnSide.unwrap).getD 0)⟩ := by
      rw [executeWithMaker, OnSide.unwrap_wrap, hswap]
    rw [htake] at hbatch
    subst hbatch
    have htakes : (batch.addMake ⟨maker, .succ next⟩).Exact := by
      rw [MatchmakingAttempt.Exact, MatchmakingAttempt.takes_addMake]
      exact h.takes
    have hstands : Standing base (batch.addMake ⟨maker, .succ next⟩) target := by
      rw [Standing, MatchmakingAttempt.takes_addMake]
      exact standing
    refine ⟨exact_addTake htakes hstands fills.input_le _, ?_, fun s => ?_⟩
    · intro pid make hmake
      rw [MatchmakingAttempt.makes_addTake, lookup_addMake] at hmake
      rw [hpools]
      simp only [MarketMakers.updatePool, MarketMakers.take]
      by_cases hid : pid = stableId maker
      · rw [if_pos hid] at hmake
        cases hmake
        subst hid
        refine ⟨next, rfl, ?_⟩
        rw [← hswapped.id, AList.lookup_insert]
      · rw [if_neg hid] at hmake
        obtain ⟨last, hresult, hlast⟩ := h.makes hmake
        refine ⟨last, hresult, ?_⟩
        rw [AList.lookup_insert_ne (hswapped.id ▸ hid), AList.lookup_erase_ne hid]
        exact hlast
    · rw [flow_addTake htakes hstands fills.input_le, MatchmakingAttempt.takes_addMake,
        MatchmakingAttempt.makes_addTake, received_addMake h.makes stored, h.flows]
      have htaken := hswapped.taken
      by_cases hside : side target = s
      · subst hside
        rw [if_pos rfl]
        omega
      · have hother : s = (side target).not := by
          cases hs : side target <;> cases s <;> first | rfl | exact absurd hs hside
        rw [if_neg hside, hother]
        omega

end Trades

/-! ### Recipes -/

section Recipes

variable {recipe : MatchmakingRecipe T M} {reserves reserves' : M → AbsoluteReserves}

def MatchmakingRecipe.takes (recipe : MatchmakingRecipe T M) : List (TakeInProgress T) :=
  recipe.instructions.filterMap Sum.getLeft?

def MatchmakingRecipe.makes (recipe : MatchmakingRecipe T M) : List (MakeInProgress M) :=
  recipe.instructions.filterMap Sum.getRight?

/-- What the orders of a side give. -/
def MatchmakingRecipe.removedInput (recipe : MatchmakingRecipe T M) (s : Side) : Nat :=
  ((recipe.takes.filter fun take => side take.target = s).map TakeInProgress.removedInput).sum

/-- What the orders of a side get. -/
def MatchmakingRecipe.addedOutput (recipe : MatchmakingRecipe T M) (s : Side) : Nat :=
  ((recipe.takes.filter fun take => side take.target = s).map TakeInProgress.addedOutput).sum

/-- What the pools receive of the asset of a side, by the reserves after the recipe and before. -/
def MatchmakingRecipe.received (reserves : M → AbsoluteReserves) (recipe : MatchmakingRecipe T M)
    (s : Side) : Int :=
  (recipe.makes.map (MakeInProgress.received reserves s)).sum

/-- All that is given of either asset is got by somebody. -/
structure MatchmakingRecipe.Conserves (reserves : M → AbsoluteReserves)
    (recipe : MatchmakingRecipe T M) : Prop where
  base : (recipe.removedInput .ask : Int) = recipe.addedOutput .bid + recipe.received reserves .ask
  quote : (recipe.removedInput .bid : Int) = recipe.addedOutput .ask + recipe.received reserves .bid

omit [Stable T] [TakerBehaviour T] [Ord T] [SideOrd T] in
theorem sum_flow (takes : List (TakeInProgress T)) (s : Side) :
    (takes.map (TakeInProgress.flow s)).sum =
      ((takes.filter fun take => side take.target = s).map TakeInProgress.removedInput).sum -
        (((takes.filter fun take => side take.target = s.not).map
          TakeInProgress.addedOutput).sum : Int) := by
  induction takes with
  | nil => rfl
  | cons take takes ih =>
    rw [List.map_cons, List.sum_cons, ih, TakeInProgress.flow]
    by_cases hside : side take.target = s
    · have hother : ¬ side take.target = s.not := by
        rw [hside]
        exact (Side.not_ne s).symm
      simp only [List.filter_cons, hside, decide_true, if_true, List.map_cons, List.sum_cons,
        (Side.not_ne s).symm, decide_false, Bool.false_eq_true, if_false]
      omega
    · have hother : side take.target = s.not := by
        cases hs : side take.target <;> cases s <;> first | rfl | exact absurd hs hside
      simp only [List.filter_cons, hother, decide_true, if_true, List.map_cons,
        List.sum_cons, Side.not_ne, decide_false, Bool.false_eq_true, if_false]
      omega

omit [Stable T] [TakerBehaviour T] [Ord T] [SideOrd T] [Stable M] [MarketMaker M U]
  [MakerBehavior M] in
theorem conserves_iff_flow : recipe.Conserves reserves ↔ ∀ s,
    (recipe.takes.map (TakeInProgress.flow s)).sum = recipe.received reserves s := by
  constructor
  · rintro ⟨hbase, hquote⟩ s
    rw [sum_flow]
    cases s with
    | ask =>
      show (recipe.removedInput .ask : Int) - recipe.addedOutput .bid = _
      omega
    | bid =>
      show (recipe.removedInput .bid : Int) - recipe.addedOutput .ask = _
      omega
  · intro h
    have hbase := h .ask
    have hquote := h .bid
    rw [sum_flow] at hbase hquote
    refine ⟨?_, ?_⟩
    · change (recipe.removedInput .ask : Int) - recipe.addedOutput .bid = _ at hbase
      omega
    · change (recipe.removedInput .bid : Int) - recipe.addedOutput .ask = _ at hquote
      omega

omit [Stable M] [TakerBehaviour T] [Ord T] [SideOrd T] [MakerBehavior M] in
theorem instructions_spec (final : FinalRecipe T M) :
    (MatchmakingRecipe.mk final.instructions).takes.Perm final.takes ∧
      (MatchmakingRecipe.mk final.instructions).makes = final.makes := by
  constructor
  · simp [MatchmakingRecipe.takes, FinalRecipe.instructions, List.filterMap_map, Function.comp_def,
      List.mergeSort_perm]
  · simp [MatchmakingRecipe.makes, FinalRecipe.instructions, List.filterMap_map, Function.comp_def]

omit [SideOrd T] in
/-- What is left over by the makes made final is given to the takes made final. -/
theorem Balanced.finalized [ExactTaker T] {Sound : M → Prop} (hexact : ExactMaker Sound)
    {batch : MatchmakingAttempt T M U} {book : TLBState T M} (h : Balanced batch book)
    {takes : List (TakeInProgress T)} {makes : List (MakeInProgress M)} {final : FinalRecipe T M}
    (walk : takes.Perm (batch.takes.entries.map Sigma.snd))
    (walk' : makes.Perm (batch.makes.entries.map Sigma.snd))
    (hfinal : batch.finalized takes makes = some final)
    (hsound : ∀ make ∈ makes, Sound make.target ∧ ∀ balanced excess,
      make.finalized = some (balanced, excess) → ∀ next, balanced.result = .succ next → Sound next) :
    MatchmakingRecipe.Conserves liquidity ⟨final.instructions⟩ ∧
      ∀ make ∈ (MatchmakingRecipe.mk final.instructions).makes, make.IsSwap Sound := by
  obtain ⟨balanced, hbalanced, hrest⟩ := Option.bind_eq_some_iff.mp hfinal
  obtain ⟨htakes, hmakes⟩ := instructions_spec final
  dsimp only at hrest
  split at hrest
  · rename_i hleft
    cases hrest
    refine ⟨conserves_iff_flow.mpr fun s => ?_, fun make hmake => ?_⟩
    rotate_left
    · rw [hmakes] at hmake
      obtain ⟨⟨make, excess⟩, hmem, rfl⟩ := List.mem_map.mp hmake
      obtain ⟨make', hmake', hfinalized⟩ := exists_of_mem_mapM hbalanced hmem
      obtain ⟨htarget, hbalanced⟩ := hsound make' hmake'
      exact MakeInProgress.isSwap_of_finalized hfinalized htarget (hbalanced make excess hfinalized)
    have hexactTakes : ∀ take ∈ takes, ExactTake take := by
      intro take hmem
      obtain ⟨sid, hlookup⟩ := MatchmakingAttempt.mem_takes.mp (walk.mem_iff.mp hmem)
      exact (h.takes sid take hlookup).1
    have hnothing : (⟨0, 0⟩ : Excess).on s = 0 := by cases s <;> rfl
    rw [(htakes.map _).sum_eq, MatchmakingRecipe.received, hmakes,
      sum_received_finalized hexact hbalanced hsound, flow_balanceTakes hexactTakes, hleft, hnothing,
      ← mapTotal_eq_of_perm walk, ← mapTotal_eq_of_perm walk', h.flows, Nat.cast_zero, Int.sub_zero]
  · cases hrest

end Recipes

/-! ### Runs -/

section Runs

variable [Zero U] [Add U] [LT U] {conf : ExecutionConfig U} {a b c : Attempt T M U} {ts us : List T}

/-- A run of `attempt` all of whose states satisfy `P`. -/
inductive Attempt.RunIn (conf : ExecutionConfig U) (P : Attempt T M U → Prop)
    (a : Attempt T M U) : List T → Attempt T M U → Prop where
  | refl (holds : P a) : RunIn conf P a [] a
  | step {ts us : List T} {b c : Attempt T M U} (run : RunIn conf P a ts b)
      (hstep : Step conf b us c) (holds : P c) : RunIn conf P a (ts ++ us) c

/-- The pools that are swapped are sound in every state of the attempt, and once their swaps are
made one. -/
def Attempt.Sound (Sound : M → Prop) : Attempt T M U → Prop
  | .matching _ batch _ => batch.Sound Sound
  | .formed _ batch _ => batch.Sound Sound ∧
    ∀ {pid make}, batch.makes.lookup pid = some make → ∀ balanced excess,
      make.finalized = some (balanced, excess) → ∀ next, balanced.result = .succ next → Sound next
  | .returned _ _ => True

variable {P : Attempt T M U → Prop} {Sound : M → Prop} {s : IdleState T M} {stashed : List T}

theorem Attempt.RunIn.run (h : RunIn conf P a ts b) : Run conf a ts b := by
  induction h with
  | refl holds => exact .refl
  | step run hstep holds ih => exact ih.step hstep

theorem Attempt.RunIn.holds (h : RunIn conf P a ts b) : P b := by
  cases h with
  | refl holds => exact holds
  | step run hstep holds => exact holds

/-- Where a run is, its takes and makes are balanced. -/
def Attempt.Balanced (Sound : M → Prop) : Attempt T M U → Prop
  | .matching _ batch book => LiquidityBook.Balanced batch book
  | .formed _ batch book => LiquidityBook.Balanced batch book
  | .returned recipe _ => ∀ r, recipe = some r →
    r.Conserves liquidity ∧ ∀ make ∈ r.makes, make.IsSwap Sound

omit [TakerBehaviour T] [SideOrd T] [MakerBehavior M] [LT U] [Add U] in
theorem balanced_empty (book : TLBState T M) :
    Balanced (.empty : MatchmakingAttempt T M U) book where
  takes sid take h := by cases h
  makes h := by cases h
  flows s := rfl

variable [LawfulTaker T] [ExactTaker T] [SpendsInput T]

theorem Attempt.Balanced.step (hs : s.HoldsOnce) (hinput : ∀ t, s.Has t → 0 < input t)
    (hexact : ExactMaker Sound) (hkeeps : a.Keeps s stashed) (h : a.Balanced Sound)
    (ha : a.Sound Sound) (hstep : Step conf a us b) (hb : b.Sound Sound) :
    b.Balanced Sound := by
  cases hstep with
  | next room walk walk' hturn =>
    have htrade := hkeeps.1.trade hs (hturn ▸ turn_trade conf walk')
    exact LiquidityBook.Balanced.trade hexact (fun t ht => hinput t (hkeeps.1.splits.has ht)) h
      htrade ha hb
  | stop room walk walk' hturn =>
    rename_i optimized batch book book' makers makers'
    have hcase : TradeCase optimized batch book (.stop book') := hturn ▸ turn_trade conf walk'
    cases hcase with
    | idle => exact h
    | unmatched picked =>
      refine ⟨h.takes, ?_, h.flows⟩
      rw [TLBState.pools_preAddTaker, picked.spec.2.2.2]
      exact h.makes
  | full full => exact h
  | pass walk walk' hout =>
    rename_i optimized batch book takes makes outcome
    have hcase := outcome_case batch takes makes conf.baseStepBudget
    rw [hout] at hcase
    cases hcase with
    | failed =>
      intro r hr
      cases hr
    | ok complete hfinal =>
      intro r hr
      cases hr
      refine LiquidityBook.Balanced.finalized hexact h walk walk' hfinal fun make hmem => ?_
      obtain ⟨⟨pid, make⟩, hentry, rfl⟩ := List.mem_map.mp (walk'.mem_iff.mp hmem)
      have hlookup := AList.mem_lookup_iff.mpr hentry
      exact ⟨(ha.1 hlookup).1, ha.2 hlookup⟩
    | dissatisfiedTakers complete hfinal unsatisfied => exact balanced_empty _
    | downgradeNeeded complete hfinal complex => exact balanced_empty _

theorem Attempt.Balanced.run (hs : s.HoldsOnce) (hinput : ∀ t, s.Has t → 0 < input t)
    (hexact : ExactMaker Sound)
    (hrun : RunIn conf (Attempt.Sound Sound) (start (.idle s)) stashed a) : a.Balanced Sound := by
  induction hrun with
  | refl holds => exact balanced_empty _
  | step run hstep holds ih =>
    exact ih.step hs hinput hexact (Keeps.run hs run.run) run.holds hstep holds

/-- What a recipe takes of either asset it gives, by the reserves that the pools count. -/
theorem attempt_conserves_liquidity (hs : s.HoldsOnce) (hinput : ∀ t, s.Has t → 0 < input t)
    (hexact : ExactMaker Sound) {recipe : MatchmakingRecipe T M} {book : TLBState T M}
    (hrun : Attempt.RunIn conf (Attempt.Sound Sound) (.start (.idle s)) stashed
      (.returned (some recipe) book)) :
    recipe.Conserves liquidity ∧ ∀ make ∈ recipe.makes, make.IsSwap Sound :=
  Attempt.Balanced.run hs hinput hexact hrun recipe rfl

end Runs

/-! ### Runs that are computed -/

section Computed

variable [Zero U] [Add U] [LT U] {conf : ExecutionConfig U} {a : Attempt T M U}
  {P : Attempt T M U → Prop}

/-- The recipe with which the attempt is over. -/
def Attempt.recipe? : Attempt T M U → Option (MatchmakingRecipe T M)
  | .returned recipe _ => recipe
  | _ => none

/-- The pool that a make leaves satisfies the test. -/
def MakeInProgress.leaves (test : M → Bool) (make : MakeInProgress M) : Bool :=
  match make.result with
  | .succ next => test next
  | .term _ => true

/-- Whether the pools that are swapped pass the test. -/
def Attempt.soundBy (test : M → Bool) : Attempt T M U → Bool
  | .matching _ batch _ => batch.makes.entries.all fun entry =>
    test entry.2.target && entry.2.leaves test
  | .formed _ batch _ => batch.makes.entries.all fun entry =>
    (test entry.2.target && entry.2.leaves test) &&
      match entry.2.finalized with
      | some (balanced, _) => balanced.leaves test
      | none => true
  | .returned _ _ => true

omit [Stable M] [MarketMaker M U] [MakerBehavior M] in
theorem MakeInProgress.of_leaves {test : M → Bool} {make : MakeInProgress M} {next : M}
    (h : make.leaves test) (hnext : make.result = .succ next) : test next := by
  rwa [leaves, hnext] at h

omit [TakerBehaviour T] [SideOrd T] [Zero U] [Add U] [LT U] in
theorem Attempt.sound_of_soundBy {test : M → Bool} {Sound : M → Prop}
    (htest : ∀ maker, test maker → Sound maker) (h : a.soundBy test) : a.Sound Sound := by
  cases a with
  | matching optimized batch book =>
    intro pid make hlookup
    have hmake := List.all_eq_true.mp h _ (AList.mem_lookup_iff.mp hlookup)
    simp only [Bool.and_eq_true] at hmake
    exact ⟨htest _ hmake.1, fun next hnext => htest _ (MakeInProgress.of_leaves hmake.2 hnext)⟩
  | formed optimized batch book =>
    have hall : ∀ {pid make}, batch.makes.lookup pid = some make → _ := fun hlookup =>
      List.all_eq_true.mp h _ (AList.mem_lookup_iff.mp hlookup)
    simp only [Bool.and_eq_true] at hall
    refine ⟨fun hlookup => ?_, fun hlookup balanced excess hbalanced next hnext => ?_⟩
    · obtain ⟨⟨htarget, hleaves⟩, -⟩ := hall hlookup
      exact ⟨htest _ htarget, fun next hnext => htest _ (MakeInProgress.of_leaves hleaves hnext)⟩
    · obtain ⟨-, hfinalized⟩ := hall hlookup
      rw [hbalanced] at hfinalized
      exact htest _ (MakeInProgress.of_leaves hfinalized hnext)
  | returned recipe book => trivial

variable [DecidableLT U]

/-- The first steps are a run in `P` if all their states satisfy `P`. -/
theorem Attempt.runIn_advances (conf : ExecutionConfig U) (a : Attempt T M U) (n : Nat)
    (h : ∀ k ≤ n, P (a.advances conf k).2) :
    RunIn conf P a (a.advances conf n).1 (a.advances conf n).2 := by
  induction n with
  | zero => exact .refl (h 0 (Nat.le_refl _))
  | succ n ih =>
    have hlast := h (n + 1) (Nat.le_refl _)
    have hrun := ih fun k hk => h k (Nat.le_succ_of_le hk)
    rw [advances] at hlast ⊢
    cases hadvance : (a.advances conf n).2.advance conf with
    | none => simpa only [hadvance] using hrun
    | some step =>
      simp only [hadvance] at hlast ⊢
      exact hrun.step (advance_step hadvance) hlast

end Computed

end UtxoMonitor.LiquidityBook
