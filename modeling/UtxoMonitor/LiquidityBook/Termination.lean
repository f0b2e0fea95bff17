import UtxoMonitor.Lib.Runs
import UtxoMonitor.LiquidityBook.Turns

/-! When an attempt comes to an end. -/
namespace UtxoMonitor.LiquidityBook

open Lib MarketTakers

variable {T M U : Type} [Stable T] [MarketTaker T U] [TakerBehaviour T] [Ord T] [SideOrd T]
  [Stable M]

/-! ### What the active orders add up to -/

namespace MarketTakers

omit [Stable T] [TakerBehaviour T]

variable {mt : MarketTakers T} {f : T → Nat} {t : T} {ts : List T}

def total (f : T → Nat) (mt : MarketTakers T) : Nat :=
  Lib.total (fun o => f o.val) (mt.on .ask) + Lib.total (fun o => f o.val) (mt.on .bid)

/-- A change of one side changes the total by as much. -/
theorem total_update (f : T → Nat) (mt : MarketTakers T) (s : Side)
    (change : BTreeSet T s → BTreeSet T s) :
    (mt.update s change).total f + Lib.total (fun o => f o.val) (mt.on s) =
      mt.total f + Lib.total (fun o => f o.val) (change (mt.on s)) := by
  cases s with
  | ask =>
    rw [total, on_update_self, on_update_of_ne (by decide), total]
    omega
  | bid =>
    rw [total, on_update_self, on_update_of_ne (by decide), total]
    omega

theorem total_remove (h : t ∈ mt) : (mt.remove t).total f + f t = mt.total f := by
  have hupdate := total_update f mt (side t) (·.erase ⟨t, rfl⟩)
  have herase := total_erase (f := fun o : Sided T (side t) => f o.val) ((mem_iff rfl).mp h)
  rw [← remove] at hupdate
  dsimp only at herase
  omega

theorem total_remove_le : (mt.remove t).total f ≤ mt.total f := by
  have hupdate := total_update f mt (side t) (·.erase ⟨t, rfl⟩)
  have herase := total_erase_le (s := mt.on (side t)) (a := ⟨t, rfl⟩) (f := fun o => f o.val)
  rw [← remove] at hupdate
  omega

theorem total_insert_le : (mt.insert t).total f ≤ mt.total f + f t := by
  have hupdate := total_update f mt (side t) (·.insert ⟨t, rfl⟩)
  have hinsert := Lib.total_insert_le (s := mt.on (side t)) (a := ⟨t, rfl⟩) (f := fun o => f o.val)
  rw [← insert] at hupdate
  dsimp only at hinsert
  omega

theorem total_removeAll_le : (mt.removeAll ts).total f ≤ mt.total f := by
  induction ts generalizing mt with
  | nil => exact Nat.le_refl _
  | cons t ts ih => exact ih.trans total_remove_le

end MarketTakers

/-! ### A match takes input from the book -/

/-- What an order counts for while it is active. -/
def weight (t : T) : Nat := input t + 1

namespace TLBState

omit [Stable T] [TakerBehaviour T]

variable {book book' : TLBState T M} {t : T}

/-- The input of the active orders, and how many they are. -/
def weight (book : TLBState T M) : Nat := book.activeFragments.total LiquidityBook.weight

theorem weight_of_picked (h : Picked book t book') :
    book'.weight + LiquidityBook.weight t = book.weight := by
  obtain ⟨ht, hactive, -⟩ := h.spec
  rw [weight, hactive]
  exact total_remove ht

theorem weight_onTake_le {E : Type} (book : TLBState T M) (res : Next T E) :
    (book.onTake res).weight ≤ book.weight + res.succ?.elim 0 LiquidityBook.weight := by
  cases res with
  | succ next =>
    rcases book.preAddTaker_cases next with ⟨hactive, -⟩ | ⟨hactive, -⟩
    · rw [onTake, weight, hactive]
      exact total_insert_le
    · rw [onTake, weight, hactive]
      exact Nat.le_add_right _ _
  | term last => exact Nat.le_refl _

end TLBState

section Spend

variable [SpendsInput T] {t : T} {r a : Nat}

omit [Stable T] [Ord T] [SideOrd T] in
/-- What is left of an order counts for less by what it has spent. -/
theorem weight_withAppliedTrade_le :
    (withAppliedTrade t r a).succ?.elim 0 weight + r ≤ weight t + (r - input t) := by
  cases hres : withAppliedTrade t r a with
  | succ next =>
    obtain ⟨hpos, hinput⟩ := SpendsInput.input_of_succ (U := U) hres
    simp only [Next.succ?, Option.elim, weight]
    omega
  | term last =>
    simp only [Next.succ?, Option.elim, weight]
    omega

omit [Stable T] [Ord T] [SideOrd T] in
/-- Nothing is left of an order that has spent its input. -/
theorem succ?_withAppliedTrade (h : input t ≤ r) : (withAppliedTrade t r a).succ? = none := by
  cases hres : withAppliedTrade t r a with
  | succ next =>
    obtain ⟨hpos, hinput⟩ := SpendsInput.input_of_succ (U := U) hres
    omega
  | term last => rfl

omit [Stable T] [TakerBehaviour T] [Ord T] [SideOrd T] in
/-- Of two orders that trade one spends all of its input. -/
theorem input_le_traded (ask bid : T) (price : AbsolutePrice) :
    input ask ≤ (tradedAmounts ask bid price).2 ∨ input bid ≤ (tradedAmounts ask bid price).1 := by
  unfold tradedAmounts
  dsimp only
  split
  · exact .inr (Nat.le_refl _)
  split
  · exact .inl (Nat.le_refl _)
  · exact .inr (Nat.le_refl _)

variable [MarketMaker M U] [MakerBehavior M] [Add U] {optimized : Bool}
  {batch batch' : MatchmakingAttempt T M U} {book book' : TLBState T M}

theorem TurnCase.weight_lt (h : TurnCase optimized batch book (.next batch' book')) :
    book'.weight < book.weight := by
  cases h with
  | taker picked counterPicked opposite matched =>
    rename_i target counter book₁ book₂ takes matchmaker
    obtain ⟨ask, bid, price, htakes, -, hboth⟩ := executeWithTaker_spec opposite matchmaker
    have hpicked := TLBState.weight_of_picked picked
    have hcounter := TLBState.weight_of_picked counterPicked
    have hboth : weight ask + weight bid = weight target + weight counter := by
      rcases hboth with ⟨rfl, rfl⟩ | ⟨rfl, rfl⟩
      · rfl
      · exact Nat.add_comm _ _
    have hask := book₂.weight_onTake_le takes.1.result
    have hbid := (book₂.onTake takes.1.result).weight_onTake_le takes.2.result
    rw [matched, htakes] at hask hbid ⊢
    dsimp only at hask hbid ⊢
    have hleftAsk := weight_withAppliedTrade_le (t := ask)
      (r := (tradedAmounts ask bid price).2) (a := (tradedAmounts ask bid price).1)
    have hleftBid := weight_withAppliedTrade_le (t := bid)
      (r := (tradedAmounts ask bid price).1) (a := (tradedAmounts ask bid price).2)
    have hpos : 0 < weight ask ∧ 0 < weight bid := ⟨Nat.succ_pos _, Nat.succ_pos _⟩
    rcases input_le_traded ask bid price with hspent | hspent
    · rw [succ?_withAppliedTrade hspent, Option.elim_none] at hask
      omega
    · rw [succ?_withAppliedTrade hspent, Option.elim_none] at hbid
      omega
  | maker picked chunk_le chunk_zero whole matched =>
    rename_i target maker book₁ chunk pair
    have hpicked := TLBState.weight_of_picked picked
    have hserved := (book₁.pickMakerById (stableId maker)).2.weight_onTake_le pair.1.result
    have hmaker : (book₁.pickMakerById (stableId maker)).2.weight = book₁.weight := by
      rw [TLBState.weight, (book₁.pickMakerById_spec (stableId maker)).2.1, TLBState.weight]
    have hmade : (((book₁.pickMakerById (stableId maker)).2.onTake pair.1.result).onMake
        pair.2.result).weight =
          ((book₁.pickMakerById (stableId maker)).2.onTake pair.1.result).weight := by
      rw [TLBState.weight, (TLBState.onMake_spec _ _).1, TLBState.weight]
    have hleft := weight_withAppliedTrade_le (t := target) (r := chunk)
      (a := (pair.2.loss.map OnSide.unwrap).getD 0)
    have hpos : 0 < weight target := Nat.succ_pos _
    rw [hmade]
    have hresult : pair.1.result =
        withAppliedTrade target chunk ((pair.2.loss.map OnSide.unwrap).getD 0) := by
      rw [matched, executeWithMaker, OnSide.unwrap_wrap]
    rw [hresult] at hserved ⊢
    rcases Nat.eq_zero_or_pos chunk with hzero | hchunk
    · rw [succ?_withAppliedTrade ((chunk_zero hzero).trans hzero.symm).le,
        Option.elim_none] at hserved
      omega
    · omega

end Spend

/-! ### What a pass can put aside -/

/-- The order was active when the pass started, or has been served since. -/
def Known (b : Base T M) (batch : MatchmakingAttempt T M U) (u : T) : Prop :=
  u ∈ b.takers.active ∨ (batch.takes.lookup (stableId u)).isSome

/-- A pass that started from `b` serves the orders of `b` and what is left of them. -/
structure FromBase (b : Base T M) (batch : MatchmakingAttempt T M U) (book : TLBState T M) :
    Prop where
  sound : book.Sound
  base_eq : book.base = b
  active : ∀ u ∈ book.activeFragments, Known b batch u
  target : ∀ {sid take}, batch.takes.lookup sid = some take → take.target ∈ b.takers.active
  changed : batch.isComplete → book.Changed

namespace FromBase

variable {b : Base T M} {batch batch' : MatchmakingAttempt T M U} {book book' : TLBState T M}
  {t u : T}

omit [TakerBehaviour T] in
theorem fresh [Zero U] (b : Base T M) : FromBase b (.empty : MatchmakingAttempt T M U) b.book where
  sound := b.sound_book
  base_eq := b.base_book
  active u hu := .inl (b.book_spec.1 ▸ hu)
  target h := by cases h
  changed h := by cases h

omit [TakerBehaviour T] in
theorem pick (h : FromBase b batch book) (hpick : Picked book t book') :
    FromBase b batch book' ∧ Known b batch t := by
  obtain ⟨ht, hactive, -⟩ := hpick.spec
  obtain ⟨hsound, hbase⟩ := hpick.sound h.sound
  refine ⟨⟨hsound, hbase.trans h.base_eq, ?_, h.target, ?_⟩, h.active t ht⟩
  · intro u hu
    rw [hactive] at hu
    exact h.active u (mem_remove.mp hu).1
  · exact fun _ => TLBState.changed_of_picked hpick

omit [Stable T] [TakerBehaviour T] in
theorem mem_preAddTaker {next : T} (hu : u ∈ (book.preAddTaker next).activeFragments) :
    u ∈ book.activeFragments ∨ u = next := by
  rcases book.preAddTaker_cases next with ⟨hactive, -⟩ | ⟨hactive, -⟩
  · rw [hactive] at hu
    exact (mem_insert.mp hu).imp_right And.left
  · rw [hactive] at hu
    exact .inl hu

omit [TakerBehaviour T] in
/-- Nothing that concerns the orders has changed. -/
theorem congr (h : FromBase b batch book) (hbase : book'.Sound ∧ book'.base = book.base)
    (htakes : batch'.takes = batch.takes) (hactive : book'.activeFragments = book.activeFragments)
    (hchanged : book'.Changed) : FromBase b batch' book' where
  sound := hbase.1
  base_eq := hbase.2.trans h.base_eq
  active u hu := by
    rw [Known, htakes]
    exact h.active u (hactive ▸ hu)
  target := by
    rw [htakes]
    exact h.target
  changed _ := hchanged

variable [Add U]

omit [TakerBehaviour T] in
theorem known_addTake {take : TakeInProgress T} (h : Known b batch u) :
    Known b (batch.addTake take) u := by
  rcases h with h | h
  · exact .inl h
  · rw [Known, MatchmakingAttempt.lookup_addTake]
    split
    · exact .inr rfl
    · exact .inr h

omit [TakerBehaviour T] in
/-- A known order is traded. -/
theorem serve (h : FromBase b batch book) (hchanged : book.Changed) {take : TakeInProgress T}
    (ht : Known b batch take.target)
    (hnext : KeepsId take) :
    FromBase b (batch.addTake take) (book.onTake take.result) := by
  obtain ⟨hsound, hbase⟩ := h.sound.onTake take.result
  refine ⟨hsound, hbase.trans h.base_eq, ?_, ?_, fun _ => hchanged.onTake _⟩
  · intro u hu
    have hleft : u ∈ book.activeFragments ∨ take.result = .succ u := by
      cases hres : take.result with
      | succ next =>
        rw [hres] at hu
        exact (mem_preAddTaker hu).imp_right fun heq => congrArg Next.succ heq.symm
      | term last =>
        rw [hres] at hu
        exact .inl hu
    rcases hleft with hu | hu
    · exact known_addTake (h.active u hu)
    · rw [Known, MatchmakingAttempt.lookup_addTake, if_pos (hnext u hu)]
      exact .inr rfl
  · intro sid take' hlookup
    rcases MatchmakingAttempt.target_of_lookup_addTake hlookup with
      ⟨existing, hold, hsame⟩ | ⟨hold, rfl, hsame⟩
    · rw [hsame]
      exact h.target hold
    · rw [Known, hold] at ht
      rw [hsame]
      exact ht.resolve_right Bool.false_ne_true

variable [MarketMaker M U] [MakerBehavior M] [LawfulTaker T] {optimized : Bool}

theorem turn (h : FromBase b batch book) {next : Turn T M U}
    (hcase : TurnCase optimized batch book next) : next.All (FromBase b) batch := by
  cases hcase with
  | idle => exact h
  | unmatched picked =>
    rename_i target book₁
    obtain ⟨hpicked, hknown⟩ := h.pick picked
    obtain ⟨hsound, hbase⟩ := book₁.preAddTaker_base target
    refine ⟨hsound, hbase.trans hpicked.base_eq, ?_, hpicked.target, ?_⟩
    · intro u hu
      rcases mem_preAddTaker hu with hu | rfl
      · exact hpicked.active u hu
      · exact hknown
    · exact fun _ => book₁.changed_preAddTaker target
  | taker picked counterPicked opposite matched =>
    rename_i target counter book₁ book₂ takes matchmaker
    obtain ⟨ask, bid, price, htakes, -, hboth⟩ := executeWithTaker_spec opposite matchmaker
    obtain ⟨hnextAsk, hnextBid⟩ := keepsId_executeWithTaker opposite matchmaker
    rw [← matched] at hnextAsk hnextBid
    obtain ⟨hpicked, htarget⟩ := h.pick picked
    obtain ⟨hcounterPicked, hcounter⟩ := hpicked.pick counterPicked
    have hknown : Known b batch takes.1.target ∧ Known b batch takes.2.target := by
      rw [matched, htakes]
      rcases hboth with ⟨rfl, rfl⟩ | ⟨rfl, rfl⟩
      · exact ⟨htarget, hcounter⟩
      · exact ⟨hcounter, htarget⟩
    have hchanged := TLBState.changed_of_picked counterPicked
    have hserved := hcounterPicked.serve hchanged hknown.1 hnextAsk
    exact hserved.serve (hchanged.onTake _) (known_addTake hknown.2) hnextBid
  | maker picked chunk_le chunk_zero whole matched =>
    rename_i target maker book₁ chunk pair
    obtain ⟨hpicked, hknown⟩ := h.pick picked
    have hchanged := book₁.changed_pickMakerById (stableId maker)
    have hmaker := hpicked.congr (hpicked.sound.pickMakerById (stableId maker))
      (batch.takes_addMake pair.2) (book₁.pickMakerById_spec (stableId maker)).2.1 hchanged
    have htarget : pair.1.target = target := congrArg (·.1.target) matched
    have hnext : KeepsId pair.1 := by
      rw [matched]
      exact keepsId_executeWithMaker target maker _
    have hknown : Known b (batch.addMake pair.2) pair.1.target := by
      rw [Known, htarget, batch.takes_addMake]
      exact hknown
    have hserved := hmaker.serve hchanged hknown hnext
    exact hserved.congr (hserved.sound.onMake pair.2.result) rfl (TLBState.onMake_spec _ _).1
      ((hchanged.onTake _).onMake _)

end FromBase

/-! ### Restarts -/

section Restart

omit [Stable T] [TakerBehaviour T]

variable {b : Base T M} {ts : List T}

/-- How many orders are active. -/
def Base.size (b : Base T M) : Nat := b.takers.active.total fun _ => 1

theorem Base.size_stash_lt (hne : ts ≠ []) (hts : ∀ t ∈ ts, t ∈ b.takers.active) :
    (b.stash ts).size < b.size := by
  cases ts with
  | nil => exact absurd rfl hne
  | cons t ts =>
    have hfirst := total_remove (f := fun _ => 1) (hts t List.mem_cons_self)
    have hrest : ((b.takers.active.remove t).removeAll ts).total (fun _ => 1) ≤
        (b.takers.active.remove t).total fun _ => 1 := total_removeAll_le
    show ((b.takers.active.remove t).removeAll ts).total (fun _ => 1) < b.takers.active.total _
    omega

@[simp] theorem Base.stash_nil (b : Base T M) : b.stash [] = b := by
  obtain ⟨takers, stashed, makers⟩ := b
  exact congrArg (Base.mk takers · makers) (List.append_nil stashed)

theorem TLBState.exists_base (book : TLBState T M) (ts : List T) :
    ∃ b : Base T M, book.rollback (.stash ts) = b.book := by
  rcases book.rollback_stash ts with hback | ⟨hsame, st, rfl⟩
  · exact ⟨_, hback⟩
  · exact ⟨(TLBState.idle st).base, hsame⟩

/-- To put nothing aside is to start the pass again. -/
theorem TLBState.rollback_stash_nil (book : TLBState T M) :
    book.rollback (.stash []) = book.base.book := by
  rcases book.rollback_stash [] with hback | ⟨hsame, st, rfl⟩
  · rw [hback, Base.stash_nil]
  · exact hsame

end Restart

/-! ### Attempts -/

section Attempts

variable [MarketMaker M U] [MakerBehavior M] [Zero U] [Add U] [LT U] {conf : ExecutionConfig U}
  {optimized : Bool} {batch : MatchmakingAttempt T M U} {book : TLBState T M} {ts us : List T}
  {a b c : Attempt T M U}

namespace Attempt

/-- `b` follows `a`. -/
def Next (conf : ExecutionConfig U) (b a : Attempt T M U) : Prop := ∃ ts, Step conf a ts b

theorem Run.cons (hrun : Run conf b us c) (hstep : Step conf a ts b) :
    Run conf a (ts ++ us) c := by
  induction hrun with
  | refl => simpa using Run.refl.step hstep
  | step run h ih =>
    rw [← List.append_assoc]
    exact ih.step h

theorem Run.reaches (h : Run conf a ts b) : Relation.ReflTransGen (Next conf) b a := by
  induction h with
  | refl => exact .refl
  | step run hstep ih => exact .head ⟨_, hstep⟩ ih

/-- No pass outside the optimized mode asks for a downgrade. -/
def Affordable (conf : ExecutionConfig U) (a : Attempt T M U) : Prop :=
  ∀ ⦃ts batch book takes makes⦄, Run conf a ts (.formed false batch book) →
    takes.Perm (batch.takes.entries.map Sigma.snd) →
    makes.Perm (batch.makes.entries.map Sigma.snd) →
    MatchmakingRecipe.tryFrom batch takes makes conf.baseStepBudget ≠ .error .downgradeNeeded

theorem Affordable.step (h : Affordable conf a) (hstep : Step conf a ts b) : Affordable conf b :=
  fun _ _ _ _ _ hrun => h (hrun.cons hstep)

theorem acc_returned {recipe : Option (MatchmakingRecipe T M)} :
    Acc (Next conf) (.returned recipe book) := by
  refine .intro _ ?_
  rintro a ⟨ts, hstep⟩
  cases hstep

/-- The input of the orders that a pass can still match. -/
def weight : Attempt T M U → Nat
  | .matching _ _ book => book.weight
  | _ => 0

/-- A pass ends, so that an attempt stops if it stops after every pass. -/
theorem acc_matching [SpendsInput T] {R : Attempt T M U → Prop}
    (hR : ∀ {batch book ts b}, R (.matching optimized batch book) →
      Step conf (.matching optimized batch book) ts b → R b)
    (hformed : ∀ {batch book}, R (.formed optimized batch book) →
      Acc (Next conf) (.formed optimized batch book))
    (h : R (.matching optimized batch book)) :
    Acc (Next conf) (.matching optimized batch book) := by
  refine acc_of_measure (P := fun a => (∃ batch book, a = .matching optimized batch book) ∧ R a)
    weight ?_ ⟨⟨batch, book, rfl⟩, h⟩
  rintro a b ⟨⟨batch, book, rfl⟩, ha⟩ ⟨ts, hstep⟩
  have hb := hR ha hstep
  cases step_case hstep with
  | next hturn => exact .inr ⟨⟨⟨_, _, rfl⟩, hb⟩, hturn.weight_lt⟩
  | stop hturn => exact .inl (hformed hb)
  | full => exact .inl (hformed hb)

/-- After a pass an attempt stops if it does so when it starts again. -/
theorem acc_formed (haff : Affordable conf (.formed optimized batch book))
    (hstash : ∀ ts, batch.isComplete → ts ≠ [] → (∀ t ∈ ts, t ∈ batch.targets) →
      Affordable conf (.matching optimized .empty (book.rollback (.stash ts))) →
      Acc (Next conf) (.matching optimized .empty (book.rollback (.stash ts))))
    (hdowngrade : optimized = true →
      Affordable conf (.matching false .empty (book.rollback (.stash []))) →
      Acc (Next conf) (.matching false .empty (book.rollback (.stash [])))) :
    Acc (Next conf) (.formed optimized batch book) := by
  refine .intro _ ?_
  rintro a ⟨us, hstep⟩
  have hnext := haff.step hstep
  cases step_case hstep with
  | failed => exact acc_returned
  | ok madeOf => exact acc_returned
  | dissatisfiedTakers complete hne hts => exact hstash us complete hne hts hnext
  | downgradeNeeded walk walk' hout complete =>
    cases optimized with
    | true => exact hdowngrade rfl hnext
    | false => exact absurd hout (haff .refl walk walk')

/-- A run is in a pass that started from the base `b`. -/
def InPass (b : Base T M) : Attempt T M U → Prop
  | .matching _ batch book => FromBase b batch book
  | .formed _ batch book => FromBase b batch book
  | .returned _ _ => True

/-- A run is in a pass of the optimized mode, or over. -/
def isOptimized : Attempt T M U → Bool
  | .matching optimized _ _ => optimized
  | .formed optimized _ _ => optimized
  | .returned _ _ => true

variable [LawfulTaker T] {base : Base T M} {o : Bool}

omit [LawfulTaker T] in
theorem isOptimized_of_step (hstep : Step conf (.matching o batch book) ts b) :
    b.isOptimized = o := by
  cases step_case hstep with
  | next hturn => rfl
  | stop hturn => rfl
  | full => rfl

theorem InPass.step (h : FromBase base batch book)
    (hstep : Step conf (.matching o batch book) ts b) : b.InPass base := by
  cases step_case hstep with
  | next hturn => exact h.turn hturn
  | stop hturn => exact h.turn hturn
  | full => exact h

variable [SpendsInput T]

/-- Every restart leaves fewer active orders, or leaves the optimized mode. -/
theorem acc_restart (hdowngrade : o = true → ∀ base : Base T M,
      Affordable conf (.matching false .empty base.book) →
        Acc (Next conf) (.matching false .empty base.book))
    (h : Affordable conf (.matching o .empty base.book)) :
    Acc (Next conf) (.matching o .empty base.book) := by
  induction hn : base.size using Nat.strongRecOn generalizing base with
  | ind n ih =>
    refine acc_matching (R := fun a => Affordable conf a ∧ a.InPass base)
      (fun hR hstep => ⟨hR.1.step hstep, InPass.step hR.2 hstep⟩) ?_ ⟨h, .fresh base⟩
    rintro batch book ⟨haff, hpass⟩
    have hpass : FromBase base batch book := hpass
    refine acc_formed haff ?_ ?_
    · intro ts complete hne hts hnext
      have htargets : ∀ t ∈ ts, t ∈ base.takers.active := by
        intro t ht
        obtain ⟨sid, take, hlookup, rfl⟩ := MatchmakingAttempt.mem_targets.mp (hts t ht)
        exact hpass.target hlookup
      have hback : book.rollback (.stash ts) = (base.stash ts).book := by
        rcases book.rollback_stash ts with hback | ⟨-, st, hidle⟩
        · rw [hback, hpass.base_eq]
        · have hchanged := hpass.changed complete
          rw [hidle] at hchanged
          exact hchanged.elim
      rw [hback] at hnext ⊢
      exact ih _ (hn ▸ Base.size_stash_lt hne htargets) hnext rfl
    · intro ho hnext
      rw [book.rollback_stash_nil] at hnext ⊢
      exact hdowngrade ho _ hnext

theorem acc_of_affordable (h : Affordable conf (.start book)) : Acc (Next conf) (.start book) := by
  have hplain : ∀ base : Base T M, Affordable conf (.matching false .empty base.book) →
      Acc (Next conf) (.matching false .empty base.book) := fun base hbase =>
    acc_restart (fun ho => absurd ho Bool.false_ne_true) hbase
  refine acc_matching (R := Affordable conf) Affordable.step (fun haff => ?_) h
  rename_i batch book
  refine acc_formed haff ?_ ?_
  · intro ts complete hne hts hnext
    obtain ⟨base, hback⟩ := book.exists_base ts
    rw [hback] at hnext ⊢
    exact acc_restart (fun _ => hplain) hnext
  · intro ho hnext
    rw [book.rollback_stash_nil] at hnext ⊢
    exact hplain _ hnext

omit [SpendsInput T] in
/-- A run outside the optimized mode is in a pass that the run itself has started. -/
theorem Run.inPass (hrun : Run conf (.start book) ts a) (ho : a.isOptimized = false) :
    ∃ base : Base T M, a.InPass base ∧
      Relation.ReflTransGen (Next conf) (.matching false .empty base.book) (.start book) ∧
      Relation.ReflTransGen (Next conf) a (.matching false .empty base.book) := by
  induction hrun with
  | refl => cases ho
  | step run hstep ih =>
    rename_i ts us a b
    have hreach := run.reaches.head ⟨us, hstep⟩
    have hfresh : ∀ base : Base T M, b = .matching false .empty base.book →
        ∃ base : Base T M, b.InPass base ∧
          Relation.ReflTransGen (Next conf) (.matching false .empty base.book) (.start book) ∧
          Relation.ReflTransGen (Next conf) b (.matching false .empty base.book) := by
      rintro base rfl
      exact ⟨base, .fresh base, hreach, .refl⟩
    cases a with
    | matching o batch book =>
      have hsame := isOptimized_of_step hstep
      obtain ⟨base, hpass, hstart, hbase⟩ := ih (hsame.symm.trans ho)
      exact ⟨base, .step hpass hstep, hstart, hbase.head ⟨us, hstep⟩⟩
    | formed o batch book =>
      cases step_case hstep with
      | failed => cases ho
      | ok madeOf => cases ho
      | dissatisfiedTakers complete hne hts =>
        obtain ⟨base, hback⟩ := book.exists_base us
        obtain rfl : o = false := ho
        exact hfresh base (congrArg (Attempt.matching false .empty) hback)
      | downgradeNeeded walk walk' hout complete =>
        exact hfresh _ (congrArg (Attempt.matching false .empty) book.rollback_stash_nil)
    | returned recipe book => cases hstep

omit [SpendsInput T] in
/-- A pass outside the optimized mode that asks for a downgrade is made again and again. -/
theorem affordable_of_acc (h : Acc (Next conf) (.start book)) : Affordable conf (.start book) := by
  intro ts batch book' takes makes hrun walk walk' hout
  obtain ⟨base, hpass, hstart, hreach⟩ := hrun.inPass rfl
  have hpass : FromBase base batch book' := hpass
  have hagain : Next conf (.matching false .empty base.book) (.formed false batch book') := by
    have hstep : Step conf (.formed false batch book') _ _ := .pass walk walk' hout
    rw [afterPass, book'.rollback_stash_nil, hpass.base_eq] at hstep
    exact ⟨_, hstep⟩
  exact not_acc_of_cycle (.head' hagain hreach) (acc_of_reaches h hstart)

end Attempt

end Attempts

end UtxoMonitor.LiquidityBook
