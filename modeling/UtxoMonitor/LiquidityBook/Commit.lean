import UtxoMonitor.LiquidityBook.Accounts

/-! Which orders a book has after a recipe has succeeded. -/
namespace UtxoMonitor.LiquidityBook

open MarketTakers

variable {T M U : Type} [Stable T] [MarketTaker T U] [TakerBehaviour T] [Ord T] [SideOrd T]
  [Stable M]

/-! ### The orders of a settled book -/

section Settled

omit [Stable T] [TakerBehaviour T]

/-- The order waits for the time at which it becomes active. -/
def Waits (inactive : Std.ExtTreeMap Nat (MarketTakers T) compare) (t : T) : Prop :=
  ∃ (time : Nat) (mt : MarketTakers T), inactive[time]? = some mt ∧ t ∈ mt

def IdleState.Has (s : IdleState T M) (t : T) : Prop :=
  t ∈ s.takers.active ∨ Waits s.takers.inactive t

/-- The book has one order for each identifier, in one place. -/
structure IdleState.HoldsOnce [Stable T] (s : IdleState T M) : Prop where
  distinct : Distinct s.Has
  apart : ∀ t ∈ s.takers.active, ¬ Waits s.takers.inactive t

variable {P : T → Prop} {inactive : Std.ExtTreeMap Nat (MarketTakers T) compare} {u : T}

theorem MarketTakers.Clear.waits_addInactive (hP : Clear P) (hsub : ∀ v, Waits inactive v → P v)
    {entry : Nat × T} (ht : P entry.2) :
    Waits (PreviewState.addInactive inactive entry) u ↔ Waits inactive u ∨ u = entry.2 := by
  have hslot : ∀ v ∈ inactive[entry.1]?.getD MarketTakers.empty, Waits inactive v := by
    intro v hv
    cases hget : inactive[entry.1]? with
    | none =>
      rw [hget] at hv
      exact absurd hv not_mem_empty
    | some mt =>
      rw [hget] at hv
      exact ⟨entry.1, mt, hget, hv⟩
  have hinsert := hP.mem_insert (u := u) (fun v hv => hsub v (hslot v hv)) ht
  have hnew : (PreviewState.addInactive inactive entry)[entry.1]? =
      some ((inactive[entry.1]?.getD MarketTakers.empty).insert entry.2) :=
    Std.ExtTreeMap.getElem?_insert_self
  constructor
  · rintro ⟨time, mt, hget, hu⟩
    rw [PreviewState.addInactive, Std.ExtTreeMap.getElem?_insert] at hget
    split at hget
    · obtain rfl := Option.some.inj hget
      exact (hinsert.mp hu).imp_left (hslot u)
    · exact .inl ⟨time, mt, hget, hu⟩
  · rintro (⟨time, mt, hget, hu⟩ | hu)
    · by_cases htime : entry.1 = time
      · subst htime
        refine ⟨entry.1, _, hnew, hinsert.mpr (.inl ?_)⟩
        rwa [hget]
      · refine ⟨time, mt, ?_, hu⟩
        rw [PreviewState.addInactive, Std.ExtTreeMap.getElem?_insert,
          if_neg fun hcmp => htime (Std.LawfulEqOrd.eq_of_compare hcmp), hget]
    · exact ⟨entry.1, _, hnew, hinsert.mpr (.inr hu)⟩

/-- Among orders that do not clash, those filed for later wait, and no others. -/
theorem MarketTakers.Clear.waits_foldl (hP : Clear P) (hsub : ∀ v, Waits inactive v → P v)
    {entries : List (Nat × T)} (hts : ∀ entry ∈ entries, P entry.2) :
    Waits (entries.foldl PreviewState.addInactive inactive) u ↔
      Waits inactive u ∨ u ∈ entries.map Prod.snd := by
  induction entries generalizing inactive with
  | nil => simp
  | cons entry entries ih =>
    have ht := hts entry List.mem_cons_self
    have hsub' : ∀ v, Waits (PreviewState.addInactive inactive entry) v → P v := by
      intro v hv
      rcases (hP.waits_addInactive hsub ht).mp hv with hv | rfl
      · exact hsub v hv
      · exact ht
    rw [List.foldl_cons, ih hsub' fun e he => hts e (.tail _ he), hP.waits_addInactive hsub ht,
      List.map_cons, List.mem_cons, or_assoc]

end Settled

/-! ### The orders while a pass goes on -/

/-- The base holds the orders of `s`, those of `stashed` put aside. -/
structure Base.Splits (b : Base T M) (s : IdleState T M) (stashed : List T) : Prop
    extends b.Intact s where
  stashed_eq : b.stashed = stashed
  apart : ∀ t ∈ b.takers.active, t ∉ b.stashed

/-- A pass over the book `s`, with `stashed` put aside and the orders of `held` in hand. -/
structure Pass (s : IdleState T M) (stashed : List T) (batch : MatchmakingAttempt T M U)
    (book : TLBState T M) (held : Set T) : Prop where
  sound : book.Sound
  splits : book.base.Splits s stashed
  accounts : Accounts book.base.takers.active batch book held

section Base

omit [TakerBehaviour T]

variable {s : IdleState T M} {b : Base T M} {stashed ts : List T} {t : T}

omit [Stable T] in
theorem Base.Splits.stash (h : b.Splits s stashed) (hts : ∀ t ∈ ts, t ∈ b.takers.active) :
    (b.stash ts).Splits s (stashed ++ ts) := by
  refine { h.toIntact.stash fun t ht => (h.active t).mpr (.inl (hts t ht)) with
    stashed_eq := ?_, apart := ?_ }
  · rw [Base.stash, h.stashed_eq]
  · intro t ht
    obtain ⟨ht, hne⟩ := ((clear_mem b.takers.active).mem_removeAll (fun _ hv => hv) hts).mp ht
    rw [Base.stash, List.mem_append, not_or]
    exact ⟨h.apart t ht, hne⟩

omit [Stable T] in
theorem Base.Splits.refl (s : IdleState T M) : (TLBState.idle s).base.Splits s [] where
  toIntact := Base.Intact.refl s
  stashed_eq := rfl
  apart _ _ := List.not_mem_nil

omit [Stable T] in
theorem Base.Splits.has (h : b.Splits s stashed) (ht : t ∈ b.takers.active) : s.Has t :=
  .inl ((h.active t).mpr (.inl ht))

theorem Base.Splits.distinct (h : b.Splits s stashed) (hs : s.HoldsOnce) :
    Distinct (· ∈ b.takers.active) :=
  fun t u ht hu hid => hs.distinct t u (h.has ht) (h.has hu) hid

/-- At the start of a pass nothing is traded, added or in hand. -/
theorem Pass.fresh [Zero U] (h : b.Splits s stashed) :
    Pass s stashed (.empty : MatchmakingAttempt T M U) b.book ∅ where
  sound := b.sound_book
  splits := b.base_book.symm ▸ h
  accounts := by
    obtain ⟨hactive, hchangeset⟩ := b.book_spec
    have hlookup : ∀ sid, (MatchmakingAttempt.empty : MatchmakingAttempt T M U).takes.lookup sid =
        none := fun _ => rfl
    rw [Base.base_book]
    refine { target := ?_, result := ?_, standing := ?_, active := ?_, later := ?_ }
    · intro sid take h
      cases (hlookup sid).symm.trans h
    · intro sid take next h
      cases (hlookup sid).symm.trans h
    · intro u
      simp [Standing, hlookup, hactive, TLBState.AddsLater, hchangeset]
    · simp [TLBState.AddsLater, hchangeset]
    · simp

end Base

omit [TakerBehaviour T] in
/-- Nothing that concerns the orders has changed. -/
theorem Accounts.congr {base : MarketTakers T} {batch batch' : MatchmakingAttempt T M U}
    {book book' : TLBState T M} {held : Set T} (h : Accounts base batch book held)
    (htakes : batch'.takes = batch.takes) (hactive : book'.activeFragments = book.activeFragments)
    (hchangeset : book'.changeset = book.changeset) : Accounts base batch' book' held where
  target := by
    rw [htakes]
    exact h.target
  result := by
    rw [htakes]
    exact h.result
  standing u := by
    rw [Standing, htakes, hactive, TLBState.AddsLater, hchangeset]
    exact h.standing u
  active u hu := by
    rw [TLBState.AddsLater, hchangeset]
    exact h.active u (hactive ▸ hu)
  later u hu := by
    rw [TLBState.AddsLater, hchangeset]
    exact h.later u hu

/-! ### A turn keeps account of every order -/

section Turns

variable {s : IdleState T M} {stashed : List T} {batch batch' : MatchmakingAttempt T M U}
  {book book' : TLBState T M} {held held' : Set T} {t : T}

namespace Pass

omit [TakerBehaviour T]

theorem move (h : Pass s stashed batch book held)
    (hbase : book'.Sound ∧ book'.base = book.base)
    (haccounts : Accounts book.base.takers.active batch' book' held') :
    Pass s stashed batch' book' held' where
  sound := hbase.1
  splits := hbase.2.symm ▸ h.splits
  accounts := hbase.2.symm ▸ haccounts

theorem pick (h : Pass s stashed batch book held) (hpick : Picked book t book') :
    Pass s stashed batch book' (insert t held) :=
  h.move (hpick.sound h.sound) (h.accounts.pick hpick)

theorem pickMaker (h : Pass s stashed batch book held) (pid : StableId M) :
    Pass s stashed batch (book.pickMakerById pid).2 held :=
  have ⟨_, hactive, hchangeset⟩ := book.pickMakerById_spec pid
  h.move (h.sound.pickMakerById pid) (h.accounts.congr rfl hactive hchangeset)

theorem onMake [MarketMaker M U] (h : Pass s stashed batch book held) (res : Next M Empty) :
    Pass s stashed batch (book.onMake res) held :=
  have ⟨hactive, hchangeset⟩ := book.onMake_spec res
  h.move (h.sound.onMake res) (h.accounts.congr rfl hactive hchangeset)

theorem addMake [Add U] [MarketMaker M U] (h : Pass s stashed batch book held)
    (make : MakeInProgress M) : Pass s stashed (batch.addMake make) book held :=
  h.move ⟨h.sound, rfl⟩ (h.accounts.congr (batch.takes_addMake make) rfl rfl)

end Pass

variable [LawfulTaker T]

theorem Pass.restore (hs : s.HoldsOnce) (h : Pass s stashed batch book held) (ht : t ∈ held) :
    Pass s stashed batch (book.preAddTaker t) (held \ {t}) :=
  h.move (book.preAddTaker_base t) (h.accounts.restore (h.splits.distinct hs) ht)

theorem Pass.serve [Add U] (hs : s.HoldsOnce) (h : Pass s stashed batch book held)
    {take : TakeInProgress T} (ht : take.target ∈ held)
    (hnext : KeepsId take) :
    Pass s stashed (batch.addTake take) (book.onTake take.result) (held \ {take.target}) :=
  h.move (h.sound.onTake take.result) (h.accounts.serve (h.splits.distinct hs) ht hnext)

variable [Add U] [MarketMaker M U] [MakerBehavior M]

theorem Pass.turn (hs : s.HoldsOnce) (h : Pass s stashed batch book ∅) {optimized : Bool}
    {next : Turn T M U} (hcase : TurnCase optimized batch book next) :
    next.All (fun batch book => Pass s stashed batch book ∅) batch := by
  cases hcase with
  | idle => exact h
  | unmatched picked =>
    have hpass := (h.pick picked).restore hs (Set.mem_insert _ _)
    rwa [insert_empty_eq, sdiff_self] at hpass
  | taker picked counterPicked opposite matched =>
    rename_i target counter book₁ book₂ takes matchmaker
    obtain ⟨ask, bid, price, htakes, hne, hboth⟩ := executeWithTaker_spec opposite matchmaker
    obtain ⟨hnextAsk, hnextBid⟩ := keepsId_executeWithTaker opposite matchmaker
    rw [← matched] at hnextAsk hnextBid
    rw [htakes] at matched
    have hask : takes.1.target = ask := congrArg (·.1.target) matched
    have hbid : takes.2.target = bid := congrArg (·.2.target) matched
    have hheld := (h.pick picked).pick counterPicked
    have hmem : ({counter, target} : Set T) = {takes.1.target, takes.2.target} := by
      rw [hask, hbid]
      rcases hboth with ⟨rfl, rfl⟩ | ⟨rfl, rfl⟩
      · exact Set.pair_comm _ _
      · rfl
    rw [insert_empty_eq, hmem] at hheld
    have hserved := hheld.serve hs (Set.mem_insert _ _) hnextAsk
    have hleft : takes.2.target ∈ ({takes.1.target, takes.2.target} : Set T) \ {takes.1.target} := by
      refine ⟨Set.mem_insert_of_mem _ rfl, fun heq => hne ?_⟩
      rw [← hask, ← hbid, Set.mem_singleton_iff.mp heq]
    have hdone := hserved.serve hs hleft hnextBid
    have hempty : (({takes.1.target, takes.2.target} : Set T) \ {takes.1.target}) \
        {takes.2.target} = ∅ := by
      ext u
      simp only [Set.mem_sdiff, Set.mem_insert_iff, Set.mem_singleton_iff,
        Set.mem_empty_iff_false, iff_false]
      grind
    rwa [hempty] at hdone
  | maker picked chunk_le chunk_zero whole matched =>
    rename_i target maker book₁ chunk pair
    have hpicked := ((h.pick picked).pickMaker (stableId maker)).addMake pair.2
    have htarget : pair.1.target = target := congrArg (·.1.target) matched
    have hnext : KeepsId pair.1 := by
      rw [matched]
      exact keepsId_executeWithMaker target maker _
    have hserved := hpicked.serve hs (htarget ▸ Set.mem_insert _ _) hnext
    rw [htarget, insert_empty_eq, sdiff_self] at hserved
    exact hserved.onMake pair.2.result

end Turns

section Runs

variable [MarketMaker M U] [MakerBehavior M] [Add U] {optimized : Bool}
  {batch batch' : MatchmakingAttempt T M U} {book book' : TLBState T M}

/-! ### Runs -/

/-- Where a run from the book `s` is, every order is accounted for. -/
def Attempt.Keeps (s : IdleState T M) (stashed : List T) : Attempt T M U → Prop
  | .matching _ batch book =>
    Pass s stashed batch book ∅ ∧ (batch.isComplete → book.Changed)
  | .formed _ batch book =>
    Pass s stashed batch book ∅ ∧ (batch.isComplete → book.Changed)
  | .returned _ _ => True

variable {s : IdleState T M} {stashed ts us : List T} {held : Set T}

omit [TakerBehaviour T] [MarketMaker M U] [MakerBehavior M] [Add U] in
theorem Pass.mem_of_target (h : Pass s stashed batch book held) {t : T} (ht : t ∈ batch.targets) :
    t ∈ book.base.takers.active := by
  obtain ⟨sid, take, hlookup, rfl⟩ := MatchmakingAttempt.mem_targets.mp ht
  exact (h.accounts.target hlookup).1

variable [Zero U]

omit [Add U] [TakerBehaviour T] [MarketMaker M U] [MakerBehavior M] in
/-- A pass starts anew from the book less the orders put aside. -/
theorem Pass.restart (h : Pass s stashed batch book held) (hchanged : book.Changed)
    (hts : ∀ t ∈ ts, t ∈ book.base.takers.active) :
    (Attempt.matching optimized (.empty : MatchmakingAttempt T M U)
      (book.rollback (.stash ts))).Keeps s (stashed ++ ts) := by
  rcases book.rollback_stash ts with hback | ⟨-, st, hidle⟩
  · rw [hback]
    exact ⟨.fresh (h.splits.stash hts), fun hcomplete => by cases hcomplete⟩
  · rw [hidle] at hchanged
    exact hchanged.elim

variable [LawfulTaker T] [LT U] {conf : ExecutionConfig U} {a b : Attempt T M U}

theorem Attempt.Keeps.step (hs : s.HoldsOnce) (h : a.Keeps s stashed) (hstep : Step conf a us b) :
    b.Keeps s (stashed ++ us) := by
  cases step_case hstep with
  | next hturn =>
    rw [List.append_nil]
    exact ⟨h.1.turn hs hturn, fun _ => hturn.changed_of_next⟩
  | stop hturn =>
    rw [List.append_nil]
    exact ⟨h.1.turn hs hturn, fun hcomplete => hturn.changed_of_stop (h.2 hcomplete)⟩
  | full => rwa [List.append_nil]
  | failed => trivial
  | ok madeOf => trivial
  | dissatisfiedTakers complete hne hts =>
    exact h.1.restart (h.2 complete) fun t ht => h.1.mem_of_target (hts t ht)
  | downgradeNeeded walk walk' hout complete =>
    exact h.1.restart (h.2 complete) fun t ht => absurd ht List.not_mem_nil

/-- A run from a settled book accounts for every order. -/
theorem Attempt.Keeps.run (hs : s.HoldsOnce) (hrun : Run conf (start (.idle s)) us a) :
    a.Keeps s us := by
  induction hrun with
  | refl => exact ⟨.fresh (.refl s), fun hcomplete => by cases hcomplete⟩
  | step run hstep ih => exact ih.step hs hstep

end Runs

/-! ### The committed book -/

section Commit

omit [TakerBehaviour T]

variable {s : IdleState T M} {stashed : List T} {batch : MatchmakingAttempt T M U}
  {book : TLBState T M} {held : Set T} {base : MarketTakers T} {u : T}

omit [Ord T] [SideOrd T] in
/-- A match of the attempt leaves the order as a remainder. -/
def MatchmakingAttempt.Leaves (batch : MatchmakingAttempt T M U) (u : T) : Prop :=
  ∃ take ∈ batch.takes.entries.map Sigma.snd, take.result = .succ u

/-- What stands for an identifier is the order that is not traded, or what its take leaves. -/
theorem Rooted.standing_iff (h : Rooted base batch) (hbase : Distinct (· ∈ base)) :
    Standing base batch u ↔ (u ∈ base ∧ u ∉ batch.targets) ∨ batch.Leaves u := by
  unfold Standing
  constructor
  · intro hu
    split at hu
    · rename_i hnone
      refine .inl ⟨hu, fun htarget => ?_⟩
      obtain ⟨sid, take, hlookup, rfl⟩ := MatchmakingAttempt.mem_targets.mp htarget
      rw [(h.target hlookup).2, hlookup] at hnone
      cases hnone
    · rename_i take hlookup
      exact .inr ⟨take, MatchmakingAttempt.mem_takes.mpr ⟨_, hlookup⟩, hu⟩
  · rintro (⟨hu, htarget⟩ | ⟨take, htake, hresult⟩)
    · split
      · exact hu
      · rename_i take hlookup
        obtain ⟨hroot, hid⟩ := h.target hlookup
        refine absurd (MatchmakingAttempt.mem_targets.mpr ⟨_, take, hlookup, ?_⟩) htarget
        exact hbase take.target u hroot hu hid
    · obtain ⟨sid, hlookup⟩ := MatchmakingAttempt.mem_takes.mp htake
      rw [h.result hlookup hresult, hlookup]
      exact hresult

/-- The orders that take no part in the pass. -/
theorem Pass.outside (hs : s.HoldsOnce) (h : Pass s stashed batch book held)
    (hu : Waits s.takers.inactive u ∨ u ∈ stashed) :
    s.Has u ∧ u ∉ book.base.takers.active := by
  have hactive : ∀ t ∈ book.base.takers.active, t ∈ s.takers.active := fun t ht =>
    (h.splits.active t).mpr (.inl ht)
  rcases hu with hu | hu
  · exact ⟨.inr hu, fun ht => hs.apart u (hactive u ht) hu⟩
  · rw [← h.splits.stashed_eq] at hu
    exact ⟨.inl ((h.splits.active u).mpr (.inr hu)), fun ht => h.splits.apart u ht hu⟩

theorem Pass.outside_id (hs : s.HoldsOnce) (h : Pass s stashed batch book held)
    (hu : Waits s.takers.inactive u ∨ u ∈ stashed) {t : T}
    (ht : Standing book.base.takers.active batch t) : stableId t ≠ stableId u := by
  intro hid
  obtain ⟨hhas, hnot⟩ := h.outside hs hu
  obtain ⟨root, hroot, hrootId⟩ := h.accounts.exists_root ht
  obtain rfl := hs.distinct root u (h.splits.has hroot) hhas (hrootId.trans hid)
  exact hnot hroot

/-- The orders of the book, in whatever place, have identifiers of their own. -/
theorem Pass.distinct (hs : s.HoldsOnce) (h : Pass s stashed batch book held) :
    Distinct fun u => Standing book.base.takers.active batch u ∨
      (Waits s.takers.inactive u ∨ u ∈ stashed) := by
  rintro t u (ht | ht) (hu | hu) hid
  · exact standing_distinct (h.splits.distinct hs) t u ht hu hid
  · exact absurd hid (h.outside_id hs hu ht)
  · exact absurd hid.symm (h.outside_id hs ht hu)
  · exact hs.distinct t u (h.outside hs ht).1 (h.outside hs hu).1 hid

/-- The book previews changes of orders, not only their consumption. -/
def TLBState.inPreview : TLBState T M → Bool
  | .idle _ => false
  | .partialPreview _ => false
  | .preview _ => true

/-- Orders put aside come back only from a full preview. -/
theorem Pass.commit [TakerBehaviour T] [LawfulTaker T] (hs : s.HoldsOnce)
    (h : Pass s stashed batch book ∅) :
    ∃ s', book.commit = .idle s' ∧ ∀ u, s'.Has u ↔ Standing book.base.takers.active batch u ∨
      Waits s.takers.inactive u ∨ (u ∈ stashed ∧ book.inPreview) := by
  have hinactive := h.splits.inactive
  have hstanding : ∀ u, Standing book.base.takers.active batch u ↔
      u ∈ book.activeFragments ∨ book.AddsLater u := by
    simpa using h.accounts.standing
  cases book with
  | idle st =>
    refine ⟨st, rfl, fun u => ?_⟩
    rw [hstanding, ← hinactive]
    simp [IdleState.Has, TLBState.activeFragments, TLBState.AddsLater, TLBState.changeset,
      TLBState.base, TLBState.inPreview]
  | partialPreview st =>
    refine ⟨st.commit, rfl, fun u => ?_⟩
    rw [hstanding, ← hinactive]
    simp [IdleState.Has, TLBState.activeFragments, TLBState.AddsLater, TLBState.changeset,
      TLBState.base, PartialPreviewState.commit, PartialPreviewState.takersIntact,
      TLBState.inPreview]
  | preview st =>
    refine ⟨st.commit, rfl, fun u => ?_⟩
    have hclear := (h.distinct hs).clear
    have hstashed : st.stashedActiveTakers = stashed := h.splits.stashed_eq
    have hactive : u ∈ st.commit.takers.active ↔ u ∈ st.activeTakersPreview ∨ u ∈ stashed := by
      rw [PreviewState.commit, hstashed]
      exact hclear.mem_insertAll (fun v hv => .inl ((hstanding v).mpr (.inl hv)))
        fun v hv => .inr (.inr hv)
    have hwaits : Waits st.commit.takers.inactive u ↔
        Waits s.takers.inactive u ∨ (TLBState.preview st).AddsLater u := by
      have hsub : ∀ v, Waits st.takersIntact.inactive v → Waits s.takers.inactive v := by
        intro v hv
        rw [← hinactive]
        exact hv
      have hlater : ∀ entry ∈ st.inactiveTakersChangeset.reverse,
          Standing (TLBState.preview st).base.takers.active batch entry.2 := fun entry hentry =>
        (hstanding _).mpr (.inr (List.mem_map_of_mem (List.mem_reverse.mp hentry)))
      rw [PreviewState.commit, hclear.waits_foldl (fun v hv => .inr (.inl (hsub v hv)))
        fun entry hentry => .inl (hlater entry hentry), List.map_reverse, List.mem_reverse,
        ← hinactive]
      exact Iff.rfl
    rw [IdleState.Has, hactive, hwaits, hstanding]
    simp only [TLBState.activeFragments, TLBState.inPreview, and_true]
    grind

/-- The orders of `s` but those that the recipe consumes, with what its matches leave of them, and
with the orders put aside. -/
def KeepsTakers (s : IdleState T M) (batch : MatchmakingAttempt T M U)
    (recipe : MatchmakingRecipe T M) (stashed : List T) (book : TLBState T M) : Prop :=
  ∃ s', book = .idle s' ∧
    ∀ u, s'.Has u ↔ (s.Has u ∧ ¬ recipe.Consumes u) ∨ recipe.Leaves batch u ∨ u ∈ stashed

omit [Ord T] [SideOrd T] in
theorem MadeOf.leaves_iff [TakerBehaviour T] {recipe : MatchmakingRecipe T M}
    (h : MadeOf recipe batch) : recipe.Leaves batch u ↔ batch.Leaves u :=
  ⟨fun ⟨take, htake, hresult, _⟩ => ⟨take, htake, hresult⟩,
    fun ⟨take, htake, hresult⟩ => ⟨take, htake, hresult, h.finalized take htake⟩⟩

theorem Pass.keepsTakers_iff [TakerBehaviour T] [LawfulTaker T] (hs : s.HoldsOnce)
    (h : Pass s stashed batch book ∅) {recipe : MatchmakingRecipe T M}
    (hrecipe : MadeOf recipe batch) :
    KeepsTakers s batch recipe stashed book.commit ↔ book.inPreview ∨ stashed = [] := by
  have hactive : ∀ t, t ∈ s.takers.active ↔ t ∈ book.base.takers.active ∨ t ∈ stashed := by
    intro t
    rw [h.splits.active, h.splits.stashed_eq]
  have hconsumed : ∀ t, recipe.Consumes t → t ∈ book.base.takers.active := fun t ht =>
    h.mem_of_target ((hrecipe.consumes t).mp ht)
  obtain ⟨s', hs', hhas⟩ := h.commit hs
  have hwhole : ∀ u, ((s.Has u ∧ ¬ recipe.Consumes u) ∨ recipe.Leaves batch u ∨ u ∈ stashed) ↔
      Standing book.base.takers.active batch u ∨ Waits s.takers.inactive u ∨ u ∈ stashed := by
    intro u
    have houtside : Waits s.takers.inactive u ∨ u ∈ stashed → ¬ recipe.Consumes u := fun hu hc =>
      (h.outside hs hu).2 (hconsumed u hc)
    rw [h.accounts.standing_iff (h.splits.distinct hs), ← hrecipe.consumes, ← hrecipe.leaves_iff,
      IdleState.Has, hactive]
    grind
  constructor
  · rintro ⟨s'', hs'', hkeeps⟩
    obtain rfl : s'' = s' := by
      rw [hs'] at hs''
      exact (TLBState.idle.inj hs'').symm
    rw [or_iff_not_imp_right]
    intro hstashed
    obtain ⟨t, ht⟩ := List.exists_mem_of_ne_nil stashed hstashed
    rcases (hhas t).mp ((hkeeps t).mpr (.inr (.inr ht))) with hstanding | hwaits | ⟨-, hpreview⟩
    · exact absurd rfl (h.outside_id hs (.inr ht) hstanding)
    · exact absurd hwaits (hs.apart t ((hactive t).mpr (.inr ht)))
    · exact hpreview
  · intro hcond
    refine ⟨s', hs', fun u => ?_⟩
    rw [hhas, hwhole]
    rcases hcond with hpreview | rfl
    · simp only [hpreview, and_true]
    · simp only [List.not_mem_nil, false_and]

end Commit

section Success

variable [MarketMaker M U] [MakerBehavior M] [Zero U] [Add U] [LT U] {conf : ExecutionConfig U}
  {optimized : Bool} {batch : MatchmakingAttempt T M U} {book book' : TLBState T M}
  {recipe : MatchmakingRecipe T M} {stashed us : List T}

theorem madeOf_of_step
    (h : Attempt.Step conf (.formed optimized batch book) us (.returned (some recipe) book')) :
    book' = book ∧ MadeOf recipe batch := by
  cases Attempt.step_case h with
  | ok madeOf => exact ⟨rfl, madeOf⟩

/-- An attempt that succeeds loses no order but those put aside on the way, and it loses these
unless the last pass has ended in a full preview. -/
theorem commit_keepsTakers_iff [LawfulTaker T] {s : IdleState T M} (hs : s.HoldsOnce)
    (hrun : Attempt.Run conf (.start (.idle s)) stashed (.formed optimized batch book))
    (hstep : Attempt.Step conf (.formed optimized batch book) us (.returned (some recipe) book')) :
    KeepsTakers s batch recipe stashed book'.commit ↔ book'.inPreview ∨ stashed = [] := by
  obtain ⟨hpass, -⟩ := Attempt.Keeps.run hs hrun
  obtain ⟨rfl, hrecipe⟩ := madeOf_of_step hstep
  exact hpass.keepsTakers_iff hs hrecipe

end Success

section Sample

variable {ts : List T} {makers : MarketMakers M} {u : T}

omit [Stable T] [TakerBehaviour T] in
/-- A book that is made of orders has no others. -/
theorem mem_of_has_insertAll
    (h : IdleState.Has ⟨⟨0, MarketTakers.empty.insertAll ts, ∅⟩, makers⟩ u) : u ∈ ts := by
  rcases h with hu | ⟨time, mt, hget, -⟩
  · exact (mem_of_mem_insertAll hu).resolve_left not_mem_empty
  · simp at hget

omit [TakerBehaviour T] in
theorem holdsOnce_insertAll (h : Distinct (· ∈ ts)) :
    IdleState.HoldsOnce ⟨⟨0, MarketTakers.empty.insertAll ts, ∅⟩, makers⟩ := by
  refine ⟨fun t u ht hu hid => h t u (mem_of_has_insertAll ht) (mem_of_has_insertAll hu) hid, ?_⟩
  rintro t - ⟨time, mt, hget, -⟩
  simp at hget

/-- A large ask with a least output for each step, a small ask at its price, and a bid. -/
def sampleOrders (minMarginalOutput : Nat) : List SimpleOrderPF :=
  [sampleOrder 1 .ask 2 5000 minMarginalOutput, sampleOrder 2 .ask 2 500 0,
    sampleOrder 3 .bid 10 1000 0]

theorem holdsOnce_bookOf {ts : List SimpleOrderPF} (h : Distinct (· ∈ ts)) :
    (bookOf ts).HoldsOnce := holdsOnce_insertAll h

theorem distinct_sampleOrders (minMarginalOutput : Nat) :
    Distinct (· ∈ sampleOrders minMarginalOutput) := by
  have hsource : RawBytes.replicate (n := 28) 1 ≠ RawBytes.replicate 2 ∧
      RawBytes.replicate (n := 28) 1 ≠ RawBytes.replicate 3 ∧
      RawBytes.replicate (n := 28) 2 ≠ RawBytes.replicate 3 := by decide
  obtain ⟨h12, h13, h23⟩ := hsource
  intro t u ht hu hid
  simp only [sampleOrders, List.mem_cons, List.not_mem_nil, or_false] at ht hu
  rcases ht with rfl | rfl | rfl <;> rcases hu with rfl | rfl | rfl <;>
    first | rfl | exact absurd hid ‹_› | exact absurd hid.symm ‹_›

/-- Without a least output the large ask takes part in the first pass. -/
theorem commit_keepsTakers_iff_sample :
    ∃ stashed optimized batch book recipe,
      Attempt.Run sampleConf (.start (.idle (bookOf (sampleOrders 0)))) stashed
        (.formed optimized batch book) ∧
      Attempt.Step sampleConf (.formed optimized batch book) [] (.returned (some recipe) book) ∧
      KeepsTakers (bookOf (sampleOrders 0)) batch recipe stashed book.commit := by
  have hcheck : (Attempt.outcome sampleConf 2 (.idle (bookOf (sampleOrders 0)))).any
      fun x => x.2.2.2.inPreview := by
    decide +kernel
  obtain ⟨⟨stashed, batch, recipe, book⟩, houtcome, hpreview⟩ := (Option.any_eq_true ..).mp hcheck
  obtain ⟨optimized, hrun, hstep⟩ := Attempt.run_of_outcome houtcome
  exact ⟨stashed, optimized, batch, book, recipe, hrun, hstep,
    (commit_keepsTakers_iff (holdsOnce_bookOf (distinct_sampleOrders 0)) hrun hstep).mpr
      (.inl hpreview)⟩

/-- The large ask is put aside; the bid and the small ask then fill each other, and the book that
has only consumed orders is committed without the large ask. -/
theorem commit_loses_order :
    (bookOf (sampleOrders 2000)).HoldsOnce ∧ ∃ stashed optimized batch book recipe,
      Attempt.Run sampleConf (.start (.idle (bookOf (sampleOrders 2000)))) stashed
        (.formed optimized batch book) ∧
      Attempt.Step sampleConf (.formed optimized batch book) [] (.returned (some recipe) book) ∧
      ¬ KeepsTakers (bookOf (sampleOrders 2000)) batch recipe stashed book.commit := by
  have hs := holdsOnce_bookOf (distinct_sampleOrders 2000)
  have hcheck : (Attempt.outcome sampleConf 5 (.idle (bookOf (sampleOrders 2000)))).any
      fun x => !x.1.isEmpty && !x.2.2.2.inPreview := by
    decide +kernel
  obtain ⟨⟨stashed, batch, recipe, book⟩, houtcome, hlost⟩ := (Option.any_eq_true ..).mp hcheck
  obtain ⟨optimized, hrun, hstep⟩ := Attempt.run_of_outcome houtcome
  obtain ⟨hpass, -⟩ := Attempt.Keeps.run hs hrun
  refine ⟨hs, stashed, optimized, batch, book, recipe, hrun, hstep, ?_⟩
  rw [hpass.keepsTakers_iff hs (madeOf_of_step hstep).2]
  simpa [and_comm] using hlost

end Sample

end UtxoMonitor.LiquidityBook
