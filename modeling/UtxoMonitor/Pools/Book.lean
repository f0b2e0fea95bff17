import UtxoMonitor.LiquidityBook.Conservation
import UtxoMonitor.Pools.Preview

/-! The pools as the makers of a liquidity book. -/
namespace UtxoMonitor.Pools

open Lib LiquidityBook

/-- How much of a pool's liquidity is available at a price, as computed in floating point. -/
class LiquidityPreviews where
  availableLiquidityOnSide : Maker → OnSide AbsolutePrice → Option AvailableLiquidity

/-- A pool in a book. One whose swap has panicked takes its book down with it; it is kept apart so
that nothing has to be said of its reserves. -/
inductive BookMaker where
  | live (maker : Maker)
  | panicked (id : PoolId)
deriving DecidableEq

namespace BookMaker

def id : BookMaker → PoolId
  | live maker => maker.id
  | panicked id => id

/-- What a computation on a pool gives, unless it panics. -/
def read {A : Type} (f : Maker → Checked A) (panic : A) : BookMaker → A
  | live maker =>
    match f maker with
    | .ok a => a
    | .error _ => panic
  | panicked _ => panic

def swap [Numerics] (maker : BookMaker) (input : OnSide Nat) : BookMaker :=
  maker.read (fun maker => do return live (← maker.swap input)) (panicked maker.id)

def liquidity : BookMaker → AbsoluteReserves
  | live maker => maker.tradable
  | panicked _ => ⟨0, 0⟩

instance : Stable BookMaker where
  StableId := PoolId
  decEqId := inferInstance
  stableId := id

instance [Numerics] [LiquidityPreviews] : MarketMaker BookMaker ExUnits where
  staticPrice := read Maker.staticPrice 0
  realPrice maker input := maker.read (fun maker => maker.realPrice input) none
  quality := read Maker.quality 0
  marginalCostHint := read (fun maker => pure maker.marginalCost) 0
  liquidity := liquidity
  availableLiquidityOnSide maker price :=
    maker.read (fun maker => pure (LiquidityPreviews.availableLiquidityOnSide maker price)) none
  isActive := read Maker.isActive false

instance [Numerics] : MakerBehavior BookMaker where
  swap maker input := .succ (maker.swap input)

/-- The reserves of a pool, whether or not they may be traded. -/
def reserves : BookMaker → AbsoluteReserves
  | live (.any pool) => pool.pair.reserves pool.reservesX pool.reservesY
  | live (.degen pool) => pool.pair.reserves pool.reservesX pool.reservesY
  | panicked _ => ⟨0, 0⟩

/-- A degen pool of ADA holds at least the minimum of it. -/
def HoldsMinAda : BookMaker → Prop
  | live (.any _) => True
  | live (.degen pool) => pool.assetX.isNative → minAda ≤ pool.reservesX
  | panicked _ => False

instance : DecidablePred HoldsMinAda
  | live (.any _) => inferInstanceAs (Decidable True)
  | live (.degen pool) => inferInstanceAs (Decidable (pool.assetX.isNative → minAda ≤ pool.reservesX))
  | panicked _ => inferInstanceAs (Decidable False)

variable [Numerics] {maker next : BookMaker} {s : LiquidityBook.Side} {amount : Nat}

theorem swap_live {pool : Maker} {input : OnSide Nat} (h : (live pool).swap input = next)
    (hnext : next.HoldsMinAda) : ∃ pool', pool.swap input = .ok pool' ∧ next = live pool' := by
  simp only [swap, read] at h
  cases hswap : pool.swap input with
  | ok pool' =>
    rw [hswap] at h
    exact ⟨pool', rfl, h.symm⟩
  | error fault =>
    rw [hswap] at h
    subst h
    exact hnext.elim

end BookMaker

namespace Pair

variable {pair : Pair} {s : LiquidityBook.Side} {amount output x y x' y' : Nat}

/-- The input goes to the reserves of its side, and the output comes out of the others. -/
theorem reserves_of_move (h : pair.move (s.wrap amount) output x y = .ok (x', y')) :
    (pair.reserves x' y').on s = (pair.reserves x y).on s + amount ∧
      (pair.reserves x' y').on s.not + output = (pair.reserves x y).on s.not := by
  rw [Pair.move_eq_ok] at h
  by_cases hx : pair.x = pair.base
  · cases s <;>
      simp [Side.wrap, Side.not, Pair.entersX, Pair.reserves, AbsoluteReserves.on, ← hx] at h ⊢ <;>
      omega
  · have hx' : pair.base ≠ pair.x := Ne.symm hx
    cases s <;>
      simp [Side.wrap, Side.not, Pair.entersX, Pair.reserves, AbsoluteReserves.on, hx, hx'] at h ⊢ <;>
      omega

end Pair

/-- Above the minimum of ADA a trade moves what is available as it moves the reserves. -/
theorem QuadraticPool.move_available {p p' : QuadraticPool} {input : OnSide Nat} {output : Nat}
    (hmove : p.pair.move input output p.reservesX p.reservesY = .ok (p'.reservesX, p'.reservesY))
    (hasset : p'.assetX = p.assetX) (h : p.assetX.isNative → minAda ≤ p.reservesX)
    (h' : p'.assetX.isNative → minAda ≤ p'.reservesX) :
    p.pair.move input output p.availableReservesX p.reservesY =
      .ok (p'.availableReservesX, p'.reservesY) := by
  rw [Pair.move_eq_ok] at hmove ⊢
  rw [hasset] at h'
  unfold availableReservesX
  rw [hasset]
  by_cases hnative : p.assetX.isNative = true
  · have hmin := h hnative
    have hmin' := h' hnative
    simp only [hnative, hmin, hmin', and_self, if_true]
    split at hmove <;> rename_i henters <;>
      simp only [henters, if_true, Bool.false_eq_true, if_false] <;> omega
  · simpa only [hnative, Bool.false_eq_true, false_and, if_false] using hmove

namespace BookMaker

variable [Numerics] {maker next : BookMaker} {s : LiquidityBook.Side} {amount : Nat}

/-- A swap between states above the minimum of ADA moves the same amounts of what may be traded and
of all there is. -/
theorem swap_moves (hswap : maker.swap (s.wrap amount) = next) (hmaker : maker.HoldsMinAda)
    (hnext : next.HoldsMinAda) : next.id = maker.id ∧ ∃ output,
      ((liquidity next).on s = (liquidity maker).on s + amount ∧
        (liquidity next).on s.not + output = (liquidity maker).on s.not) ∧
      (reserves next).on s = (reserves maker).on s + amount ∧
        (reserves next).on s.not + output = (reserves maker).on s.not := by
  cases maker with
  | panicked id => exact hmaker.elim
  | live pool =>
    obtain ⟨pool', hpool, rfl⟩ := swap_live hswap hnext
    cases pool with
    | any pool =>
      obtain ⟨after, hafter, heq⟩ := Checked.bind_eq_ok.mp hpool
      cases Checked.pure_eq_ok.mp heq
      obtain ⟨candidate, output, -, -, hmove, hpair, hid⟩ := AnyPool.swap_spec hafter
      have hmoves := Pair.reserves_of_move hmove
      refine ⟨hid, output, ?_, ?_⟩
      · show (after.tradable).on s = (pool.tradable).on s + amount ∧
          (after.tradable).on s.not + output = (pool.tradable).on s.not
        rwa [AnyPool.tradable_eq, AnyPool.tradable_eq, hpair]
      · show (after.pair.reserves after.reservesX after.reservesY).on s = _ ∧ _
        rw [hpair]
        simp only [reserves, hpair]
        exact hmoves
    | degen pool =>
      obtain ⟨after, hafter, heq⟩ := Checked.bind_eq_ok.mp hpool
      cases Checked.pure_eq_ok.mp heq
      obtain ⟨output, -, hmove, hrest⟩ := QuadraticPool.swap_spec hafter
      have hpair : after.pair = pool.pair := by
        rw [hrest]
        rfl
      have hasset : after.assetX = pool.assetX := by rw [hrest]
      have havailable := QuadraticPool.move_available hmove hasset hmaker hnext
      refine ⟨by rw [hrest]; rfl, output, ?_, ?_⟩
      · show (after.tradable).on s = (pool.tradable).on s + amount ∧
          (after.tradable).on s.not + output = (pool.tradable).on s.not
        rw [QuadraticPool.tradable, QuadraticPool.tradable, hpair]
        exact Pair.reserves_of_move havailable
      · simp only [reserves, hpair]
        exact Pair.reserves_of_move hmove

theorem exactMaker [LiquidityPreviews] : ExactMaker HoldsMinAda := by
  intro maker next s amount hswap hmaker hnext
  obtain ⟨hid, output, ⟨htaken, hpaid⟩, -⟩ := swap_moves (Next.succ.inj hswap) hmaker hnext
  exact ⟨hid, htaken, Nat.le.intro hpaid⟩

/-- A swap between states above the minimum of ADA is the same by either reserves. -/
theorem received_reserves [LiquidityPreviews] {make : MakeInProgress BookMaker}
    (h : make.IsSwap HoldsMinAda) (s : LiquidityBook.Side) :
    make.received reserves s = make.received MarketMaker.liquidity s := by
  obtain ⟨s', amount, next, hresult, hswap, htarget, hnext⟩ := h
  obtain ⟨-, output, ⟨htaken, hpaid⟩, htaken', hpaid'⟩ :=
    swap_moves (Next.succ.inj hswap) htarget hnext
  unfold MakeInProgress.received
  rw [hresult]
  show ((reserves next).on s : Int) - (reserves make.target).on s =
    (liquidity next).on s - (liquidity make.target).on s
  by_cases hs : s = s'
  · subst hs
    omega
  · have hother : s = s'.not := by
      cases s <;> cases s' <;> first | rfl | exact absurd rfl hs
    subst hother
    omega

end BookMaker

/-! ### Recipes over the pools -/

section Recipes

variable [Numerics] [LiquidityPreviews] {T : Type} [Stable T] [MarketTaker T ExUnits]
  [TakerBehaviour T] [Ord T] [SideOrd T] [LawfulTaker T] [ExactTaker T] [SpendsInput T]
  {s : IdleState T BookMaker} {stashed : List T} {conf : ExecutionConfig ExUnits}
  {recipe : MatchmakingRecipe T BookMaker} {book : TLBState T BookMaker}

/-- A recipe conserves both assets if every degen pool of ADA that it trades with has held the
minimum of ADA all along. -/
theorem attempt_conserves (hs : s.HoldsOnce) (hinput : ∀ t, s.Has t → 0 < input t)
    (hrun : Attempt.RunIn conf (Attempt.Sound BookMaker.HoldsMinAda) (.start (.idle s)) stashed
      (.returned (some recipe) book)) :
    recipe.Conserves BookMaker.reserves ∧ recipe.Conserves MarketMaker.liquidity := by
  obtain ⟨hconserves, hswaps⟩ :=
    attempt_conserves_liquidity hs hinput BookMaker.exactMaker hrun
  refine ⟨?_, hconserves⟩
  rw [conserves_iff_flow] at hconserves ⊢
  intro side
  rw [hconserves side, MatchmakingRecipe.received, MatchmakingRecipe.received]
  refine congrArg List.sum (List.map_congr_left fun make hmake => ?_)
  exact (BookMaker.received_reserves (hswaps make hmake) side).symm

end Recipes

section Samples

/-- A curve so flat that a token costs the same however many have been sold: what the input buys,
for a coefficient of the supply next to nothing. -/
@[reducible] def flatNumerics : Numerics :=
  ⟨fun _ _ _ => 0, fun _ bNum _ input => input * bDenom / bNum, fun _ bNum _ input =>
    input * bNum / bDenom, 255⟩

@[reducible] def noPreviews : LiquidityPreviews := ⟨fun _ _ => none⟩

/-- A new pool of tokens at 10 ADA each, that holds the given amount of ADA. -/
def sampleDegen (reservesX : Nat) : QuadraticPool :=
  { id := sampleToken 1
    reservesX := reservesX
    reservesY := tokenEmission
    assetX := .native
    assetY := .token (sampleToken 2)
    aNum := 1
    bNum := 10 ^ 13
    capThr := 10 ^ 12
    ver := .v1
    accumulatedXFee := 0
    xFeeNum := 0
    marginalCost := ⟨1, 1⟩
    bounds := ⟨0, 0⟩
    virgin := true
    capped := true }

/-- 105 ADA for tokens at up to 20 ADA each. -/
def sampleLimitOrder : LimitOrder :=
  { beacon := RawBytes.replicate 7
    inputAsset := .native
    inputAmount := 105000000
    outputAsset := .token (sampleToken 2)
    outputAmount := 0
    basePrice := 1 / 20000000
    executionBudget := 1000000
    fee := 0
    maxCostPerExStep := 500000
    minMarginalOutput := 1
    marginalCost := ⟨1, 1⟩ }

def sampleExecution : ExecutionConfig ExUnits := ⟨⟨⟨1000, 0⟩, ⟨1000, 0⟩⟩, true, 1⟩

local instance : Numerics := flatNumerics

local instance : LiquidityPreviews := noPreviews

/-- A book of the order and the pool. -/
def degenBook (reservesX : Nat) : IdleState LimitOrder BookMaker :=
  ⟨⟨0, MarketTakers.empty.insertAll [sampleLimitOrder], ∅⟩,
    MarketMakers.empty.updatePool (.live (.degen (sampleDegen reservesX)))⟩

theorem holdsOnce_degenBook (reservesX : Nat) : (degenBook reservesX).HoldsOnce := by
  refine holdsOnce_insertAll fun t u ht hu _ => ?_
  rw [List.mem_singleton.mp ht, List.mem_singleton.mp hu]

theorem input_degenBook {reservesX : Nat} {t : LimitOrder} (h : (degenBook reservesX).Has t) :
    0 < t.inputAmount := by
  rw [List.mem_singleton.mp (mem_of_has_insertAll h)]
  decide

theorem attempt_conserves_sample : ∃ stashed recipe book,
    Attempt.RunIn sampleExecution (Attempt.Sound BookMaker.HoldsMinAda)
      (.start (.idle (degenBook 5000000))) stashed (.returned (some recipe) book) ∧
    recipe.Conserves BookMaker.reserves := by
  have hsound : ∀ k ≤ 3, ((Attempt.start (.idle (degenBook 5000000))).advances
      sampleExecution k).2.soundBy fun maker => maker.HoldsMinAda := by
    decide +kernel
  have hrun := Attempt.runIn_advances sampleExecution (.start (.idle (degenBook 5000000))) 3
    fun k hk => Attempt.sound_of_soundBy (fun _ h => of_decide_eq_true h) (hsound k hk)
  have hreturned : ((Attempt.start (.idle (degenBook 5000000))).advances
      sampleExecution 3).2.recipe?.isSome := by
    decide +kernel
  generalize (Attempt.start (.idle (degenBook 5000000))).advances sampleExecution 3 = last at *
  obtain ⟨stashed, last⟩ := last
  cases last with
  | returned recipe book =>
    obtain ⟨recipe, rfl⟩ := Option.isSome_iff_exists.mp hreturned
    exact ⟨stashed, recipe, book, hrun, (attempt_conserves (holdsOnce_degenBook 5000000)
      (fun t ht => input_degenBook ht) hrun).1⟩
  | matching _ _ _ => cases hreturned
  | formed _ _ _ => cases hreturned

/-- The order pays 105 ADA. The pool has got them when its 2 ADA are not enough to be counted, so it
counts 104 of them; swapped anew, it gets no more than these. -/
theorem attempt_loses_ada : (degenBook 2000000).HoldsOnce ∧ ∃ stashed recipe book,
    Attempt.Run sampleExecution (.start (.idle (degenBook 2000000))) stashed
      (.returned (some recipe) book) ∧
    ¬ recipe.Conserves BookMaker.reserves ∧ ¬ recipe.Conserves MarketMaker.liquidity := by
  have hcheck : (Attempt.outcome sampleExecution 2 (.idle (degenBook 2000000))).any fun x =>
      (x.2.2.1.addedOutput .bid + x.2.2.1.received BookMaker.reserves .ask : Int) <
          x.2.2.1.removedInput .ask &&
        (x.2.2.1.addedOutput .bid + x.2.2.1.received MarketMaker.liquidity .ask : Int) <
          x.2.2.1.removedInput .ask := by
    decide +kernel
  obtain ⟨⟨stashed, batch, recipe, book⟩, houtcome, hloss⟩ := (Option.any_eq_true ..).mp hcheck
  obtain ⟨optimized, hrun, hstep⟩ := Attempt.run_of_outcome houtcome
  simp only [Bool.and_eq_true, decide_eq_true_eq] at hloss
  exact ⟨holdsOnce_degenBook 2000000, _, recipe, book, hrun.step hstep,
    fun h => hloss.1.ne' h.base, fun h => hloss.2.ne' h.base⟩

end Samples

end UtxoMonitor.Pools
