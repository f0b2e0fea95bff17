import UtxoMonitor.LiquidityBook.Limits
import UtxoMonitor.Pools.AnyPool

/-! What a pool promises for an input, and what its swap pays. -/
namespace UtxoMonitor.Pools

open Lib LiquidityBook

/-- What the matchmaking expects for the input at a price. -/
def promised (input : OnSide Nat) (price : AbsolutePrice) : Nat :=
  match input with
  | .bid amount => linearOutputUnsafe amount (.bid price)
  | .ask amount => linearOutputUnsafe amount (.ask price)

/-- The reserves that pay for the input. -/
def payable (input : OnSide Nat) (reserves : AbsoluteReserves) : Nat :=
  match input with
  | .bid _ => reserves.base
  | .ask _ => reserves.quote

/-- What a trade has moved out of the reserves. -/
def paidOut (input : OnSide Nat) (init succ : AbsoluteReserves) : Nat :=
  payable input init - payable input succ

/-! ### Reserves and prices -/

section Reserves

variable {pair : Pair} {input : OnSide Nat} {output x y x' y' : Nat} {price : AbsolutePrice}

/-- The output that a price was made of is what it promises. -/
theorem promised_priceOf (h : priceOf input output = some price) (hpos : input.unwrap ≠ 0) :
    promised input price = output := by
  cases input with
  | bid amount => exact linearOutputUnsafe_bid_of_price h hpos
  | ask amount => exact linearOutputUnsafe_ask_of_price h

/-- Nothing is promised for nothing. -/
theorem promised_of_zero (h : input.unwrap = 0) : promised input price = 0 := by
  cases input with
  | bid amount =>
    cases h
    simp [promised, linearOutputUnsafe]
  | ask amount =>
    cases h
    simp [promised, linearOutputUnsafe]

theorem payable_reserves :
    payable input (pair.reserves x y) = if pair.entersX input then y else x := by
  by_cases h : pair.x = pair.base
  · cases input <;> simp [payable, Pair.reserves, Pair.entersX, ← h]
  · have h' : pair.base ≠ pair.x := Ne.symm h
    cases input <;> simp [payable, Pair.reserves, Pair.entersX, h, h']

theorem paidOut_of_move (h : pair.move input output x y = .ok (x', y')) :
    paidOut input (pair.reserves x y) (pair.reserves x' y') = output := by
  rw [Pair.move_eq_ok] at h
  rw [paidOut, payable_reserves, payable_reserves]
  split at h <;> rename_i henters <;> simp only [henters, if_true, Bool.false_eq_true, if_false] <;>
    omega

end Reserves

/-! ### Degen pools -/

namespace QuadraticPool

variable {p p' : QuadraticPool} {input : OnSide Nat} {output candidate : Nat}

/-- The reserves that a trade of the input may draw on. -/
def payableReserves (p : QuadraticPool) (input : OnSide Nat) : Nat := payable input p.tradable

theorem payableReserves_le : p.payableReserves input ≤ p.paidReserves input := by
  rw [payableReserves, tradable, payable_reserves, paidReserves]
  split
  · exact Nat.le_refl _
  · unfold availableReservesX
    split
    · exact Nat.sub_le _ _
    split
    · exact Nat.zero_le _
    · exact Nat.le_refl _

/-- The reserves below the minimum of ADA are not counted. -/
theorem paidOut_tradable
    (hmove : p.pair.move input output p.reservesX p.reservesY = .ok (p'.reservesX, p'.reservesY))
    (hrest : p' = { p with
      reservesX := p'.reservesX
      reservesY := p'.reservesY
      accumulatedXFee := p'.accumulatedXFee }) :
    paidOut input p.tradable p'.tradable = min output (p.payableReserves input) := by
  have hpair : p'.pair = p.pair := by
    rw [hrest]
    rfl
  have hasset : p'.assetX = p.assetX := by rw [hrest]
  rw [Pair.move_eq_ok] at hmove
  rw [paidOut, payableReserves, tradable, tradable, hpair, payable_reserves, payable_reserves]
  split at hmove <;> rename_i henters <;>
    simp only [henters, if_true, Bool.false_eq_true, if_false]
  · omega
  · unfold availableReservesX
    rw [hasset]
    split <;> split <;> grind

theorem adjustXOutput_lt {xFeeNum payout : Nat} (h : adjustXOutput xFeeNum output = .ok payout) :
    payout < output := by
  simp only [adjustXOutput, Checked.bind_eq_ok, Checked.sub_eq_ok, Checked.mul_eq_ok] at h
  obtain ⟨_, ⟨-, rfl⟩, product, ⟨-, hproduct⟩, hle, rfl⟩ := h
  have hbound : product ≤ output * t2tFeeDenom := by
    rw [← hproduct]
    exact Nat.mul_le_mul_left _ (Nat.sub_le _ _)
  by_cases hexact : product % t2tFeeDenom = 0
  · rw [if_pos hexact] at hle ⊢
    simp only [t2tFeeDenom] at hbound hle ⊢
    omega
  · rw [if_neg hexact]
    simp only [t2tFeeDenom] at hbound hexact ⊢
    omega

theorem safeOutput_spec {reserves : Nat}
    (h : safeOutput .v1T2t input candidate reserves = .ok output) :
    output ≤ candidate ∧ min candidate reserves ≤ output := by
  cases input with
  | bid amount =>
    cases h
    exact ⟨Nat.le_refl _, Nat.min_le_left _ _⟩
  | ask amount =>
    cases h
    exact ⟨Nat.min_le_left _ _, Nat.le_refl _⟩

/-- In the pools of the first version the output falls short of the candidate only where the
reserves do. -/
theorem le_safeOutput_iff (h : safeOutput .v1 input candidate (p.paidReserves input) = .ok output) :
    candidate ≤ min output (p.payableReserves input) ↔ candidate ≤ p.payableReserves input := by
  have hle : p.payableReserves input ≤ p.paidReserves input := p.payableReserves_le
  unfold safeOutput at h
  cases input with
  | bid amount =>
    simp only [Checked.bind_eq_ok, Checked.add_eq_ok, Checked.pure_eq_ok] at h
    obtain ⟨_, ⟨-, rfl⟩, rfl⟩ := h
    split <;> omega
  | ask amount =>
    cases h
    omega

variable [Numerics]

/-- The pools of the first version have what they promise above the minimum of ADA; those of the
second take their fee from x before the curve, and the curve gives as much for what remains. -/
def KeepsPromise (p : QuadraticPool) (input : OnSide Nat) : Prop :=
  ∃ candidate, p.outputAmount (p.pair.paid input) input.unwrap = .ok candidate ∧
    candidate ≤ p.payableReserves input ∧
    (p.ver = .v1T2t → p.pair.paid input = p.assetX ∧
      ∃ adjusted traded, adjustedXInput p.xFeeNum input.unwrap = .ok adjusted ∧
        p.outputAmount (p.pair.paid input) adjusted = .ok traded ∧ candidate ≤ traded)

theorem le_paidOut_iff
    (hcandidate : p.outputAmount (p.pair.paid input) input.unwrap = .ok candidate)
    (hswap : p.swap input = .ok p') :
    candidate ≤ paidOut input p.tradable p'.tradable ↔ p.KeepsPromise input := by
  obtain ⟨output, hpays, hmove, hrest⟩ := swap_spec hswap
  rw [paidOut_tradable hmove hrest, KeepsPromise]
  generalize p'.accumulatedXFee = accumulated at hpays
  cases hpays with
  | v1 ver hcandidate' hsafe =>
    cases hcandidate.symm.trans hcandidate'
    rw [le_safeOutput_iff hsafe]
    constructor
    · intro hle
      exact ⟨candidate, hcandidate, hle, fun hver => by rw [ver] at hver; cases hver⟩
    · rintro ⟨_, hsame, hle, -⟩
      cases hcandidate.symm.trans hsame
      exact hle
  | feeOnInput ver paid hadjusted htraded hsafe hfee =>
    rename_i adjusted traded fee
    obtain ⟨hle, hmin⟩ := safeOutput_spec hsafe
    have hpayable : p.payableReserves input ≤ p.paidReserves input := p.payableReserves_le
    constructor
    · intro hkeeps
      exact ⟨candidate, hcandidate, by omega,
        fun _ => ⟨paid, adjusted, traded, hadjusted, htraded, by omega⟩⟩
    · rintro ⟨_, hsame, hreserves, hver⟩
      cases hcandidate.symm.trans hsame
      obtain ⟨-, _, _, hadjusted', htraded', hkeeps⟩ := hver ver
      cases hadjusted.symm.trans hadjusted'
      cases htraded.symm.trans htraded'
      omega
  | feeOnOutput ver paid hcandidate' hsafe hpayout hfee =>
    cases hcandidate.symm.trans hcandidate'
    have hlt := adjustXOutput_lt hpayout
    have hle := (safeOutput_spec hsafe).1
    constructor
    · intro hkeeps
      omega
    · rintro ⟨_, -, -, hver⟩
      exact absurd (hver ver).1 paid

end QuadraticPool

/-! ### Pools of every kind -/

namespace Maker

variable [Numerics] {maker maker' : Maker} {input : OnSide Nat} {price : AbsolutePrice}

/-- The input of a degen pool keeps to its curve; a stable pool only keeps to promises of nothing. -/
def KeepsPromise : Maker → OnSide Nat → Prop
  | any (.stableCfmm _), input => input.unwrap = 0
  | any (.pureCfmm _), _ => True
  | any (.balancedCfmm _), _ => True
  | degen p, input => input.unwrap = 0 ∨ p.KeepsPromise input

/-- The price is made of the output that the pool computes for the input. -/
theorem exists_outputAmount (h : maker.realPrice input = .ok (some price)) : ∃ output,
    maker.outputAmount (maker.pair.paid input) input.unwrap = .ok output ∧
      priceOf input output = some price := by
  cases maker with
  | any pool =>
    cases pool with
    | pureCfmm pool =>
      cases pool with
      | classic pool =>
        obtain ⟨output, houtput, h⟩ := Checked.bind_eq_ok.mp h
        exact ⟨output, houtput, Checked.pure_eq_ok.mp h⟩
      | feeSwitch pool =>
        obtain ⟨output, houtput, h⟩ := Checked.bind_eq_ok.mp h
        exact ⟨output, houtput, Checked.pure_eq_ok.mp h⟩
      | royalty pool =>
        obtain ⟨output, houtput, h⟩ := Checked.bind_eq_ok.mp h
        exact ⟨output, houtput, Checked.pure_eq_ok.mp h⟩
    | balancedCfmm pool =>
      obtain ⟨output, houtput, h⟩ := Checked.bind_eq_ok.mp h
      exact ⟨output, houtput, Checked.pure_eq_ok.mp h⟩
    | stableCfmm pool =>
      obtain ⟨output, houtput, h⟩ := Checked.bind_eq_ok.mp h
      exact ⟨output, houtput, Checked.pure_eq_ok.mp h⟩
  | degen pool =>
    cases input with
    | bid amount =>
      obtain ⟨output, houtput, h⟩ := Checked.bind_eq_ok.mp h
      exact ⟨output, houtput, Checked.pure_eq_ok.mp h⟩
    | ask amount =>
      simp only [realPrice, QuadraticPool.realPrice, Checked.bind_eq_ok] at h
      obtain ⟨_, -, filled, -, h⟩ := h
      split at h
      · obtain ⟨output, houtput, h⟩ := Checked.bind_eq_ok.mp h
        exact ⟨output, houtput, Checked.pure_eq_ok.mp h⟩
      · cases h

/-- A pool with reserves pays what it computes, unless it takes its fees from that. -/
theorem output_le_paidOut_iff {pool pool' : AnyPool} {output : Nat}
    (houtput : pool.outputAmount (pool.pair.paid input) input.unwrap = .ok output)
    (hswap : pool.swap input = .ok pool') :
    output ≤ paidOut input pool.tradable pool'.tradable ↔ pool.takesFromOutput = false := by
  obtain ⟨candidate, paid, hcandidate, hpaid, hmove, hpair, -⟩ := AnyPool.swap_spec hswap
  cases houtput.symm.trans hcandidate
  rw [pool.tradable_eq, pool'.tradable_eq, hpair, paidOut_of_move hmove]
  cases htakes : pool.takesFromOutput with
  | false =>
    rw [htakes, if_neg Bool.false_ne_true] at hpaid
    exact iff_of_true hpaid.ge rfl
  | true =>
    rw [htakes, if_pos rfl] at hpaid
    exact iff_of_false hpaid.not_ge Bool.noConfusion

/-- The swap pays what the preview has promised exactly where the pool keeps its promise. -/
theorem promised_le_paidOut_iff (hprice : maker.realPrice input = .ok (some price))
    (hswap : maker.swap input = .ok maker') :
    promised input price ≤ paidOut input maker.tradable maker'.tradable ↔
      maker.KeepsPromise input := by
  by_cases hzero : input.unwrap = 0
  · rw [promised_of_zero hzero]
    refine iff_of_true (Nat.zero_le _) ?_
    cases maker with
    | any pool =>
      cases pool with
      | stableCfmm pool => exact hzero
      | pureCfmm pool => trivial
      | balancedCfmm pool => trivial
    | degen pool => exact .inl hzero
  obtain ⟨output, houtput, hpriceOf⟩ := exists_outputAmount hprice
  rw [promised_priceOf hpriceOf hzero]
  cases maker with
  | any pool =>
    obtain ⟨next, hnext, hmaker⟩ := Checked.bind_eq_ok.mp hswap
    cases Checked.pure_eq_ok.mp hmaker
    refine (output_le_paidOut_iff houtput hnext).trans ?_
    cases pool with
    | stableCfmm pool => exact iff_of_false Bool.noConfusion hzero
    | pureCfmm pool => exact iff_of_true rfl trivial
    | balancedCfmm pool => exact iff_of_true rfl trivial
  | degen pool =>
    obtain ⟨next, hnext, hmaker⟩ := Checked.bind_eq_ok.mp hswap
    cases Checked.pure_eq_ok.mp hmaker
    exact (QuadraticPool.le_paidOut_iff houtput hnext).trans (or_iff_right hzero).symm

end Maker

/-- Numeric libraries that a constant product does without. -/
@[reducible] def idleNumerics : Numerics :=
  ⟨fun _ _ _ => 0, fun _ _ _ _ => 0, fun _ _ _ _ => 0, 255⟩

/-- ADA and a token, at a fee of 0.3%. -/
def sampleClassic : ClassicPool :=
  { id := sampleToken 1
    reservesX := 1000000000
    reservesY := 2000000000
    liquidity := 1000000
    assetX := .native
    assetY := .token (sampleToken 2)
    assetLq := .token (sampleToken 3)
    lpFee := ⟨99700, feeDen⟩
    lqLowerBound := 0
    ver := .v2
    marginalCost := ⟨530000, 270000000⟩
    bounds := ⟨0, 0⟩
    stakePartScriptHash := none }

theorem sampleClassic_keeps_promise :
    promised (.ask 1000000) (1992013 / 1000000) ≤ paidOut (.ask 1000000)
      (Maker.any (.pureCfmm (.classic sampleClassic))).tradable
      (Maker.any (.pureCfmm (.classic
        { sampleClassic with reservesX := 1001000000, reservesY := 1998007987 }))).tradable :=
  (@Maker.promised_le_paidOut_iff idleNumerics _ _ _ _ (by decide +kernel)
    (by decide +kernel)).mpr trivial

/-- Two tokens, at a fee of 0.1% for the liquidity providers and of as much for the treasury. -/
def sampleStable : StablePoolT2T :=
  { id := sampleToken 1
    an2n := 220 * 16
    reservesX := 102434231
    multiplierX := 1
    reservesY := 3002434231
    multiplierY := 1
    liquidity := 1000000
    assetX := .token (sampleToken 2)
    assetY := .token (sampleToken 3)
    assetLq := .token (sampleToken 4)
    lpFeeX := ⟨100, feeDen⟩
    lpFeeY := ⟨100, feeDen⟩
    treasuryFee := ⟨100, feeDen⟩
    treasuryX := 0
    treasuryY := 0
    ver := .v1
    marginalCost := ⟨0, 0⟩ }

/-- The preview of a stable pool knows of no fees. -/
theorem stable_overpromises :
    ¬ ∀ (_ : Numerics) (maker maker' : Maker) (input : OnSide Nat) (price : AbsolutePrice),
      maker.realPrice input = .ok (some price) → maker.swap input = .ok maker' →
        promised input price ≤ paidOut input maker.tradable maker'.tradable := by
  intro h
  exact absurd (h idleNumerics (Maker.any (.stableCfmm sampleStable))
    (Maker.any (.stableCfmm { sampleStable with
      reservesX := 109544472
      reservesY := 2993661677
      treasuryY := 8791 })) (.ask 7110241) (8790136 / 7110241) (by decide +kernel)
    (by decide +kernel)) (by decide +kernel)

end UtxoMonitor.Pools
