import UtxoMonitor.Pools.AnyPool
import UtxoMonitor.Pools.QuadraticFees

/-! What a pool is after any number of swaps. -/
namespace UtxoMonitor.Pools

open Lib LiquidityBook

/-! ### One swap -/

section

variable {pair : Pair} {input : OnSide Nat} {output x y x' y' : Nat} {fee : Ratio}

theorem Pair.move_lt (h : pair.move input output x y = .ok (x', y')) (hx : x < 2 ^ 64)
    (hy : y < 2 ^ 64) : x' < 2 ^ 64 ∧ y' < 2 ^ 64 := by
  rw [Pair.move_eq_ok] at h
  split at h <;> omega

theorem Pair.collect_lt (h : pair.collect input fee x y = .ok (x', y')) (hx : x < 2 ^ 64)
    (hy : y < 2 ^ 64) : x' < 2 ^ 64 ∧ y' < 2 ^ 64 := by
  unfold Pair.collect at h
  split at h
  · simp only [Checked.bind_eq_ok, Checked.add_eq_ok, Checked.pure_eq_ok, Prod.mk.injEq] at h
    obtain ⟨share, -, _, ⟨hlt, rfl⟩, rfl, rfl⟩ := h
    exact ⟨hlt, hy⟩
  · simp only [Checked.bind_eq_ok, Checked.add_eq_ok, Checked.pure_eq_ok, Prod.mk.injEq] at h
    obtain ⟨share, -, _, ⟨hlt, rfl⟩, rfl, rfl⟩ := h
    exact ⟨hx, hlt⟩

/-- A fee of nothing collects nothing. -/
theorem Pair.collect_zero (h : pair.collect input fee x y = .ok (x', y')) (hfee : fee.numer = 0) :
    x' = x ∧ y' = y := by
  have hshare : ∀ {share}, fee.share input.unwrap = .ok share → share = 0 := by
    intro share hshare
    simp only [Ratio.share, hfee, Nat.mul_zero, Checked.bind_eq_ok, Checked.mul_eq_ok] at hshare
    obtain ⟨_, ⟨-, rfl⟩, hdiv⟩ := hshare
    unfold Checked.div at hdiv
    split at hdiv
    · cases hdiv
    · cases hdiv
      exact Nat.zero_div _
  unfold Pair.collect at h
  split at h
  · simp only [Checked.bind_eq_ok, Checked.add_eq_ok, Checked.pure_eq_ok, Prod.mk.injEq] at h
    obtain ⟨share, hok, _, ⟨-, rfl⟩, rfl, rfl⟩ := h
    exact ⟨by rw [hshare hok, Nat.add_zero], rfl⟩
  · simp only [Checked.bind_eq_ok, Checked.add_eq_ok, Checked.pure_eq_ok, Prod.mk.injEq] at h
    obtain ⟨share, hok, _, ⟨-, rfl⟩, rfl, rfl⟩ := h
    exact ⟨rfl, by rw [hshare hok, Nat.add_zero]⟩

end

/-! ### Any number of swaps -/

section

variable {input : OnSide Nat}

structure ClassicPool.Evolved (p p' : ClassicPool) : Prop where
  same : p' = { p with reservesX := p'.reservesX, reservesY := p'.reservesY }
  reservesX : p'.reservesX < 2 ^ 64
  reservesY : p'.reservesY < 2 ^ 64

theorem ClassicPool.Evolved.swap {p p' p'' : ClassicPool} (h : Evolved p p')
    (hswap : p'.swap input = .ok p'') : Evolved p p'' := by
  obtain ⟨output, -, hmove, hsame⟩ := ClassicPool.swap_spec hswap
  have hreserves := Pair.move_lt hmove h.reservesX h.reservesY
  refine ⟨?_, hreserves.1, hreserves.2⟩
  rw [h.same] at hsame
  exact hsame

structure FeeSwitchPool.Evolved (p p' : FeeSwitchPool) : Prop where
  same : p' = { p with
    reservesX := p'.reservesX
    reservesY := p'.reservesY
    treasuryX := p'.treasuryX
    treasuryY := p'.treasuryY }
  reservesX : p'.reservesX < 2 ^ 64
  reservesY : p'.reservesY < 2 ^ 64
  treasuryX : p'.treasuryX < 2 ^ 64
  treasuryY : p'.treasuryY < 2 ^ 64

theorem FeeSwitchPool.Evolved.swap {p p' p'' : FeeSwitchPool} (h : Evolved p p')
    (hswap : p'.swap input = .ok p'') : Evolved p p'' := by
  obtain ⟨output, -, hmove, hcollect, hsame⟩ := FeeSwitchPool.swap_spec hswap
  have hreserves := Pair.move_lt hmove h.reservesX h.reservesY
  have htreasury := Pair.collect_lt hcollect h.treasuryX h.treasuryY
  refine ⟨?_, hreserves.1, hreserves.2, htreasury.1, htreasury.2⟩
  rw [h.same] at hsame
  exact hsame

structure RoyaltyPool.Evolved (p p' : RoyaltyPool) : Prop where
  same : p' = { p with
    reservesX := p'.reservesX
    reservesY := p'.reservesY
    treasuryX := p'.treasuryX
    treasuryY := p'.treasuryY
    firstRoyaltyX := p'.firstRoyaltyX
    firstRoyaltyY := p'.firstRoyaltyY
    secondRoyaltyX := p'.secondRoyaltyX
    secondRoyaltyY := p'.secondRoyaltyY }
  reservesX : p'.reservesX < 2 ^ 64
  reservesY : p'.reservesY < 2 ^ 64
  treasuryX : p'.treasuryX < 2 ^ 64
  treasuryY : p'.treasuryY < 2 ^ 64
  firstRoyaltyX : p'.firstRoyaltyX < 2 ^ 64
  firstRoyaltyY : p'.firstRoyaltyY < 2 ^ 64
  secondRoyaltyX : p'.secondRoyaltyX < 2 ^ 64
  secondRoyaltyY : p'.secondRoyaltyY < 2 ^ 64
  /-- An owner without a fee gets nothing. -/
  secondRoyalty : p.secondRoyaltyFee.numer = 0 →
    p'.secondRoyaltyX = p.secondRoyaltyX ∧ p'.secondRoyaltyY = p.secondRoyaltyY

theorem RoyaltyPool.Evolved.swap {p p' p'' : RoyaltyPool} (h : Evolved p p')
    (hswap : p'.swap input = .ok p'') : Evolved p p'' := by
  obtain ⟨output, -, hmove, hcollect, hfirst, hsecond, hsame⟩ := RoyaltyPool.swap_spec hswap
  have hreserves := Pair.move_lt hmove h.reservesX h.reservesY
  have htreasury := Pair.collect_lt hcollect h.treasuryX h.treasuryY
  have hfirstRoyalty := Pair.collect_lt hfirst h.firstRoyaltyX h.firstRoyaltyY
  have hsecondRoyalty := Pair.collect_lt hsecond h.secondRoyaltyX h.secondRoyaltyY
  have hfee : p'.secondRoyaltyFee = p.secondRoyaltyFee := by rw [h.same]
  refine ⟨?_, hreserves.1, hreserves.2, htreasury.1, htreasury.2, hfirstRoyalty.1, hfirstRoyalty.2,
    hsecondRoyalty.1, hsecondRoyalty.2, fun hzero => ?_⟩
  · rw [h.same] at hsame
    exact hsame
  · have hkept := Pair.collect_zero hsecond (hfee ▸ hzero)
    have hkept' := h.secondRoyalty hzero
    exact ⟨hkept.1.trans hkept'.1, hkept.2.trans hkept'.2⟩

structure BalancePool.Evolved (p p' : BalancePool) : Prop where
  same : p' = { p with
    reservesX := p'.reservesX
    reservesY := p'.reservesY
    treasuryX := p'.treasuryX
    treasuryY := p'.treasuryY }
  reservesX : p'.reservesX < 2 ^ 64
  reservesY : p'.reservesY < 2 ^ 64
  treasuryX : p'.treasuryX < 2 ^ 64
  treasuryY : p'.treasuryY < 2 ^ 64

theorem BalancePool.Evolved.swap [Numerics] {p p' p'' : BalancePool} (h : Evolved p p')
    (hswap : p'.swap input = .ok p'') : Evolved p p'' := by
  obtain ⟨output, -, hmove, hcollect, hsame⟩ := BalancePool.swap_spec hswap
  have hreserves := Pair.move_lt hmove h.reservesX h.reservesY
  have htreasury := Pair.collect_lt hcollect h.treasuryX h.treasuryY
  refine ⟨?_, hreserves.1, hreserves.2, htreasury.1, htreasury.2⟩
  rw [h.same] at hsame
  exact hsame

structure StablePoolT2T.Evolved (p p' : StablePoolT2T) : Prop where
  same : p' = { p with
    reservesX := p'.reservesX
    reservesY := p'.reservesY
    treasuryX := p'.treasuryX
    treasuryY := p'.treasuryY }
  reservesX : p'.reservesX < 2 ^ 64
  reservesY : p'.reservesY < 2 ^ 64
  treasuryX : p'.treasuryX < 2 ^ 64
  treasuryY : p'.treasuryY < 2 ^ 64

theorem StablePoolT2T.treasury_lt {fuel : Nat} {p p' : StablePoolT2T}
    (h : p.swap fuel input = .ok p') (hx : p.treasuryX < 2 ^ 64) (hy : p.treasuryY < 2 ^ 64) :
    p'.treasuryX < 2 ^ 64 ∧ p'.treasuryY < 2 ^ 64 := by
  simp only [StablePoolT2T.swap, Checked.bind_eq_ok] at h
  obtain ⟨_, -, _, -, _, -, _, -, _, -, h⟩ := h
  cases input with
  | bid amount =>
    simp only [Checked.bind_eq_ok, Checked.add_eq_ok, Checked.pure_eq_ok] at h
    obtain ⟨_, ⟨hlt, rfl⟩, rfl⟩ := h
    exact ⟨hlt, hy⟩
  | ask amount =>
    simp only [Checked.bind_eq_ok, Checked.add_eq_ok, Checked.pure_eq_ok] at h
    obtain ⟨_, ⟨hlt, rfl⟩, rfl⟩ := h
    exact ⟨hx, hlt⟩

theorem StablePoolT2T.Evolved.swap {fuel : Nat} {p p' p'' : StablePoolT2T} (h : Evolved p p')
    (hswap : p'.swap fuel input = .ok p'') : Evolved p p'' := by
  obtain ⟨_, _, output, -, -, -, hmove, hsame⟩ := StablePoolT2T.swap_spec hswap
  have hreserves := Pair.move_lt hmove h.reservesX h.reservesY
  have htreasury := StablePoolT2T.treasury_lt hswap h.treasuryX h.treasuryY
  refine ⟨?_, hreserves.1, hreserves.2, htreasury.1, htreasury.2⟩
  rw [h.same] at hsame
  exact hsame

structure QuadraticPool.Evolved (p p' : QuadraticPool) : Prop where
  same : p' = { p with
    reservesX := p'.reservesX
    reservesY := p'.reservesY
    accumulatedXFee := p'.accumulatedXFee }
  reservesX : p'.reservesX < 2 ^ 64
  reservesY : p'.reservesY < 2 ^ 64
  accumulatedXFee : p'.accumulatedXFee < 2 ^ 64
  /-- Pools of ADA collect no fee. -/
  unpaid : p.ver = .v1 → p'.accumulatedXFee = p.accumulatedXFee

theorem QuadraticPool.Evolved.swap [Numerics] {p p' p'' : QuadraticPool} (h : Evolved p p')
    (hswap : p'.swap input = .ok p'') : Evolved p p'' := by
  obtain ⟨output, hpays, hmove, hsame⟩ := QuadraticPool.swap_spec hswap
  have hreserves := Pair.move_lt hmove h.reservesX h.reservesY
  have hver : p'.ver = p.ver := by rw [h.same]
  have hunpaid : p'.ver = .v1 → p''.accumulatedXFee = p'.accumulatedXFee := by
    intro hv1
    generalize p''.accumulatedXFee = fee at hpays
    cases hpays with
    | v1 ver => rfl
    | feeOnInput ver => cases hv1.symm.trans ver
    | feeOnOutput ver => cases hv1.symm.trans ver
  have hfee : p''.accumulatedXFee < 2 ^ 64 := by
    cases hkind : p'.ver with
    | v1 => rw [hunpaid hkind]; exact h.accumulatedXFee
    | v1T2t => exact QuadraticPool.accumulatedXFee_lt hkind hswap
  refine ⟨?_, hreserves.1, hreserves.2, hfee, fun hv1 => ?_⟩
  · rw [h.same] at hsame
    exact hsame
  · rw [hunpaid (hver.trans hv1), h.unpaid hv1]

end

/-! ### The pools of a book -/

namespace Maker

/-- What swaps make of a pool: its reserves and what it has collected change, in 64 bits. -/
inductive Evolved : Maker → Maker → Prop where
  | classic {p p' : ClassicPool} (h : p.Evolved p') :
    Evolved (.any (.pureCfmm (.classic p))) (.any (.pureCfmm (.classic p')))
  | feeSwitch {p p' : FeeSwitchPool} (h : p.Evolved p') :
    Evolved (.any (.pureCfmm (.feeSwitch p))) (.any (.pureCfmm (.feeSwitch p')))
  | royalty {p p' : RoyaltyPool} (h : p.Evolved p') :
    Evolved (.any (.pureCfmm (.royalty p))) (.any (.pureCfmm (.royalty p')))
  | balance {p p' : BalancePool} (h : p.Evolved p') :
    Evolved (.any (.balancedCfmm p)) (.any (.balancedCfmm p'))
  | stable {p p' : StablePoolT2T} (h : p.Evolved p') :
    Evolved (.any (.stableCfmm p)) (.any (.stableCfmm p'))
  | degen {p p' : QuadraticPool} (h : p.Evolved p') : Evolved (.degen p) (.degen p')

/-- One or more swaps. -/
def Swapped [Numerics] : Maker → Maker → Prop :=
  Relation.TransGen fun p p' => ∃ input, p.swap input = .ok p'

theorem Evolved.swap [Numerics] {p p' p'' : Maker} {input : OnSide Nat} (h : p.Evolved p')
    (hswap : p'.swap input = .ok p'') : p.Evolved p'' := by
  cases h with
  | classic h =>
    obtain ⟨_, hany, heq⟩ := Checked.bind_eq_ok.mp hswap
    cases heq
    obtain ⟨_, hcfmm, heq⟩ := Checked.bind_eq_ok.mp hany
    cases heq
    obtain ⟨_, hpool, heq⟩ := Checked.bind_eq_ok.mp hcfmm
    cases heq
    exact .classic (h.swap hpool)
  | feeSwitch h =>
    obtain ⟨_, hany, heq⟩ := Checked.bind_eq_ok.mp hswap
    cases heq
    obtain ⟨_, hcfmm, heq⟩ := Checked.bind_eq_ok.mp hany
    cases heq
    obtain ⟨_, hpool, heq⟩ := Checked.bind_eq_ok.mp hcfmm
    cases heq
    exact .feeSwitch (h.swap hpool)
  | royalty h =>
    obtain ⟨_, hany, heq⟩ := Checked.bind_eq_ok.mp hswap
    cases heq
    obtain ⟨_, hcfmm, heq⟩ := Checked.bind_eq_ok.mp hany
    cases heq
    obtain ⟨_, hpool, heq⟩ := Checked.bind_eq_ok.mp hcfmm
    cases heq
    exact .royalty (h.swap hpool)
  | balance h =>
    obtain ⟨_, hany, heq⟩ := Checked.bind_eq_ok.mp hswap
    cases heq
    obtain ⟨_, hpool, heq⟩ := Checked.bind_eq_ok.mp hany
    cases heq
    exact .balance (h.swap hpool)
  | stable h =>
    obtain ⟨_, hany, heq⟩ := Checked.bind_eq_ok.mp hswap
    cases heq
    obtain ⟨_, hpool, heq⟩ := Checked.bind_eq_ok.mp hany
    cases heq
    exact .stable (h.swap hpool)
  | degen h =>
    obtain ⟨_, hpool, heq⟩ := Checked.bind_eq_ok.mp hswap
    cases heq
    exact .degen (h.swap hpool)

/-- What holds of a pool in 64 bits holds of what any number of swaps make of it. -/
theorem Evolved.of_swapped [Numerics] {p p' : Maker} (hp : p.Evolved p) (h : p.Swapped p') :
    p.Evolved p' := by
  induction h with
  | single hstep =>
    obtain ⟨input, hswap⟩ := hstep
    exact hp.swap hswap
  | tail _ hstep ih =>
    obtain ⟨input, hswap⟩ := hstep
    exact ih.swap hswap

end Maker

end UtxoMonitor.Pools
