import UtxoMonitor.Lib.Shares
import UtxoMonitor.Pools.AnyPool
import UtxoMonitor.Pools.Regular

/-! Trades of constant product pools keep the product of their reserves. -/
namespace UtxoMonitor.Pools

open Lib LiquidityBook

/-- What a pool has to keep of an asset. -/
def leastReserve (asset : AssetClass) : Nat :=
  if asset.isNative then untouchableLovelaceAmount else 1

/-- Reserves that fit their words and are not less than what a pool has to keep. -/
structure Pair.Bounded (pair : Pair) (x y : Nat) : Prop where
  x_lt : x < 2 ^ 64
  y_lt : y < 2 ^ 64
  x : leastReserve pair.x ≤ x
  y : leastReserve pair.y ≤ y

/-- Of x and y, or of what belongs to them, the one that goes with the input of an asset. -/
def Pair.given {A : Type} (pair : Pair) (asset : AssetClass) (ofX ofY : A) : A :=
  if asset = pair.x then ofX else ofY

/-- An output that leaves enough of its reserve, and with what is kept of the input no less of the
product. -/
structure FairOutput (asset : AssetClass) (reserveIn reserveOut kept output : Nat) : Prop where
  lt : output < reserveOut
  product : reserveIn * reserveOut ≤ (reserveIn + kept) * (reserveOut - output)
  left : leastReserve asset ≤ reserveOut - output

/-! ### One output -/

section Output

variable {pair : Pair} {asset : AssetClass} {x y amount quote output kept parts base : Nat}
  {fee feeX feeY : Ratio}

theorem leastReserve_pos (asset : AssetClass) : 0 < leastReserve asset := by
  unfold leastReserve
  split <;> decide

/-- The two reserves of a trade: there is something of the one that the input goes to, and enough of
the other. -/
theorem Pair.Bounded.given (h : pair.Bounded x y) (asset : AssetClass) :
    0 < pair.given asset x y ∧ 0 < pair.given asset y x ∧ pair.given asset y x < 2 ^ 64 ∧
      leastReserve (pair.given asset pair.y pair.x) ≤ pair.given asset y x := by
  have hx := (leastReserve_pos pair.x).trans_le h.x
  have hy := (leastReserve_pos pair.y).trans_le h.y
  unfold Pair.given
  split
  · exact ⟨hx, hy, h.y_lt, h.y⟩
  · exact ⟨hy, hx, h.x_lt, h.x⟩

theorem Ratio.Is.numer_le_denom (h : fee.Is parts) (hparts : parts ≤ feeDen) :
    fee.numer ≤ fee.denom := by
  have hmul : fee.numer * feeDen ≤ fee.denom * feeDen := by
    rw [h.numer_mul, Nat.mul_comm]
    exact Nat.mul_le_mul_left _ hparts
  exact Nat.le_of_mul_le_mul_right hmul (by decide)

/-- Reserves and an input that fit their words together can be weighted with a fee in 128 bits. -/
theorem weighted_lt (h : fee.Is parts) (hparts : parts ≤ feeDen) (hlt : base + amount < 2 ^ 64) :
    base * fee.denom + amount * fee.numer < 2 ^ 128 := by
  have hbase : base * fee.denom ≤ base * feeDen := Nat.mul_le_mul_left _ h.denom_le
  have hamount : amount * fee.numer ≤ amount * feeDen :=
    Nat.mul_le_mul_left _ (h.numer_le.trans hparts)
  rw [show feeDen = 100000 from rfl] at hbase hamount
  omega

theorem cfmmQuoteAmount_lt (hbase : 0 < base) (hdenom : 0 < fee.denom) (hquote : 0 < quote)
    (h : cfmmQuoteAmount base quote amount fee = .ok output) : output < quote := by
  obtain ⟨-, -, -, -, rfl⟩ := cfmmQuoteAmount_eq_ok.mp h
  rw [Nat.mul_assoc]
  exact sale_lt (Nat.mul_pos hbase hdenom) hquote

/-- A quote is computed exactly when the product of its three factors fits 128 bits. -/
theorem exists_cfmmQuoteAmount_iff (hbase : 0 < base) (hquote : quote < 2 ^ 64)
    (hfee : fee.Is parts) (hparts : parts ≤ feeDen) (hlt : base + amount < 2 ^ 64) :
    (∃ output, cfmmQuoteAmount base quote amount fee = .ok output) ↔
      quote * amount * fee.numer < 2 ^ 128 := by
  constructor
  · rintro ⟨output, h⟩
    exact (cfmmQuoteAmount_eq_ok.mp h).1
  · intro h
    have hmul := mul_lt_u128 hquote (show amount < 2 ^ 64 by omega)
    have hpos := Nat.mul_pos hbase hfee.denom_pos
    exact ⟨_, cfmmQuoteAmount_eq_ok.mpr
      ⟨h, hmul, weighted_lt hfee hparts hlt, by omega, rfl⟩⟩

/-- What a quote is capped to leaves enough. -/
theorem exists_capLovelace (hlt : quote < y) (hy : leastReserve asset ≤ y) :
    ∃ output, capLovelace asset y quote = .ok output ∧ output ≤ quote ∧
      leastReserve asset ≤ y - output := by
  unfold leastReserve at hy ⊢
  unfold capLovelace
  split
  · rename_i hnative
    rw [if_pos hnative] at hy
    rw [Checked.sub, if_pos hlt.le]
    by_cases hleft : y - quote < untouchableLovelaceAmount
    · refine ⟨y - untouchableLovelaceAmount, ?_, by omega, by omega⟩
      exact (if_pos hleft).trans (if_pos hy)
    · exact ⟨quote, if_neg hleft, le_rfl, by omega⟩
  · exact ⟨quote, rfl, le_rfl, by omega⟩

theorem classicCfmmOutputAmount_eq :
    classicCfmmOutputAmount pair x y asset amount feeX feeY = (do
      let quoteAmount ← cfmmQuoteAmount (pair.given asset x y) (pair.given asset y x) amount
        (pair.given asset feeX feeY)
      capLovelace (pair.given asset pair.y pair.x) (pair.given asset y x)
        (quoteAmount % 2 ^ 64)) := by
  unfold classicCfmmOutputAmount Pair.given
  split <;> rfl

/-- The output is computed exactly where the quote is. -/
theorem exists_classicCfmmOutputAmount_iff (h : pair.Bounded x y)
    (hfee : (pair.given asset feeX feeY).Is parts) (hparts : parts ≤ feeDen)
    (hlt : pair.given asset x y + amount < 2 ^ 64) :
    (∃ output, classicCfmmOutputAmount pair x y asset amount feeX feeY = .ok output) ↔
      pair.given asset y x * amount * (pair.given asset feeX feeY).numer < 2 ^ 128 := by
  obtain ⟨hbase, hquote, hquoteLt, hleast⟩ := h.given asset
  rw [← exists_cfmmQuoteAmount_iff hbase hquoteLt hfee hparts hlt, classicCfmmOutputAmount_eq]
  constructor
  · rintro ⟨output, hok⟩
    obtain ⟨quoteAmount, hok, -⟩ := Checked.bind_eq_ok.mp hok
    exact ⟨quoteAmount, hok⟩
  · rintro ⟨quoteAmount, hok⟩
    have hltQuote := cfmmQuoteAmount_lt hbase hfee.denom_pos hquote hok
    obtain ⟨output, hcap, -⟩ := exists_capLovelace hltQuote hleast
    rw [← Nat.mod_eq_of_lt (hltQuote.trans hquoteLt)] at hcap
    exact ⟨output, Checked.bind_eq_ok.mpr ⟨quoteAmount, hok, hcap⟩⟩

/-- No more is paid out than there is, and the product does not fall if no more of the input is
traded than what is kept. -/
theorem product_le_of_output (hdenom : 0 < (pair.given asset feeX feeY).denom)
    (hlt : pair.given asset y x < 2 ^ 64)
    (hok : classicCfmmOutputAmount pair x y asset amount feeX feeY = .ok output) :
    output ≤ pair.given asset y x ∧
    ∀ kept,
      amount * (pair.given asset feeX feeY).numer ≤ kept * (pair.given asset feeX feeY).denom →
      pair.given asset x y * pair.given asset y x ≤
        (pair.given asset x y + kept) * (pair.given asset y x - output) := by
  rw [classicCfmmOutputAmount_eq] at hok
  obtain ⟨quoteAmount, hok, hcap⟩ := Checked.bind_eq_ok.mp hok
  have hleQuote := cfmmQuoteAmount_le hok
  rw [Nat.mod_eq_of_lt (hleQuote.trans_lt hlt)] at hcap
  have hle := capLovelace_le hcap
  refine ⟨hle.trans hleQuote, fun kept hkept => ?_⟩
  apply product_le_of_sale hdenom (hle.trans hleQuote) ?_ hkept
  obtain ⟨-, -, -, -, rfl⟩ := cfmmQuoteAmount_eq_ok.mp hok
  refine (Nat.mul_le_mul_right _ hle).trans ?_
  rw [Nat.mul_assoc (pair.given asset y x)]
  exact Nat.div_mul_le_self _ _

/-- An output is fair if no more of the input is traded than what is kept. -/
theorem fairOutput (h : pair.Bounded x y) (hfee : (pair.given asset feeX feeY).Is parts)
    (hok : classicCfmmOutputAmount pair x y asset amount feeX feeY = .ok output)
    (hkept : amount * (pair.given asset feeX feeY).numer ≤
      kept * (pair.given asset feeX feeY).denom) :
    FairOutput (pair.given asset pair.y pair.x) (pair.given asset x y) (pair.given asset y x) kept
      output := by
  obtain ⟨hbase, hquote, hquoteLt, hleast⟩ := h.given asset
  obtain ⟨-, hproduct⟩ := product_le_of_output hfee.denom_pos hquoteLt hok
  rw [classicCfmmOutputAmount_eq] at hok
  obtain ⟨quoteAmount, hok, hcap⟩ := Checked.bind_eq_ok.mp hok
  have hltQuote := cfmmQuoteAmount_lt hbase hfee.denom_pos hquote hok
  rw [Nat.mod_eq_of_lt (hltQuote.trans hquoteLt)] at hcap
  obtain ⟨output', hcap', hle, hleft⟩ := exists_capLovelace hltQuote hleast
  cases hcap.symm.trans hcap'
  exact ⟨hle.trans_lt hltQuote, hproduct kept hkept, hleft⟩

/-- An output of an input that is computed in its words throughout, and is fair. -/
def ExactOutput (pair : Pair) (x y : Nat) (asset : AssetClass) (amount : Nat)
    (feeX feeY : Ratio) : Prop :=
  ∃ quoteAmount output,
    cfmmQuoteAmount (pair.given asset x y) (pair.given asset y x) amount
      (pair.given asset feeX feeY) = .ok quoteAmount ∧ quoteAmount < 2 ^ 64 ∧
    classicCfmmOutputAmount pair x y asset amount feeX feeY = .ok output ∧
    FairOutput (pair.given asset pair.y pair.x) (pair.given asset x y) (pair.given asset y x) amount
      output

theorem exactOutput_iff (h : pair.Bounded x y) (hfee : (pair.given asset feeX feeY).Is parts)
    (hparts : parts ≤ feeDen) (hlt : pair.given asset x y + amount < 2 ^ 64) :
    ExactOutput pair x y asset amount feeX feeY ↔
      pair.given asset y x * amount * (pair.given asset feeX feeY).numer < 2 ^ 128 := by
  rw [← exists_classicCfmmOutputAmount_iff h hfee hparts hlt]
  constructor
  · rintro ⟨_, output, -, -, hok, -⟩
    exact ⟨output, hok⟩
  · rintro ⟨output, hok⟩
    obtain ⟨hbase, hquote, hquoteLt, -⟩ := h.given asset
    have hquoted := classicCfmmOutputAmount_eq ▸ hok
    obtain ⟨quoteAmount, hquoted, -⟩ := Checked.bind_eq_ok.mp hquoted
    have hltQuote := cfmmQuoteAmount_lt hbase hfee.denom_pos hquote hquoted
    exact ⟨quoteAmount, output, hquoted, hltQuote.trans hquoteLt, hok, fairOutput h hfee hok
      (Nat.mul_le_mul_left _ (hfee.numer_le_denom hparts))⟩

end Output

/-! ### What a trade leaves -/

section Trade

variable {pair : Pair} {input : OnSide Nat} {x y kept output parts owedX owedY share : Nat}
  {fee feeX feeY : Ratio}

/-- The reserves of x and y after a trade. -/
def Pair.traded (pair : Pair) (input : OnSide Nat) (kept output x y : Nat) : Nat × Nat :=
  if pair.entersX input then (x + kept, y - output) else (x - output, y + kept)

/-- What is collected of x and y after a trade. -/
def Pair.credited (pair : Pair) (input : OnSide Nat) (share x y : Nat) : Nat × Nat :=
  if pair.entersX input then (x + share, y) else (x, y + share)

theorem Pair.credited_add {share' x' y' : Nat} :
    pair.credited input (share + share') (x + x') (y + y') =
      ((pair.credited input share x y).1 + (pair.credited input share' x' y').1,
        (pair.credited input share x y).2 + (pair.credited input share' x' y').2) := by
  unfold credited
  split
  · exact Prod.ext (Nat.add_add_add_comm x x' share share') rfl
  · exact Prod.ext rfl (Nat.add_add_add_comm y y' share share')

theorem Pair.given_paid {A : Type} (htwo : pair.x ≠ pair.y) (a b : A) :
    pair.given (pair.paid input) a b = if pair.entersX input then a else b := by
  unfold given
  simp only [Pair.entersX_iff htwo]

theorem Pair.move_traded (htwo : pair.x ≠ pair.y)
    (hlt : pair.given (pair.paid input) x y + input.unwrap < 2 ^ 64)
    (hle : output ≤ pair.given (pair.paid input) y x) :
    pair.move input output x y = .ok (pair.traded input input.unwrap output x y) := by
  rw [Pair.given_paid htwo] at hlt hle
  unfold traded
  split
  · rename_i hx
    rw [if_pos hx] at hlt hle
    rw [move_eq_ok, if_pos hx]
    exact ⟨hlt, hle, rfl, rfl⟩
  · rename_i hx
    rw [if_neg hx] at hlt hle
    rw [move_eq_ok, if_neg hx]
    exact ⟨hlt, hle, rfl, rfl⟩

theorem Pair.product_le_traded (htwo : pair.x ≠ pair.y)
    (h : pair.given (pair.paid input) x y * pair.given (pair.paid input) y x ≤
      (pair.given (pair.paid input) x y + kept) * (pair.given (pair.paid input) y x - output)) :
    x * y ≤ (pair.traded input kept output x y).1 * (pair.traded input kept output x y).2 := by
  simp only [Pair.given_paid htwo] at h
  unfold Pair.traded
  split
  · rename_i henters
    simpa only [henters, if_true] using h
  · rename_i henters
    simp only [henters, if_false, Bool.false_eq_true] at h
    rw [Nat.mul_comm x, Nat.mul_comm (x - output)]
    exact h

/-- A fair trade keeps the reserves bounded and does not lower their product. -/
theorem Pair.Bounded.traded (htwo : pair.x ≠ pair.y) (h : pair.Bounded x y)
    (hlt : pair.given (pair.paid input) x y + kept < 2 ^ 64)
    (hfair : FairOutput (pair.given (pair.paid input) pair.y pair.x)
      (pair.given (pair.paid input) x y) (pair.given (pair.paid input) y x) kept output) :
    pair.Bounded (pair.traded input kept output x y).1 (pair.traded input kept output x y).2 ∧
      x * y ≤ (pair.traded input kept output x y).1 * (pair.traded input kept output x y).2 := by
  obtain ⟨-, hproduct, hleft⟩ := hfair
  obtain ⟨hxlt, hylt, hx, hy⟩ := h
  refine ⟨?_, Pair.product_le_traded htwo hproduct⟩
  simp only [Pair.given_paid htwo] at hlt hleft
  unfold Pair.traded
  split
  · rename_i henters
    simp only [henters, if_true] at hlt hleft
    exact ⟨hlt, (Nat.sub_le _ _).trans_lt hylt, hx.trans (Nat.le_add_right _ _), hleft⟩
  · rename_i henters
    simp only [henters, if_false, Bool.false_eq_true] at hlt hleft
    exact ⟨(Nat.sub_le _ _).trans_lt hxlt, hlt, hleft, hy.trans (Nat.le_add_right _ _)⟩

theorem Ratio.Is.share_eq_ok (h : fee.Is parts) {amount : Nat} :
    fee.share amount = .ok share ↔
      amount * fee.numer < 2 ^ 64 ∧ amount * fee.numer / fee.denom = share := by
  simp only [Ratio.share, Checked.bind_eq_ok, Checked.mul_eq_ok, Checked.div_eq_ok]
  constructor
  · rintro ⟨_, ⟨hlt, rfl⟩, -, rfl⟩
    exact ⟨hlt, rfl⟩
  · rintro ⟨hlt, rfl⟩
    exact ⟨_, ⟨hlt, rfl⟩, h.denom_pos.ne', rfl⟩

theorem Ratio.Is.share_le (h : fee.Is parts) (amount : Nat) :
    amount * fee.numer / fee.denom * feeDen ≤ amount * parts := by
  refine Nat.le_of_mul_le_mul_right (c := fee.denom) ?_ h.denom_pos
  calc amount * fee.numer / fee.denom * feeDen * fee.denom
      = amount * fee.numer / fee.denom * fee.denom * feeDen := Nat.mul_right_comm _ _ _
    _ ≤ amount * fee.numer * feeDen := Nat.mul_le_mul_right _ (Nat.div_mul_le_self _ _)
    _ = amount * parts * fee.denom := by rw [Nat.mul_assoc, h.numer_mul, Nat.mul_assoc]

theorem Pair.collect_eq_ok_iff (h : fee.Is parts) (hparts : parts ≤ feeDen)
    (hlt : (if pair.entersX input then x else y) + input.unwrap < 2 ^ 64) (result : Nat × Nat) :
    pair.collect input fee x y = .ok result ↔ input.unwrap * fee.numer < 2 ^ 64 ∧
      result = pair.credited input (input.unwrap * fee.numer / fee.denom) x y := by
  have hshare : input.unwrap * fee.numer / fee.denom ≤ input.unwrap := by
    apply Nat.div_le_of_le_mul
    rw [Nat.mul_comm]
    exact Nat.mul_le_mul_right _ (h.numer_le_denom hparts)
  unfold Pair.collect Pair.credited
  split
  · rename_i hx
    rw [if_pos hx] at hlt
    simp only [Checked.bind_eq_ok, h.share_eq_ok, Checked.add_eq_ok, Checked.pure_eq_ok]
    constructor
    · rintro ⟨_, ⟨hmul, rfl⟩, _, ⟨-, rfl⟩, rfl⟩
      exact ⟨hmul, rfl⟩
    · rintro ⟨hmul, rfl⟩
      exact ⟨_, ⟨hmul, rfl⟩, _, ⟨by omega, rfl⟩, rfl⟩
  · rename_i hx
    rw [if_neg hx] at hlt
    simp only [Checked.bind_eq_ok, h.share_eq_ok, Checked.add_eq_ok, Checked.pure_eq_ok]
    constructor
    · rintro ⟨_, ⟨hmul, rfl⟩, _, ⟨-, rfl⟩, rfl⟩
      exact ⟨hmul, rfl⟩
    · rintro ⟨hmul, rfl⟩
      exact ⟨_, ⟨hmul, rfl⟩, _, ⟨by omega, rfl⟩, rfl⟩

/-- What is not collected of an input is at least the part of it that is traded. -/
theorem Ratio.Is.traded_le (h : fee.Is parts) (hparts : parts ≤ feeDen) {amount : Nat}
    (hshare : share * feeDen ≤ amount * (feeDen - parts)) :
    amount * fee.numer ≤ (amount - share) * fee.denom := by
  have hkept : amount * parts ≤ (amount - share) * feeDen := by
    rw [Nat.sub_mul]
    rw [Nat.mul_sub] at hshare
    have hmul : amount * parts ≤ amount * feeDen := Nat.mul_le_mul_left _ hparts
    omega
  refine Nat.le_of_mul_le_mul_right (c := feeDen) ?_ (by decide)
  calc amount * fee.numer * feeDen = amount * parts * fee.denom := by
        rw [Nat.mul_assoc, h.numer_mul, Nat.mul_assoc]
    _ ≤ (amount - share) * feeDen * fee.denom := Nat.mul_le_mul_right _ hkept
    _ = (amount - share) * fee.denom * feeDen := Nat.mul_right_comm _ _ _

/-- What is collected of an input comes out of what is kept of it. -/
theorem Pair.traded_sub_credited (hshare : share ≤ input.unwrap) (hx : owedX ≤ x) (hy : owedY ≤ y) :
    pair.traded input (input.unwrap - share) output (x - owedX) (y - owedY) =
      ((pair.traded input input.unwrap output x y).1 - (pair.credited input share owedX owedY).1,
        (pair.traded input input.unwrap output x y).2 -
          (pair.credited input share owedX owedY).2) := by
  unfold Pair.traded Pair.credited
  split
  · refine Prod.ext ?_ (Nat.sub_right_comm _ _ _)
    show x - owedX + (input.unwrap - share) = x + input.unwrap - (owedX + share)
    omega
  · refine Prod.ext (Nat.sub_right_comm _ _ _) ?_
    show y - owedY + (input.unwrap - share) = y + input.unwrap - (owedY + share)
    omega

theorem le_unwrap_of_share (h : share * feeDen ≤ input.unwrap * (feeDen - parts)) :
    share ≤ input.unwrap :=
  Nat.le_of_mul_le_mul_right (h.trans (Nat.mul_le_mul_left _ (Nat.sub_le _ _))) (by decide)

/-- With something of each asset besides what is owed, a trade moves the reserves, and whatever is
collected of its input leaves them bounded. -/
theorem Pair.swapped (htwo : pair.x ≠ pair.y) (h : pair.Bounded (x - owedX) (y - owedY))
    (hfee : (pair.given (pair.paid input) feeX feeY).Is parts) (hparts : parts ≤ feeDen)
    (hlt : pair.given (pair.paid input) x y + input.unwrap < 2 ^ 64)
    (hok : classicCfmmOutputAmount pair (x - owedX) (y - owedY) (pair.paid input) input.unwrap feeX
      feeY = .ok output) :
    pair.move input output x y = .ok (pair.traded input input.unwrap output x y) ∧
    ∀ share, share * feeDen ≤ input.unwrap * (feeDen - parts) → ∀ reserves owed,
      reserves = pair.traded input input.unwrap output x y →
      owed = pair.credited input share owedX owedY →
      pair.Bounded (reserves.1 - owed.1) (reserves.2 - owed.2) ∧
      (x - owedX) * (y - owedY) ≤ (reserves.1 - owed.1) * (reserves.2 - owed.2) := by
  have hposX := (leastReserve_pos pair.x).trans_le h.x
  have hposY := (leastReserve_pos pair.y).trans_le h.y
  constructor
  · apply move_traded htwo hlt
    have hle := classicCfmmOutputAmount_le hok
    unfold Pair.given
    split at hle <;> rename_i hpaid
    · rw [if_pos hpaid]
      omega
    · rw [if_neg hpaid]
      omega
  · rintro share hshare reserves owed rfl rfl
    have hle := le_unwrap_of_share hshare
    have hfair := fairOutput h hfee hok (hfee.traded_le hparts hshare)
    have hlt' : pair.given (pair.paid input) (x - owedX) (y - owedY) + (input.unwrap - share) <
        2 ^ 64 := by
      unfold Pair.given at hlt ⊢
      split at hlt <;> rename_i hpaid
      · rw [if_pos hpaid]
        omega
      · rw [if_neg hpaid]
        omega
    have hbounded := h.traded htwo hlt' hfair
    have heq : pair.traded input (input.unwrap - share) output (x - owedX) (y - owedY) = _ :=
      Pair.traded_sub_credited hle (Nat.lt_of_sub_pos hposX).le (Nat.lt_of_sub_pos hposY).le
    rw [heq] at hbounded
    exact hbounded

end Trade

/-! ### Pools -/

namespace ConstFnPool

/-- What belongs to others than the holders of liquidity. -/
def owedX : ConstFnPool → Nat
  | classic _ => 0
  | feeSwitch pool => pool.treasuryX
  | royalty pool => pool.owedX

def owedY : ConstFnPool → Nat
  | classic _ => 0
  | feeSwitch pool => pool.treasuryY
  | royalty pool => pool.owedY

def pureX (pool : ConstFnPool) : Nat := pool.reservesX - pool.owedX

def pureY (pool : ConstFnPool) : Nat := pool.reservesY - pool.owedY

/-- The part of an input that is traded. -/
def tradedFee (pool : ConstFnPool) (input : OnSide Nat) : Checked Ratio :=
  match pool with
  | classic pool => return pool.lpFee
  | feeSwitch pool => (pool.pair.given (pool.pair.paid input) pool.lpFeeX pool.lpFeeY).sub
      pool.treasuryFee
  | royalty pool => pool.poolFee

/-- The parts of an input that are collected for others. -/
def collectedFees : ConstFnPool → List Ratio
  | classic _ => []
  | feeSwitch pool => [pool.treasuryFee]
  | royalty pool => [pool.treasuryFee, pool.firstRoyaltyFee, pool.secondRoyaltyFee]

/-- Fees in parts of one denominator: no more is collected than what is not left to the traders. -/
def FeesInOrder : ConstFnPool → Prop
  | classic pool => ∃ lp, pool.lpFee.Is lp ∧ lp ≤ feeDen
  | feeSwitch pool => ∃ lpX lpY treasury, pool.lpFeeX.Is lpX ∧ pool.lpFeeY.Is lpY ∧
      pool.treasuryFee.Is treasury ∧ (treasury ≤ lpX ∧ lpX ≤ feeDen) ∧
      (treasury ≤ lpY ∧ lpY ≤ feeDen)
  | royalty pool => ∃ lp treasury first second, pool.lpFee.Is lp ∧ pool.treasuryFee.Is treasury ∧
      pool.firstRoyaltyFee.Is first ∧ pool.secondRoyaltyFee.Is second ∧
      treasury + first + second ≤ lp ∧ lp ≤ feeDen

/-- A pool of two assets with enough of each, and its fees in order. -/
structure Bounded (pool : ConstFnPool) : Prop where
  two : pool.pair.x ≠ pool.pair.y
  reserves : pool.pair.Bounded pool.pureX pool.pureY
  reservesX : pool.reservesX < 2 ^ 64
  reservesY : pool.reservesY < 2 ^ 64
  fees : pool.FeesInOrder

/-- A pool of two assets that holds what it owes, with its fees in order. -/
structure Covered (pool : ConstFnPool) : Prop where
  two : pool.pair.x ≠ pool.pair.y
  owedX : pool.owedX ≤ pool.reservesX
  owedY : pool.owedY ≤ pool.reservesY
  fees : pool.FeesInOrder

/-- The products of a trade fit: of its quote 128 bits, of its fees 64. -/
def Fits (pool : ConstFnPool) (input : OnSide Nat) : Prop :=
  (∀ fee, pool.tradedFee input = .ok fee →
    pool.pair.given (pool.pair.paid input) pool.pureY pool.pureX * input.unwrap * fee.numer <
      2 ^ 128) ∧
  ∀ fee ∈ pool.collectedFees, input.unwrap * fee.numer < 2 ^ 64

variable {pool : ConstFnPool} {input : OnSide Nat}

/-- A trade of the pool goes through and leaves the pool bounded, with no less of the product. -/
def KeepsBounds (pool : ConstFnPool) (input : OnSide Nat) : Prop :=
  ∃ pool', pool.swap input = .ok pool' ∧ pool'.Bounded ∧
    pool.pureX * pool.pureY ≤ pool'.pureX * pool'.pureY

/-- How a pool trades an input: at which fees, what has to fit, and what the trade changes. -/
structure TradesAt (pool : ConstFnPool) (input : OnSide Nat) (feeX feeY : Ratio) (parts : Nat) :
    Prop where
  traded : pool.tradedFee input = .ok (pool.pair.given (pool.pair.paid input) feeX feeY)
  fee : (pool.pair.given (pool.pair.paid input) feeX feeY).Is parts
  parts_le : parts ≤ feeDen
  fits : ∀ pool', pool.swap input = .ok pool' →
    (∃ output, classicCfmmOutputAmount pool.pair pool.pureX pool.pureY (pool.pair.paid input)
      input.unwrap feeX feeY = .ok output) ∧
    ∀ fee ∈ pool.collectedFees, input.unwrap * fee.numer < 2 ^ 64
  goes : ∀ output reserves, classicCfmmOutputAmount pool.pair pool.pureX pool.pureY
      (pool.pair.paid input) input.unwrap feeX feeY = .ok output →
    pool.pair.move input output pool.reservesX pool.reservesY = .ok reserves →
    (∀ fee ∈ pool.collectedFees, input.unwrap * fee.numer < 2 ^ 64) →
    ∃ pool' share, pool.swap input = .ok pool' ∧ share * feeDen ≤ input.unwrap * (feeDen - parts) ∧
      pool'.pair = pool.pair ∧ pool'.FeesInOrder ∧ (pool'.reservesX, pool'.reservesY) = reserves ∧
      (pool'.owedX, pool'.owedY) = pool.pair.credited input share pool.owedX pool.owedY

/-- A pool keeps its bounds in a trade exactly if the products of the trade fit. -/
theorem TradesAt.keepsBounds_iff {feeX feeY : Ratio} {parts : Nat} (h : pool.Bounded)
    (hlt : pool.pair.given (pool.pair.paid input) pool.reservesX pool.reservesY + input.unwrap <
      2 ^ 64)
    (htrades : pool.TradesAt input feeX feeY parts) : pool.KeepsBounds input ↔ pool.Fits input := by
  obtain ⟨htwo, hreserves, hx, hy, -⟩ := h
  obtain ⟨htraded, hfee, hparts, hfits, hgoes⟩ := htrades
  have hlt' : pool.pair.given (pool.pair.paid input) pool.pureX pool.pureY + input.unwrap <
      2 ^ 64 := by
    unfold Pair.given pureX pureY at *
    split at hlt <;> rename_i hpaid
    · rw [if_pos hpaid]
      omega
    · rw [if_neg hpaid]
      omega
  have hiff := exists_classicCfmmOutputAmount_iff hreserves hfee hparts hlt'
  constructor
  · rintro ⟨pool', hswap, -⟩
    obtain ⟨houtput, hcollected⟩ := hfits pool' hswap
    refine ⟨?_, hcollected⟩
    intro fee hfee
    cases htraded.symm.trans hfee
    exact hiff.mp houtput
  · rintro ⟨hquote, hcollected⟩
    obtain ⟨output, houtput⟩ := hiff.mpr (hquote _ htraded)
    obtain ⟨hmove, hkeeps⟩ := Pair.swapped htwo hreserves hfee hparts hlt houtput
    obtain ⟨pool', share, hswap, hshare, hpair, hfees, hreserves', howed⟩ :=
      hgoes output _ houtput hmove hcollected
    obtain ⟨hbounded, hproduct⟩ := hkeeps share hshare _ _ hreserves' howed
    have hmoved := Pair.move_eq_ok.mp (hmove.trans (congrArg Except.ok hreserves'.symm))
    refine ⟨pool', hswap, ⟨hpair ▸ htwo, hpair ▸ hbounded, ?_, ?_, hfees⟩, hproduct⟩
    · split at hmoved <;> omega
    · split at hmoved <;> omega

theorem tradesAt_classic {pool : ClassicPool} (h : (classic pool).FeesInOrder) :
    ∃ parts, (classic pool).TradesAt input pool.lpFee pool.lpFee parts := by
  obtain ⟨lp, hlp, hle⟩ := h
  have hgiven : pool.pair.given (pool.pair.paid input) pool.lpFee pool.lpFee = pool.lpFee :=
    ite_self _
  refine ⟨lp, congrArg Except.ok hgiven.symm, hgiven.symm ▸ hlp, hle, ?_, ?_⟩
  · intro pool' hswap
    obtain ⟨next, hswap, -⟩ := Checked.bind_eq_ok.mp hswap
    obtain ⟨output, houtput, -⟩ := Checked.bind_eq_ok.mp hswap
    exact ⟨⟨output, houtput⟩, fun fee hfee => by cases hfee⟩
  · intro output reserves houtput hmove _
    refine ⟨classic { pool with reservesX := reserves.1, reservesY := reserves.2 }, 0,
      Checked.bind_eq_ok.mpr ⟨_, Checked.bind_eq_ok.mpr ⟨output, houtput,
        Checked.bind_eq_ok.mpr ⟨reserves, hmove, rfl⟩⟩, rfl⟩, ?_, rfl, ⟨lp, hlp, hle⟩, rfl, ?_⟩
    · omega
    · unfold Pair.credited
      split <;> rfl

theorem Bounded.covered (h : pool.Bounded) : pool.Covered where
  two := h.two
  owedX := (Nat.lt_of_sub_pos ((leastReserve_pos pool.pair.x).trans_le h.reserves.x)).le
  owedY := (Nat.lt_of_sub_pos ((leastReserve_pos pool.pair.y).trans_le h.reserves.y)).le
  fees := h.fees

/-- What belongs to one of the others is within the reserves, so it fits its word with an input. -/
theorem Covered.collected_lt (h : pool.Covered)
    (hlt : pool.pair.given (pool.pair.paid input) pool.reservesX pool.reservesY + input.unwrap <
      2 ^ 64) {x y : Nat} (hx : x ≤ pool.owedX) (hy : y ≤ pool.owedY) :
    (if pool.pair.entersX input then x else y) + input.unwrap < 2 ^ 64 := by
  have howedX := h.owedX
  have howedY := h.owedY
  rw [Pair.given_paid h.two] at hlt
  split at hlt <;> rename_i henters
  · rw [if_pos henters]
    omega
  · rw [if_neg henters]
    omega

theorem tradesAt_feeSwitch {pool : FeeSwitchPool} (h : (feeSwitch pool).Covered)
    (hlt : pool.pair.given (pool.pair.paid input) pool.reservesX pool.reservesY + input.unwrap <
      2 ^ 64) : ∃ feeX feeY parts, (feeSwitch pool).TradesAt input feeX feeY parts := by
  obtain ⟨lpX, lpY, treasury, hlpX, hlpY, htreasury, hX, hY⟩ := h.fees
  have howedX : pool.treasuryX ≤ pool.reservesX := h.owedX
  have howedY : pool.treasuryY ≤ pool.reservesY := h.owedY
  have hden : feeDen < 2 ^ 64 := by decide
  obtain ⟨feeX, hfeeX, hisX⟩ := hlpX.sub htreasury hX.1 (hX.2.trans_lt hden)
  obtain ⟨feeY, hfeeY, hisY⟩ := hlpY.sub htreasury hY.1 (hY.2.trans_lt hden)
  have hquote : ∀ asset amount, pool.outputAmount asset amount = classicCfmmOutputAmount pool.pair
      (pool.reservesX - pool.treasuryX) (pool.reservesY - pool.treasuryY) asset amount feeX feeY := by
    intro asset amount
    rw [FeeSwitchPool.outputAmount, Checked.sub, if_pos howedX, Checked.sub, if_pos howedY, hfeeX,
      hfeeY]
    rfl
  have hcollect := Pair.collect_eq_ok_iff htreasury (hX.1.trans hX.2)
    (h.collected_lt hlt (x := pool.treasuryX) (y := pool.treasuryY) le_rfl le_rfl)
  refine ⟨feeX, feeY, pool.pair.given (pool.pair.paid input) (lpX - treasury) (lpY - treasury),
    ?_, ?_, ?_, ?_, ?_⟩
  · show (pool.pair.given (pool.pair.paid input) pool.lpFeeX pool.lpFeeY).sub pool.treasuryFee =
      .ok (pool.pair.given (pool.pair.paid input) feeX feeY)
    unfold Pair.given
    split
    · exact hfeeX
    · exact hfeeY
  · show (pool.pair.given (pool.pair.paid input) feeX feeY).Is _
    unfold Pair.given
    split
    · exact hisX
    · exact hisY
  · unfold Pair.given
    split <;> omega
  · intro pool' hswap
    obtain ⟨next, hswap, -⟩ := Checked.bind_eq_ok.mp hswap
    obtain ⟨output, houtput, hswap⟩ := Checked.bind_eq_ok.mp hswap
    obtain ⟨reserves, -, hswap⟩ := Checked.bind_eq_ok.mp hswap
    obtain ⟨collected, hcollected, -⟩ := Checked.bind_eq_ok.mp hswap
    rw [hquote] at houtput
    refine ⟨⟨output, houtput⟩, ?_⟩
    intro fee hfee
    cases List.mem_singleton.mp hfee
    exact ((hcollect _).mp hcollected).1
  · intro output reserves houtput hmove hfits
    have hmul := hfits _ (List.mem_singleton_self _)
    have hcollected := (hcollect _).mpr ⟨hmul, rfl⟩
    have hpool := (hquote _ _).trans houtput
    refine ⟨feeSwitch { pool with
        reservesX := reserves.1
        reservesY := reserves.2
        treasuryX := _
        treasuryY := _ }, _,
      Checked.bind_eq_ok.mpr ⟨_, Checked.bind_eq_ok.mpr ⟨output, hpool,
        Checked.bind_eq_ok.mpr ⟨reserves, hmove, Checked.bind_eq_ok.mpr ⟨_, hcollected, rfl⟩⟩⟩,
        rfl⟩, (htreasury.share_le _).trans (Nat.mul_le_mul_left _ ?_), rfl,
      ⟨lpX, lpY, treasury, hlpX, hlpY, htreasury, hX, hY⟩, rfl, rfl⟩
    unfold Pair.given
    split <;> omega

theorem tradesAt_royalty {pool : RoyaltyPool} (h : (royalty pool).Covered)
    (hlt : pool.pair.given (pool.pair.paid input) pool.reservesX pool.reservesY + input.unwrap <
      2 ^ 64) : ∃ fee parts, (royalty pool).TradesAt input fee fee parts := by
  obtain ⟨lp, treasury, first, second, hlp, htreasury, hfirst, hsecond, hsum, hle⟩ := h.fees
  have howedX : pool.owedX ≤ pool.reservesX := h.owedX
  have howedY : pool.owedY ≤ pool.reservesY := h.owedY
  obtain ⟨fee, hfee, his⟩ := RoyaltyPool.poolFee_eq hlp htreasury hfirst hsecond hsum
    (hle.trans_lt (by decide))
  have hgiven : pool.pair.given (pool.pair.paid input) fee fee = fee := ite_self _
  have hquote := RoyaltyPool.outputAmount_eq howedX howedY hfee
  have hcollect : ∀ {r : Ratio} {parts x y : Nat}, r.Is parts → parts ≤ feeDen →
      x ≤ pool.owedX → y ≤ pool.owedY → ∀ result,
      (pool.pair.collect input r x y = .ok result ↔ input.unwrap * r.numer < 2 ^ 64 ∧
        result = pool.pair.credited input (input.unwrap * r.numer / r.denom) x y) :=
    fun hr hparts hx hy => Pair.collect_eq_ok_iff hr hparts (h.collected_lt hlt hx hy)
  have hxs : pool.treasuryX ≤ pool.owedX ∧ pool.firstRoyaltyX ≤ pool.owedX ∧
      pool.secondRoyaltyX ≤ pool.owedX := by
    unfold RoyaltyPool.owedX
    omega
  have hys : pool.treasuryY ≤ pool.owedY ∧ pool.firstRoyaltyY ≤ pool.owedY ∧
      pool.secondRoyaltyY ≤ pool.owedY := by
    unfold RoyaltyPool.owedY
    omega
  have htreasuryCollect := hcollect htreasury (by omega) hxs.1 hys.1
  have hfirstCollect := hcollect hfirst (by omega) hxs.2.1 hys.2.1
  have hsecondCollect := hcollect hsecond (by omega) hxs.2.2 hys.2.2
  refine ⟨fee, lp - treasury - first - second, hfee.trans (congrArg Except.ok hgiven.symm),
    hgiven.symm ▸ his, by omega, ?_, ?_⟩
  · intro pool' hswap
    obtain ⟨next, hswap, -⟩ := Checked.bind_eq_ok.mp hswap
    obtain ⟨output, houtput, hswap⟩ := Checked.bind_eq_ok.mp hswap
    obtain ⟨reserves, -, hswap⟩ := Checked.bind_eq_ok.mp hswap
    obtain ⟨_, htreasury', hswap⟩ := Checked.bind_eq_ok.mp hswap
    obtain ⟨_, hfirst', hswap⟩ := Checked.bind_eq_ok.mp hswap
    obtain ⟨_, hsecond', -⟩ := Checked.bind_eq_ok.mp hswap
    rw [hquote] at houtput
    refine ⟨⟨output, houtput⟩, ?_⟩
    simp only [collectedFees, List.forall_mem_cons, List.not_mem_nil, false_imp_iff, implies_true,
      and_true]
    exact ⟨((htreasuryCollect _).mp htreasury').1, ((hfirstCollect _).mp hfirst').1,
      ((hsecondCollect _).mp hsecond').1⟩
  · intro output reserves houtput hmove hfits
    simp only [collectedFees, List.forall_mem_cons, List.not_mem_nil, false_imp_iff, implies_true,
      and_true] at hfits
    have hpool := (hquote _ _).trans houtput
    refine ⟨royalty { pool with
        reservesX := reserves.1
        reservesY := reserves.2
        treasuryX := _
        treasuryY := _
        firstRoyaltyX := _
        firstRoyaltyY := _
        secondRoyaltyX := _
        secondRoyaltyY := _ }, input.unwrap * pool.treasuryFee.numer / pool.treasuryFee.denom +
          input.unwrap * pool.firstRoyaltyFee.numer / pool.firstRoyaltyFee.denom +
          input.unwrap * pool.secondRoyaltyFee.numer / pool.secondRoyaltyFee.denom,
      Checked.bind_eq_ok.mpr ⟨_, Checked.bind_eq_ok.mpr ⟨output, hpool,
        Checked.bind_eq_ok.mpr ⟨reserves, hmove,
          Checked.bind_eq_ok.mpr ⟨_, (htreasuryCollect _).mpr ⟨hfits.1, rfl⟩,
          Checked.bind_eq_ok.mpr ⟨_, (hfirstCollect _).mpr ⟨hfits.2.1, rfl⟩,
          Checked.bind_eq_ok.mpr ⟨_, (hsecondCollect _).mpr ⟨hfits.2.2, rfl⟩, rfl⟩⟩⟩⟩⟩,
        rfl⟩, ?_, rfl,
      ⟨lp, treasury, first, second, hlp, htreasury, hfirst, hsecond, hsum, hle⟩, rfl, ?_⟩
    · have htreasuryShare := htreasury.share_le input.unwrap
      have hfirstShare := hfirst.share_le input.unwrap
      have hsecondShare := hsecond.share_le input.unwrap
      calc _ ≤ input.unwrap * (treasury + first + second) := by linarith
        _ ≤ input.unwrap * (feeDen - (lp - treasury - first - second)) :=
          Nat.mul_le_mul_left _ (by omega)
    · show (RoyaltyPool.owedX _, RoyaltyPool.owedY _) = _
      unfold owedX owedY RoyaltyPool.owedX RoyaltyPool.owedY
      rw [Pair.credited_add, Pair.credited_add]
      rfl

/-- A pool keeps its bounds in a trade exactly if the products of the trade fit. -/
theorem keepsBounds_iff (h : pool.Bounded)
    (hlt : pool.pair.given (pool.pair.paid input) pool.reservesX pool.reservesY + input.unwrap <
      2 ^ 64) : pool.KeepsBounds input ↔ pool.Fits input := by
  cases pool with
  | classic pool =>
    obtain ⟨parts, htrades⟩ := tradesAt_classic h.fees
    exact htrades.keepsBounds_iff h hlt
  | feeSwitch pool =>
    obtain ⟨feeX, feeY, parts, htrades⟩ := tradesAt_feeSwitch h.covered hlt
    exact htrades.keepsBounds_iff h hlt
  | royalty pool =>
    obtain ⟨fee, parts, htrades⟩ := tradesAt_royalty h.covered hlt
    exact htrades.keepsBounds_iff h hlt

end ConstFnPool

/-- Outputs are exact and fair, and trades keep the bounds of their pools, exactly where the products
they compute with fit their words. -/
theorem trades_keep_product (pair : Pair) (x y : Nat) (asset : AssetClass) (amount : Nat)
    (feeX feeY : Ratio) (partsX partsY : Nat) (h : pair.Bounded x y) (hfeeX : feeX.Is partsX)
    (hpartsX : partsX ≤ feeDen) (hfeeY : feeY.Is partsY) (hpartsY : partsY ≤ feeDen)
    (hlt : pair.given asset x y + amount < 2 ^ 64) :
    (ExactOutput pair x y asset amount feeX feeY ↔
      pair.given asset y x * amount * (pair.given asset feeX feeY).numer < 2 ^ 128) ∧
    ∀ (pool : ConstFnPool) (input : OnSide Nat), pool.Bounded →
      pool.pair.given (pool.pair.paid input) pool.reservesX pool.reservesY + input.unwrap <
        2 ^ 64 → (pool.KeepsBounds input ↔ pool.Fits input) := by
  constructor
  · have hfee : (pair.given asset feeX feeY).Is (pair.given asset partsX partsY) := by
      unfold Pair.given
      split
      · exact hfeeX
      · exact hfeeY
    refine exactOutput_iff h hfee ?_ hlt
    unfold Pair.given
    split
    · exact hpartsX
    · exact hpartsY
  · intro pool input h hlt
    exact ConstFnPool.keepsBounds_iff h hlt

/-- A pool of two tokens with as much of the one as of the other. -/
def evenPool (reserves : Nat) : ClassicPool where
  id := sampleToken 1
  reservesX := reserves
  reservesY := reserves
  liquidity := reserves
  assetX := .token (sampleToken 2)
  assetY := .token (sampleToken 3)
  assetLq := .token (sampleToken 4)
  lpFee := ⟨99700, feeDen⟩
  lqLowerBound := 0
  ver := .v2
  marginalCost := ⟨530000, 270000000⟩
  bounds := ⟨0, 0⟩
  stakePartScriptHash := none

theorem bounded_evenPool {reserves : Nat} (hpos : 0 < reserves) (hlt : reserves < 2 ^ 64) :
    (ConstFnPool.classic (evenPool reserves)).Bounded where
  two := by
    show AssetClass.token (sampleToken 2) ≠ .token (sampleToken 3)
    decide
  reserves := ⟨hlt, hlt, hpos, hpos⟩
  reservesX := hlt
  reservesY := hlt
  fees := ⟨99700, Ratio.is_feeDen _, by decide⟩

theorem trades_keep_product_evenPool :
    ExactOutput (evenPool 1000000).pair 1000000 1000000 (.token (sampleToken 2)) 5000
      (evenPool 1000000).lpFee (evenPool 1000000).lpFee ∧
    (ConstFnPool.classic (evenPool 1000000)).KeepsBounds (.ask 5000) := by
  have hbounded : (ConstFnPool.classic (evenPool 1000000)).Bounded :=
    bounded_evenPool (by decide) (by decide)
  have hfee := Ratio.is_feeDen 99700
  have htrades := trades_keep_product (evenPool 1000000).pair 1000000 1000000
    (.token (sampleToken 2)) 5000 _ _ _ _ hbounded.reserves hfee (by decide) hfee (by decide)
    (by decide)
  constructor
  · exact htrades.1.mpr (by decide)
  · apply (htrades.2 _ (.ask 5000) hbounded (by decide)).mpr
    refine ⟨?_, fun fee hfee => by cases hfee⟩
    rintro fee ⟨⟩
    decide

/-- A trade of as much as the reserves, where these are a quarter of what fits a word. -/
theorem quote_overflows : ¬ ∀ (pair : Pair) (x y : Nat) (asset : AssetClass) (amount : Nat)
    (feeX feeY : Ratio) (partsX partsY : Nat), pair.Bounded x y → feeX.Is partsX →
    partsX ≤ feeDen → feeY.Is partsY → partsY ≤ feeDen →
    pair.given asset x y + amount < 2 ^ 64 → ExactOutput pair x y asset amount feeX feeY := by
  intro h
  have hbounded : (ConstFnPool.classic (evenPool (2 ^ 62))).Bounded :=
    bounded_evenPool (by decide) (by decide)
  have hfee := Ratio.is_feeDen 99700
  obtain ⟨quoteAmount, output, hquote, -⟩ := h _ _ _ (.token (sampleToken 2)) (2 ^ 62) _ _ _ _
    hbounded.reserves hfee (by decide) hfee (by decide) (by decide)
  have hlt := (cfmmQuoteAmount_eq_ok.mp hquote).1
  revert hlt
  decide

end UtxoMonitor.Pools
