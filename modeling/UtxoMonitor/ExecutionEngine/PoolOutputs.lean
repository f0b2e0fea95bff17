import UtxoMonitor.ExecutionEngine.Preservation
import UtxoMonitor.Lib.Assoc
import UtxoMonitor.Pools.Readings

/-! The outputs that the pools of a batch leave: what is entered in them, by the executor and by the
pools themselves. -/
namespace UtxoMonitor.Pools

open Lib LiquidityBook

open ExecutionEngine (producedOut producedOut_cases)

/-! ### Entries -/

/-- What is entered for an amount of an asset: nothing for nothing of a token. -/
def entryOf (asset : AssetClass) (amount : Nat) : Option Nat :=
  if asset.isNative ∨ 0 < amount then some amount else none

theorem entryOf_eq_some {asset : AssetClass} {amount : Nat} :
    entryOf asset amount = some amount ↔ asset.isNative ∨ 0 < amount := by
  simp only [entryOf, Option.ite_none_right_eq_some, and_true]

theorem getD_entryOf (asset : AssetClass) (amount : Nat) :
    (entryOf asset amount).getD 0 = amount := by
  unfold entryOf
  split
  · rfl
  · rename_i h
    simp only [Option.getD_none]
    omega

/-- `checked_sub` and `checked_add` of values: the entries of other assets stay, and no entry of
nothing is left. -/
class EntryArithmetic [ValueArithmetic] : Prop where
  amountOf_of_checkedSub {value value' : Value} {asset : AssetClass} {amount : Nat}
    (h : ValueArithmetic.checkedSub value asset amount = .ok value') (hpos : 0 < amount)
    (asset' : AssetClass) : value'.amountOf asset' =
      if asset' = asset then entryOf asset (value.held asset - amount) else value.amountOf asset'
  amountOf_of_checkedAdd {value value' : Value} {asset : AssetClass} {amount : Nat}
    (h : ValueArithmetic.checkedAdd value asset amount = .ok value') (hpos : 0 < amount)
    (asset' : AssetClass) : value'.amountOf asset' =
      if asset' = asset then entryOf asset (value.held asset + amount) else value.amountOf asset'

theorem Value.amountOf_withAmount (value : Value) (asset asset' : AssetClass) {amount : Nat}
    (h : amount < 2 ^ 64) : (value.withAmount asset amount h).amountOf asset' =
      if asset' = asset then entryOf asset amount else value.amountOf asset' := by
  cases asset with
  | native =>
    cases asset' with
    | native => rfl
    | token t' => rfl
  | token t =>
    cases asset' with
    | native => rfl
    | token t' =>
      simp only [withAmount, amountOf, AssetClass.token.injEq, entryOf, AssetClass.isNative,
        Bool.false_eq_true, false_or]
      by_cases hsame : t' = t
      · subst hsame
        by_cases hzero : amount = 0
        · simp [hzero]
        · simp [hzero, Nat.pos_of_ne_zero hzero]
      · have hne : ¬ t = t' := fun h => hsame h.symm
        by_cases hzero : amount = 0
        · simp [hzero, hsame, Std.ExtTreeMap.getElem?_erase, hne]
        · simp [hzero, hsame, Std.ExtTreeMap.getElem?_insert, hne]

theorem Value.entryArithmetic : @EntryArithmetic Value.arithmetic := by
  let _ := Value.arithmetic
  constructor
  case amountOf_of_checkedSub =>
    intro value value' asset amount h _ asset'
    simp only [ValueArithmetic.checkedSub] at h
    split at h
    · cases h
      rw [amountOf_withAmount]
    · cases h
  case amountOf_of_checkedAdd =>
    intro value value' asset amount h _ asset'
    simp only [ValueArithmetic.checkedAdd] at h
    split at h
    · cases h
      rw [amountOf_withAmount]
    · cases h

/-! ### What the executor leaves -/

section

variable [ValueArithmetic]

/-- Only trades that have moved both reserves are carried out. -/
theorem moves_of_producedOut {pair : Pair} {x y x' y' : Nat} {out out' : TransactionOutput}
    (h : producedOut pair (pair.reserves x y) (pair.reserves x' y') out = .ok out') :
    x' < x ∧ y < y' ∨ x < x' ∧ y' < y := by
  unfold Pair.reserves at h
  obtain ⟨hbase, hquote, -⟩ | ⟨hbase, hquote, -⟩ := producedOut_cases h
  · split at hbase <;> simp_all
  · split at hbase <;> simp_all

variable [EntryArithmetic] {out out' traded : TransactionOutput} {asset other : AssetClass}
  {amount removed added : Nat}

theorem amountOf_subAsset (h : out.subAsset asset amount = .ok out') (hpos : 0 < amount)
    (asset' : AssetClass) : out'.value.amountOf asset' = if asset' = asset then
      entryOf asset (out.value.held asset - amount) else out.value.amountOf asset' := by
  obtain ⟨value, hvalue, h⟩ := Checked.bind_eq_ok.mp h
  cases h
  exact EntryArithmetic.amountOf_of_checkedSub hvalue hpos asset'

theorem amountOf_addAsset (h : out.addAsset asset amount = .ok out') (hpos : 0 < amount)
    (asset' : AssetClass) : out'.value.amountOf asset' = if asset' = asset then
      entryOf asset (out.value.held asset + amount) else out.value.amountOf asset' := by
  obtain ⟨value, hvalue, h⟩ := Checked.bind_eq_ok.mp h
  cases h
  exact EntryArithmetic.amountOf_of_checkedAdd hvalue hpos asset'

/-- One asset is taken, and another added. -/
theorem amountOf_traded (hsub : out.subAsset asset removed = .ok traded)
    (hadd : traded.addAsset other added = .ok out') (hne : asset ≠ other) (hremoved : 0 < removed)
    (hadded : 0 < added) (asset' : AssetClass) : out'.value.amountOf asset' =
      if asset' = asset then entryOf asset (out.value.held asset - removed)
      else if asset' = other then entryOf other (out.value.held other + added)
      else out.value.amountOf asset' := by
  have hheld : traded.value.held other = out.value.held other := by
    have hsplit := (TransactionOutput.held_of_subAsset hsub).2 other
    rw [if_neg hne.symm, Nat.add_zero] at hsplit
    exact hsplit.symm
  rw [amountOf_addAsset hadd hadded, amountOf_subAsset hsub hremoved, hheld]
  by_cases hasset : asset' = asset
  · rw [if_pos hasset, if_pos hasset, if_neg fun h => hne (hasset.symm.trans h)]
  · rw [if_neg hasset, if_neg hasset]

theorem amountOf_producedOut {pair : Pair} {init succ : AbsoluteReserves}
    (h : producedOut pair init succ out = .ok out') (hne : pair.base ≠ pair.quote)
    (asset : AssetClass) : out'.value.amountOf asset =
      if asset = pair.base then entryOf pair.base (out.value.held pair.base + succ.base - init.base)
      else if asset = pair.quote then
        entryOf pair.quote (out.value.held pair.quote + succ.quote - init.quote)
      else out.value.amountOf asset := by
  obtain ⟨hbase, hquote, traded, hsub, hadd⟩ | ⟨hbase, hquote, traded, hsub, hadd⟩ :=
    producedOut_cases h
  · have hremoved : out.value.held pair.base - (init.base - succ.base) =
        out.value.held pair.base + succ.base - init.base := by omega
    have hadded : out.value.held pair.quote + (succ.quote - init.quote) =
        out.value.held pair.quote + succ.quote - init.quote := by omega
    rw [amountOf_traded hsub hadd hne (by omega) (by omega), hremoved, hadded]
  · have hremoved : out.value.held pair.quote - (init.quote - succ.quote) =
        out.value.held pair.quote + succ.quote - init.quote := by omega
    have hadded : out.value.held pair.base + (succ.base - init.base) =
        out.value.held pair.base + succ.base - init.base := by omega
    rw [amountOf_traded hsub hadd hne.symm (by omega) (by omega), hremoved, hadded]
    split_ifs with hfirst hsecond <;> first | rfl | exact absurd (hsecond.symm.trans hfirst) hne

/-- The entries of the two assets of a pool, as its reserves have moved. -/
structure Moved (pair : Pair) (x y x' y' : Nat) (value value' : Value) : Prop where
  reservesX : value'.amountOf pair.x = entryOf pair.x (value.held pair.x + x' - x)
  reservesY : value'.amountOf pair.y = entryOf pair.y (value.held pair.y + y' - y)
  others : ∀ asset, asset ≠ pair.x → asset ≠ pair.y → value'.amountOf asset = value.amountOf asset

theorem moved_of_producedOut {pair : Pair} {x y x' y' : Nat}
    (h : producedOut pair (pair.reserves x y) (pair.reserves x' y') out = .ok out')
    (hne : pair.x ≠ pair.y) : Moved pair x y x' y' out.value out'.value := by
  obtain ⟨hbase, hquote⟩ | ⟨hbase, hquote⟩ := pair.base_quote
  · have hentries := amountOf_producedOut h (by rwa [hbase, hquote])
    simp only [Pair.reserves, hbase, hquote, if_true] at hentries
    constructor
    case reservesX => rw [hentries, if_pos rfl]
    case reservesY => rw [hentries, if_neg hne.symm, if_pos rfl]
    case others =>
      intro asset hx hy
      rw [hentries, if_neg hx, if_neg hy]
  · have hentries := amountOf_producedOut h (by rw [hbase, hquote]; exact hne.symm)
    simp only [Pair.reserves, hbase, hquote, if_neg hne.symm] at hentries
    constructor
    case reservesX => rw [hentries, if_neg hne, if_pos rfl]
    case reservesY => rw [hentries, if_pos rfl]
    case others =>
      intro asset hx hy
      rw [hentries, if_neg hy, if_neg hx]

omit [EntryArithmetic] in
theorem eq_of_producedOut {pair : Pair} {init succ : AbsoluteReserves}
    (h : producedOut pair init succ out = .ok out') : out' = { out with value := out'.value } := by
  obtain ⟨-, -, traded, hsub, hadd⟩ | ⟨-, -, traded, hsub, hadd⟩ := producedOut_cases h
  · rw [(TransactionOutput.held_of_addAsset hadd).1, (TransactionOutput.held_of_subAsset hsub).1]
  · rw [(TransactionOutput.held_of_addAsset hadd).1, (TransactionOutput.held_of_subAsset hsub).1]

/-- The assets that a pool is made of are different ones. -/
structure Apart (pair : Pair) (assetLq : AssetClass) : Prop where
  distinct : pair.x ≠ pair.y
  lqX : assetLq ≠ pair.x
  lqY : assetLq ≠ pair.y

/-- Of a token some is left. -/
def Stocked (asset : AssetClass) (amount : Nat) : Prop := asset.isNative ∨ 0 < amount

/-- The output has the amounts of the pool that it is to be read as where the assets are different
and no token is used up. -/
theorem amounts_of_producedOut {pair : Pair} {assetLq : AssetClass} {liquidity x y x' y' : Nat}
    (hamounts : Amounts out.value pair assetLq liquidity x y)
    (h : producedOut pair (pair.reserves x y) (pair.reserves x' y') out = .ok out') :
    Amounts out'.value pair assetLq liquidity x' y' ↔
      Apart pair assetLq ∧ Stocked pair.x x' ∧ Stocked pair.y y' := by
  obtain ⟨hlq, hx, hy⟩ := hamounts
  have hmoves := moves_of_producedOut h
  have hheldX : out.value.held pair.x = x := by rw [Value.held, hx, Option.getD_some]
  have hheldY : out.value.held pair.y = y := by rw [Value.held, hy, Option.getD_some]
  constructor
  · rintro ⟨hlq', hx', hy'⟩
    have hne : pair.x ≠ pair.y := by
      intro heq
      rw [heq, hy, Option.some.injEq] at hx
      rw [heq, hy', Option.some.injEq] at hx'
      omega
    have hlqX : assetLq ≠ pair.x := by
      intro heq
      rw [heq, hx, Option.some.injEq] at hlq
      rw [heq, hx', Option.some.injEq] at hlq'
      omega
    have hlqY : assetLq ≠ pair.y := by
      intro heq
      rw [heq, hy, Option.some.injEq] at hlq
      rw [heq, hy', Option.some.injEq] at hlq'
      omega
    have hmoved := moved_of_producedOut h hne
    rw [hmoved.reservesX, hheldX, Nat.add_sub_cancel_left] at hx'
    rw [hmoved.reservesY, hheldY, Nat.add_sub_cancel_left] at hy'
    exact ⟨⟨hne, hlqX, hlqY⟩, entryOf_eq_some.mp hx', entryOf_eq_some.mp hy'⟩
  · rintro ⟨⟨hne, hlqX, hlqY⟩, hstockX, hstockY⟩
    have hmoved := moved_of_producedOut h hne
    constructor
    case liquidity => rw [hmoved.others assetLq hlqX hlqY, hlq]
    case reservesX =>
      rw [hmoved.reservesX, hheldX, Nat.add_sub_cancel_left]
      exact entryOf_eq_some.mpr hstockX
    case reservesY =>
      rw [hmoved.reservesY, hheldY, Nat.add_sub_cancel_left]
      exact entryOf_eq_some.mpr hstockY

/-- The ADA that a degen pool keeps to itself stays as much as it is. -/
def KeepsAda (p p' : QuadraticPool) : Prop :=
  p.assetX.isNative → min p'.reservesX minAda = min p.reservesX minAda

theorem degenAmounts_of_producedOut {p p' : QuadraticPool} (hpair : p'.pair = p.pair)
    (hx : (out.value.amountOf p.assetX).getD 0 = p.reservesX)
    (hy : out.value.amountOf p.assetY = some p.reservesY)
    (h : producedOut p.pair p.tradable p'.tradable out = .ok out') :
    ((out'.value.amountOf p.assetX).getD 0 = p'.reservesX ∧
        out'.value.amountOf p.assetY = some p'.reservesY) ↔
      p.assetX ≠ p.assetY ∧ Stocked p.assetY p'.reservesY ∧ KeepsAda p p' := by
  have hassetX : p'.assetX = p.assetX := congrArg Pair.x hpair
  rw [QuadraticPool.tradable, QuadraticPool.tradable, hpair] at h
  have hmoves := moves_of_producedOut h
  have havailable := Maker.availableReservesX_add p
  have havailable' := Maker.availableReservesX_add p'
  rw [hassetX] at havailable'
  have hkeeps : KeepsAda p p' ↔
      p.reservesX + p'.availableReservesX - p.availableReservesX = p'.reservesX := by
    unfold KeepsAda
    by_cases hnative : p.assetX.isNative
    · rw [if_pos hnative] at havailable havailable'
      simp only [hnative, true_implies]
      omega
    · rw [if_neg hnative] at havailable havailable'
      refine iff_of_true (fun h => absurd h hnative) ?_
      omega
  have hheldX : out.value.held p.pair.x = p.reservesX := hx
  have hheldY : out.value.held p.pair.y = p.reservesY := by
    rw [Value.held]
    exact congrArg (Option.getD · 0) hy
  rw [hkeeps]
  constructor
  · rintro ⟨hx', hy'⟩
    have hne : p.assetX ≠ p.assetY := by
      intro heq
      rw [heq, hy, Option.getD_some] at hx
      rw [heq, hy', Option.getD_some] at hx'
      by_cases hnative : p.assetX.isNative
      · rw [if_pos hnative] at havailable havailable'
        omega
      · rw [if_neg hnative] at havailable havailable'
        omega
    obtain ⟨hentryX, hentryY, -⟩ := moved_of_producedOut h hne
    rw [hheldX] at hentryX
    rw [hheldY, Nat.add_sub_cancel_left] at hentryY
    refine ⟨hne, entryOf_eq_some.mp (hentryY.symm.trans hy'), ?_⟩
    rw [← hx', ← getD_entryOf p.pair.x (_ - _), ← hentryX]
    rfl
  · rintro ⟨hne, hstock, hada⟩
    obtain ⟨hentryX, hentryY, -⟩ := moved_of_producedOut h hne
    rw [hheldX, hada] at hentryX
    rw [hheldY, Nat.add_sub_cancel_left] at hentryY
    constructor
    · exact (congrArg (Option.getD · 0) hentryX).trans (getD_entryOf _ _)
    · exact hentryY.trans (entryOf_eq_some.mpr hstock)

end

/-! ### What the pools leave themselves -/

structure ImmutablePoolUtxo where
  address : Address
  value : Nat
  datumOption : Option DatumOption

/-- `From<&TransactionOutput>` -/
def ImmutablePoolUtxo.ofOutput (out : TransactionOutput) : ImmutablePoolUtxo :=
  ⟨out.address, out.value.coin, out.datum⟩

def updateStakingCred (cred : Credential) : Address → Address
  | .base payment _ => .base payment cred
  | addr => addr

/-- The lovelace of an output, and the tokens of the reserves: those that are set last come
first. -/
def setReserves (pair : Pair) (reservesX reservesY value : Nat) :
    Checked (Nat × List (Token × UInt64)) :=
  if pair.x.isNative then do
    let token ← Checked.unwrap pair.y.intoToken
    return (reservesX, [(token, UInt64.ofNat reservesY)])
  else if pair.y.isNative then do
    let token ← Checked.unwrap pair.x.intoToken
    return (reservesY, [(token, UInt64.ofNat reservesX)])
  else do
    let tokenX ← Checked.unwrap pair.x.intoToken
    let tokenY ← Checked.unwrap pair.y.intoToken
    return (value, [(tokenY, UInt64.ofNat reservesY), (tokenX, UInt64.ofNat reservesX)])

def setShares (assetLq : AssetClass) (liquidity : Nat) : Checked (List (Token × UInt64)) := do
  let token ← Checked.unwrap assetLq.intoToken
  return [(token, UInt64.ofNat (← Checked.sub maxLqCap liquidity))]

/-- What the pools have in common. -/
def intoLedger (pair : Pair) (reservesX reservesY : Nat)
    (shares : Checked (List (Token × UInt64))) (id : PoolId)
    (updateDatum : PlutusData → PlutusData) (stakePartScriptHash : Option ScriptHash)
    (immutPool : ImmutablePoolUtxo) : Checked TransactionOutput := do
  let (coins, reserves) ← setReserves pair reservesX reservesY immutPool.value
  let shares ← shares
  let out : TransactionOutput := {
    address := match stakePartScriptHash with
      | some hash => updateStakingCred (.script hash) immutPool.address
      | none => immutPool.address
    value := .ofTokens (UInt64.ofNat coins) ((id, 1) :: (shares ++ reserves))
    datum := immutPool.datumOption }
  return out.dataMut updateDatum

def ClassicPool.intoLedger (p : ClassicPool) : ImmutablePoolUtxo → Checked TransactionOutput :=
  Pools.intoLedger p.pair p.reservesX p.reservesY (setShares p.assetLq p.liquidity) p.id
    (fun data => data) p.stakePartScriptHash

def FeeSwitchPool.intoLedger (p : FeeSwitchPool) : ImmutablePoolUtxo → Checked TransactionOutput :=
  Pools.intoLedger p.pair p.reservesX p.reservesY (setShares p.assetLq p.liquidity) p.id
    (unsafeUpdatePdFeeSwitch p.treasuryX p.treasuryY) p.stakePartScriptHash

def RoyaltyPool.intoLedger (p : RoyaltyPool) : ImmutablePoolUtxo → Checked TransactionOutput :=
  Pools.intoLedger p.pair p.reservesX p.reservesY (setShares p.assetLq p.liquidity) p.id
    (match p.ver with
      | .v1 | .v1LedgerFixed => p.unsafeUpdatePdRoyalty
      | .v2 => p.unsafeUpdatePdRoyaltyV2)
    p.stakePartScriptHash

def BalancePool.intoLedger (p : BalancePool) : ImmutablePoolUtxo → Checked TransactionOutput :=
  Pools.intoLedger p.pair p.reservesX p.reservesY (setShares p.assetLq p.liquidity) p.id
    p.unsafeUpdateDatum none

def StablePoolT2T.intoLedger (p : StablePoolT2T) : ImmutablePoolUtxo → Checked TransactionOutput :=
  Pools.intoLedger p.pair p.reservesX p.reservesY (setShares p.assetLq p.liquidity) p.id
    p.unsafeUpdateDatum none

/-- The datum stays as it is. -/
def QuadraticPool.intoLedger (p : QuadraticPool) : ImmutablePoolUtxo → Checked TransactionOutput :=
  Pools.intoLedger p.pair p.reservesX p.reservesY (return []) p.id (fun data => data) none

theorem amountOf_ofTokens (coin : UInt64) (tokens : List (Token × UInt64)) (t : Token) :
    (Value.ofTokens coin tokens).amountOf (.token t) = (tokens.lookup t).map UInt64.toNat := by
  induction tokens with
  | nil => rfl
  | cons token tokens ih =>
    have hinsert : (Value.ofTokens coin (token :: tokens)).amountOf (.token t) =
        ((Value.ofTokens coin tokens).multiasset.insert token.1 token.2.toNat)[t]? := rfl
    rw [hinsert, Std.ExtTreeMap.getElem?_insert, List.lookup_cons]
    by_cases hsame : t = token.1
    · simp [hsame]
    · have hbeq : (t == token.1) = false := beq_false_of_ne hsame
      have hcompare : compare token.1 t ≠ .eq := by simpa using fun h => hsame h.symm
      rw [if_neg hcompare, hbeq]
      exact ih

/-- An entry of a value. -/
def tokenEntry (token : Token × UInt64) : AssetClass × Nat := (.token token.1, token.2.toNat)

theorem lookup_tokenEntry (tokens : List (Token × UInt64)) (t : Token) :
    (tokens.map tokenEntry).lookup (.token t) = (tokens.lookup t).map UInt64.toNat := by
  induction tokens with
  | nil => rfl
  | cons token tokens ih =>
    rw [List.map_cons, tokenEntry, List.lookup_cons, List.lookup_cons, ih]
    by_cases hsame : t = token.1
    · simp [hsame]
    · simp [hsame, beq_false_of_ne]

theorem tokenEntry_ofNat (t : Token) {amount : Nat} (h : amount < 2 ^ 64) :
    tokenEntry (t, UInt64.ofNat amount) = (.token t, amount) :=
  Prod.ext rfl (UInt64.toNat_ofNat_of_lt h)

/-- The amounts that a pool is to hold of the assets that it names: those that are set last come
first. -/
def holdings (pair : Pair) (reservesX reservesY : Nat) (shares : List (AssetClass × Nat))
    (id : PoolId) : List (AssetClass × Nat) :=
  (.token id, 1) :: (shares ++ [(pair.y, reservesY), (pair.x, reservesX)])

section

variable {pair : Pair} {reservesX reservesY value coins : Nat} {reserves : List (Token × UInt64)}

theorem setReserves_spec (hX : reservesX < 2 ^ 64) (hY : reservesY < 2 ^ 64)
    (h : setReserves pair reservesX reservesY value = .ok (coins, reserves)) :
    ¬ (pair.x.isNative ∧ pair.y.isNative) ∧
    (coins = if pair.x.isNative then reservesX else if pair.y.isNative then reservesY else value) ∧
    ∀ t, (reserves.map tokenEntry).lookup (.token t) =
      [(pair.y, reservesY), (pair.x, reservesX)].lookup (.token t) := by
  obtain ⟨x, y⟩ := pair
  cases x with
  | native =>
    cases y with
    | native => cases h
    | token tokenY =>
      cases h
      refine ⟨fun h => (by cases h.2), rfl, fun t => ?_⟩
      rw [List.map_singleton, tokenEntry_ofNat _ hY]
      cases hsame : AssetClass.token t == AssetClass.token tokenY with
      | true => simp only [List.lookup_cons, hsame]
      | false =>
        simp only [List.lookup_cons, hsame]
        rfl
  | token tokenX =>
    cases y with
    | native =>
      cases h
      refine ⟨fun h => (by cases h.1), rfl, fun t => ?_⟩
      rw [List.map_singleton, tokenEntry_ofNat _ hX]
      rfl
    | token tokenY =>
      cases h
      refine ⟨fun h => (by cases h.1), rfl, fun t => ?_⟩
      rw [List.map_cons, List.map_singleton, tokenEntry_ofNat _ hX, tokenEntry_ofNat _ hY]


theorem dataMut_address (out : TransactionOutput) (f : PlutusData → PlutusData) :
    (out.dataMut f).address = out.address := by
  unfold TransactionOutput.dataMut
  split <;> rfl

theorem dataMut_intoPd (out : TransactionOutput) (f : PlutusData → PlutusData) :
    (out.dataMut f).intoPd = out.intoPd.map f := by
  obtain ⟨address, value, datum⟩ := out
  cases datum with
  | none => rfl
  | some datum => cases datum <;> rfl

theorem stake_kept {addr : Address} {hash : ScriptHash} (h : stakePart addr = some hash) :
    updateStakingCred (.script hash) addr = addr := by
  obtain ⟨stake, hstake, hhash⟩ := Option.bind_eq_some_iff.mp h
  cases addr with
  | base payment cred =>
    cases hstake
    cases stake with
    | script hash' =>
      cases hhash
      rfl
    | pubKey hash' => cases hhash
  | _ => cases hstake

/-- What a pool leaves holds what the pool is to hold, and nothing else. -/
structure Holds (pair : Pair) (reservesX reservesY value : Nat) (held : List (AssetClass × Nat))
    (out : TransactionOutput) : Prop where
  oneNative : ¬ (pair.x.isNative ∧ pair.y.isNative)
  coin : out.value.coin =
    if pair.x.isNative then reservesX else if pair.y.isNative then reservesY else value
  tokens : ∀ t, out.value.amountOf (.token t) = held.lookup (.token t)

theorem holds_of_intoLedger {shares : Checked (List (Token × UInt64))} {id : PoolId}
    {updateDatum : PlutusData → PlutusData} {stake : Option ScriptHash}
    {out out' : TransactionOutput}
    (hX : reservesX < 2 ^ 64) (hY : reservesY < 2 ^ 64)
    (hstake : ∀ hash, stake = some hash → stakePart out.address = some hash)
    (h : Pools.intoLedger pair reservesX reservesY shares id updateDatum stake (.ofOutput out) =
      .ok out') : ∃ shares', shares = .ok shares' ∧
        Holds pair reservesX reservesY out.value.coin
          (holdings pair reservesX reservesY (shares'.map tokenEntry) id) out' ∧
        out'.address = out.address ∧ out'.intoPd = out.intoPd.map updateDatum := by
  obtain ⟨⟨coins, reserves⟩, hreserves, h⟩ := Checked.bind_eq_ok.mp h
  obtain ⟨shares', hshares, h⟩ := Checked.bind_eq_ok.mp h
  obtain ⟨honeNative, hcoins, hlookup⟩ := setReserves_spec hX hY hreserves
  cases h
  refine ⟨shares', hshares, ⟨honeNative, ?_, ?_⟩, ?_, ?_⟩
  · have hlt : coins < 2 ^ 64 := by
      rw [hcoins]
      split_ifs
      · exact hX
      · exact hY
      · exact out.value.coin_lt
    rw [ExecutionEngine.dataMut_value]
    exact (UInt64.toNat_ofNat_of_lt' hlt).trans hcoins
  · intro t
    have hnft : tokenEntry (id, 1) = (.token id, 1) := rfl
    rw [ExecutionEngine.dataMut_value, amountOf_ofTokens, ← lookup_tokenEntry, List.map_cons,
      List.map_append, hnft, holdings, List.lookup_cons, List.lookup_cons, List.lookup_append,
      List.lookup_append, hlookup]
  · rw [dataMut_address]
    cases stake with
    | none => rfl
    | some hash => exact stake_kept (hstake hash rfl)
  · rw [dataMut_intoPd]
    rfl


end

/-- Assets besides the reserves stay as much as they are. -/
def OthersKept (pair : Pair) (value value' : Value) : Prop :=
  ∀ asset, asset ≠ pair.x → asset ≠ pair.y → value'.amountOf asset = value.amountOf asset

/-- A pool is left with no tokens but its NFT, its shares and its reserves. -/
def Bare (pair : Pair) (held : List (AssetClass × Nat)) (value : Value) : Prop :=
  ∀ t, .token t ≠ pair.x → .token t ≠ pair.y → value.amountOf (.token t) = held.lookup (.token t)

section

variable {pair : Pair} {reservesX reservesY : Nat} {shares held : List (AssetClass × Nat)}
  {id : PoolId} {out out' : TransactionOutput}

theorem eq_native {asset : AssetClass} (h : asset.isNative) : asset = .native := by
  cases asset with
  | native => rfl
  | token t => cases h

/-- What is held of the reserves of ADA. -/
theorem Holds.coin_eq (h : Holds pair reservesX reservesY out.value.coin held out')
    {e : AssetClass × Nat} (he : e ∈ [(pair.y, reservesY), (pair.x, reservesX)])
    (hnative : e.1 = .native) : out'.value.coin = e.2 := by
  rw [h.coin]
  simp only [List.mem_cons, List.not_mem_nil, or_false] at he
  rcases he with rfl | rfl
  · have hy : pair.y.isNative := congrArg AssetClass.isNative hnative
    rw [if_neg fun hx => h.oneNative ⟨hx, hy⟩, if_pos hy]
  · have hx : pair.x.isNative := congrArg AssetClass.isNative hnative
    rw [if_pos hx]

theorem Holds.agree_iff (h : Holds pair reservesX reservesY out.value.coin held out')
    (hcoin : ∀ e ∈ held, e.1 = .native → out'.value.coin = e.2) :
    Agree held ↔ ∀ e ∈ held, out'.value.amountOf e.1 = some e.2 := by
  constructor
  · rintro hagree ⟨asset, amount⟩ hmem
    cases asset with
    | native => exact congrArg some (hcoin _ hmem rfl)
    | token t => exact (h.tokens t).trans (hagree.lookup_eq_some_iff.mpr hmem)
  · intro hamounts
    refine agree_of_values (f := out'.value.held) fun e he => ?_
    rw [Value.held, hamounts e he, Option.getD_some]

theorem Holds.othersKept_iff (h : Holds pair reservesX reservesY out.value.coin held out') :
    OthersKept pair out.value out'.value ↔ Bare pair held out.value := by
  constructor
  · intro hkept t hx hy
    rw [← h.tokens, hkept _ hx hy]
  · intro hbare asset hx hy
    cases asset with
    | native =>
      have hcoin := h.coin
      rw [if_neg fun hnative => hx (eq_native hnative).symm,
        if_neg fun hnative => hy (eq_native hnative).symm] at hcoin
      exact congrArg some hcoin
    | token t => rw [h.tokens, hbare t hx hy]

/-- The output has the amounts that it is to have where no asset is to be held in two amounts. -/
theorem Holds.entries_iff (hshares : ∀ e ∈ shares, e.1 ≠ .native)
    (h : Holds pair reservesX reservesY out.value.coin
      (holdings pair reservesX reservesY shares id) out') :
    (∀ e ∈ shares ++ [(pair.y, reservesY), (pair.x, reservesX)],
        out'.value.amountOf e.1 = some e.2) ↔
      Agree (holdings pair reservesX reservesY shares id) := by
  have hnft : out'.value.amountOf (.token id) = some 1 := by
    rw [h.tokens, holdings, List.lookup_cons_self]
  rw [h.agree_iff, holdings, List.forall_mem_cons]
  · exact (and_iff_right hnft).symm
  · intro e he hnative
    rcases List.mem_cons.mp he with rfl | he
    · cases hnative
    · rcases List.mem_append.mp he with he | he
      · exact absurd hnative (hshares e he)
      · exact h.coin_eq he hnative

theorem Holds.amounts_iff {assetLq : AssetClass} {liquidity : Nat} (hlq : assetLq ≠ .native)
    (h : Holds pair reservesX reservesY out.value.coin
      (holdings pair reservesX reservesY [(assetLq, maxLqCap - liquidity)] id) out') :
    Amounts out'.value pair assetLq liquidity reservesX reservesY ↔
      Agree (holdings pair reservesX reservesY [(assetLq, maxLqCap - liquidity)] id) := by
  rw [← h.entries_iff (by simpa using hlq)]
  simp only [List.cons_append, List.nil_append, List.forall_mem_cons, List.not_mem_nil,
    false_implies, implies_true, and_true]
  constructor
  · rintro ⟨hliquidity, hx, hy⟩
    exact ⟨hliquidity, hy, hx⟩
  · rintro ⟨hliquidity, hy, hx⟩
    exact ⟨hliquidity, hx, hy⟩

theorem Holds.degenAmounts_iff
    (h : Holds pair reservesX reservesY out.value.coin (holdings pair reservesX reservesY [] id)
      out') :
    ((out'.value.amountOf pair.x).getD 0 = reservesX ∧
        out'.value.amountOf pair.y = some reservesY) ↔
      Agree (holdings pair reservesX reservesY [] id) := by
  have hentered : ∃ amount, out'.value.amountOf pair.x = some amount := by
    cases hx : pair.x with
    | native => exact ⟨_, rfl⟩
    | token t =>
      rw [h.tokens]
      refine Option.ne_none_iff_exists'.mp fun hnone => ?_
      have hne := List.lookup_eq_none_iff.mp hnone (pair.x, reservesX) (by simp [holdings])
      simp [hx] at hne
  obtain ⟨amount, hamount⟩ := hentered
  rw [← h.entries_iff (by simp)]
  simp only [List.nil_append, List.forall_mem_cons, List.not_mem_nil, false_implies, implies_true,
    and_true]
  rw [hamount, Option.getD_some, Option.some.injEq, and_comm]

end

end UtxoMonitor.Pools
