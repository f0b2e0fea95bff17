import UtxoMonitor.ExecutionEngine.PoolDatums
import UtxoMonitor.ExecutionEngine.PoolOutputs
import UtxoMonitor.Pools.Evolution

/-! When the output that a pool leaves is read as the pool again. -/
namespace UtxoMonitor.Pools

open Lib LiquidityBook

open ExecutionEngine (BatchExec ExecutionState)

/-! ### Datums -/

/-- An output with the datum of another one updated. -/
structure Updated (pair : Pair) (updateDatum : PlutusData → PlutusData)
    (out out' : TransactionOutput) : Prop where
  address : out'.address = out.address
  datum : out'.intoPd = out.intoPd.map updateDatum
  coin : ¬ pair.x.isNative → ¬ pair.y.isNative → out'.value.coin = out.value.coin

/-- No fields of the datum but some of them have changed. -/
def DatumKept (state : List Nat) (out out' : TransactionOutput) : Prop :=
  ∃ alternative fields fields', out.intoPd = some (.constr alternative fields) ∧
    out'.intoPd = some (.constr alternative fields') ∧ KeptBut state fields fields'

section

variable {pair : Pair} {updateDatum : PlutusData → PlutusData} {out out' : TransactionOutput}
  {alternative : Nat} {fields fields' : List PlutusData} {state : List Nat}

theorem datumKept_iff (hdatum : out.intoPd = some (.constr alternative fields))
    (hdatum' : out'.intoPd = some (.constr alternative fields')) :
    DatumKept state out out' ↔ KeptBut state fields fields' := by
  constructor
  · rintro ⟨_, _, _, h, h', hkept⟩
    cases hdatum.symm.trans h
    cases hdatum'.symm.trans h'
    exact hkept
  · exact fun hkept => ⟨alternative, fields, fields', hdatum, hdatum', hkept⟩

theorem KeptBut.refl (fields : List PlutusData) : KeptBut state fields fields :=
  ⟨rfl, fun _ _ => rfl⟩

theorem keptBut_treasuryUpdates (i x y : Nat) (fields : List PlutusData) :
    KeptBut [i, i + 1] fields (setEach (treasuryUpdates i x y) fields) := by
  refine keptBut_setEach (nodup_treasuryUpdates i x y) ?_
  intro update hmem hnotMem
  exact absurd (List.mem_map_of_mem hmem) hnotMem

theorem Updated.intoPd_eq {updates : List (Nat × PlutusData)}
    (hout : Updated pair (setFields updates) out out')
    (hdata : out.intoPd = some (.constr alternative fields)) :
    out'.intoPd = some (.constr alternative (setEach updates fields)) := by
  rw [hout.datum, hdata]
  exact congrArg some (setFields_constr _ _ _)

/-! ### Classic pools -/

namespace ClassicPool

variable {ctx : PoolContext} {p p' : ClassicPool}

theorem constr_of_config {data : PlutusData} {conf : LegacyCfmmPoolConfig}
    (h : LegacyCfmmPoolConfig.tryFromPd data = some conf) :
    ∃ alternative fields, data = .constr alternative fields := by
  obtain ⟨⟨alternative, fields⟩, hconstr, -⟩ := Option.bind_eq_some_iff.mp h
  cases data <;> cases hconstr
  exact ⟨_, _, rfl⟩

theorem reads_back_iff (hread : tryFromLedger out ctx = .ok (some p)) (hp' : p.Evolved p')
    (hout : Updated p.pair (fun data => data) out out') :
    (tryFromLedger out' ctx = .ok (some p') ∧ DatumKept [] out out') ↔
      Amounts out'.value p.pair p.assetLq p.liquidity p'.reservesX p'.reservesY := by
  obtain ⟨d, hd, hreads⟩ := tryFromLedger_eq_some.mp hread
  obtain ⟨-, hconf, -⟩ := Draft.read_eq_some.mp hd
  obtain ⟨data, hdata, hconf⟩ := Option.bind_eq_some_iff.mp hconf
  obtain ⟨alternative, fields, rfl⟩ := constr_of_config hconf
  have hdata' : out'.intoPd = some (.constr alternative fields) := by
    rw [hout.datum, hdata]
    rfl
  rw [reads_iff hd hreads hp'.same hout.address (hdata'.trans hdata.symm)]
  exact and_iff_left ((datumKept_iff hdata hdata').mpr (.refl fields))

end ClassicPool

/-! ### Pools with a treasury fee -/

namespace FeeSwitchPool

variable {ctx : PoolContext} {p p' : FeeSwitchPool}

/-- The fields of the treasury. -/
def stateFields (p : FeeSwitchPool) : List Nat :=
  match p.ver with
  | .v1 | .v2 => [6, 7]
  | .biDirV1 => [7, 8]

/-- What is written one field before the treasury is what has been there, and the treasury is what
is written one field before its end. -/
def Placed (p p' : FeeSwitchPool) : Prop :=
  p.ver = .biDirV1 → p'.treasuryX = p.treasuryFee.numer ∧ p'.treasuryY = p'.treasuryX ∧
    p'.treasuryY = p.treasuryY

theorem configOf_update {ver : FeeSwitchPoolVer} {data : PlutusData} {x y : Nat}
    {conf : FeeSwitchBidirectionalPoolConfig} (hver : ver ≠ .biDirV1)
    (h : configOf ver data = some conf) (hx : x < 2 ^ 64) (hy : y < 2 ^ 64) :
    ∃ alternative fields, data = .constr alternative fields ∧
      configOf ver (.constr alternative (setEach (treasuryUpdates 6 x y) fields)) =
        some { conf with treasuryX := x, treasuryY := y } := by
  have hconfig : ∀ data, configOf ver data =
      (FeeSwitchPoolConfig.tryFromPd data).map FeeSwitchPoolConfig.bidirectional := by
    intro data
    cases ver with
    | v1 => rfl
    | v2 => rfl
    | biDirV1 => exact absurd rfl hver
  rw [hconfig] at h
  obtain ⟨conf, hconf, rfl⟩ := Option.map_eq_some_iff.mp h
  obtain ⟨alternative, fields, rfl, hreads⟩ := FeeSwitchPoolConfig.tryFromPd_eq_some.mp hconf
  refine ⟨alternative, fields, rfl, ?_⟩
  rw [hconfig, FeeSwitchPoolConfig.tryFromPd_eq_some.mpr ⟨_, _, rfl, hreads.update hx hy⟩]
  rfl

variable {d : Draft FeeSwitchPoolVer FeeSwitchBidirectionalPoolConfig}

theorem reads_back_iff_of_one (hd : draft out ctx = some d) (hreads : ReadAs d out ctx p)
    (hbiDir : p.ver ≠ .biDirV1) (hp' : p.Evolved p')
    (hout : Updated p.pair (unsafeUpdatePdFeeSwitch p'.treasuryX p'.treasuryY) out out') :
    (tryFromLedger out' ctx = .ok (some p') ∧ DatumKept p.stateFields out out') ↔
      Amounts out'.value p.pair p.assetLq p.liquidity p'.reservesX p'.reservesY ∧
      (p'.treasuryX < p'.reservesX ∧ p'.treasuryY < p'.reservesY) ∧ p.Placed p' := by
  obtain ⟨-, hconf, -⟩ := Draft.read_eq_some.mp hd
  obtain ⟨data, hdata, hconf⟩ := Option.bind_eq_some_iff.mp hconf
  have hver : d.ver = p.ver := (congrArg ver hreads.pool).symm
  obtain ⟨alternative, fields, rfl, hconf'⟩ :=
    configOf_update (hver ▸ hbiDir) hconf hp'.treasuryX hp'.treasuryY
  have hdata' : out'.intoPd = some (.constr alternative
      (setEach (treasuryUpdates 6 p'.treasuryX p'.treasuryY) fields)) := hout.intoPd_eq hdata
  have hstate : p.stateFields = [6, 7] := by
    unfold stateFields
    cases hkind : p.ver with
    | v1 => rfl
    | v2 => rfl
    | biDirV1 => exact absurd hkind hbiDir
  have hkept : DatumKept p.stateFields out out' := by
    rw [hstate, datumKept_iff hdata hdata']
    exact keptBut_treasuryUpdates 6 _ _ _
  have hplaced : p.Placed p' := fun h => absurd h hbiDir
  have hconf'' : out'.intoPd.bind (configOf d.ver) =
      some { d.conf with treasuryX := p'.treasuryX, treasuryY := p'.treasuryY } := by
    rw [hdata']
    exact hconf'
  rw [reads_iff hd hreads hp'.same hout.address hconf'' hout.coin]
  constructor
  · rintro ⟨⟨hamounts, htreasury, -⟩, -⟩
    exact ⟨hamounts, htreasury, hplaced⟩
  · rintro ⟨hamounts, htreasury, -⟩
    exact ⟨⟨hamounts, htreasury, rfl⟩, hkept⟩

theorem reads_back_iff_of_biDir (hd : draft out ctx = some d) (hreads : ReadAs d out ctx p)
    (hbiDir : p.ver = .biDirV1) (hp' : p.Evolved p')
    (hout : Updated p.pair (unsafeUpdatePdFeeSwitch p'.treasuryX p'.treasuryY) out out') :
    (tryFromLedger out' ctx = .ok (some p') ∧ DatumKept p.stateFields out out') ↔
      Amounts out'.value p.pair p.assetLq p.liquidity p'.reservesX p'.reservesY ∧
      (p'.treasuryX < p'.reservesX ∧ p'.treasuryY < p'.reservesY) ∧ p.Placed p' := by
  obtain ⟨-, hconf, -⟩ := Draft.read_eq_some.mp hd
  obtain ⟨data, hdata, hconf⟩ := Option.bind_eq_some_iff.mp hconf
  have hver : d.ver = .biDirV1 := (congrArg ver hreads.pool).symm.trans hbiDir
  have hfee : d.conf.treasuryFeeNum = p.treasuryFee.numer :=
    (congrArg (Ratio.numer ∘ treasuryFee) hreads.pool).symm
  have htreasuryY : d.conf.treasuryY = p.treasuryY := (congrArg treasuryY hreads.pool).symm
  rw [hver] at hconf
  obtain ⟨alternative, fields, rfl, hfields⟩ :=
    FeeSwitchBidirectionalPoolConfig.tryFromPd_eq_some.mp hconf
  have hdata' : out'.intoPd = some (.constr alternative
      (setEach (treasuryUpdates 6 p'.treasuryX p'.treasuryY) fields)) := hout.intoPd_eq hdata
  have hconf' : out'.intoPd.bind (configOf d.ver) =
      some { d.conf with treasuryFeeNum := p'.treasuryX, treasuryX := p'.treasuryY } := by
    rw [hdata', hver]
    exact FeeSwitchBidirectionalPoolConfig.tryFromPd_eq_some.mpr
      ⟨_, _, rfl, hfields.update hp'.treasuryX hp'.treasuryY⟩
  have hstate : p.stateFields = [7, 8] := by rw [stateFields, hbiDir]
  have hkept (h : p'.treasuryX = p.treasuryFee.numer) : DatumKept p.stateFields out out' := by
    rw [hstate, datumKept_iff hdata hdata']
    refine keptBut_setEach (nodup_treasuryUpdates 6 _ _) ?_
    simp only [treasuryUpdates, List.forall_mem_cons, List.not_mem_nil, false_implies, implies_true,
      and_true]
    refine ⟨fun _ => ?_, fun hnotMem => absurd List.mem_cons_self hnotMem⟩
    rw [h, ← hfee]
    exact takeField_of_u64At hfields.treasuryFeeNum
  rw [reads_iff hd hreads hp'.same hout.address hconf' hout.coin]
  simp only [FeeSwitchBidirectionalPoolConfig.mk.injEq, true_and, and_true]
  rw [Placed, hfee, htreasuryY]
  constructor
  · rintro ⟨⟨hamounts, htreasury, hX, hY, hkeptY⟩, -⟩
    exact ⟨hamounts, htreasury, fun _ => ⟨hX, hY, hkeptY.symm⟩⟩
  · rintro ⟨hamounts, htreasury, hplaced⟩
    obtain ⟨hX, hY, hkeptY⟩ := hplaced hbiDir
    exact ⟨⟨hamounts, htreasury, hX, hY, hkeptY.symm⟩, hkept hX⟩

theorem reads_back_iff (hread : tryFromLedger out ctx = .ok (some p)) (hp' : p.Evolved p')
    (hout : Updated p.pair (unsafeUpdatePdFeeSwitch p'.treasuryX p'.treasuryY) out out') :
    (tryFromLedger out' ctx = .ok (some p') ∧ DatumKept p.stateFields out out') ↔
      Amounts out'.value p.pair p.assetLq p.liquidity p'.reservesX p'.reservesY ∧
      (p'.treasuryX < p'.reservesX ∧ p'.treasuryY < p'.reservesY) ∧ p.Placed p' := by
  obtain ⟨d, hd, hreads⟩ := tryFromLedger_eq_some.mp hread
  by_cases hbiDir : p.ver = .biDirV1
  · exact reads_back_iff_of_biDir hd hreads hbiDir hp' hout
  · exact reads_back_iff_of_one hd hreads hbiDir hp' hout

end FeeSwitchPool

/-! ### Pools with royalties -/

def fieldOf (i : Nat) : PlutusData → Option PlutusData
  | .constr _ fields => takeField fields i
  | _ => none

namespace RoyaltyPool

variable {ctx : PoolContext} {p p' : RoyaltyPool} {d : Draft RoyaltyPoolVer RoyaltyPoolV2Config}

/-- The fields of what has been collected. -/
def stateFields (p : RoyaltyPool) : List Nat :=
  match p.ver with
  | .v1 | .v1LedgerFixed => [7, 8, 9, 10]
  | .v2 => [8, 9, 10, 11, 12, 13]

def adminField (p : RoyaltyPool) : Nat :=
  match p.ver with
  | .v1 | .v1LedgerFixed => 11
  | .v2 => 14

/-- The admin of a pool is the only one in its datum. -/
def OneAdmin (p : RoyaltyPool) (out : TransactionOutput) : Prop :=
  out.intoPd.bind (fieldOf p.adminField) = some (adminAddresses p.adminAddress)

theorem configOf_eq {ver : RoyaltyPoolVer} (hver : ver ≠ .v2) (data : PlutusData) :
    configOf ver data = (RoyaltyPoolConfig.tryFromPd data).map RoyaltyPoolConfig.withSecond := by
  cases ver with
  | v1 => rfl
  | v1LedgerFixed => rfl
  | v2 => exact absurd rfl hver

theorem terms_of_reads (hreads : ReadAs d out ctx p) (hp' : p.Evolved p') : d.conf.Terms p' := by
  rw [hp'.same, hreads.pool]
  exact ⟨rfl, rfl, rfl, rfl, toRawBytes_of_fromRawBytes hreads.treasuryAddress, rfl⟩

theorem adminAddress_of_reads (hreads : ReadAs d out ctx p) (hp' : p.Evolved p') :
    p'.adminAddress = d.conf.adminAddress := by
  rw [hp'.same, hreads.pool]

theorem oneAdmin_iff {i : Nat} (hp' : p.Evolved p') (hfield : p.adminField = i)
    (hdata : out.intoPd = some (.constr alternative fields)) :
    p.OneAdmin out ↔ takeField fields i = some (adminAddresses p'.adminAddress) := by
  have hadmin : p'.adminAddress = p.adminAddress := by rw [hp'.same]
  rw [OneAdmin, hdata, hfield, hadmin]
  rfl

theorem reads_back_iff_of_one (hd : draft out ctx = some d) (hreads : ReadAs d out ctx p)
    (hone : p.ver ≠ .v2) (hp' : p.Evolved p')
    (hout : Updated p.pair p'.unsafeUpdatePdRoyalty out out') :
    (tryFromLedger out' ctx = .ok (some p') ∧ DatumKept p.stateFields out out') ↔
      Amounts out'.value p.pair p.assetLq p.liquidity p'.reservesX p'.reservesY ∧
      (p'.owedX < p'.reservesX ∧ p'.owedY < p'.reservesY) ∧ p.OneAdmin out := by
  obtain ⟨-, hconf, -⟩ := Draft.read_eq_some.mp hd
  obtain ⟨data, hdata, hconf⟩ := Option.bind_eq_some_iff.mp hconf
  have hver : d.ver ≠ .v2 := fun h => hone ((congrArg ver hreads.pool).trans h)
  rw [configOf_eq hver] at hconf
  obtain ⟨conf, hconf, hsecond⟩ := Option.map_eq_some_iff.mp hconf
  obtain ⟨alternative, fields, rfl, hfields⟩ := RoyaltyPoolConfig.tryFromPd_eq_some.mp hconf
  have hterms : d.conf.Terms p' := terms_of_reads hreads hp'
  have hadmin : p'.adminAddress = d.conf.adminAddress := adminAddress_of_reads hreads hp'
  have hzero : p.secondRoyaltyFee.numer = 0 := by
    rw [hreads.pool, ← hsecond]
    rfl
  have hzero' : p'.secondRoyaltyFee.numer = 0 := by
    rw [hp'.same]
    exact hzero
  have hsecondX : p'.secondRoyaltyX = 0 := by
    rw [(hp'.secondRoyalty hzero).1, hreads.pool, ← hsecond]
    rfl
  have hsecondY : p'.secondRoyaltyY = 0 := by
    rw [(hp'.secondRoyalty hzero).2, hreads.pool, ← hsecond]
    rfl
  rw [← hsecond] at hterms hadmin
  have hterms' : conf.Terms p' := ⟨hterms.lpFee, hterms.treasuryFee, hterms.firstRoyaltyFee,
    hterms.treasuryAddress, hterms.nonce⟩
  have hwords : p'.Words := {
    lpFee := by rw [hterms'.lpFee]; exact lt_of_u64At hfields.lpFeeNum
    treasuryFee := by rw [hterms'.treasuryFee]; exact lt_of_u64At hfields.treasuryFeeNum
    firstRoyaltyFee := by rw [hterms'.royaltyFee]; exact lt_of_u64At hfields.royaltyFeeNum
    secondRoyaltyFee := by rw [hzero']; exact Nat.two_pow_pos 64
    treasuryX := hp'.treasuryX
    treasuryY := hp'.treasuryY
    firstRoyaltyX := hp'.firstRoyaltyX
    firstRoyaltyY := hp'.firstRoyaltyY
    secondRoyaltyX := hp'.secondRoyaltyX
    secondRoyaltyY := hp'.secondRoyaltyY
    nonce := by rw [hterms'.nonce]; exact lt_of_u64At hfields.nonce }
  have hdata' : out'.intoPd = some (.constr alternative (setEach p'.updates fields)) :=
    hout.intoPd_eq hdata
  have hconf' : out'.intoPd.bind (configOf d.ver) = some { d.conf with
      treasuryX := p'.treasuryX
      treasuryY := p'.treasuryY
      firstRoyaltyX := p'.firstRoyaltyX
      firstRoyaltyY := p'.firstRoyaltyY
      secondRoyaltyX := p'.secondRoyaltyX
      secondRoyaltyY := p'.secondRoyaltyY } := by
    rw [hdata', Option.bind_some, configOf_eq hver,
      RoyaltyPoolConfig.tryFromPd_eq_some.mpr ⟨_, _, rfl, hfields.update hwords⟩, Option.map_some,
      ← hsecond, hsecondX, hsecondY, hterms'.lpFee, hterms'.treasuryFee, hterms'.royaltyFee,
      hterms'.treasuryAddress, hterms'.nonce, hadmin]
    rfl
  have hstate : p.stateFields = [7, 8, 9, 10] ∧ p.adminField = 11 := by
    unfold stateFields adminField
    cases hkind : p.ver with
    | v1 => exact ⟨rfl, rfl⟩
    | v1LedgerFixed => exact ⟨rfl, rfl⟩
    | v2 => exact absurd hkind hone
  rw [reads_iff hd hreads hp'.same hout.address hconf' hout.coin, datumKept_iff hdata hdata',
    hstate.1, hfields.keptBut_iff hterms', oneAdmin_iff hp' hstate.2 hdata, and_assoc]

theorem reads_back_iff_of_two (hd : draft out ctx = some d) (hreads : ReadAs d out ctx p)
    (htwo : p.ver = .v2) (hp' : p.Evolved p')
    (hout : Updated p.pair p'.unsafeUpdatePdRoyaltyV2 out out') :
    (tryFromLedger out' ctx = .ok (some p') ∧ DatumKept p.stateFields out out') ↔
      Amounts out'.value p.pair p.assetLq p.liquidity p'.reservesX p'.reservesY ∧
      (p'.owedX < p'.reservesX ∧ p'.owedY < p'.reservesY) ∧ p.OneAdmin out := by
  obtain ⟨-, hconf, -⟩ := Draft.read_eq_some.mp hd
  obtain ⟨data, hdata, hconf⟩ := Option.bind_eq_some_iff.mp hconf
  have hver : d.ver = .v2 := (congrArg ver hreads.pool).symm.trans htwo
  rw [hver] at hconf
  obtain ⟨alternative, fields, rfl, hfields⟩ := RoyaltyPoolV2Config.tryFromPd_eq_some.mp hconf
  have hterms : d.conf.Terms p' := terms_of_reads hreads hp'
  have hadmin : p'.adminAddress = d.conf.adminAddress := adminAddress_of_reads hreads hp'
  have hwords : p'.Words := {
    lpFee := by rw [hterms.lpFee]; exact lt_of_u64At hfields.lpFeeNum
    treasuryFee := by rw [hterms.treasuryFee]; exact lt_of_u64At hfields.treasuryFeeNum
    firstRoyaltyFee := by rw [hterms.firstRoyaltyFee]; exact lt_of_u64At hfields.firstRoyaltyFeeNum
    secondRoyaltyFee := by
      rw [hterms.secondRoyaltyFee]
      exact lt_of_u64At hfields.secondRoyaltyFeeNum
    treasuryX := hp'.treasuryX
    treasuryY := hp'.treasuryY
    firstRoyaltyX := hp'.firstRoyaltyX
    firstRoyaltyY := hp'.firstRoyaltyY
    secondRoyaltyX := hp'.secondRoyaltyX
    secondRoyaltyY := hp'.secondRoyaltyY
    nonce := by rw [hterms.nonce]; exact lt_of_u64At hfields.nonce }
  have hdata' : out'.intoPd = some (.constr alternative (setEach p'.updatesV2 fields)) :=
    hout.intoPd_eq hdata
  have hconf' : out'.intoPd.bind (configOf d.ver) = some { d.conf with
      treasuryX := p'.treasuryX
      treasuryY := p'.treasuryY
      firstRoyaltyX := p'.firstRoyaltyX
      firstRoyaltyY := p'.firstRoyaltyY
      secondRoyaltyX := p'.secondRoyaltyX
      secondRoyaltyY := p'.secondRoyaltyY } := by
    have hread := RoyaltyPoolV2Config.tryFromPd_eq_some.mpr
      ⟨alternative, _, rfl, hfields.update hwords⟩
    rw [hterms.lpFee, hterms.treasuryFee, hterms.firstRoyaltyFee, hterms.secondRoyaltyFee,
      hterms.treasuryAddress, hterms.nonce, hadmin] at hread
    rw [hdata', hver, Option.bind_some, configOf, hread]
  have hstate : p.stateFields = [8, 9, 10, 11, 12, 13] ∧ p.adminField = 14 := by
    unfold stateFields adminField
    rw [htwo]
    exact ⟨rfl, rfl⟩
  rw [reads_iff hd hreads hp'.same hout.address hconf' hout.coin, datumKept_iff hdata hdata',
    hstate.1, hfields.keptBut_iff hterms, oneAdmin_iff hp' hstate.2 hdata, and_assoc]

theorem reads_back_iff (hread : tryFromLedger out ctx = .ok (some p)) (hp' : p.Evolved p')
    (hout : Updated p.pair (ConstFnPool.royalty p').unsafeDatumUpdate out out') :
    (tryFromLedger out' ctx = .ok (some p') ∧ DatumKept p.stateFields out out') ↔
      Amounts out'.value p.pair p.assetLq p.liquidity p'.reservesX p'.reservesY ∧
      (p'.owedX < p'.reservesX ∧ p'.owedY < p'.reservesY) ∧ p.OneAdmin out := by
  obtain ⟨d, hd, hreads⟩ := tryFromLedger_eq_some.mp hread
  have hver : p'.ver = p.ver := by rw [hp'.same]
  unfold ConstFnPool.unsafeDatumUpdate at hout
  dsimp only at hout
  rw [hver] at hout
  cases hkind : p.ver with
  | v1 =>
    rw [hkind] at hout
    exact reads_back_iff_of_one hd hreads (by rw [hkind]; decide) hp' hout
  | v1LedgerFixed =>
    rw [hkind] at hout
    exact reads_back_iff_of_one hd hreads (by rw [hkind]; decide) hp' hout
  | v2 =>
    rw [hkind] at hout
    exact reads_back_iff_of_two hd hreads hkind hp' hout

end RoyaltyPool

/-! ### Balance pools -/

namespace BalancePool

variable {ctx : PoolContext} {p p' : BalancePool}

theorem reads_back_iff (hread : tryFromLedger out ctx = .ok (some p)) (hp' : p.Evolved p')
    (hout : Updated p.pair p'.unsafeUpdateDatum out out') :
    (tryFromLedger out' ctx = .ok (some p') ∧ DatumKept [6, 7] out out') ↔
      Amounts out'.value p.pair p.assetLq p.liquidity p'.reservesX p'.reservesY := by
  obtain ⟨d, hd, hreads⟩ := tryFromLedger_eq_some.mp hread
  obtain ⟨-, hconf, -⟩ := Draft.read_eq_some.mp hd
  obtain ⟨data, hdata, hconf⟩ := Option.bind_eq_some_iff.mp hconf
  obtain ⟨alternative, fields, rfl, hfields⟩ := BalancePoolConfig.tryFromPd_eq_some.mp hconf
  have hdata' : out'.intoPd = some (.constr alternative
      (setEach (treasuryUpdates 6 p'.treasuryX p'.treasuryY) fields)) := hout.intoPd_eq hdata
  have hconf' : out'.intoPd.bind BalancePoolConfig.tryFromPd =
      some { d.conf with treasuryX := p'.treasuryX, treasuryY := p'.treasuryY } := by
    rw [hdata']
    exact BalancePoolConfig.tryFromPd_eq_some.mpr
      ⟨_, _, rfl, hfields.update hp'.treasuryX hp'.treasuryY⟩
  rw [reads_iff hd hreads hp'.same hout.address hconf' hout.coin]
  exact and_iff_left ((datumKept_iff hdata hdata').mpr (keptBut_treasuryUpdates 6 _ _ _))

end BalancePool

/-! ### Stable pools -/

namespace StablePoolT2T

variable {ctx : PoolContext} {p p' : StablePoolT2T}

theorem reads_back_iff (hread : tryFromLedger out ctx = .ok (some p)) (hp' : p.Evolved p')
    (hout : Updated p.pair p'.unsafeUpdateDatum out out') :
    (tryFromLedger out' ctx = .ok (some p') ∧ DatumKept [13, 14] out out') ↔
      Amounts out'.value p.pair p.assetLq p.liquidity p'.reservesX p'.reservesY ∧
      (p'.treasuryX < p'.reservesX ∧ p'.treasuryY < p'.reservesY) := by
  obtain ⟨d, hd, hreads⟩ := tryFromLedger_eq_some.mp hread
  obtain ⟨-, hconf, -⟩ := Draft.read_eq_some.mp hd
  obtain ⟨data, hdata, hconf⟩ := Option.bind_eq_some_iff.mp hconf
  obtain ⟨alternative, fields, rfl, hfields⟩ := StablePoolT2TConfig.tryFromPd_eq_some.mp hconf
  have hdata' : out'.intoPd = some (.constr alternative
      (setEach (treasuryUpdates 13 p'.treasuryX p'.treasuryY) fields)) := hout.intoPd_eq hdata
  have hconf' : out'.intoPd.bind StablePoolT2TConfig.tryFromPd =
      some { d.conf with treasuryX := p'.treasuryX, treasuryY := p'.treasuryY } := by
    rw [hdata']
    exact StablePoolT2TConfig.tryFromPd_eq_some.mpr
      ⟨_, _, rfl, hfields.update hp'.treasuryX hp'.treasuryY⟩
  rw [reads_iff hd hreads hp'.same hout.address hconf' hout.coin]
  exact and_iff_left ((datumKept_iff hdata hdata').mpr (keptBut_treasuryUpdates 13 _ _ _))

end StablePoolT2T

/-! ### Degen pools -/

namespace QuadraticPool

variable {ctx : QuadraticPoolContext} {p p' : QuadraticPool}

/-- The field of the fee collected, if there is one. -/
def stateFields (p : QuadraticPool) : List Nat :=
  match p.ver with
  | .v1 => []
  | .v1T2t => [7]

/-- The output has the reserves that a pool without shares is read with. -/
def Reserved (value : Value) (p p' : QuadraticPool) : Prop :=
  (value.amountOf p.assetX).getD 0 = p'.reservesX ∧ value.amountOf p.assetY = some p'.reservesY

theorem exists_constr {conf : QuadraticPoolConfig} {fee : Nat} {ver : QuadraticPoolVer}
    (h : out.intoPd.bind (configOf ver) = some (conf, fee)) :
    ∃ alternative fields, out.intoPd = some (.constr alternative fields) := by
  obtain ⟨data, hdata, hconf⟩ := Option.bind_eq_some_iff.mp h
  cases ver with
  | v1 =>
    obtain ⟨_, hconf, -⟩ := Option.map_eq_some_iff.mp hconf
    obtain ⟨alternative, fields, rfl, -⟩ := QuadraticPoolConfig.tryFromPd_eq_some.mp hconf
    exact ⟨alternative, fields, hdata⟩
  | v1T2t =>
    obtain ⟨_, hconf, -⟩ := Option.map_eq_some_iff.mp hconf
    obtain ⟨alternative, fields, rfl, -⟩ := QuadraticPoolT2TConfig.tryFromPd_eq_some.mp hconf
    exact ⟨alternative, fields, hdata⟩

/-- Where the datum is not updated, the fee collected is to be what it has been. -/
theorem reads_back_iff_of_kept (hread : tryFromLedger out ctx = .ok (some p)) (hp' : p.Evolved p')
    (hout : Updated p.pair (fun data => data) out out') :
    (tryFromLedger out' ctx = .ok (some p') ∧ DatumKept p.stateFields out out') ↔
      Reserved out'.value p p' ∧ p'.Uncapped ∧ p'.accumulatedXFee = p.accumulatedXFee := by
  obtain ⟨conf, hreads⟩ := tryFromLedger_eq_some.mp hread
  obtain ⟨alternative, fields, hdata⟩ := exists_constr hreads.config
  have hdata' : out'.intoPd = some (.constr alternative fields) := by
    rw [hout.datum, hdata]
    rfl
  have hconf' : out'.intoPd.bind (configOf p.ver) = some (conf, p.accumulatedXFee) := by
    rw [hdata', ← hdata, hreads.config]
  rw [reads_iff hreads hp'.same hout.address hconf', eq_comm (a := p.accumulatedXFee)]
  exact and_iff_left ((datumKept_iff hdata hdata').mpr (.refl fields))

theorem reads_back_iff (hread : tryFromLedger out ctx = .ok (some p)) (hp' : p.Evolved p')
    (hout : Updated p.pair p'.unsafeUpdatePd out out') :
    (tryFromLedger out' ctx = .ok (some p') ∧ DatumKept p.stateFields out out') ↔
      Reserved out'.value p p' ∧ p'.Uncapped := by
  have hver : p'.ver = p.ver := by rw [hp'.same]
  unfold unsafeUpdatePd at hout
  rw [hver] at hout
  cases hkind : p.ver with
  | v1 =>
    rw [hkind] at hout
    rw [reads_back_iff_of_kept hread hp' hout, hp'.unpaid hkind]
    simp only [and_true]
  | v1T2t =>
    rw [hkind] at hout
    obtain ⟨conf, hreads⟩ := tryFromLedger_eq_some.mp hread
    obtain ⟨data, hdata, hconf⟩ := Option.bind_eq_some_iff.mp hreads.config
    rw [hkind] at hconf
    obtain ⟨conf₁, hconf₁, heq⟩ := Option.map_eq_some_iff.mp hconf
    obtain ⟨alternative, fields, rfl, hfields⟩ :=
      QuadraticPoolT2TConfig.tryFromPd_eq_some.mp hconf₁
    rw [Prod.mk.injEq] at heq
    obtain ⟨rfl, -⟩ := heq
    have hout' : Updated p.pair (setFields (QuadraticPoolT2TConfig.updates p'.accumulatedXFee))
      out out' := hout
    have hdata' := hout'.intoPd_eq hdata
    have hconf' : out'.intoPd.bind (configOf p.ver) =
        some (conf₁.toQuadraticPoolConfig, p'.accumulatedXFee) := by
      rw [hdata', hkind, Option.bind_some, configOf,
        QuadraticPoolT2TConfig.tryFromPd_eq_some.mpr
          ⟨_, _, rfl, hfields.update hp'.accumulatedXFee⟩]
      rfl
    have hstate : p.stateFields = [7] := by rw [stateFields, hkind]
    have hkept : DatumKept p.stateFields out out' := by
      rw [hstate, datumKept_iff hdata hdata']
      refine keptBut_setEach (List.nodup_singleton 7) ?_
      intro update hmem hnotMem
      exact absurd (List.mem_map_of_mem hmem) hnotMem
    rw [reads_iff hreads hp'.same hout.address hconf', and_iff_left hkept]
    simp only [and_true]
    rfl

end QuadraticPool

end

end UtxoMonitor.Pools
