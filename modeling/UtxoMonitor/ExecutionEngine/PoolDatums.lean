import UtxoMonitor.ExecutionEngine.Makes
import UtxoMonitor.ExecutionEngine.Successors
import UtxoMonitor.Lib.Assoc
import UtxoMonitor.Pools.QuadraticFees

/-! What is read of the datum of a pool after it has been updated. -/
namespace UtxoMonitor.Pools

open Lib LiquidityBook

/-! ### Fields -/

/-- Fields set one after another. -/
def setEach (updates : List (Nat × PlutusData)) (fields : List PlutusData) : List PlutusData :=
  updates.foldl (fun fields update => fields.set update.1 update.2) fields

theorem setFields_constr (updates : List (Nat × PlutusData)) (alternative : Nat)
    (fields : List PlutusData) :
    setFields updates (.constr alternative fields) =
      .constr alternative (setEach updates fields) := by
  induction updates generalizing fields with
  | nil => rfl
  | cons update updates ih => exact ih (fields.set update.1 update.2)

/-- No fields but some of them have changed. -/
structure KeptBut (state : List Nat) (fields fields' : List PlutusData) : Prop where
  length : fields'.length = fields.length
  others : ∀ i ∉ state, takeField fields' i = takeField fields i

section

variable {updates : List (Nat × PlutusData)} {fields : List PlutusData} {value : PlutusData}
  {state : List Nat} {i n : Nat}

theorem length_setEach : (setEach updates fields).length = fields.length := by
  induction updates generalizing fields with
  | nil => rfl
  | cons update updates ih => exact ih.trans List.length_set

/-- A field that is not set stays as it is. -/
theorem takeField_of_lookup_none (h : updates.lookup i = none) :
    takeField (setEach updates fields) i = takeField fields i := by
  induction updates generalizing fields with
  | nil => rfl
  | cons update updates ih =>
    rw [List.lookup_cons] at h
    split at h
    · cases h
    · rename_i hne
      exact (ih h).trans (Orders.takeField_set fun heq => by simp [heq] at hne)

theorem takeField_of_lookup (hnodup : (updates.map Prod.fst).Nodup)
    (h : updates.lookup i = some value) (hlt : i < fields.length) :
    takeField (setEach updates fields) i = some value := by
  induction updates generalizing fields with
  | nil => cases h
  | cons update updates ih =>
    obtain ⟨hnotMem, hnodup⟩ := List.nodup_cons.mp hnodup
    rw [List.lookup_cons] at h
    split at h
    · rename_i heq
      cases h
      have hfirst : updates.lookup update.1 = none := by
        refine List.lookup_eq_none_iff.mpr fun later hlater => ?_
        exact bne_iff_ne.mpr fun hsame => hnotMem (List.mem_map.mpr ⟨later, hlater, hsame.symm⟩)
      rw [eq_of_beq heq] at hlt ⊢
      exact (takeField_of_lookup_none hfirst).trans (List.getElem?_set_self hlt)
    · exact ih hnodup h (by rwa [List.length_set])

/-- Fields are kept that are set to what they have been. -/
theorem keptBut_setEach (hnodup : (updates.map Prod.fst).Nodup)
    (h : ∀ update ∈ updates, update.1 ∉ state → takeField fields update.1 = some update.2) :
    KeptBut state fields (setEach updates fields) := by
  refine ⟨length_setEach, fun i hi => ?_⟩
  cases hlookup : updates.lookup i with
  | none => exact takeField_of_lookup_none hlookup
  | some value =>
    have hsame := h _ (mem_of_lookup hlookup) hi
    obtain ⟨hlt, -⟩ := List.getElem?_eq_some_iff.mp hsame
    rw [takeField_of_lookup hnodup hlookup hlt, hsame]

theorem KeptBut.same (hkept : KeptBut state fields (setEach updates fields))
    (hnodup : (updates.map Prod.fst).Nodup) (h : updates.lookup i = some value) (hi : i ∉ state)
    (hlt : i < fields.length) : takeField fields i = some value := by
  rw [← hkept.others i hi, takeField_of_lookup hnodup h hlt]

theorem takeField_of_u64At (h : u64At fields i = some n) :
    takeField fields i = some (.integer n) := by
  obtain ⟨pd, hpd, hn⟩ := Option.bind_eq_some_iff.mp h
  rw [hpd]
  cases pd with
  | integer value =>
    simp only [PlutusData.intoU64, Option.ite_none_right_eq_some, Option.some.injEq] at hn
    have hvalue : value = n := by omega
    rw [hvalue]
  | _ => cases hn

theorem lt_of_u64At (h : u64At fields i = some n) : n < 2 ^ 64 := by
  obtain ⟨pd, -, hn⟩ := Option.bind_eq_some_iff.mp h
  cases pd with
  | integer value =>
    simp only [PlutusData.intoU64, Option.ite_none_right_eq_some, Option.some.injEq] at hn
    omega
  | _ => cases hn

theorem takeField_of_bytesAt {bs : Bytes} (h : bytesAt fields i = some bs) :
    takeField fields i = some (.bytes bs) := by
  obtain ⟨pd, hpd, hbs⟩ := Option.bind_eq_some_iff.mp h
  rw [hpd]
  cases pd with
  | bytes value => exact congrArg (some ∘ PlutusData.bytes) (Option.some.inj hbs)
  | _ => cases hbs

theorem toRawBytes_of_fromRawBytes {bs : Bytes} {hash : RawBytes n}
    (h : RawBytes.fromRawBytes bs = some hash) : hash.toRawBytes = bs := by
  unfold RawBytes.fromRawBytes at h
  split at h
  · cases h
    rfl
  · cases h

theorem assetAt_kept (h : updates.lookup i = none) :
    assetAt (setEach updates fields) i = assetAt fields i :=
  congrArg (·.bind AssetClass.tryFromPd) (takeField_of_lookup_none h)

theorem bytesAt_kept (h : updates.lookup i = none) :
    bytesAt (setEach updates fields) i = bytesAt fields i :=
  congrArg (·.bind PlutusData.intoBytes) (takeField_of_lookup_none h)

theorem u64At_kept (h : updates.lookup i = none) :
    u64At (setEach updates fields) i = u64At fields i :=
  congrArg (·.bind PlutusData.intoU64) (takeField_of_lookup_none h)

theorem u64At_setEach {m : Nat} (hnodup : (updates.map Prod.fst).Nodup)
    (h : updates.lookup i = some (.integer n)) (hn : n < 2 ^ 64)
    (hfield : u64At fields i = some m) : u64At (setEach updates fields) i = some n := by
  obtain ⟨hlt, -⟩ := List.getElem?_eq_some_iff.mp (takeField_of_u64At hfield)
  refine Option.bind_eq_some_iff.mpr ⟨_, takeField_of_lookup hnodup h hlt, ?_⟩
  rw [PlutusData.intoU64, if_pos (by omega), Int.toNat_natCast]

end

/-! ### Treasuries -/

/-- The fields of a treasury, one after the other. -/
def treasuryUpdates (i x y : Nat) : List (Nat × PlutusData) :=
  [(i, .integer x), (i + 1, .integer y)]

theorem nodup_treasuryUpdates (i x y : Nat) : ((treasuryUpdates i x y).map Prod.fst).Nodup := by
  simp [treasuryUpdates]

section

variable {data : PlutusData} {fields : List PlutusData} {x y : Nat}

namespace FeeSwitchPoolConfig

variable {conf : FeeSwitchPoolConfig}

structure ReadsAs (fields : List PlutusData) (conf : FeeSwitchPoolConfig) : Prop where
  poolNft : assetAt fields 0 = some conf.poolNft
  assetX : assetAt fields 1 = some conf.assetX
  assetY : assetAt fields 2 = some conf.assetY
  assetLq : assetAt fields 3 = some conf.assetLq
  lpFeeNum : u64At fields 4 = some conf.lpFeeNum
  treasuryFeeNum : u64At fields 5 = some conf.treasuryFeeNum
  treasuryX : u64At fields 6 = some conf.treasuryX
  treasuryY : u64At fields 7 = some conf.treasuryY
  lqLowerBound : (u64At fields 9).getD 0 = conf.lqLowerBound

theorem tryFromPd_eq_some : tryFromPd data = some conf ↔
    ∃ alternative fields, data = .constr alternative fields ∧ ReadsAs fields conf := by
  constructor
  · intro h
    obtain ⟨⟨alternative, fields⟩, hconstr, h⟩ := Option.bind_eq_some_iff.mp h
    obtain ⟨nft, hnft, h⟩ := Option.bind_eq_some_iff.mp h
    obtain ⟨assetX, hassetX, h⟩ := Option.bind_eq_some_iff.mp h
    obtain ⟨assetY, hassetY, h⟩ := Option.bind_eq_some_iff.mp h
    obtain ⟨lq, hlq, h⟩ := Option.bind_eq_some_iff.mp h
    obtain ⟨lpFee, hlpFee, h⟩ := Option.bind_eq_some_iff.mp h
    obtain ⟨fee, hfee, h⟩ := Option.bind_eq_some_iff.mp h
    obtain ⟨treasuryX, htreasuryX, h⟩ := Option.bind_eq_some_iff.mp h
    obtain ⟨treasuryY, htreasuryY, h⟩ := Option.bind_eq_some_iff.mp h
    cases h
    cases data <;> cases hconstr
    exact ⟨_, _, rfl, hnft, hassetX, hassetY, hlq, hlpFee, hfee, htreasuryX, htreasuryY, rfl⟩
  · rintro ⟨alternative, fields, rfl, h⟩
    refine Option.bind_eq_some_iff.mpr ⟨_, h.poolNft, ?_⟩
    refine Option.bind_eq_some_iff.mpr ⟨_, h.assetX, ?_⟩
    refine Option.bind_eq_some_iff.mpr ⟨_, h.assetY, ?_⟩
    refine Option.bind_eq_some_iff.mpr ⟨_, h.assetLq, ?_⟩
    refine Option.bind_eq_some_iff.mpr ⟨_, h.lpFeeNum, ?_⟩
    refine Option.bind_eq_some_iff.mpr ⟨_, h.treasuryFeeNum, ?_⟩
    refine Option.bind_eq_some_iff.mpr ⟨_, h.treasuryX, ?_⟩
    refine Option.bind_eq_some_iff.mpr ⟨_, h.treasuryY, ?_⟩
    rw [h.lqLowerBound]
    rfl

theorem ReadsAs.update (h : ReadsAs fields conf) (hx : x < 2 ^ 64) (hy : y < 2 ^ 64) :
    ReadsAs (setEach (treasuryUpdates 6 x y) fields)
      { conf with treasuryX := x, treasuryY := y } where
  poolNft := (assetAt_kept rfl).trans h.poolNft
  assetX := (assetAt_kept rfl).trans h.assetX
  assetY := (assetAt_kept rfl).trans h.assetY
  assetLq := (assetAt_kept rfl).trans h.assetLq
  lpFeeNum := (u64At_kept rfl).trans h.lpFeeNum
  treasuryFeeNum := (u64At_kept rfl).trans h.treasuryFeeNum
  treasuryX := u64At_setEach (nodup_treasuryUpdates 6 x y) rfl hx h.treasuryX
  treasuryY := u64At_setEach (nodup_treasuryUpdates 6 x y) rfl hy h.treasuryY
  lqLowerBound := (congrArg (Option.getD · 0) (u64At_kept rfl)).trans h.lqLowerBound

end FeeSwitchPoolConfig

namespace FeeSwitchBidirectionalPoolConfig

variable {conf : FeeSwitchBidirectionalPoolConfig}

structure ReadsAs (fields : List PlutusData) (conf : FeeSwitchBidirectionalPoolConfig) : Prop where
  poolNft : assetAt fields 0 = some conf.poolNft
  assetX : assetAt fields 1 = some conf.assetX
  assetY : assetAt fields 2 = some conf.assetY
  assetLq : assetAt fields 3 = some conf.assetLq
  lpFeeNumX : u64At fields 4 = some conf.lpFeeNumX
  lpFeeNumY : u64At fields 5 = some conf.lpFeeNumY
  treasuryFeeNum : u64At fields 6 = some conf.treasuryFeeNum
  treasuryX : u64At fields 7 = some conf.treasuryX
  treasuryY : u64At fields 8 = some conf.treasuryY
  lqLowerBound : (u64At fields 10).getD 0 = conf.lqLowerBound

theorem tryFromPd_eq_some : tryFromPd data = some conf ↔
    ∃ alternative fields, data = .constr alternative fields ∧ ReadsAs fields conf := by
  constructor
  · intro h
    obtain ⟨⟨alternative, fields⟩, hconstr, h⟩ := Option.bind_eq_some_iff.mp h
    obtain ⟨nft, hnft, h⟩ := Option.bind_eq_some_iff.mp h
    obtain ⟨assetX, hassetX, h⟩ := Option.bind_eq_some_iff.mp h
    obtain ⟨assetY, hassetY, h⟩ := Option.bind_eq_some_iff.mp h
    obtain ⟨lq, hlq, h⟩ := Option.bind_eq_some_iff.mp h
    obtain ⟨lpFeeX, hlpFeeX, h⟩ := Option.bind_eq_some_iff.mp h
    obtain ⟨lpFeeY, hlpFeeY, h⟩ := Option.bind_eq_some_iff.mp h
    obtain ⟨fee, hfee, h⟩ := Option.bind_eq_some_iff.mp h
    obtain ⟨treasuryX, htreasuryX, h⟩ := Option.bind_eq_some_iff.mp h
    obtain ⟨treasuryY, htreasuryY, h⟩ := Option.bind_eq_some_iff.mp h
    cases h
    cases data <;> cases hconstr
    exact ⟨_, _, rfl, hnft, hassetX, hassetY, hlq, hlpFeeX, hlpFeeY, hfee, htreasuryX, htreasuryY,
      rfl⟩
  · rintro ⟨alternative, fields, rfl, h⟩
    refine Option.bind_eq_some_iff.mpr ⟨_, h.poolNft, ?_⟩
    refine Option.bind_eq_some_iff.mpr ⟨_, h.assetX, ?_⟩
    refine Option.bind_eq_some_iff.mpr ⟨_, h.assetY, ?_⟩
    refine Option.bind_eq_some_iff.mpr ⟨_, h.assetLq, ?_⟩
    refine Option.bind_eq_some_iff.mpr ⟨_, h.lpFeeNumX, ?_⟩
    refine Option.bind_eq_some_iff.mpr ⟨_, h.lpFeeNumY, ?_⟩
    refine Option.bind_eq_some_iff.mpr ⟨_, h.treasuryFeeNum, ?_⟩
    refine Option.bind_eq_some_iff.mpr ⟨_, h.treasuryX, ?_⟩
    refine Option.bind_eq_some_iff.mpr ⟨_, h.treasuryY, ?_⟩
    rw [h.lqLowerBound]
    rfl

/-- In a datum with a fee for either direction, the treasuries are one field further on. -/
theorem ReadsAs.update (h : ReadsAs fields conf) (hx : x < 2 ^ 64) (hy : y < 2 ^ 64) :
    ReadsAs (setEach (treasuryUpdates 6 x y) fields)
      { conf with treasuryFeeNum := x, treasuryX := y } where
  poolNft := (assetAt_kept rfl).trans h.poolNft
  assetX := (assetAt_kept rfl).trans h.assetX
  assetY := (assetAt_kept rfl).trans h.assetY
  assetLq := (assetAt_kept rfl).trans h.assetLq
  lpFeeNumX := (u64At_kept rfl).trans h.lpFeeNumX
  lpFeeNumY := (u64At_kept rfl).trans h.lpFeeNumY
  treasuryFeeNum := u64At_setEach (nodup_treasuryUpdates 6 x y) rfl hx h.treasuryFeeNum
  treasuryX := u64At_setEach (nodup_treasuryUpdates 6 x y) rfl hy h.treasuryX
  treasuryY := (u64At_kept rfl).trans h.treasuryY
  lqLowerBound := (congrArg (Option.getD · 0) (u64At_kept rfl)).trans h.lqLowerBound

end FeeSwitchBidirectionalPoolConfig

namespace BalancePoolConfig

variable {conf : BalancePoolConfig}

structure ReadsAs (fields : List PlutusData) (conf : BalancePoolConfig) : Prop where
  poolNft : assetAt fields 0 = some conf.poolNft
  assetX : assetAt fields 1 = some conf.assetX
  assetY : assetAt fields 2 = some conf.assetY
  assetLq : assetAt fields 3 = some conf.assetLq
  lpFeeNum : u64At fields 4 = some conf.lpFeeNum
  treasuryFeeNum : u64At fields 5 = some conf.treasuryFeeNum
  treasuryX : u64At fields 6 = some conf.treasuryX
  treasuryY : u64At fields 7 = some conf.treasuryY

theorem tryFromPd_eq_some : tryFromPd data = some conf ↔
    ∃ alternative fields, data = .constr alternative fields ∧ ReadsAs fields conf := by
  constructor
  · intro h
    obtain ⟨⟨alternative, fields⟩, hconstr, h⟩ := Option.bind_eq_some_iff.mp h
    obtain ⟨nft, hnft, h⟩ := Option.bind_eq_some_iff.mp h
    obtain ⟨assetX, hassetX, h⟩ := Option.bind_eq_some_iff.mp h
    obtain ⟨assetY, hassetY, h⟩ := Option.bind_eq_some_iff.mp h
    obtain ⟨lq, hlq, h⟩ := Option.bind_eq_some_iff.mp h
    obtain ⟨lpFee, hlpFee, h⟩ := Option.bind_eq_some_iff.mp h
    obtain ⟨fee, hfee, h⟩ := Option.bind_eq_some_iff.mp h
    obtain ⟨treasuryX, htreasuryX, h⟩ := Option.bind_eq_some_iff.mp h
    obtain ⟨treasuryY, htreasuryY, h⟩ := Option.bind_eq_some_iff.mp h
    cases h
    cases data <;> cases hconstr
    exact ⟨_, _, rfl, hnft, hassetX, hassetY, hlq, hlpFee, hfee, htreasuryX, htreasuryY⟩
  · rintro ⟨alternative, fields, rfl, h⟩
    refine Option.bind_eq_some_iff.mpr ⟨_, h.poolNft, ?_⟩
    refine Option.bind_eq_some_iff.mpr ⟨_, h.assetX, ?_⟩
    refine Option.bind_eq_some_iff.mpr ⟨_, h.assetY, ?_⟩
    refine Option.bind_eq_some_iff.mpr ⟨_, h.assetLq, ?_⟩
    refine Option.bind_eq_some_iff.mpr ⟨_, h.lpFeeNum, ?_⟩
    refine Option.bind_eq_some_iff.mpr ⟨_, h.treasuryFeeNum, ?_⟩
    refine Option.bind_eq_some_iff.mpr ⟨_, h.treasuryX, ?_⟩
    refine Option.bind_eq_some_iff.mpr ⟨_, h.treasuryY, ?_⟩
    rfl

theorem ReadsAs.update (h : ReadsAs fields conf) (hx : x < 2 ^ 64) (hy : y < 2 ^ 64) :
    ReadsAs (setEach (treasuryUpdates 6 x y) fields)
      { conf with treasuryX := x, treasuryY := y } where
  poolNft := (assetAt_kept rfl).trans h.poolNft
  assetX := (assetAt_kept rfl).trans h.assetX
  assetY := (assetAt_kept rfl).trans h.assetY
  assetLq := (assetAt_kept rfl).trans h.assetLq
  lpFeeNum := (u64At_kept rfl).trans h.lpFeeNum
  treasuryFeeNum := (u64At_kept rfl).trans h.treasuryFeeNum
  treasuryX := u64At_setEach (nodup_treasuryUpdates 6 x y) rfl hx h.treasuryX
  treasuryY := u64At_setEach (nodup_treasuryUpdates 6 x y) rfl hy h.treasuryY

end BalancePoolConfig

namespace StablePoolT2TConfig

variable {conf : StablePoolT2TConfig}

structure ReadsAs (fields : List PlutusData) (conf : StablePoolT2TConfig) : Prop where
  poolNft : assetAt fields 0 = some conf.poolNft
  an2n : u64At fields 1 = some conf.an2n
  assetX : assetAt fields 2 = some conf.assetX
  assetY : assetAt fields 3 = some conf.assetY
  multiplierX : u64At fields 4 = some conf.multiplierX
  multiplierY : u64At fields 5 = some conf.multiplierY
  assetLq : assetAt fields 6 = some conf.assetLq
  lpFeeNum : u64At fields 9 = some conf.lpFeeNum
  treasuryFeeNum : u64At fields 10 = some conf.treasuryFeeNum
  treasuryX : u64At fields 13 = some conf.treasuryX
  treasuryY : u64At fields 14 = some conf.treasuryY

theorem tryFromPd_eq_some : tryFromPd data = some conf ↔
    ∃ alternative fields, data = .constr alternative fields ∧ ReadsAs fields conf := by
  constructor
  · intro h
    obtain ⟨⟨alternative, fields⟩, hconstr, h⟩ := Option.bind_eq_some_iff.mp h
    obtain ⟨nft, hnft, h⟩ := Option.bind_eq_some_iff.mp h
    obtain ⟨an2n, han2n, h⟩ := Option.bind_eq_some_iff.mp h
    obtain ⟨assetX, hassetX, h⟩ := Option.bind_eq_some_iff.mp h
    obtain ⟨assetY, hassetY, h⟩ := Option.bind_eq_some_iff.mp h
    obtain ⟨multiplierX, hmultiplierX, h⟩ := Option.bind_eq_some_iff.mp h
    obtain ⟨multiplierY, hmultiplierY, h⟩ := Option.bind_eq_some_iff.mp h
    obtain ⟨lq, hlq, h⟩ := Option.bind_eq_some_iff.mp h
    obtain ⟨lpFee, hlpFee, h⟩ := Option.bind_eq_some_iff.mp h
    obtain ⟨fee, hfee, h⟩ := Option.bind_eq_some_iff.mp h
    obtain ⟨treasuryX, htreasuryX, h⟩ := Option.bind_eq_some_iff.mp h
    obtain ⟨treasuryY, htreasuryY, h⟩ := Option.bind_eq_some_iff.mp h
    cases h
    cases data <;> cases hconstr
    exact ⟨_, _, rfl, hnft, han2n, hassetX, hassetY, hmultiplierX, hmultiplierY, hlq, hlpFee, hfee,
      htreasuryX, htreasuryY⟩
  · rintro ⟨alternative, fields, rfl, h⟩
    refine Option.bind_eq_some_iff.mpr ⟨_, h.poolNft, ?_⟩
    refine Option.bind_eq_some_iff.mpr ⟨_, h.an2n, ?_⟩
    refine Option.bind_eq_some_iff.mpr ⟨_, h.assetX, ?_⟩
    refine Option.bind_eq_some_iff.mpr ⟨_, h.assetY, ?_⟩
    refine Option.bind_eq_some_iff.mpr ⟨_, h.multiplierX, ?_⟩
    refine Option.bind_eq_some_iff.mpr ⟨_, h.multiplierY, ?_⟩
    refine Option.bind_eq_some_iff.mpr ⟨_, h.assetLq, ?_⟩
    refine Option.bind_eq_some_iff.mpr ⟨_, h.lpFeeNum, ?_⟩
    refine Option.bind_eq_some_iff.mpr ⟨_, h.treasuryFeeNum, ?_⟩
    refine Option.bind_eq_some_iff.mpr ⟨_, h.treasuryX, ?_⟩
    refine Option.bind_eq_some_iff.mpr ⟨_, h.treasuryY, ?_⟩
    rfl

theorem ReadsAs.update (h : ReadsAs fields conf) (hx : x < 2 ^ 64) (hy : y < 2 ^ 64) :
    ReadsAs (setEach (treasuryUpdates 13 x y) fields)
      { conf with treasuryX := x, treasuryY := y } where
  poolNft := (assetAt_kept rfl).trans h.poolNft
  an2n := (u64At_kept rfl).trans h.an2n
  assetX := (assetAt_kept rfl).trans h.assetX
  assetY := (assetAt_kept rfl).trans h.assetY
  multiplierX := (u64At_kept rfl).trans h.multiplierX
  multiplierY := (u64At_kept rfl).trans h.multiplierY
  assetLq := (assetAt_kept rfl).trans h.assetLq
  lpFeeNum := (u64At_kept rfl).trans h.lpFeeNum
  treasuryFeeNum := (u64At_kept rfl).trans h.treasuryFeeNum
  treasuryX := u64At_setEach (nodup_treasuryUpdates 13 x y) rfl hx h.treasuryX
  treasuryY := u64At_setEach (nodup_treasuryUpdates 13 x y) rfl hy h.treasuryY

end StablePoolT2TConfig

/-! ### Royalties -/

theorem firstScriptHash_adminAddresses (hash : ScriptHash) :
    firstScriptHash (adminAddresses hash) = some hash := by
  have hread : InlineCredential.tryFromPd (InlineCredential.intoPd ⟨.script hash⟩) =
      some ⟨.script hash⟩ := by
    have hhash : RawBytes.fromRawBytes hash.toRawBytes = some hash := dif_pos hash.property
    simp [InlineCredential.tryFromPd, InlineCredential.intoPd, PlutusCredential.tryFromPd,
      PlutusCredential.intoPd, PlutusData.intoConstrPd, takeField, bytesAt, PlutusData.intoBytes,
      hhash]
  simp [firstScriptHash, adminAddresses, PlutusData.intoVec, hread, InlineCredential.scriptHash]

namespace RoyaltyPool

/-- The numbers of a pool that are written to its datum. -/
structure Words (p : RoyaltyPool) : Prop where
  lpFee : p.lpFee.numer < 2 ^ 64
  treasuryFee : p.treasuryFee.numer < 2 ^ 64
  firstRoyaltyFee : p.firstRoyaltyFee.numer < 2 ^ 64
  secondRoyaltyFee : p.secondRoyaltyFee.numer < 2 ^ 64
  treasuryX : p.treasuryX < 2 ^ 64
  treasuryY : p.treasuryY < 2 ^ 64
  firstRoyaltyX : p.firstRoyaltyX < 2 ^ 64
  firstRoyaltyY : p.firstRoyaltyY < 2 ^ 64
  secondRoyaltyX : p.secondRoyaltyX < 2 ^ 64
  secondRoyaltyY : p.secondRoyaltyY < 2 ^ 64
  nonce : p.nonce < 2 ^ 64

/-- The fields that are written for a pool with one owner of royalties. -/
def updates (p : RoyaltyPool) : List (Nat × PlutusData) :=
  [(4, .integer p.lpFee.numer), (5, .integer p.treasuryFee.numer),
    (6, .integer p.firstRoyaltyFee.numer), (7, .integer p.treasuryX), (8, .integer p.treasuryY),
    (9, .integer p.firstRoyaltyX), (10, .integer p.firstRoyaltyY),
    (11, adminAddresses p.adminAddress), (12, .bytes p.treasuryAddress.toRawBytes),
    (14, .integer p.nonce)]

theorem nodup_updates (p : RoyaltyPool) : (p.updates.map Prod.fst).Nodup := by
  show List.Nodup [4, 5, 6, 7, 8, 9, 10, 11, 12, 14]
  decide

/-- The fields that are written for a pool with two owners of royalties. -/
def updatesV2 (p : RoyaltyPool) : List (Nat × PlutusData) :=
  [(4, .integer p.lpFee.numer), (5, .integer p.treasuryFee.numer),
    (6, .integer p.firstRoyaltyFee.numer), (7, .integer p.secondRoyaltyFee.numer),
    (8, .integer p.treasuryX), (9, .integer p.treasuryY), (10, .integer p.firstRoyaltyX),
    (11, .integer p.firstRoyaltyY), (12, .integer p.secondRoyaltyX),
    (13, .integer p.secondRoyaltyY), (14, adminAddresses p.adminAddress),
    (15, .bytes p.treasuryAddress.toRawBytes), (18, .integer p.nonce)]

theorem nodup_updatesV2 (p : RoyaltyPool) : (p.updatesV2.map Prod.fst).Nodup := by
  show List.Nodup [4, 5, 6, 7, 8, 9, 10, 11, 12, 13, 14, 15, 18]
  decide

end RoyaltyPool

namespace RoyaltyPoolConfig

variable {conf : RoyaltyPoolConfig} {p : RoyaltyPool}

structure ReadsAs (fields : List PlutusData) (conf : RoyaltyPoolConfig) : Prop where
  adminAddress : (takeField fields 11).bind firstScriptHash = some conf.adminAddress
  poolNft : assetAt fields 0 = some conf.poolNft
  assetX : assetAt fields 1 = some conf.assetX
  assetY : assetAt fields 2 = some conf.assetY
  assetLq : assetAt fields 3 = some conf.assetLq
  lpFeeNum : u64At fields 4 = some conf.lpFeeNum
  treasuryFeeNum : u64At fields 5 = some conf.treasuryFeeNum
  royaltyFeeNum : u64At fields 6 = some conf.royaltyFeeNum
  treasuryX : u64At fields 7 = some conf.treasuryX
  treasuryY : u64At fields 8 = some conf.treasuryY
  royaltyX : u64At fields 9 = some conf.royaltyX
  royaltyY : u64At fields 10 = some conf.royaltyY
  treasuryAddress : bytesAt fields 12 = some conf.treasuryAddress
  royaltyPubKey : bytesAt fields 13 = some conf.royaltyPubKey
  nonce : u64At fields 14 = some conf.nonce

theorem tryFromPd_eq_some : tryFromPd data = some conf ↔
    ∃ alternative fields, data = .constr alternative fields ∧ ReadsAs fields conf := by
  constructor
  · intro h
    obtain ⟨⟨alternative, fields⟩, hconstr, h⟩ := Option.bind_eq_some_iff.mp h
    obtain ⟨admin, hadmin, h⟩ := Option.bind_eq_some_iff.mp h
    obtain ⟨nft, hnft, h⟩ := Option.bind_eq_some_iff.mp h
    obtain ⟨assetX, hassetX, h⟩ := Option.bind_eq_some_iff.mp h
    obtain ⟨assetY, hassetY, h⟩ := Option.bind_eq_some_iff.mp h
    obtain ⟨lq, hlq, h⟩ := Option.bind_eq_some_iff.mp h
    obtain ⟨lpFee, hlpFee, h⟩ := Option.bind_eq_some_iff.mp h
    obtain ⟨fee, hfee, h⟩ := Option.bind_eq_some_iff.mp h
    obtain ⟨royaltyFee, hroyaltyFee, h⟩ := Option.bind_eq_some_iff.mp h
    obtain ⟨treasuryX, htreasuryX, h⟩ := Option.bind_eq_some_iff.mp h
    obtain ⟨treasuryY, htreasuryY, h⟩ := Option.bind_eq_some_iff.mp h
    obtain ⟨royaltyX, hroyaltyX, h⟩ := Option.bind_eq_some_iff.mp h
    obtain ⟨royaltyY, hroyaltyY, h⟩ := Option.bind_eq_some_iff.mp h
    obtain ⟨treasury, htreasury, h⟩ := Option.bind_eq_some_iff.mp h
    obtain ⟨pubKey, hpubKey, h⟩ := Option.bind_eq_some_iff.mp h
    obtain ⟨nonce, hnonce, h⟩ := Option.bind_eq_some_iff.mp h
    cases h
    cases data <;> cases hconstr
    exact ⟨_, _, rfl, hadmin, hnft, hassetX, hassetY, hlq, hlpFee, hfee, hroyaltyFee, htreasuryX,
      htreasuryY, hroyaltyX, hroyaltyY, htreasury, hpubKey, hnonce⟩
  · rintro ⟨alternative, fields, rfl, h⟩
    refine Option.bind_eq_some_iff.mpr ⟨_, h.adminAddress, ?_⟩
    refine Option.bind_eq_some_iff.mpr ⟨_, h.poolNft, ?_⟩
    refine Option.bind_eq_some_iff.mpr ⟨_, h.assetX, ?_⟩
    refine Option.bind_eq_some_iff.mpr ⟨_, h.assetY, ?_⟩
    refine Option.bind_eq_some_iff.mpr ⟨_, h.assetLq, ?_⟩
    refine Option.bind_eq_some_iff.mpr ⟨_, h.lpFeeNum, ?_⟩
    refine Option.bind_eq_some_iff.mpr ⟨_, h.treasuryFeeNum, ?_⟩
    refine Option.bind_eq_some_iff.mpr ⟨_, h.royaltyFeeNum, ?_⟩
    refine Option.bind_eq_some_iff.mpr ⟨_, h.treasuryX, ?_⟩
    refine Option.bind_eq_some_iff.mpr ⟨_, h.treasuryY, ?_⟩
    refine Option.bind_eq_some_iff.mpr ⟨_, h.royaltyX, ?_⟩
    refine Option.bind_eq_some_iff.mpr ⟨_, h.royaltyY, ?_⟩
    refine Option.bind_eq_some_iff.mpr ⟨_, h.treasuryAddress, ?_⟩
    refine Option.bind_eq_some_iff.mpr ⟨_, h.royaltyPubKey, ?_⟩
    refine Option.bind_eq_some_iff.mpr ⟨_, h.nonce, ?_⟩
    rfl

theorem ReadsAs.update (h : ReadsAs fields conf) (hp : p.Words) :
    ReadsAs (setEach p.updates fields) { conf with
      lpFeeNum := p.lpFee.numer
      treasuryFeeNum := p.treasuryFee.numer
      royaltyFeeNum := p.firstRoyaltyFee.numer
      treasuryX := p.treasuryX
      treasuryY := p.treasuryY
      royaltyX := p.firstRoyaltyX
      royaltyY := p.firstRoyaltyY
      nonce := p.nonce
      adminAddress := p.adminAddress
      treasuryAddress := p.treasuryAddress.toRawBytes } where
  adminAddress := by
    obtain ⟨pd, hpd, -⟩ := Option.bind_eq_some_iff.mp h.adminAddress
    rw [takeField_of_lookup p.nodup_updates rfl (List.getElem?_eq_some_iff.mp hpd).1]
    exact firstScriptHash_adminAddresses _
  poolNft := (assetAt_kept rfl).trans h.poolNft
  assetX := (assetAt_kept rfl).trans h.assetX
  assetY := (assetAt_kept rfl).trans h.assetY
  assetLq := (assetAt_kept rfl).trans h.assetLq
  lpFeeNum := u64At_setEach p.nodup_updates rfl hp.lpFee h.lpFeeNum
  treasuryFeeNum := u64At_setEach p.nodup_updates rfl hp.treasuryFee h.treasuryFeeNum
  royaltyFeeNum := u64At_setEach p.nodup_updates rfl hp.firstRoyaltyFee h.royaltyFeeNum
  treasuryX := u64At_setEach p.nodup_updates rfl hp.treasuryX h.treasuryX
  treasuryY := u64At_setEach p.nodup_updates rfl hp.treasuryY h.treasuryY
  royaltyX := u64At_setEach p.nodup_updates rfl hp.firstRoyaltyX h.royaltyX
  royaltyY := u64At_setEach p.nodup_updates rfl hp.firstRoyaltyY h.royaltyY
  treasuryAddress := by
    obtain ⟨hlt, -⟩ := List.getElem?_eq_some_iff.mp (takeField_of_bytesAt h.treasuryAddress)
    rw [bytesAt, takeField_of_lookup p.nodup_updates rfl hlt]
    rfl
  royaltyPubKey := (bytesAt_kept rfl).trans h.royaltyPubKey
  nonce := u64At_setEach p.nodup_updates rfl hp.nonce h.nonce

/-- What is written of a pool besides what it has collected is what has been read. -/
structure Terms (conf : RoyaltyPoolConfig) (p : RoyaltyPool) : Prop where
  lpFee : p.lpFee.numer = conf.lpFeeNum
  treasuryFee : p.treasuryFee.numer = conf.treasuryFeeNum
  royaltyFee : p.firstRoyaltyFee.numer = conf.royaltyFeeNum
  treasuryAddress : p.treasuryAddress.toRawBytes = conf.treasuryAddress
  nonce : p.nonce = conf.nonce

/-- The update keeps all else where the pool has one admin. -/
theorem ReadsAs.keptBut_iff (h : ReadsAs fields conf) (hp : conf.Terms p) :
    KeptBut [7, 8, 9, 10] fields (setEach p.updates fields) ↔
      takeField fields 11 = some (adminAddresses p.adminAddress) := by
  constructor
  · intro hkept
    obtain ⟨pd, hpd, -⟩ := Option.bind_eq_some_iff.mp h.adminAddress
    exact hkept.same p.nodup_updates rfl (by decide) (List.getElem?_eq_some_iff.mp hpd).1
  · intro hadmin
    refine keptBut_setEach p.nodup_updates ?_
    simp only [RoyaltyPool.updates, List.forall_mem_cons, List.not_mem_nil, false_implies,
      implies_true, and_true]
    rw [hp.lpFee, hp.treasuryFee, hp.royaltyFee, hp.treasuryAddress, hp.nonce]
    refine ⟨fun _ => takeField_of_u64At h.lpFeeNum, fun _ => takeField_of_u64At h.treasuryFeeNum,
      fun _ => takeField_of_u64At h.royaltyFeeNum, ?_, ?_, ?_, ?_, fun _ => hadmin,
      fun _ => takeField_of_bytesAt h.treasuryAddress, fun _ => takeField_of_u64At h.nonce⟩
    · exact fun hi => absurd (by decide) hi
    · exact fun hi => absurd (by decide) hi
    · exact fun hi => absurd (by decide) hi
    · exact fun hi => absurd (by decide) hi

end RoyaltyPoolConfig

namespace RoyaltyPoolV2Config

variable {conf : RoyaltyPoolV2Config} {p : RoyaltyPool}

structure ReadsAs (fields : List PlutusData) (conf : RoyaltyPoolV2Config) : Prop where
  adminAddress : (takeField fields 14).bind firstScriptHash = some conf.adminAddress
  poolNft : assetAt fields 0 = some conf.poolNft
  assetX : assetAt fields 1 = some conf.assetX
  assetY : assetAt fields 2 = some conf.assetY
  assetLq : assetAt fields 3 = some conf.assetLq
  lpFeeNum : u64At fields 4 = some conf.lpFeeNum
  treasuryFeeNum : u64At fields 5 = some conf.treasuryFeeNum
  firstRoyaltyFeeNum : u64At fields 6 = some conf.firstRoyaltyFeeNum
  secondRoyaltyFeeNum : u64At fields 7 = some conf.secondRoyaltyFeeNum
  treasuryX : u64At fields 8 = some conf.treasuryX
  treasuryY : u64At fields 9 = some conf.treasuryY
  firstRoyaltyX : u64At fields 10 = some conf.firstRoyaltyX
  firstRoyaltyY : u64At fields 11 = some conf.firstRoyaltyY
  secondRoyaltyX : u64At fields 12 = some conf.secondRoyaltyX
  secondRoyaltyY : u64At fields 13 = some conf.secondRoyaltyY
  treasuryAddress : bytesAt fields 15 = some conf.treasuryAddress
  firstRoyaltyPubKey : bytesAt fields 16 = some conf.firstRoyaltyPubKey
  secondRoyaltyPubKey : bytesAt fields 17 = some conf.secondRoyaltyPubKey
  nonce : u64At fields 18 = some conf.nonce

theorem tryFromPd_eq_some : tryFromPd data = some conf ↔
    ∃ alternative fields, data = .constr alternative fields ∧ ReadsAs fields conf := by
  constructor
  · intro h
    obtain ⟨⟨alternative, fields⟩, hconstr, h⟩ := Option.bind_eq_some_iff.mp h
    obtain ⟨admin, hadmin, h⟩ := Option.bind_eq_some_iff.mp h
    obtain ⟨nft, hnft, h⟩ := Option.bind_eq_some_iff.mp h
    obtain ⟨assetX, hassetX, h⟩ := Option.bind_eq_some_iff.mp h
    obtain ⟨assetY, hassetY, h⟩ := Option.bind_eq_some_iff.mp h
    obtain ⟨lq, hlq, h⟩ := Option.bind_eq_some_iff.mp h
    obtain ⟨lpFee, hlpFee, h⟩ := Option.bind_eq_some_iff.mp h
    obtain ⟨fee, hfee, h⟩ := Option.bind_eq_some_iff.mp h
    obtain ⟨firstFee, hfirstFee, h⟩ := Option.bind_eq_some_iff.mp h
    obtain ⟨secondFee, hsecondFee, h⟩ := Option.bind_eq_some_iff.mp h
    obtain ⟨treasuryX, htreasuryX, h⟩ := Option.bind_eq_some_iff.mp h
    obtain ⟨treasuryY, htreasuryY, h⟩ := Option.bind_eq_some_iff.mp h
    obtain ⟨firstX, hfirstX, h⟩ := Option.bind_eq_some_iff.mp h
    obtain ⟨firstY, hfirstY, h⟩ := Option.bind_eq_some_iff.mp h
    obtain ⟨secondX, hsecondX, h⟩ := Option.bind_eq_some_iff.mp h
    obtain ⟨secondY, hsecondY, h⟩ := Option.bind_eq_some_iff.mp h
    obtain ⟨treasury, htreasury, h⟩ := Option.bind_eq_some_iff.mp h
    obtain ⟨firstKey, hfirstKey, h⟩ := Option.bind_eq_some_iff.mp h
    obtain ⟨secondKey, hsecondKey, h⟩ := Option.bind_eq_some_iff.mp h
    obtain ⟨nonce, hnonce, h⟩ := Option.bind_eq_some_iff.mp h
    cases h
    cases data <;> cases hconstr
    exact ⟨_, _, rfl, hadmin, hnft, hassetX, hassetY, hlq, hlpFee, hfee, hfirstFee, hsecondFee,
      htreasuryX, htreasuryY, hfirstX, hfirstY, hsecondX, hsecondY, htreasury, hfirstKey,
      hsecondKey, hnonce⟩
  · rintro ⟨alternative, fields, rfl, h⟩
    refine Option.bind_eq_some_iff.mpr ⟨_, h.adminAddress, ?_⟩
    refine Option.bind_eq_some_iff.mpr ⟨_, h.poolNft, ?_⟩
    refine Option.bind_eq_some_iff.mpr ⟨_, h.assetX, ?_⟩
    refine Option.bind_eq_some_iff.mpr ⟨_, h.assetY, ?_⟩
    refine Option.bind_eq_some_iff.mpr ⟨_, h.assetLq, ?_⟩
    refine Option.bind_eq_some_iff.mpr ⟨_, h.lpFeeNum, ?_⟩
    refine Option.bind_eq_some_iff.mpr ⟨_, h.treasuryFeeNum, ?_⟩
    refine Option.bind_eq_some_iff.mpr ⟨_, h.firstRoyaltyFeeNum, ?_⟩
    refine Option.bind_eq_some_iff.mpr ⟨_, h.secondRoyaltyFeeNum, ?_⟩
    refine Option.bind_eq_some_iff.mpr ⟨_, h.treasuryX, ?_⟩
    refine Option.bind_eq_some_iff.mpr ⟨_, h.treasuryY, ?_⟩
    refine Option.bind_eq_some_iff.mpr ⟨_, h.firstRoyaltyX, ?_⟩
    refine Option.bind_eq_some_iff.mpr ⟨_, h.firstRoyaltyY, ?_⟩
    refine Option.bind_eq_some_iff.mpr ⟨_, h.secondRoyaltyX, ?_⟩
    refine Option.bind_eq_some_iff.mpr ⟨_, h.secondRoyaltyY, ?_⟩
    refine Option.bind_eq_some_iff.mpr ⟨_, h.treasuryAddress, ?_⟩
    refine Option.bind_eq_some_iff.mpr ⟨_, h.firstRoyaltyPubKey, ?_⟩
    refine Option.bind_eq_some_iff.mpr ⟨_, h.secondRoyaltyPubKey, ?_⟩
    refine Option.bind_eq_some_iff.mpr ⟨_, h.nonce, ?_⟩
    rfl

theorem ReadsAs.update (h : ReadsAs fields conf) (hp : p.Words) :
    ReadsAs (setEach p.updatesV2 fields) { conf with
      lpFeeNum := p.lpFee.numer
      treasuryFeeNum := p.treasuryFee.numer
      firstRoyaltyFeeNum := p.firstRoyaltyFee.numer
      secondRoyaltyFeeNum := p.secondRoyaltyFee.numer
      treasuryX := p.treasuryX
      treasuryY := p.treasuryY
      firstRoyaltyX := p.firstRoyaltyX
      firstRoyaltyY := p.firstRoyaltyY
      secondRoyaltyX := p.secondRoyaltyX
      secondRoyaltyY := p.secondRoyaltyY
      nonce := p.nonce
      adminAddress := p.adminAddress
      treasuryAddress := p.treasuryAddress.toRawBytes } where
  adminAddress := by
    obtain ⟨pd, hpd, -⟩ := Option.bind_eq_some_iff.mp h.adminAddress
    rw [takeField_of_lookup p.nodup_updatesV2 rfl (List.getElem?_eq_some_iff.mp hpd).1]
    exact firstScriptHash_adminAddresses _
  poolNft := (assetAt_kept rfl).trans h.poolNft
  assetX := (assetAt_kept rfl).trans h.assetX
  assetY := (assetAt_kept rfl).trans h.assetY
  assetLq := (assetAt_kept rfl).trans h.assetLq
  lpFeeNum := u64At_setEach p.nodup_updatesV2 rfl hp.lpFee h.lpFeeNum
  treasuryFeeNum := u64At_setEach p.nodup_updatesV2 rfl hp.treasuryFee h.treasuryFeeNum
  firstRoyaltyFeeNum := u64At_setEach p.nodup_updatesV2 rfl hp.firstRoyaltyFee h.firstRoyaltyFeeNum
  secondRoyaltyFeeNum :=
    u64At_setEach p.nodup_updatesV2 rfl hp.secondRoyaltyFee h.secondRoyaltyFeeNum
  treasuryX := u64At_setEach p.nodup_updatesV2 rfl hp.treasuryX h.treasuryX
  treasuryY := u64At_setEach p.nodup_updatesV2 rfl hp.treasuryY h.treasuryY
  firstRoyaltyX := u64At_setEach p.nodup_updatesV2 rfl hp.firstRoyaltyX h.firstRoyaltyX
  firstRoyaltyY := u64At_setEach p.nodup_updatesV2 rfl hp.firstRoyaltyY h.firstRoyaltyY
  secondRoyaltyX := u64At_setEach p.nodup_updatesV2 rfl hp.secondRoyaltyX h.secondRoyaltyX
  secondRoyaltyY := u64At_setEach p.nodup_updatesV2 rfl hp.secondRoyaltyY h.secondRoyaltyY
  treasuryAddress := by
    obtain ⟨hlt, -⟩ := List.getElem?_eq_some_iff.mp (takeField_of_bytesAt h.treasuryAddress)
    rw [bytesAt, takeField_of_lookup p.nodup_updatesV2 rfl hlt]
    rfl
  firstRoyaltyPubKey := (bytesAt_kept rfl).trans h.firstRoyaltyPubKey
  secondRoyaltyPubKey := (bytesAt_kept rfl).trans h.secondRoyaltyPubKey
  nonce := u64At_setEach p.nodup_updatesV2 rfl hp.nonce h.nonce

/-- What is written of a pool besides what it has collected is what has been read. -/
structure Terms (conf : RoyaltyPoolV2Config) (p : RoyaltyPool) : Prop where
  lpFee : p.lpFee.numer = conf.lpFeeNum
  treasuryFee : p.treasuryFee.numer = conf.treasuryFeeNum
  firstRoyaltyFee : p.firstRoyaltyFee.numer = conf.firstRoyaltyFeeNum
  secondRoyaltyFee : p.secondRoyaltyFee.numer = conf.secondRoyaltyFeeNum
  treasuryAddress : p.treasuryAddress.toRawBytes = conf.treasuryAddress
  nonce : p.nonce = conf.nonce

theorem ReadsAs.keptBut_iff (h : ReadsAs fields conf) (hp : conf.Terms p) :
    KeptBut [8, 9, 10, 11, 12, 13] fields (setEach p.updatesV2 fields) ↔
      takeField fields 14 = some (adminAddresses p.adminAddress) := by
  constructor
  · intro hkept
    obtain ⟨pd, hpd, -⟩ := Option.bind_eq_some_iff.mp h.adminAddress
    exact hkept.same p.nodup_updatesV2 rfl (by decide) (List.getElem?_eq_some_iff.mp hpd).1
  · intro hadmin
    refine keptBut_setEach p.nodup_updatesV2 ?_
    simp only [RoyaltyPool.updatesV2, List.forall_mem_cons, List.not_mem_nil, false_implies,
      implies_true, and_true]
    rw [hp.lpFee, hp.treasuryFee, hp.firstRoyaltyFee, hp.secondRoyaltyFee, hp.treasuryAddress,
      hp.nonce]
    refine ⟨fun _ => takeField_of_u64At h.lpFeeNum, fun _ => takeField_of_u64At h.treasuryFeeNum,
      fun _ => takeField_of_u64At h.firstRoyaltyFeeNum,
      fun _ => takeField_of_u64At h.secondRoyaltyFeeNum, ?_, ?_, ?_, ?_, ?_, ?_, fun _ => hadmin,
      fun _ => takeField_of_bytesAt h.treasuryAddress, fun _ => takeField_of_u64At h.nonce⟩
    · exact fun hi => absurd (by decide) hi
    · exact fun hi => absurd (by decide) hi
    · exact fun hi => absurd (by decide) hi
    · exact fun hi => absurd (by decide) hi
    · exact fun hi => absurd (by decide) hi
    · exact fun hi => absurd (by decide) hi

end RoyaltyPoolV2Config

/-! ### Degen pools -/

namespace QuadraticPoolConfig

variable {conf : QuadraticPoolConfig}

structure ReadsAs (fields : List PlutusData) (conf : QuadraticPoolConfig) : Prop where
  poolNft : assetAt fields 0 = some conf.poolNft
  assetX : assetAt fields 1 = some conf.assetX
  assetY : assetAt fields 2 = some conf.assetY
  aNum : u64At fields 3 = some conf.aNum
  bNum : u64At fields 4 = some conf.bNum
  operatorPkh : (bytesAt fields 5).bind RawBytes.fromRawBytes = some conf.operatorPkh
  xCapThr : u64At fields 6 = some conf.xCapThr

theorem tryFromPd_eq_some : tryFromPd data = some conf ↔
    ∃ alternative fields, data = .constr alternative fields ∧ ReadsAs fields conf := by
  constructor
  · intro h
    obtain ⟨⟨alternative, fields⟩, hconstr, h⟩ := Option.bind_eq_some_iff.mp h
    obtain ⟨nft, hnft, h⟩ := Option.bind_eq_some_iff.mp h
    obtain ⟨assetX, hassetX, h⟩ := Option.bind_eq_some_iff.mp h
    obtain ⟨assetY, hassetY, h⟩ := Option.bind_eq_some_iff.mp h
    obtain ⟨aNum, haNum, h⟩ := Option.bind_eq_some_iff.mp h
    obtain ⟨bNum, hbNum, h⟩ := Option.bind_eq_some_iff.mp h
    obtain ⟨pkhBytes, hpkhBytes, h⟩ := Option.bind_eq_some_iff.mp h
    obtain ⟨pkh, hpkh, h⟩ := Option.bind_eq_some_iff.mp h
    obtain ⟨capThr, hcapThr, h⟩ := Option.bind_eq_some_iff.mp h
    cases h
    cases data <;> cases hconstr
    exact ⟨_, _, rfl, hnft, hassetX, hassetY, haNum, hbNum,
      Option.bind_eq_some_iff.mpr ⟨_, hpkhBytes, hpkh⟩, hcapThr⟩
  · rintro ⟨alternative, fields, rfl, h⟩
    obtain ⟨pkhBytes, hpkhBytes, hpkh⟩ := Option.bind_eq_some_iff.mp h.operatorPkh
    refine Option.bind_eq_some_iff.mpr ⟨_, h.poolNft, ?_⟩
    refine Option.bind_eq_some_iff.mpr ⟨_, h.assetX, ?_⟩
    refine Option.bind_eq_some_iff.mpr ⟨_, h.assetY, ?_⟩
    refine Option.bind_eq_some_iff.mpr ⟨_, h.aNum, ?_⟩
    refine Option.bind_eq_some_iff.mpr ⟨_, h.bNum, ?_⟩
    refine Option.bind_eq_some_iff.mpr ⟨_, hpkhBytes, ?_⟩
    refine Option.bind_eq_some_iff.mpr ⟨_, hpkh, ?_⟩
    refine Option.bind_eq_some_iff.mpr ⟨_, h.xCapThr, ?_⟩
    rfl

end QuadraticPoolConfig

namespace QuadraticPoolT2TConfig

variable {conf : QuadraticPoolT2TConfig}

structure ReadsAs (fields : List PlutusData) (conf : QuadraticPoolT2TConfig) : Prop where
  base : QuadraticPoolConfig.ReadsAs fields conf.toQuadraticPoolConfig
  accumulatedXFee : u64At fields 7 = some conf.accumulatedXFee

theorem tryFromPd_eq_some : tryFromPd data = some conf ↔
    ∃ alternative fields, data = .constr alternative fields ∧ ReadsAs fields conf := by
  constructor
  · intro h
    obtain ⟨base, hbase, h⟩ := Option.bind_eq_some_iff.mp h
    obtain ⟨⟨alternative, fields⟩, hconstr, h⟩ := Option.bind_eq_some_iff.mp h
    obtain ⟨fee, hfee, h⟩ := Option.bind_eq_some_iff.mp h
    cases h
    cases data <;> cases hconstr
    obtain ⟨_, _, heq, hreads⟩ := QuadraticPoolConfig.tryFromPd_eq_some.mp hbase
    cases heq
    exact ⟨_, _, rfl, hreads, hfee⟩
  · rintro ⟨alternative, fields, rfl, hbase, hfee⟩
    refine Option.bind_eq_some_iff.mpr
      ⟨_, QuadraticPoolConfig.tryFromPd_eq_some.mpr ⟨_, _, rfl, hbase⟩, ?_⟩
    exact Option.bind_eq_some_iff.mpr ⟨(alternative, fields), rfl,
      Option.bind_eq_some_iff.mpr ⟨_, hfee, rfl⟩⟩

/-- The field of the fee collected. -/
def updates (fee : Nat) : List (Nat × PlutusData) := [(7, .integer fee)]

theorem ReadsAs.update (h : ReadsAs fields conf) (hx : x < 2 ^ 64) :
    ReadsAs (setEach (updates x) fields) { conf with accumulatedXFee := x } where
  base := {
    poolNft := (assetAt_kept rfl).trans h.base.poolNft
    assetX := (assetAt_kept rfl).trans h.base.assetX
    assetY := (assetAt_kept rfl).trans h.base.assetY
    aNum := (u64At_kept rfl).trans h.base.aNum
    bNum := (u64At_kept rfl).trans h.base.bNum
    operatorPkh := by
      rw [bytesAt_kept rfl]
      exact h.base.operatorPkh
    xCapThr := (u64At_kept rfl).trans h.base.xCapThr }
  accumulatedXFee := u64At_setEach (List.nodup_singleton (7 : Nat)) rfl hx h.accumulatedXFee

end QuadraticPoolT2TConfig

end

end UtxoMonitor.Pools
