import UtxoMonitor.Cardano.PlutusData
import UtxoMonitor.Lib.Checked
import UtxoMonitor.Lib.Padding

/-! Names of the ledger, padded names, and the bytes of an asset class. -/
namespace UtxoMonitor.LiquidityBook

open Lib

namespace AssetName

/-- `From<cml_chain::assets::AssetName>` -/
def ofLedger (value : UtxoMonitor.AssetName) : Checked AssetName :=
  Checked.unwrap (tryFrom value.val)

theorem length_asBytes (name : AssetName) : name.asBytes.length ≤ 32 := by
  simp [asBytes]

/-- `From<AssetName>` for a name of the ledger: there have to be as many bytes as the length says. -/
def intoLedger (name : AssetName) : Checked UtxoMonitor.AssetName :=
  Checked.unwrap (if name.len.toNat ≤ 32 then some ⟨name.asBytes, name.length_asBytes⟩ else none)

/-- `&self.1[0..self.0 as usize]` -/
def slice (name : AssetName) : Checked Bytes := Subtype.val <$> name.intoLedger

/-- A name of the ledger with its length, and zeros up to 32 bytes. -/
def padded (name : UtxoMonitor.AssetName) : AssetName :=
  ⟨UInt8.ofNat name.val.length, ⟨padTo 32 0 name.val, length_padTo name.property⟩⟩

variable {name name' : UtxoMonitor.AssetName}

theorem val_inj : name.val = name'.val ↔ name = name' := Subtype.val_injective.eq_iff

@[simp] theorem tryFrom_val (name : UtxoMonitor.AssetName) :
    tryFrom name.val = some (padded name) := by
  rw [tryFrom, dif_pos name.property]
  rfl

theorem tryFrom_eq_none {value : Bytes} : tryFrom value = none ↔ 32 < value.length := by
  rw [tryFrom]
  split
  · rename_i h
    simpa using h
  · rename_i h
    simpa using h

/-- The names that are made of bytes are the padded ones. -/
theorem tryFrom_eq_some {value : Bytes} {made : AssetName} :
    tryFrom value = some made ↔ ∃ name, name.val = value ∧ padded name = made := by
  constructor
  · intro h
    have hle : value.length ≤ 32 := by
      apply Nat.le_of_not_lt
      intro hlt
      rw [tryFrom_eq_none.mpr hlt] at h
      cases h
    refine ⟨⟨value, hle⟩, rfl, ?_⟩
    have hmade := tryFrom_val ⟨value, hle⟩
    rw [h] at hmade
    exact (Option.some.inj hmade).symm
  · rintro ⟨name, rfl, rfl⟩
    exact tryFrom_val name

@[simp] theorem ofLedger_eq (name : UtxoMonitor.AssetName) : ofLedger name = .ok (padded name) := by
  rw [ofLedger, tryFrom_val]
  rfl

@[simp] theorem len_padded (name : UtxoMonitor.AssetName) :
    (padded name).len.toNat = name.val.length := by
  have h := name.property
  simp only [padded, UInt8.toNat_ofNat']
  omega

@[simp] theorem asBytes_padded (name : UtxoMonitor.AssetName) : (padded name).asBytes = name.val := by
  rw [asBytes, len_padded]
  exact List.take_left' rfl

@[simp] theorem intoLedger_padded (name : UtxoMonitor.AssetName) :
    (padded name).intoLedger = .ok name := by
  have h : (padded name).len.toNat ≤ 32 := by
    rw [len_padded]
    exact name.property
  rw [intoLedger, if_pos h]
  exact congrArg Except.ok (Subtype.ext (asBytes_padded name))

@[simp] theorem slice_padded (name : UtxoMonitor.AssetName) : (padded name).slice = .ok name.val := by
  rw [slice, intoLedger_padded]
  rfl

theorem padded_injective : Function.Injective padded := by
  intro name name' h
  apply Subtype.ext
  rw [← asBytes_padded name, h, asBytes_padded]

@[simp] theorem padded_inj : padded name = padded name' ↔ name = name' := padded_injective.eq_iff

end AssetName

/-! ### Assets -/

/-- An asset of the ledger. -/
inductive Asset where
  | native
  | token (policy : PolicyId) (name : UtxoMonitor.AssetName)
deriving DecidableEq

def Asset.toClass : Asset → AssetClass
  | native => .native
  | token policy name => .token ⟨policy, .padded name⟩

theorem Asset.toClass_injective : Function.Injective Asset.toClass := by
  intro a b h
  cases a <;> cases b <;> simp_all [Asset.toClass]

namespace AssetClass

def toBytes : AssetClass → Checked Bytes
  | native => return [0]
  | token t => do return t.policyId.toRawBytes ++ (← t.assetName.slice)

/-- `AssetName::new` of the ledger library is given: it makes a name of bytes, or refuses them. -/
def fromBytes (new : Bytes → Option Bytes) (bs : Bytes) : Checked (Option AssetClass) :=
  if bs = [0] then return some .native
  else if 28 ≤ bs.length then
    match RawBytes.fromRawBytes (bs.take 28), new (bs.drop 28) with
    | some policy, some name => do
      return some (.token ⟨policy, ← Checked.unwrap (AssetName.tryFrom name)⟩)
    | _, _ => return none
  else return none

/-- What is made is a name of the ledger: at most 32 bytes, kept as they are. -/
structure MakesNames (new : Bytes → Option Bytes) : Prop where
  keeps : ∀ bs name, new bs = some name → name = bs
  accepts : ∀ bs, bs.length ≤ 32 → (new bs).isSome
  rejects : ∀ bs, 32 < bs.length → new bs = none

variable {new : Bytes → Option Bytes}

@[simp] theorem toBytes_toClass_native : toBytes Asset.native.toClass = .ok [0] := rfl

@[simp] theorem toBytes_toClass_token (policy : PolicyId) (name : UtxoMonitor.AssetName) :
    toBytes (Asset.token policy name).toClass = .ok (policy.toRawBytes ++ name.val) := by
  rw [Asset.toClass, toBytes, AssetName.slice_padded]
  rfl

theorem MakesNames.eq_some (h : MakesNames new) (name : UtxoMonitor.AssetName) :
    new name.val = some name.val := by
  obtain ⟨made, hmade⟩ := Option.isSome_iff_exists.mp (h.accepts name.val name.property)
  rw [hmade, h.keeps name.val made hmade]

theorem fromBytes_native (new : Bytes → Option Bytes) :
    fromBytes new [0] = .ok (some Asset.native.toClass) := rfl

theorem fromBytes_token (h : MakesNames new) (policy : PolicyId) (name : UtxoMonitor.AssetName) :
    fromBytes new (policy.toRawBytes ++ name.val) =
      .ok (some (Asset.token policy name).toClass) := by
  have hlength := policy.length_toRawBytes
  have hne : policy.toRawBytes ++ name.val ≠ [0] := by
    intro heq
    have := congrArg List.length heq
    simp only [List.length_append, List.length_cons, List.length_nil] at this
    omega
  have hle : 28 ≤ (policy.toRawBytes ++ name.val).length := by
    rw [List.length_append]
    omega
  have hpolicy : RawBytes.fromRawBytes policy.toRawBytes = some policy := by
    rw [RawBytes.fromRawBytes, dif_pos hlength]
    rfl
  rw [fromBytes, if_neg hne, if_pos hle, List.take_left' hlength, List.drop_left' hlength, hpolicy,
    h.eq_some name]
  dsimp only
  rw [AssetName.tryFrom_val]
  rfl

/-- What is read is an asset, and it is written as the bytes it was read from. -/
theorem of_fromBytes (h : MakesNames new) (bs : Bytes) : fromBytes new bs = .ok none ∨
    ∃ asset : Asset, fromBytes new bs = .ok (some asset.toClass) ∧ toBytes asset.toClass = .ok bs := by
  by_cases hzero : bs = [0]
  · subst hzero
    exact .inr ⟨.native, fromBytes_native new, toBytes_toClass_native⟩
  by_cases hpolicy : 28 ≤ bs.length
  · by_cases hname : (bs.drop 28).length ≤ 32
    · have hlength : (bs.take 28).length = 28 := by
        rw [List.length_take]
        omega
      have hread := fromBytes_token h ⟨bs.take 28, hlength⟩ ⟨bs.drop 28, hname⟩
      have hwrite := toBytes_toClass_token ⟨bs.take 28, hlength⟩ ⟨bs.drop 28, hname⟩
      have hsplit : RawBytes.toRawBytes ⟨bs.take 28, hlength⟩ ++ bs.drop 28 = bs :=
        List.take_append_drop 28 bs
      dsimp only at hread hwrite
      rw [hsplit] at hread hwrite
      exact .inr ⟨_, hread, hwrite⟩
    · left
      rw [fromBytes, if_neg hzero, if_pos hpolicy, h.rejects _ (by omega)]
      split
      · rename_i hsome
        cases hsome
      · rfl
  · left
    rw [fromBytes, if_neg hzero, if_neg hpolicy]
    rfl

/-- An asset is read back from its bytes, no two assets share their bytes, and bytes that are read
are those of the asset. -/
structure ReadsBack (new : Bytes → Option Bytes) : Prop where
  back : ∀ asset : Asset, (toBytes asset.toClass >>= fromBytes new) = .ok (some asset.toClass)
  injective : ∀ a b : Asset, toBytes a.toClass = toBytes b.toClass → a = b
  rejects_or_reads : ∀ bs, fromBytes new bs = .ok none ∨
    ∃ asset, fromBytes new bs = .ok (some asset) ∧ toBytes asset = .ok bs

theorem bytes_read_back (h : MakesNames new) : ReadsBack new := by
  have hback : ∀ asset : Asset,
      (toBytes asset.toClass >>= fromBytes new) = .ok (some asset.toClass) := by
    intro asset
    cases asset with
    | native => exact fromBytes_native new
    | token policy name =>
      rw [toBytes_toClass_token]
      exact fromBytes_token h policy name
  constructor
  case back => exact hback
  case injective =>
    intro a b hab
    have ha := hback a
    rw [hab, hback b] at ha
    exact Asset.toClass_injective (Option.some.inj (Except.ok.inj ha)).symm
  case rejects_or_reads =>
    intro bs
    rcases of_fromBytes h bs with hnone | ⟨asset, hread, hwrite⟩
    · exact .inl hnone
    · exact .inr ⟨asset.toClass, hread, hwrite⟩

/-- With a library that checks the length. -/
theorem bytes_read_back_checked : ReadsBack fun bs => if bs.length ≤ 32 then some bs else none :=
  bytes_read_back {
    keeps := by
      intro bs name h
      split at h <;> cases h
      rfl
    accepts := by
      intro bs h
      rw [if_pos h]
      rfl
    rejects := by
      intro bs h
      rw [if_neg (by omega)] }

end AssetClass

end UtxoMonitor.LiquidityBook
