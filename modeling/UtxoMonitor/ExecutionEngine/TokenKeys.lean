import UtxoMonitor.Cardano.AssetNames
import UtxoMonitor.ExecutionEngine.Storage
import UtxoMonitor.Lib.Padding
import UtxoMonitor.Orders.Instant

/-! The keys of entities that a token stands for: a token in 60 bytes, and back. -/
namespace UtxoMonitor.LiquidityBook

open Lib ExecutionEngine Domain

/-- The token of some policy and a name of the ledger. -/
def Token.named (policy : PolicyId) (name : UtxoMonitor.AssetName) : Token :=
  ⟨policy, AssetName.padded name⟩

namespace Token

/-- `From<Token> for [u8; Token::BYTE_COUNT]` -/
def intoKey (value : Token) : RawBytes 60 :=
  ⟨value.policyId.toRawBytes ++ value.assetName.bytes.toRawBytes, by simp⟩

/-- `From<[u8; Token::BYTE_COUNT]> for Token` -/
def fromKey (value : RawBytes 60) : Checked Token := do
  let policyId ← Checked.unwrap (RawBytes.fromRawBytes (value.toRawBytes.take 28))
  let assetName ← Checked.unwrap (AssetName.tryFrom (value.toRawBytes.drop 28))
  return ⟨policyId, assetName⟩

/-- `index_key` of an id that is a token. -/
def indexKey (key : UInt8) (id : Token) : InMemoryIndexKey :=
  ⟨key :: id.intoKey.val, by rw [List.length_cons, id.intoKey.property]⟩

/-- The keys of an index whose ids are written as tokens. -/
theorem indexKey_of_rawId {T : Type} [EntitySnapshot T] [RawStableId T] {token : StableId T → Token}
    (hraw : ∀ sid : StableId T, rawId sid = (token sid).intoKey) (key : StateKey)
    (sid : StableId T) : ExecutionEngine.indexKey key sid = indexKey key.byte (token sid) := by
  apply Subtype.ext
  show key.byte :: (rawId sid).val = key.byte :: (token sid).intoKey.val
  rw [hraw]

variable {t u : Token} {policy policy' : PolicyId} {name name' : UtxoMonitor.AssetName}

/-! ### Keys that agree -/

theorem intoKey_inj : t.intoKey = u.intoKey ↔
    t.policyId = u.policyId ∧ t.assetName.bytes = u.assetName.bytes := by
  constructor
  · intro h
    have hbytes := congrArg Subtype.val h
    have hlength : t.policyId.toRawBytes.length = u.policyId.toRawBytes.length := by simp
    obtain ⟨hpolicy, hname⟩ := List.append_inj hbytes hlength
    exact ⟨Subtype.ext hpolicy, Subtype.ext hname⟩
  · rintro ⟨hpolicy, hname⟩
    apply Subtype.ext
    show t.policyId.toRawBytes ++ t.assetName.bytes.toRawBytes = _
    rw [hpolicy, hname]
    rfl

theorem bytes_padded (name : UtxoMonitor.AssetName) :
    (AssetName.padded name).bytes.toRawBytes = padTo 32 0 name.val := rfl

theorem bytes_padded_inj : (AssetName.padded name).bytes = (AssetName.padded name').bytes ↔
    name = name' ∨ DifferInPadding 0 name.val name'.val := by
  rw [← RawBytes.toRawBytes_injective.eq_iff, bytes_padded, bytes_padded,
    padTo_eq_padTo name.property name'.property, AssetName.val_inj]

/-- The length of a name is not in the key: names that differ in zeros at the end share it. -/
theorem intoKey_named_inj : (named policy name).intoKey = (named policy' name').intoKey ↔
    policy = policy' ∧ (name = name' ∨ DifferInPadding 0 name.val name'.val) := by
  rw [intoKey_inj, named, named, bytes_padded_inj]

theorem named_inj : named policy name = named policy' name' ↔ policy = policy' ∧ name = name' := by
  rw [named, named, Token.mk.injEq, AssetName.padded_inj]

/-- The tokens of these names are told apart by their keys. -/
theorem eq_of_intoKey_iff : ((named policy name).intoKey = (named policy' name').intoKey →
    named policy name = named policy' name') ↔
    ¬ (policy = policy' ∧ DifferInPadding 0 name.val name'.val) := by
  rw [intoKey_named_inj, named_inj]
  constructor
  · rintro h ⟨hpolicy, hdiffer⟩
    have heq := (h ⟨hpolicy, .inr hdiffer⟩).2
    exact hdiffer.ne (congrArg Subtype.val heq)
  · rintro h ⟨hpolicy, heq | hdiffer⟩
    · exact ⟨hpolicy, heq⟩
    · exact absurd ⟨hpolicy, hdiffer⟩ h

theorem indexKey_inj {key key' : UInt8} :
    indexKey key t = indexKey key' u ↔ key = key' ∧ t.intoKey = u.intoKey := by
  constructor
  · intro h
    obtain ⟨hkey, hid⟩ := List.cons.inj (congrArg Subtype.val h)
    exact ⟨hkey, Subtype.ext hid⟩
  · rintro ⟨rfl, hid⟩
    apply Subtype.ext
    show key :: t.intoKey.val = key :: u.intoKey.val
    rw [hid]

theorem byte_injective : Function.Injective StateKey.byte := by
  intro key key' h
  cases key <;> cases key' <;> first | rfl | exact absurd h (by decide)

/-- The references of entities with these tokens are told apart by the keys of the index. -/
theorem eq_of_indexKey_iff {key key' : StateKey} :
    (indexKey key.byte (named policy name) = indexKey key'.byte (named policy' name') →
      key = key' ∧ named policy name = named policy' name') ↔
    ¬ (key = key' ∧ policy = policy' ∧ DifferInPadding 0 name.val name'.val) := by
  rw [indexKey_inj, byte_injective.eq_iff]
  by_cases hkey : key = key'
  · rw [eq_true hkey, true_and, true_and, true_and, eq_of_intoKey_iff]
  · rw [eq_false hkey, false_and, false_and, false_and, not_false_eq_true]
    exact iff_of_true False.elim trivial

/-! ### Keys read back -/

/-- What is read from a key has a name of 32 bytes. -/
theorem fromKey_intoKey (t : Token) : fromKey t.intoKey = .ok ⟨t.policyId, ⟨32, t.assetName.bytes⟩⟩ := by
  have htake : t.intoKey.toRawBytes.take 28 = t.policyId.toRawBytes :=
    List.take_left' t.policyId.length_toRawBytes
  have hdrop : t.intoKey.toRawBytes.drop 28 = t.assetName.bytes.toRawBytes :=
    List.drop_left' t.policyId.length_toRawBytes
  have hpolicy : RawBytes.fromRawBytes t.policyId.toRawBytes = some t.policyId := by
    rw [RawBytes.fromRawBytes, dif_pos t.policyId.length_toRawBytes]
    rfl
  have hlength := t.assetName.bytes.length_toRawBytes
  have hname : AssetName.tryFrom t.assetName.bytes.toRawBytes = some ⟨32, t.assetName.bytes⟩ := by
    rw [AssetName.tryFrom, dif_pos (Nat.le_of_eq hlength)]
    congr 2
    · rw [hlength]
      rfl
    · exact Subtype.ext (padTo_of_length hlength)
  rw [fromKey, htake, hdrop, hpolicy, hname]
  rfl

theorem fromKey_named_iff :
    fromKey (named policy name).intoKey = .ok (named policy name) ↔ name.val.length = 32 := by
  rw [fromKey_intoKey, Except.ok.injEq]
  constructor
  · intro h
    have hlen := congrArg (fun t => t.assetName.len.toNat) h
    exact (hlen.trans (AssetName.len_padded name)).symm
  · intro h
    have hlen : (AssetName.padded name).len = 32 := by
      rw [← UInt8.toNat_inj, AssetName.len_padded, h]
      rfl
    rw [← hlen]
    rfl

end Token

end UtxoMonitor.LiquidityBook

/-! ### Keys of references -/

namespace UtxoMonitor.Orders.InstantOrder

open Lib LiquidityBook ExecutionEngine

/-- The 60 bytes that are made of a reference. -/
def pseudoBeacon (oref : OutputRef) : RawBytes 60 :=
  ⟨oref.txHash.toRawBytes ++ bigEndian 8 oref.index.toNat ++ List.replicate 20 0, by simp⟩

theorem intoKey_beaconFromOref (oref : OutputRef) :
    (beaconFromOref oref).intoKey = pseudoBeacon oref :=
  Subtype.ext (List.take_append_drop 28 _)

/-- The beacon is the token of these bytes. -/
theorem fromKey_pseudoBeacon (oref : OutputRef) :
    Token.fromKey (pseudoBeacon oref) = .ok (beaconFromOref oref) := by
  rw [← intoKey_beaconFromOref]
  exact Token.fromKey_intoKey (beaconFromOref oref)

theorem beaconFromOref_injective : Function.Injective beaconFromOref := by
  intro oref oref' h
  have hkey := congrArg Token.intoKey h
  rw [intoKey_beaconFromOref, intoKey_beaconFromOref] at hkey
  have hbytes := congrArg Subtype.val hkey
  have hleft := List.append_inj_left hbytes (by simp)
  obtain ⟨hhash, hindex⟩ := List.append_inj hleft (by simp)
  rw [bigEndian_inj oref.index.toNat_lt oref'.index.toNat_lt, UInt64.toNat_inj] at hindex
  cases oref
  cases oref'
  exact congrArg₂ OutputRef.mk (Subtype.ext hhash) hindex

end UtxoMonitor.Orders.InstantOrder

namespace UtxoMonitor.LiquidityBook.Token

/-- Two tokens are told apart by their keys, and by the keys of their references in an index, exactly
if their names do not differ in zeros at the end alone; a token is read back from its key exactly if
its name has all the bytes; and the beacons of references are never the same. -/
theorem keys_of_tokens_iff (policy policy' : PolicyId) (name name' : UtxoMonitor.AssetName)
    (key key' : ExecutionEngine.StateKey) :
    (((named policy name).intoKey = (named policy' name').intoKey →
        named policy name = named policy' name') ↔
      ¬ (policy = policy' ∧ Lib.DifferInPadding 0 name.val name'.val)) ∧
    ((indexKey key.byte (named policy name) = indexKey key'.byte (named policy' name') →
        key = key' ∧ named policy name = named policy' name') ↔
      ¬ (key = key' ∧ policy = policy' ∧ Lib.DifferInPadding 0 name.val name'.val)) ∧
    (fromKey (named policy name).intoKey = .ok (named policy name) ↔ name.val.length = 32) ∧
    Function.Injective Orders.InstantOrder.beaconFromOref :=
  ⟨eq_of_intoKey_iff, eq_of_indexKey_iff, fromKey_named_iff,
    Orders.InstantOrder.beaconFromOref_injective⟩

/-- A token without a name. -/
def unnamed : Token := named (.replicate 1) ⟨[], by decide⟩

/-- A token whose name is a zero. -/
def zeroNamed : Token := named (.replicate 1) ⟨[0], by decide⟩

theorem key_shared : unnamed ≠ zeroNamed ∧ unnamed.intoKey = zeroNamed.intoKey ∧
    indexKey 3 unnamed = indexKey 3 zeroNamed ∧ fromKey unnamed.intoKey ≠ .ok unnamed := by
  decide +kernel

end UtxoMonitor.LiquidityBook.Token
