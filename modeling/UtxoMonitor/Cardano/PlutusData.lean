import Mathlib.Data.List.TakeDrop
import UtxoMonitor.LiquidityBook.LimitOrder

/-! Plutus data: how the entities of the protocol are read from a datum and written to one. -/
namespace UtxoMonitor

open Lib

/-- A value of a datum, without the layout of its bytes. -/
inductive PlutusData where
  | constr (alternative : Nat) (fields : List PlutusData)
  | map (entries : List (PlutusData × PlutusData))
  | list (items : List PlutusData)
  | integer (value : Int)
  | bytes (bytes : Bytes)

namespace PlutusData

def intoConstrPd : PlutusData → Option (Nat × List PlutusData)
  | constr alternative fields => some (alternative, fields)
  | _ => none

def intoBytes : PlutusData → Option Bytes
  | bytes bs => some bs
  | _ => none

def intoU64 : PlutusData → Option Nat
  | integer n => if 0 ≤ n ∧ n < 2 ^ 64 then some n.toNat else none
  | _ => none

def intoVec : PlutusData → Option (List PlutusData)
  | list items => some items
  | _ => none

/-- The items that can be read: the others are left out. -/
def intoVecPd {T : Type} (f : PlutusData → Option T) (pd : PlutusData) : Option (List T) :=
  pd.intoVec.map fun items => items.filterMap f

theorem intoU64_lt {pd : PlutusData} {n : Nat} (h : pd.intoU64 = some n) : n < 2 ^ 64 := by
  cases pd with
  | integer value =>
    simp only [intoU64, Option.ite_none_right_eq_some, Option.some.injEq] at h
    omega
  | _ => cases h

end PlutusData

/-! ### Fields of a constructor -/

/-- `take_field`: what it leaves behind is not read again. -/
def takeField (fields : List PlutusData) (index : Nat) : Option PlutusData := fields[index]?

def u64At (fields : List PlutusData) (index : Nat) : Option Nat :=
  (takeField fields index).bind PlutusData.intoU64

def bytesAt (fields : List PlutusData) (index : Nat) : Option Bytes :=
  (takeField fields index).bind PlutusData.intoBytes

theorem u64At_lt {fields : List PlutusData} {i n : Nat} (h : u64At fields i = some n) :
    n < 2 ^ 64 := by
  obtain ⟨pd, -, hpd⟩ := Option.bind_eq_some_iff.mp h
  exact PlutusData.intoU64_lt hpd

/-! ### Assets -/

namespace LiquidityBook

/-- `TryFrom<Vec<u8>>` -/
def AssetName.tryFrom (value : Bytes) : Option AssetName :=
  if h : value.length ≤ 32 then
    some ⟨UInt8.ofNat value.length,
      ⟨value ++ List.replicate (32 - value.length) 0, by
        rw [List.length_append, List.length_replicate]
        omega⟩⟩
  else none

def AssetName.asBytes (name : AssetName) : Bytes := name.bytes.toRawBytes.take name.len.toNat

def Token.intoPd (token : Token) : PlutusData :=
  .constr 0 [.bytes token.policyId.toRawBytes, .bytes token.assetName.asBytes]

def AssetClass.tryFromPd (data : PlutusData) : Option AssetClass := do
  let (_, fields) ← data.intoConstrPd
  let policyBytes ← bytesAt fields 0
  if policyBytes = [] then return .native
  else
    let policyId ← RawBytes.fromRawBytes policyBytes
    let assetName ← AssetName.tryFrom (← bytesAt fields 1)
    return .token ⟨policyId, assetName⟩

def AssetClass.intoToken : AssetClass → Option Token
  | native => none
  | token t => some t

end LiquidityBook

open LiquidityBook in
def assetAt (fields : List PlutusData) (index : Nat) : Option AssetClass :=
  (takeField fields index).bind AssetClass.tryFromPd

/-! ### Credentials and addresses -/

abbrev PlutusCredential := Credential

def PlutusCredential.tryFromPd (data : PlutusData) : Option PlutusCredential := do
  let (alternative, fields) ← data.intoConstrPd
  let hash ← RawBytes.fromRawBytes (← bytesAt fields 0)
  match alternative with
  | 0 => return .pubKey hash
  | 1 => return .script hash
  | _ => none

def PlutusCredential.intoPd : PlutusCredential → PlutusData
  | .pubKey hash => .constr 0 [.bytes hash.toRawBytes]
  | .script hash => .constr 1 [.bytes hash.toRawBytes]

structure InlineCredential where
  cred : PlutusCredential
deriving DecidableEq

namespace InlineCredential

def scriptHash : InlineCredential → Option ScriptHash
  | ⟨.script hash⟩ => some hash
  | ⟨.pubKey _⟩ => none

def tryFromPd (data : PlutusData) : Option InlineCredential := do
  let (alternative, fields) ← data.intoConstrPd
  if alternative = 0 then
    return ⟨← PlutusCredential.tryFromPd (← takeField fields 0)⟩
  else none

def intoPd (cred : InlineCredential) : PlutusData :=
  .constr 0 [PlutusCredential.intoPd cred.cred]

end InlineCredential

/-- The hash of the first of a list of credentials, all of which have to be credentials. -/
def firstScriptHash (data : PlutusData) : Option ScriptHash := do
  let creds ← (← data.intoVec).mapM InlineCredential.tryFromPd
  (← creds.head?).scriptHash

structure PlutusAddress where
  paymentCred : PlutusCredential
  stakeCred : Option InlineCredential
deriving DecidableEq

namespace PlutusAddress

def stakeCredTryFromPd (data : PlutusData) : Option (Option InlineCredential) := do
  let (alternative, fields) ← data.intoConstrPd
  match alternative with
  | 0 => return some (← InlineCredential.tryFromPd (← takeField fields 0))
  | 1 => return none
  | _ => none

def tryFromPd (data : PlutusData) : Option PlutusAddress := do
  let (_, fields) ← data.intoConstrPd
  return {
    paymentCred := ← PlutusCredential.tryFromPd (← takeField fields 0)
    stakeCred := ← stakeCredTryFromPd (← takeField fields 1) }

def intoPd (addr : PlutusAddress) : PlutusData :=
  .constr 0 [PlutusCredential.intoPd addr.paymentCred,
    match addr.stakeCred with
    | none => .constr 1 []
    | some cred => .constr 0 [cred.intoPd]]

end PlutusAddress

/-! ### Bytes -/

/-- How Plutus data is serialized, and the digest of what is. -/
class Serialization where
  toCborBytes : PlutusData → Bytes
  blake2b224 : Bytes → RawBytes 28

/-- The head of a data item: its major type, and a number in as few bytes as it fits. -/
def cborHead (major n : Nat) : Bytes :=
  let width := if n < 24 then 0 else if n < 2 ^ 8 then 1 else if n < 2 ^ 16 then 2
    else if n < 2 ^ 32 then 4 else 8
  let info := match width with
    | 0 => n
    | 1 => 24
    | 2 => 25
    | 4 => 26
    | _ => 27
  UInt8.ofNat (32 * major + info) ::
    (List.range width).map fun i => UInt8.ofNat (n / 256 ^ (width - 1 - i))

mutual

/-- Data that fits its heads, with the arrays of lists and constructors of indefinite length. -/
def indefiniteCbor : PlutusData → Bytes
  | .constr alternative fields =>
    cborHead 6 (121 + alternative) ++ 0x9f :: (indefiniteCborItems fields ++ [0xff])
  | .map entries => cborHead 5 entries.length ++ indefiniteCborEntries entries
  | .list items => 0x9f :: (indefiniteCborItems items ++ [0xff])
  | .integer n => if 0 ≤ n then cborHead 0 n.toNat else cborHead 1 (-1 - n).toNat
  | .bytes bs => cborHead 2 bs.length ++ bs

def indefiniteCborItems : List PlutusData → Bytes
  | [] => []
  | item :: items => indefiniteCbor item ++ indefiniteCborItems items

def indefiniteCborEntries : List (PlutusData × PlutusData) → Bytes
  | [] => []
  | (key, value) :: entries =>
    indefiniteCbor key ++ indefiniteCbor value ++ indefiniteCborEntries entries

end

/-! ### What is written determines what was written -/

theorem PlutusCredential.intoPd_injective : Function.Injective PlutusCredential.intoPd := by
  intro a b h
  cases a <;> cases b <;>
    simp_all [PlutusCredential.intoPd, RawBytes.toRawBytes_injective.eq_iff]

theorem InlineCredential.intoPd_injective : Function.Injective InlineCredential.intoPd := by
  rintro ⟨a⟩ ⟨b⟩ h
  simp only [InlineCredential.intoPd, PlutusData.constr.injEq, List.cons.injEq, and_true,
    true_and] at h
  rw [PlutusCredential.intoPd_injective h]

theorem PlutusAddress.intoPd_injective : Function.Injective PlutusAddress.intoPd := by
  rintro ⟨payment, stake⟩ ⟨payment', stake'⟩ h
  simp only [PlutusAddress.intoPd, PlutusData.constr.injEq, List.cons.injEq, and_true,
    true_and] at h
  obtain ⟨hpayment, hstake⟩ := h
  rw [PlutusCredential.intoPd_injective hpayment]
  cases stake <;> cases stake' <;>
    simp_all [InlineCredential.intoPd_injective.eq_iff]

end UtxoMonitor
