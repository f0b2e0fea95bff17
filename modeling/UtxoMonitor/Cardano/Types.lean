import UtxoMonitor.Lib.Text

/-! The ledger data the monitor stores: hashes, output references, addresses and outputs. -/
namespace UtxoMonitor

open Lib

/-- A byte array of fixed length, as the hash types of the ledger are. -/
def RawBytes (n : Nat) := { bs : Bytes // bs.length = n }

instance (n : Nat) : DecidableEq (RawBytes n) := inferInstanceAs (DecidableEq { _bs : Bytes // _ })

namespace RawBytes

variable {n : Nat}

def toRawBytes (h : RawBytes n) : Bytes := h.val

def fromRawBytes (bs : Bytes) : Option (RawBytes n) :=
  if h : bs.length = n then some ⟨bs, h⟩ else none

def replicate (b : UInt8) : RawBytes n := ⟨List.replicate n b, List.length_replicate⟩

def toHex (h : RawBytes n) : Bytes := hexEncode h.toRawBytes

def fromHex (s : Bytes) : Option (RawBytes n) := (hexDecode s).bind fromRawBytes

@[simp] theorem length_toRawBytes (h : RawBytes n) : h.toRawBytes.length = n := h.property

theorem toRawBytes_injective : Function.Injective (toRawBytes (n := n)) := Subtype.val_injective

@[simp] theorem length_toHex (h : RawBytes n) : h.toHex.length = 2 * n := by
  simp [toHex]

@[simp] theorem fromHex_toHex (h : RawBytes n) : fromHex h.toHex = some h := by
  simp only [fromHex, toHex, hexDecode_hexEncode, Option.bind_some, fromRawBytes]
  rw [dif_pos h.length_toRawBytes]
  rfl

end RawBytes

abbrev TransactionHash := RawBytes 32
abbrev BlockHeaderHash := RawBytes 32
abbrev Ed25519KeyHash := RawBytes 28
abbrev ScriptHash := RawBytes 28
abbrev PolicyId := ScriptHash
abbrev Slot := UInt64

theorem slot_lt (s : Slot) : s.toNat < 256 ^ 8 := s.toNat_lt

/-! ### Output references -/

structure OutputRef where
  txHash : TransactionHash
  index : UInt64
deriving DecidableEq

/-- How a fallible call ends: a value, an `Err`, or a failed `unwrap`. -/
inductive Outcome (A : Type) where
  | ok (a : A)
  | err
  | panicked
deriving DecidableEq

def Outcome.toOption {A : Type} : Outcome A → Option A
  | ok a => some a
  | _ => none

/-- `str::split_once` at the first occurrence of `c`. -/
def splitOnce (c : UInt8) : Bytes → Option (Bytes × Bytes)
  | [] => none
  | x :: xs => if x = c then some ([], xs) else (splitOnce c xs).map fun p => (x :: p.1, p.2)

theorem splitOnce_append {c : UInt8} {xs : Bytes} (h : c ∉ xs) (ys : Bytes) :
    splitOnce c (xs ++ c :: ys) = some (xs, ys) := by
  induction xs with
  | nil => simp [splitOnce]
  | cons x xs ih =>
    rw [List.mem_cons, not_or] at h
    simp [splitOnce, Ne.symm h.1, ih h.2]

namespace OutputRef

/-- The text form `hash#index`. -/
def display (o : OutputRef) : Bytes := o.txHash.toHex ++ 35 :: decimal o.index.toNat

def tryFrom (s : Bytes) : Outcome OutputRef :=
  match splitOnce 35 s with
  | some (rawTxId, strIdx) =>
    match RawBytes.fromHex rawTxId, parseU64 strIdx with
    | some h, some ix => .ok ⟨h, ix⟩
    | _, _ => .panicked
  | none => .err

theorem hash_notMem_toHex {n : Nat} (h : RawBytes n) : (35 : UInt8) ∉ h.toHex := by
  intro hm
  exact absurd (isHexDigit_of_mem_hexEncode hm) (by decide)

@[simp] theorem tryFrom_display (o : OutputRef) : tryFrom o.display = .ok o := by
  simp [tryFrom, display, splitOnce_append (hash_notMem_toHex o.txHash)]

theorem length_display (o : OutputRef) : 66 ≤ o.display.length ∧ o.display.length ≤ 85 := by
  have hpos := List.length_pos_of_ne_nil (decimal_ne_nil o.index.toNat)
  have hle := length_decimal_le o.index.toNat_lt
  simp only [display, List.length_append, RawBytes.length_toHex, List.length_cons]
  omega

/-- Every character of the text form is an ASCII digit, letter or `#`. -/
theorem display_ascii {o : OutputRef} {c : UInt8} (h : c ∈ o.display) : 35 ≤ c ∧ c < 128 := by
  have hex : ∀ c : UInt8, IsHexDigit c → 35 ≤ c ∧ c < 128 := forall_byte (by decide +kernel)
  have dec : ∀ c : UInt8, 48 ≤ c ∧ c ≤ 57 → 35 ≤ c ∧ c < 128 := forall_byte (by decide +kernel)
  simp only [display, List.mem_append, List.mem_cons] at h
  rcases h with h | rfl | h
  · exact hex c (isHexDigit_of_mem_hexEncode h)
  · decide
  · exact dec c (decimal_digit h)

end OutputRef

/-! ### Addresses -/

inductive Credential where
  | pubKey (hash : Ed25519KeyHash)
  | script (hash : ScriptHash)
deriving DecidableEq

inductive CredentialKind where
  | payment
  | stake
deriving DecidableEq

inductive Address where
  | base (payment stake : Credential)
  | enterprise (payment : Credential)
  | ptr (payment : Credential)
  | reward (payment : Credential)
  | byron
deriving DecidableEq

def addressCredentials : Address → List (CredentialKind × Credential)
  | .base payment stake => [(.payment, payment), (.stake, stake)]
  | .enterprise payment => [(.payment, payment)]
  | .ptr payment => [(.payment, payment)]
  | .reward payment => [(.stake, payment)]
  | .byron => []

/-- An address carries at most one credential of each kind. -/
theorem addressCredentials_unique {a : Address} {k : CredentialKind} {c d : Credential}
    (hc : (k, c) ∈ addressCredentials a) (hd : (k, d) ∈ addressCredentials a) : c = d := by
  cases a <;> cases k <;> simp_all [addressCredentials]

/-! ### Outputs -/

/-- A ledger asset name: at most 32 bytes. -/
def AssetName := { bs : Bytes // bs.length ≤ 32 }

instance : DecidableEq AssetName := inferInstanceAs (DecidableEq { _bs : Bytes // _ })

def AssetName.toRawHex (n : AssetName) : Bytes := hexEncode n.val

structure Value where
  coin : UInt64
  multiasset : List (PolicyId × List (AssetName × UInt64))
deriving DecidableEq

inductive DatumOption where
  | hash (datumHash : RawBytes 32)
  | datum (datum : Bytes)
deriving DecidableEq

inductive TransactionOutput where
  | alonzoFormatTxOut (address : Address) (amount : Value) (datumHash : Option (RawBytes 32))
  | conwayFormatTxOut (address : Address) (amount : Value) (datumOption : Option DatumOption)
      (scriptReference : Option Bytes)
deriving DecidableEq

namespace TransactionOutput

def address : TransactionOutput → Address
  | alonzoFormatTxOut address _ _ => address
  | conwayFormatTxOut address _ _ _ => address

def value : TransactionOutput → Value
  | alonzoFormatTxOut _ amount _ => amount
  | conwayFormatTxOut _ amount _ _ => amount

end TransactionOutput

/-- The units of an output: policy and asset name in lower-case hexadecimal. -/
def outputUnits (output : TransactionOutput) : List Bytes :=
  output.value.multiasset.flatMap fun (policyId, assets) =>
    assets.map fun (assetName, _) => toAsciiLowercase (policyId.toHex ++ assetName.toRawHex)

def outputContainsUnit (output : TransactionOutput) (unit : Bytes) : Bool :=
  (outputUnits output).any fun candidate => candidate == toAsciiLowercase unit

theorem outputContainsUnit_iff {output : TransactionOutput} {unit : Bytes} :
    outputContainsUnit output unit = true ↔ toAsciiLowercase unit ∈ outputUnits output := by
  simp [outputContainsUnit]

/-! ### Transactions -/

structure TransactionInput where
  transactionId : TransactionHash
  index : UInt64
deriving DecidableEq

/-- `From<TransactionInput>` -/
def OutputRef.ofInput (value : TransactionInput) : OutputRef := ⟨value.transactionId, value.index⟩

/-- A transaction as the handlers see it. -/
structure TxViewMut where
  hash : TransactionHash
  inputs : List TransactionInput
  outputs : List (UInt64 × TransactionOutput)
deriving DecidableEq

namespace TxViewMut

variable (tx : TxViewMut)

def inputRefs : List OutputRef := tx.inputs.map OutputRef.ofInput

def outputRefs : List OutputRef := tx.outputs.map fun (ix, _) => ⟨tx.hash, ix⟩

/-- The output that a transaction leaves under a reference: the last one it lists there. -/
def outputAt (o : OutputRef) : Option TransactionOutput :=
  ((tx.outputs.filter fun p => OutputRef.mk tx.hash p.1 = o).getLast?).map Prod.snd

theorem outputAt_eq_none {o : OutputRef} : tx.outputAt o = none ↔ o ∉ tx.outputRefs := by
  simp [outputAt, outputRefs]

theorem isSome_outputAt {o : OutputRef} : (tx.outputAt o).isSome ↔ o ∈ tx.outputRefs := by
  rw [← Option.ne_none_iff_isSome, ne_eq, outputAt_eq_none, not_not]

theorem hash_of_mem_outputRefs {o : OutputRef} (h : o ∈ tx.outputRefs) : o.txHash = tx.hash := by
  obtain ⟨p, -, rfl⟩ := List.mem_map.mp h
  rfl

end TxViewMut

/-! The two transactions the tests of the index run on, cut down to one output each: the second
spends the output of the first. -/

def txProduce : TxViewMut where
  hash := .replicate 1
  inputs := [⟨.replicate 0, 0⟩]
  outputs := [(0, .conwayFormatTxOut (.enterprise (.pubKey (.replicate 7))) ⟨1, []⟩ none none)]

def txConsume : TxViewMut where
  hash := .replicate 2
  inputs := [⟨txProduce.hash, 0⟩]
  outputs := [(0, .conwayFormatTxOut (.enterprise (.pubKey (.replicate 8))) ⟨1, []⟩ none none)]

end UtxoMonitor
