import UtxoMonitor.Cardano.TxView
import UtxoMonitor.Index.Query

/-! What the server tells of a stored output. -/
namespace UtxoMonitor

open Lib

/-- An asset of a response. -/
structure UTxO.Asset where
  policyId : Bytes
  base16Name : Bytes
  amount : Bytes
deriving DecidableEq

inductive ScriptType where
  | native
  | plutusV1
  | plutusV2
  | plutusV3
deriving DecidableEq

structure ScriptRefDto where
  scriptType : ScriptType
  script : Bytes
deriving DecidableEq

structure UTxO where
  transactionHash : TransactionHash
  index : Nat
  address : Address
  value : List UTxO.Asset
  settledAt : Option Slot
  spent : Bool
  datumHash : Option Bytes
  datum : Option Bytes
  scriptRef : Option ScriptRefDto
deriving DecidableEq

structure UTxOCbor where
  transactionHash : TransactionHash
  index : Nat
  cbor : Bytes
deriving DecidableEq

inductive UTxOResponse where
  | detailed (utxo : UTxO)
  | compact (utxo : UTxOCbor)
deriving DecidableEq

/-- A reference script: the bytes of a native script's encoding, or of a Plutus script itself. -/
inductive ScriptRef where
  | native (cbor : Bytes)
  | plutusV1 (inner : Bytes)
  | plutusV2 (inner : Bytes)
  | plutusV3 (inner : Bytes)
deriving DecidableEq

/-- What the server uses of the ledger library. -/
structure OutputLibrary where
  /-- The hash of the data that these bytes encode. -/
  datumHash : Bytes → RawBytes 32
  scriptRef : Bytes → ScriptRef
  toCborBytes : TransactionOutput → Bytes

def ScriptRefDto.fromScriptRef : ScriptRef → ScriptRefDto
  | .native cbor => ⟨.native, hexEncode cbor⟩
  | .plutusV1 inner => ⟨.plutusV1, hexEncode inner⟩
  | .plutusV2 inner => ⟨.plutusV2, hexEncode inner⟩
  | .plutusV3 inner => ⟨.plutusV3, hexEncode inner⟩

/-- The amounts of a value, asset by asset. -/
def Value.entries (value : Value) : List (PolicyId × AssetName × UInt64) :=
  value.multiasset.flatMap fun (policyId, assets) =>
    assets.map fun (assetName, amount) => (policyId, assetName, amount)

def UTxO.Asset.of (entry : PolicyId × AssetName × UInt64) : UTxO.Asset where
  policyId := entry.1.toHex
  base16Name := entry.2.1.toRawHex
  amount := decimal entry.2.2.toNat

/-- The hash of a datum, and the datum if the output has it. -/
def datumFields (lib : OutputLibrary) : Option DatumOption → Option Bytes × Option Bytes
  | some (.hash datumHash) => (some datumHash.toHex, none)
  | some (.datum datum) => (some (lib.datumHash datum).toHex, some (hexEncode datum))
  | none => (none, none)

def UTxO.from (lib : OutputLibrary) (txo : Txo) : UTxO where
  transactionHash := txo.oref.txHash
  index := txo.oref.index.toNat
  address := txo.output.address
  value := ⟨[], [], decimal txo.output.value.coin.toNat⟩ :: txo.output.value.entries.map .of
  settledAt := txo.settledAt
  spent := txo.spent
  datumHash := (datumFields lib txo.output.datum).1
  datum := (datumFields lib txo.output.datum).2
  scriptRef := (txo.output.scriptRef.map lib.scriptRef).map .fromScriptRef

def UTxOCbor.from (lib : OutputLibrary) (txo : Txo) : UTxOCbor where
  transactionHash := txo.oref.txHash
  index := txo.oref.index.toNat
  cbor := hexEncode (lib.toCborBytes txo.output)

def UTxOResponse.of (lib : OutputLibrary) (includeCborHex : Bool) (txo : Txo) : UTxOResponse :=
  if includeCborHex then compact (.from lib txo) else detailed (.from lib txo)

/-! ### What a response leaves open -/

/-- Outputs that differ at most in their format, and in how their amounts are bundled. -/
structure SameOutput (lib : OutputLibrary) (out out' : TransactionOutput) : Prop where
  address : out.address = out'.address
  coin : out.value.coin = out'.value.coin
  entries : out.value.entries = out'.value.entries
  datum : out.datum = out'.datum
  scriptRef : out.scriptRef.map lib.scriptRef = out'.scriptRef.map lib.scriptRef

theorem hexEncode_injective : Function.Injective hexEncode := by
  intro bs bs' h
  have hdecode := congrArg hexDecode h
  rwa [hexDecode_hexEncode, hexDecode_hexEncode, Option.some.injEq] at hdecode

theorem decimal_toNat_injective {a b : UInt64} (h : decimal a.toNat = decimal b.toNat) : a = b := by
  have hparse := congrArg parseU64 h
  rwa [parseU64_decimal, parseU64_decimal, Option.some.injEq] at hparse

theorem RawBytes.toHex_injective {n : Nat} : Function.Injective (RawBytes.toHex (n := n)) := by
  intro h h' heq
  exact RawBytes.toRawBytes_injective (hexEncode_injective heq)

theorem UTxO.Asset.of_injective : Function.Injective UTxO.Asset.of := by
  intro entry entry' h
  obtain ⟨policyId, assetName, amount⟩ := entry
  obtain ⟨policyId', assetName', amount'⟩ := entry'
  simp only [UTxO.Asset.of, UTxO.Asset.mk.injEq] at h
  obtain ⟨hpolicy, hname, hamount⟩ := h
  cases RawBytes.toHex_injective hpolicy
  cases Subtype.ext (hexEncode_injective hname)
  cases decimal_toNat_injective hamount
  rfl

theorem ScriptRefDto.fromScriptRef_injective : Function.Injective ScriptRefDto.fromScriptRef := by
  intro script script' h
  cases script <;> cases script' <;>
    simp only [ScriptRefDto.fromScriptRef, ScriptRefDto.mk.injEq, reduceCtorEq, false_and] at h
  all_goals rw [hexEncode_injective h.2]

/-- A datum is told from the hash of the same datum by the second field. -/
theorem datumFields_injective (lib : OutputLibrary) : Function.Injective (datumFields lib) := by
  intro datum datum' h
  rcases datum with _ | datum | datum <;> rcases datum' with _ | datum' | datum' <;>
    simp only [datumFields, Prod.mk.injEq, Option.some.injEq, reduceCtorEq, false_and,
      and_false] at h
  · rfl
  · rw [RawBytes.toHex_injective h.1]
  · rw [hexEncode_injective h.2]

/-- A detailed response tells everything of a stored output, but for its format and the bundles of
its amounts. -/
theorem detailed_response_iff (lib : OutputLibrary) (txo txo' : Txo) :
    UTxOResponse.of lib false txo = UTxOResponse.of lib false txo' ↔
      txo.oref = txo'.oref ∧ txo.settledAt = txo'.settledAt ∧ txo.spent = txo'.spent ∧
        SameOutput lib txo.output txo'.output := by
  obtain ⟨⟨txHash, index⟩, output, settledAt, spent⟩ := txo
  obtain ⟨⟨txHash', index'⟩, output', settledAt', spent'⟩ := txo'
  constructor
  · intro h
    simp only [UTxOResponse.of, Bool.false_eq_true, if_false, UTxOResponse.detailed.injEq, UTxO.from,
      UTxO.mk.injEq, List.cons.injEq, UTxO.Asset.mk.injEq, true_and] at h
    obtain ⟨hhash, hindex, haddress, ⟨hcoin, hentries⟩, hsettled, hspent, hdatumHash, hdatum,
      hscript⟩ := h
    cases hhash
    cases UInt64.toNat_inj.mp hindex
    refine ⟨rfl, hsettled, hspent, haddress, decimal_toNat_injective hcoin, ?_, ?_, ?_⟩
    · exact (List.map_injective_iff.mpr UTxO.Asset.of_injective) hentries
    · exact datumFields_injective lib (Prod.ext hdatumHash hdatum)
    · exact Option.map_injective ScriptRefDto.fromScriptRef_injective hscript
  · rintro ⟨horef, hsettled, hspent, hsame⟩
    cases horef
    cases hsettled
    cases hspent
    simp only [UTxOResponse.of, Bool.false_eq_true, if_false, UTxO.from, hsame.address, hsame.coin,
      hsame.entries, hsame.datum, hsame.scriptRef]

end UtxoMonitor
