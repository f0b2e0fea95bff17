import UtxoMonitor.ChainSync.EventSource

/-! The transaction bodies of the two eras, and the view that the handlers take of them. -/
namespace UtxoMonitor

open Lib

/-- A script reference is kept as its bytes, which the two eras write alike. -/
inductive BabbageTransactionOutput where
  | alonzoFormatTxOut (address : Address) (amount : Value) (datumHash : Option (RawBytes 32))
  | babbageFormatTxOut (address : Address) (amount : Value) (datumOption : Option DatumOption)
      (scriptReference : Option Bytes)
deriving DecidableEq

namespace BabbageTransactionOutput

def address : BabbageTransactionOutput → Address
  | alonzoFormatTxOut address _ _ => address
  | babbageFormatTxOut address _ _ _ => address

def value : BabbageTransactionOutput → Value
  | alonzoFormatTxOut _ amount _ => amount
  | babbageFormatTxOut _ amount _ _ => amount

def datum : BabbageTransactionOutput → Option DatumOption
  | alonzoFormatTxOut _ _ datumHash => datumHash.map .hash
  | babbageFormatTxOut _ _ datumOption _ => datumOption

def scriptRef : BabbageTransactionOutput → Option Bytes
  | alonzoFormatTxOut _ _ _ => none
  | babbageFormatTxOut _ _ _ scriptReference => scriptReference

def upcast : BabbageTransactionOutput → TransactionOutput
  | alonzoFormatTxOut address amount datumHash => .alonzoFormatTxOut address amount datumHash
  | babbageFormatTxOut address amount datumOption scriptReference =>
    .conwayFormatTxOut address amount datumOption scriptReference

end BabbageTransactionOutput

namespace TransactionOutput

def datum : TransactionOutput → Option DatumOption
  | alonzoFormatTxOut _ _ datumHash => datumHash.map .hash
  | conwayFormatTxOut _ _ datumOption _ => datumOption

/-- The script reference that `UTxO::from` reports. -/
def scriptRef : TransactionOutput → Option Bytes
  | alonzoFormatTxOut _ _ _ => none
  | conwayFormatTxOut _ _ _ scriptReference => scriptReference

/-- What an output holds, in whichever format it is written. -/
def contents (out : TransactionOutput) : Address × Value × Option DatumOption × Option Bytes :=
  (out.address, out.value, out.datum, out.scriptRef)

end TransactionOutput

/-- The fields of a transaction body that the view and the ledger rules read, with the bytes it
serializes to. -/
structure BabbageTransactionBody where
  inputs : List TransactionInput
  outputs : List BabbageTransactionOutput
  collateralInputs : List TransactionInput
  collateralReturn : Option BabbageTransactionOutput
  cborBytes : Bytes
deriving DecidableEq

structure TransactionBody where
  inputs : List TransactionInput
  outputs : List TransactionOutput
  collateralInputs : List TransactionInput
  collateralReturn : Option TransactionOutput
  cborBytes : Bytes
deriving DecidableEq

/-- The same body, read as one of the later era. -/
def BabbageTransactionBody.upcast (body : BabbageTransactionBody) : TransactionBody where
  inputs := body.inputs
  outputs := body.outputs.map BabbageTransactionOutput.upcast
  collateralInputs := body.collateralInputs
  collateralReturn := body.collateralReturn.map BabbageTransactionOutput.upcast
  cborBytes := body.cborBytes

abbrev babbageEra (W A : Type) : Era := ⟨BabbageTransactionBody, W, A⟩

abbrev conwayEra (W A : Type) : Era := ⟨TransactionBody, W, A⟩

/-- `Iterator::enumerate`, with indexes of 64 bits. -/
def enumerate {X : Type} (xs : List X) : List (UInt64 × X) :=
  xs.zipIdx.map fun (x, ix) => (UInt64.ofNat ix, x)

section View

variable {W A W' A' : Type} (cml : Cml (babbageEra W A) (conwayEra W' A'))

def Cml.hashTransactionCanonical (cborBytes : Bytes) : TransactionHash :=
  cml.blake2b256 cborBytes

/-- `From<Transaction>` -/
def TxViewMut.fromTransaction (tx : Transaction (conwayEra W' A')) : TxViewMut where
  hash := cml.hashTransactionCanonical tx.body.cborBytes
  inputs := tx.body.inputs
  outputs := enumerate tx.body.outputs

/-- `From<Either<BabbageTransaction, Transaction>>` -/
def TxViewMut.fromEither :
    LedgerTx (babbageEra W A) (conwayEra W' A') → TxViewMut
  | .inl tx =>
    { hash := cml.hashTransactionCanonical tx.body.cborBytes
      inputs := tx.body.inputs
      outputs := enumerate (tx.body.outputs.map fun out =>
        .conwayFormatTxOut out.address out.value out.datum none) }
  | .inr tx => fromTransaction cml tx

end View

/-- Two views show the same transaction: hash, inputs and the contents of every output. -/
def TxViewMut.Agrees (v w : TxViewMut) : Prop :=
  v.hash = w.hash ∧ v.inputs = w.inputs ∧
    (v.outputs.map fun (ix, out) => (ix, out.contents)) =
      w.outputs.map fun (ix, out) => (ix, out.contents)

@[simp] theorem contents_upcast (out : BabbageTransactionOutput) :
    out.upcast.contents = (out.address, out.value, out.datum, out.scriptRef) := by
  cases out <;> rfl

theorem enumerate_map {X Y : Type} (f : X → Y) (xs : List X) :
    enumerate (xs.map f) = (enumerate xs).map fun (ix, x) => (ix, f x) := by
  simp [enumerate, List.zipIdx_map, Function.comp_def]

theorem map_snd_enumerate {X : Type} (xs : List X) : (enumerate xs).map Prod.snd = xs := by
  simp [enumerate, Function.comp_def]

theorem map_enumerate_inj {X Y Z : Type} {f : X → Z} {g : Y → Z} {xs : List X} {ys : List Y} :
    (enumerate xs).map (fun (ix, x) => (ix, f x)) = (enumerate ys).map (fun (ix, y) => (ix, g y)) ↔
      xs.map f = ys.map g := by
  rw [← enumerate_map, ← enumerate_map]
  constructor
  · intro h
    have := congrArg (List.map Prod.snd) h
    rwa [map_snd_enumerate, map_snd_enumerate] at this
  · exact congrArg enumerate

section Bodies

variable {W A W' A' : Type} (cml : Cml (babbageEra W A) (conwayEra W' A'))

/-- A body of the earlier era and the same body of the later one are viewed alike precisely when
none of its outputs has a script reference. -/
theorem views_agree_iff (body : BabbageTransactionBody) (w : W) (a : Option A) (w' : W')
    (a' : Option A') (valid valid' : Bool) :
    (TxViewMut.fromEither cml (.inl ⟨body, w, valid, a⟩)).Agrees
        (TxViewMut.fromEither cml (.inr ⟨body.upcast, w', valid', a'⟩)) ↔
      ∀ out ∈ body.outputs, out.scriptRef = none := by
  have houtputs : ∀ outs : List BabbageTransactionOutput,
      (outs.map fun out => (out.address, out.value, out.datum, (none : Option Bytes))) =
          outs.map (fun out => (out.address, out.value, out.datum, out.scriptRef)) ↔
        ∀ out ∈ outs, out.scriptRef = none := by
    intro outs
    rw [List.map_inj_left]
    simp [eq_comm]
  rw [← houtputs]
  simp only [TxViewMut.Agrees, TxViewMut.fromEither, TxViewMut.fromTransaction,
    BabbageTransactionBody.upcast, true_and]
  rw [map_enumerate_inj, List.map_map, List.map_map]
  simp only [Function.comp_def, contents_upcast]
  rfl

end Bodies

/-! ### A body with a script reference -/

/-- One output, which carries a script. -/
def scriptedBody : BabbageTransactionBody where
  inputs := [⟨.replicate 0, 0⟩]
  outputs := [.babbageFormatTxOut (.enterprise (.pubKey (.replicate 7))) ⟨1, []⟩ none (some [1])]
  collateralInputs := []
  collateralReturn := none
  cborBytes := [0]

/-- A library that hashes by padding, on bytes that stand for themselves. -/
def paddedCml : Cml (babbageEra Unit Unit) (conwayEra Unit Unit) where
  blake2b256 bytes := ⟨(bytes ++ List.replicate 32 0).take 32, by simp⟩
  babbageToCborBytes block := 133 :: block.header.cborBytes
  conwayToCborBytes block := 133 :: block.header.cborBytes
  fromCborBytes _ := none

theorem script_reference_lost :
    (TxViewMut.fromEither paddedCml (.inr ⟨scriptedBody.upcast, (), true, none⟩)).outputs =
        [(0, .conwayFormatTxOut (.enterprise (.pubKey (.replicate 7))) ⟨1, []⟩ none (some [1]))] ∧
      (TxViewMut.fromEither paddedCml (.inl ⟨scriptedBody, (), true, none⟩)).outputs =
        [(0, .conwayFormatTxOut (.enterprise (.pubKey (.replicate 7))) ⟨1, []⟩ none none)] ∧
      ¬ (TxViewMut.fromEither paddedCml (.inl ⟨scriptedBody, (), true, none⟩)).Agrees
        (TxViewMut.fromEither paddedCml (.inr ⟨scriptedBody.upcast, (), true, none⟩)) := by
  refine ⟨rfl, rfl, ?_⟩
  rintro ⟨-, -, houtputs⟩
  cases houtputs

end UtxoMonitor
