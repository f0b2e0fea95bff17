import UtxoMonitor.Cardano.Types

/-! Blocks as the chain follower sees them, the upgrades the node sends and the events they become.
What the follower only passes on (transaction bodies, witnesses, auxiliary data) is left abstract. -/
namespace UtxoMonitor

open Lib

inductive Point where
  | origin
  | specific (slot : Slot) (hash : BlockHeaderHash)
deriving DecidableEq

def Point.getSlot : Point → Slot
  | origin => 0
  | specific slot _ => slot

/-- The parts of the transactions of one era. -/
structure Era where
  Body : Type
  WitnessSet : Type
  AuxiliaryData : Type

/-- The fields of a header the follower reads, with the bytes it serializes to. -/
structure BlockHeader where
  slot : Slot
  blockNumber : UInt64
  cborBytes : Bytes
deriving DecidableEq

structure Block (E : Era) where
  header : BlockHeader
  transactionBodies : List E.Body
  transactionWitnessSets : List E.WitnessSet
  auxiliaryDataSet : List (UInt16 × E.AuxiliaryData)
  invalidTransactions : List UInt16

structure Transaction (E : Era) where
  body : E.Body
  witnessSet : E.WitnessSet
  isValid : Bool
  auxiliaryData : Option E.AuxiliaryData

inductive MultiEraBlockHeader where
  | epochBoundary (slot : Slot)
  | byron (slot : Slot)
  | shelley (header : BlockHeader)
  | babbage (header : BlockHeader)

def MultiEraBlockHeader.slot : MultiEraBlockHeader → Slot
  | epochBoundary slot => slot
  | byron slot => slot
  | shelley header => header.slot
  | babbage header => header.slot

/-- A block of any era; `B` is the Babbage era and `C` the Conway era, the only two whose
transactions the follower reads. -/
inductive MultiEraBlock (B C : Era) where
  | epochBoundary (slot : Slot)
  | byron (slot : Slot)
  | shelley (header : BlockHeader)
  | allegra (header : BlockHeader)
  | mary (header : BlockHeader)
  | alonzo (header : BlockHeader)
  | babbage (blk : Block B)
  | conway (blk : Block C)

/-- The functions of the serialization library. -/
structure Cml (B C : Era) where
  blake2b256 : Bytes → RawBytes 32
  babbageToCborBytes : Block B → Bytes
  conwayToCborBytes : Block C → Bytes
  fromCborBytes : Bytes → Option (MultiEraBlock B C)

inductive ChainUpgrade (Blk : Type) where
  | rollForward (blk : Blk) (blkBytes : Bytes) (replayed : Bool)
  | rollBackward (point : Point)

inductive LedgerTxEvent (Tx : Type) where
  | txApplied (tx : Tx) (slot : Slot) (blockNumber : UInt64) (blockHash : BlockHeaderHash)
  | txUnapplied (tx : Tx) (slot : Slot) (blockNumber : UInt64) (blockHash : BlockHeaderHash)
deriving DecidableEq

variable {B C : Era}

def MultiEraBlock.header : MultiEraBlock B C → MultiEraBlockHeader
  | epochBoundary slot => .epochBoundary slot
  | byron slot => .byron slot
  | shelley header => .shelley header
  | allegra header => .shelley header
  | mary header => .shelley header
  | alonzo header => .shelley header
  | babbage blk => .babbage blk.header
  | conway blk => .babbage blk.header

namespace Cml

variable (cml : Cml B C)

/-- The hash of a header; `none` where the function panics. -/
def hashBlockHeaderCanonicalMultiEra : MultiEraBlockHeader → Option BlockHeaderHash
  | .shelley header => some (cml.blake2b256 header.cborBytes)
  | .babbage header => some (cml.blake2b256 header.cborBytes)
  | _ => none

/-- The point of a block, `none` where its header cannot be hashed. -/
def headerPoint (hdr : MultiEraBlockHeader) : Option Point :=
  (cml.hashBlockHeaderCanonicalMultiEra hdr).map (.specific hdr.slot)

end Cml

end UtxoMonitor
