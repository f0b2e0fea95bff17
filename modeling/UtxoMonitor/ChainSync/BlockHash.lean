import UtxoMonitor.ChainSync.Reorg

/-! The block hash that the transaction events carry, against the hash in the point of the block.
The events hash the serialized block, the cache hashes the serialized header. -/
namespace UtxoMonitor

open Lib

def LedgerTxEvent.blockHash {T : Type} : LedgerTxEvent T → BlockHeaderHash
  | txApplied _ _ _ blockHash => blockHash
  | txUnapplied _ _ _ blockHash => blockHash

/-- Every position with a body and a witness set is listed as invalid. -/
def Block.AllInvalid {E : Era} (blk : Block E) : Prop :=
  ∀ ix < min blk.transactionBodies.length blk.transactionWitnessSets.length,
    UInt16.ofNat ix ∈ blk.invalidTransactions

theorem attachAuxiliaryData_eq_nil {E : Era} (aux : List (UInt16 × E.AuxiliaryData))
    (txs : List ((E.Body × E.WitnessSet) × Nat)) : attachAuxiliaryData aux txs = [] ↔ txs = [] := by
  cases txs <;> simp [attachAuxiliaryData]

theorem unpackValidTransactions_eq_nil {E : Era} {blockHash : BlockHeaderHash} {blk : Block E} :
    unpackValidTransactions blockHash blk = [] ↔ blk.AllInvalid := by
  simp only [unpackValidTransactions, List.map_eq_nil_iff, attachAuxiliaryData_eq_nil,
    List.filter_eq_nil_iff, Bool.not_eq_true', Bool.not_eq_false, List.contains_iff_mem,
    Block.AllInvalid]
  constructor
  · intro h ix hix
    rw [← List.length_zip] at hix
    exact h (_, ix) (List.mem_zipIdx_iff_getElem?.mpr (List.getElem?_eq_getElem hix))
  · rintro h ⟨tx, ix⟩ hm
    have hget := List.mem_zipIdx_iff_getElem?.mp hm
    apply h
    rw [← List.length_zip]
    exact (List.getElem?_eq_some_iff.mp hget).1

theorem blockHash_of_mem_unpack {E : Era} {blockHash : BlockHeaderHash} {blk : Block E}
    {x : BlockTx (Transaction E)} (h : x ∈ unpackValidTransactions blockHash blk) :
    x.2.2.2 = blockHash := by
  obtain ⟨tx, -, rfl⟩ := List.mem_map.mp h
  rfl

namespace Cml

variable {B C : Era} (cml : Cml B C)

/-- The serialization of a block is an array of its parts, the header first. -/
structure Framed : Prop where
  babbage : ∀ blk, ∃ head rest, head ≠ [] ∧
    cml.babbageToCborBytes blk = head ++ blk.header.cborBytes ++ rest
  conway : ∀ blk, ∃ head rest, head ≠ [] ∧
    cml.conwayToCborBytes blk = head ++ blk.header.cborBytes ++ rest

/-- No block collides with a header. -/
structure CollisionFree : Prop where
  babbage : ∀ blk : Block B,
    cml.blake2b256 (cml.babbageToCborBytes blk) = cml.blake2b256 blk.header.cborBytes →
      cml.babbageToCborBytes blk = blk.header.cborBytes
  conway : ∀ blk : Block C,
    cml.blake2b256 (cml.conwayToCborBytes blk) = cml.blake2b256 blk.header.cborBytes →
      cml.conwayToCborBytes blk = blk.header.cborBytes

/-- All events that a block can lead to. -/
def events (blk : MultiEraBlock B C) : List (LedgerTxEvent (LedgerTx B C)) :=
  (cml.unpackValidTransactionsMultiEra blk).map BlockTx.applied ++
    (cml.unpackValidTransactionsMultiEra blk).map BlockTx.unapplied

/-- The hash in an event of a block is the one in the point that the block is cached under. -/
def CarriesHeaderHash (blk : MultiEraBlock B C) : Prop :=
  ∀ ev ∈ cml.events blk, cml.headerPoint blk.header = some (.specific blk.header.slot ev.blockHash)

variable {cml}

theorem carriesHeaderHash_of_unpack_nil {blk : MultiEraBlock B C}
    (h : cml.unpackValidTransactionsMultiEra blk = []) : cml.CarriesHeaderHash blk := by
  intro ev hev
  simp [events, h] at hev

/-- A block that carries its header hash has no transaction, where all events carry `blockHash`. -/
theorem CarriesHeaderHash.unpack_nil {blk : MultiEraBlock B C} (h : cml.CarriesHeaderHash blk)
    {blockHash : BlockHeaderHash}
    (hall : ∀ x ∈ cml.unpackValidTransactionsMultiEra blk, x.2.2.2 = blockHash)
    (hne : cml.headerPoint blk.header ≠ some (.specific blk.header.slot blockHash)) :
    cml.unpackValidTransactionsMultiEra blk = [] := by
  rw [List.eq_nil_iff_forall_not_mem]
  intro x hx
  have hev := h (BlockTx.applied x) (List.mem_append_left _ (List.mem_map_of_mem hx))
  have hhash : (BlockTx.applied x).blockHash = blockHash := hall x hx
  rw [hhash] at hev
  exact hne hev

theorem ne_of_framed {bytes header : Bytes}
    (h : ∃ head rest, head ≠ [] ∧ bytes = head ++ header ++ rest) : bytes ≠ header := by
  obtain ⟨head, rest, hne, rfl⟩ := h
  intro heq
  have hlen := congrArg List.length heq
  have hpos := List.length_pos_of_ne_nil hne
  simp only [List.length_append] at hlen
  omega

theorem blockHash_ne_babbage (framed : cml.Framed) (free : cml.CollisionFree) (blk : Block B) :
    cml.headerPoint (MultiEraBlock.babbage blk : MultiEraBlock B C).header ≠
      some (.specific blk.header.slot (cml.blake2b256 (cml.babbageToCborBytes blk))) := by
  intro h
  obtain ⟨hash, hhash, heq⟩ := Option.map_eq_some_iff.mp h
  obtain rfl : cml.blake2b256 blk.header.cborBytes = hash := Option.some.inj hhash
  rw [Point.specific.injEq] at heq
  exact ne_of_framed (framed.babbage blk) (free.babbage blk heq.2.symm)

theorem blockHash_ne_conway (framed : cml.Framed) (free : cml.CollisionFree) (blk : Block C) :
    cml.headerPoint (MultiEraBlock.conway blk : MultiEraBlock B C).header ≠
      some (.specific blk.header.slot (cml.blake2b256 (cml.conwayToCborBytes blk))) := by
  intro h
  obtain ⟨hash, hhash, heq⟩ := Option.map_eq_some_iff.mp h
  obtain rfl : cml.blake2b256 blk.header.cborBytes = hash := Option.some.inj hhash
  rw [Point.specific.injEq] at heq
  exact ne_of_framed (framed.conway blk) (free.conway blk heq.2.symm)

/-- The events of a block carry the hash of its header only where there are none. -/
theorem carriesHeaderHash_iff (cml : Cml B C) (framed : cml.Framed) (free : cml.CollisionFree) :
    (∀ blk : Block B, cml.CarriesHeaderHash (.babbage blk) ↔ blk.AllInvalid) ∧
    ∀ blk : Block C, cml.CarriesHeaderHash (.conway blk) ↔ blk.AllInvalid := by
  have hnil : ∀ blk : Block B,
      cml.unpackValidTransactionsMultiEra (.babbage blk) = [] ↔ blk.AllInvalid := fun blk => by
    rw [unpackValidTransactionsMultiEra, List.map_eq_nil_iff, unpackValidTransactionsBabbage,
      unpackValidTransactions_eq_nil]
  have hnil' : ∀ blk : Block C,
      cml.unpackValidTransactionsMultiEra (.conway blk) = [] ↔ blk.AllInvalid := fun blk => by
    rw [unpackValidTransactionsMultiEra, List.map_eq_nil_iff, unpackValidTransactionsConway,
      unpackValidTransactions_eq_nil]
  constructor
  · intro blk
    rw [← hnil]
    refine ⟨fun h => h.unpack_nil ?_ (blockHash_ne_babbage framed free blk),
      carriesHeaderHash_of_unpack_nil⟩
    intro x hx
    obtain ⟨y, hy, rfl⟩ := List.mem_map.mp hx
    exact blockHash_of_mem_unpack (x := y) hy
  · intro blk
    rw [← hnil']
    refine ⟨fun h => h.unpack_nil ?_ (blockHash_ne_conway framed free blk),
      carriesHeaderHash_of_unpack_nil⟩
    intro x hx
    obtain ⟨y, hy, rfl⟩ := List.mem_map.mp hx
    exact blockHash_of_mem_unpack (x := y) hy

/-- The sample library with blocks serialized as arrays, hashed by their length. -/
def framedSample : Cml sampleEra sampleEra :=
  { sample with
    blake2b256 := fun bytes => .replicate (UInt8.ofNat bytes.length)
    babbageToCborBytes := fun blk => 133 :: blk.header.cborBytes ++ [129, 160, 129, 160, 160, 128]
    conwayToCborBytes := fun blk => 133 :: blk.header.cborBytes ++ [129, 160, 129, 160, 160, 128] }

theorem framedSample_framed : framedSample.Framed :=
  ⟨fun _ => ⟨[133], [129, 160, 129, 160, 160, 128], by simp, rfl⟩,
    fun _ => ⟨[133], [129, 160, 129, 160, 160, 128], by simp, rfl⟩⟩

theorem framedSample_collisionFree : framedSample.CollisionFree := by
  have hne : ∀ header : Bytes,
      (RawBytes.replicate (UInt8.ofNat (133 :: header ++ [129, 160, 129, 160, 160, 128]).length) :
        RawBytes 32) ≠ .replicate (UInt8.ofNat header.length) := by
    intro header heq
    have hbyte := List.head_eq_of_cons_eq (congrArg Subtype.val heq)
    have hnat := congrArg UInt8.toNat hbyte
    simp only [List.length_append, List.length_cons, List.length_nil, UInt8.toNat_ofNat'] at hnat
    omega
  exact ⟨fun blk h => absurd h (hne blk.header.cborBytes),
    fun blk h => absurd h (hne blk.header.cborBytes)⟩

/-- A header starts with the head of an array of two, a block with that of an array of five. -/
def framedBlock (invalidTransactions : List UInt16) : Block sampleEra :=
  ⟨⟨15, 0, [130, 15]⟩, [()], [()], [], invalidTransactions⟩

theorem carriesHeaderHash_framedSample :
    framedSample.CarriesHeaderHash (.babbage (framedBlock [0])) := by
  refine ((carriesHeaderHash_iff framedSample framedSample_framed
    framedSample_collisionFree).1 _).mpr ?_
  intro ix hix
  obtain rfl : ix = 0 := by simpa [framedBlock] using hix
  exact List.mem_singleton_self _

theorem event_misses_header_hash :
    (framedSample.unpackValidTransactionsMultiEra (.babbage (framedBlock []))).map
        (fun x => x.2.2.2) = [.replicate 9] ∧
      framedSample.headerPoint (.babbage (framedBlock []).header) =
        some (.specific 15 (.replicate 2)) ∧
      ¬ framedSample.CarriesHeaderHash (.babbage (framedBlock [])) := by
  refine ⟨rfl, rfl, ?_⟩
  intro h
  have hev := h (.txApplied (.inl ⟨(), (), true, none⟩) 15 0 (.replicate 9)) (.head _)
  exact absurd hev (by decide +kernel)

end Cml

end UtxoMonitor
