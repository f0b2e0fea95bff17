import UtxoMonitor.Cardano.TxView
import UtxoMonitor.ChainSync.Reorg
import UtxoMonitor.Handler.TxHandler

/-! The unspent outputs of the index against the UTxO set of the ledger, over a chain of blocks whose
transactions may have failed their scripts. -/
namespace UtxoMonitor

open Lib

def LedgerTxEvent.map {Tx U : Type} (f : Tx → U) : LedgerTxEvent Tx → LedgerTxEvent U
  | txApplied tx slot blockNumber blockHash => .txApplied (f tx) slot blockNumber blockHash
  | txUnapplied tx slot blockNumber blockHash => .txUnapplied (f tx) slot blockNumber blockHash

/-- Address, value, datum and script reference of an output. -/
abbrev Contents := Address × Value × Option DatumOption × Option Bytes

/-! ### The ledger -/

/-- The transactions of a block; those listed as invalid have failed their scripts. -/
def Block.transactions {E : Era} (block : Block E) : List (Transaction E) :=
  (block.transactionBodies.zip block.transactionWitnessSets).zipIdx.map fun ((tb, tw), ix) =>
    { body := tb, witnessSet := tw
      isValid := !block.invalidTransactions.any fun i => i.toNat = ix
      auxiliaryData := block.auxiliaryDataSet.lookup (UInt16.ofNat ix) }

section Ledger

variable {W A W' A' : Type}

namespace LedgerTx

def isValid : LedgerTx (babbageEra W A) (conwayEra W' A') → Bool
  | .inl tx => tx.isValid
  | .inr tx => tx.isValid

def body : LedgerTx (babbageEra W A) (conwayEra W' A') → TransactionBody
  | .inl tx => tx.body.upcast
  | .inr tx => tx.body

def isBabbage : LedgerTx (babbageEra W A) (conwayEra W' A') → Bool
  | .inl _ => true
  | .inr _ => false

variable (cml : Cml (babbageEra W A) (conwayEra W' A'))

/-- What a transaction does to the UTxO set: a valid one consumes its inputs and creates its
outputs, an invalid one consumes its collateral inputs and creates its collateral return, which
comes after its outputs. -/
def effect (tx : LedgerTx (babbageEra W A) (conwayEra W' A')) : TxViewMut where
  hash := cml.hashTransactionCanonical tx.body.cborBytes
  inputs := if tx.isValid then tx.body.inputs else tx.body.collateralInputs
  outputs := if tx.isValid then enumerate tx.body.outputs
    else tx.body.collateralReturn.toList.map fun out =>
      (UInt64.ofNat tx.body.outputs.length, out)

end LedgerTx

/-- A block of either of the two eras that the follower reads. -/
abbrev EraBlock (W A W' A' : Type) := Block (babbageEra W A) ⊕ Block (conwayEra W' A')

namespace EraBlock

def multiEra : EraBlock W A W' A' → MultiEraBlock (babbageEra W A) (conwayEra W' A')
  | .inl blk => .babbage blk
  | .inr blk => .conway blk

def transactions : EraBlock W A W' A' → List (LedgerTx (babbageEra W A) (conwayEra W' A'))
  | .inl blk => blk.transactions.map .inl
  | .inr blk => blk.transactions.map .inr

/-- A block has a witness set for every body, and its positions fit the 16 bits of a listed one. -/
def Aligned : EraBlock W A W' A' → Prop
  | .inl blk => blk.transactionBodies.length = blk.transactionWitnessSets.length ∧
      blk.transactionBodies.length ≤ 2 ^ 16
  | .inr blk => blk.transactionBodies.length = blk.transactionWitnessSets.length ∧
      blk.transactionBodies.length ≤ 2 ^ 16

end EraBlock

variable (cml : Cml (babbageEra W A) (conwayEra W' A'))

/-- The UTxO set of the ledger after the transactions, restricted to outputs that they created. -/
def utxo (txs : List (LedgerTx (babbageEra W A) (conwayEra W' A'))) : OutputRef → Option Contents :=
  txs.foldl (fun unspent tx o =>
    match (tx.effect cml).outputAt o with
    | some out => some out.contents
    | none => if o ∈ (tx.effect cml).inputRefs then none else unspent o) fun _ => none

/-- What the ledger promises of the transactions of a chain: no two have the same hash, and an
output of the chain is consumed only while it is in the UTxO set. -/
structure ValidChain (txs : List (LedgerTx (babbageEra W A) (conwayEra W' A'))) : Prop where
  distinct : (txs.map fun tx => (tx.effect cml).hash).Nodup
  unspent : ∀ pre tx post, txs = pre ++ tx :: post → ∀ o ∈ (tx.effect cml).inputRefs,
    o.txHash ∈ (txs.map fun tx => (tx.effect cml).hash) → utxo cml pre o ≠ none

/-! ### The index -/

/-- The unspent output that the index has under a reference. -/
def unspentContents (db : RocksDB) (o : OutputRef) : Option Contents :=
  (storedTxo db o).bind fun r => if r.spent then none else some r.output.contents

/-- The blocks fed from an empty index: the events of the stream, their views, the handler. -/
def indexOfBlocks (handleRollbacksAfter : Slot) (cache : LedgerCache)
    (blocks : List (EraBlock W A W' A' × Bytes)) : Option RocksDB :=
  (cml.ledgerTransactions handleRollbacksAfter cache
    (blocks.map fun (blk, blkBytes) => .rollForward blk.multiEra blkBytes false) none).map
      fun r => runEvents (r.2.map fun ev => .ledger (ev.map (TxViewMut.fromEither cml)))

/-! ### The events of a chain -/

/-- The transactions of a block, each with its slot, number and the hash its events carry. -/
def EraBlock.blockTxs : EraBlock W A W' A' →
    List (BlockTx (LedgerTx (babbageEra W A) (conwayEra W' A')))
  | .inl blk => blk.transactions.map fun tx => (.inl tx, blk.header.slot, blk.header.blockNumber,
      cml.blake2b256 (cml.babbageToCborBytes blk))
  | .inr blk => blk.transactions.map fun tx => (.inr tx, blk.header.slot, blk.header.blockNumber,
      cml.blake2b256 (cml.conwayToCborBytes blk))

/-- The handled events of transactions, of which only the valid ones have any. -/
def handledEvents (xs : List (BlockTx (LedgerTx (babbageEra W A) (conwayEra W' A')))) :
    List Event :=
  (xs.filter fun x => x.1.isValid).map fun x =>
    .ledger (BlockTx.applied (TxViewMut.fromEither cml x.1, x.2))

variable {cml}

theorem map_fst_blockTxs (blk : EraBlock W A W' A') :
    (blk.blockTxs cml).map Prod.fst = blk.transactions := by
  cases blk <;> simp [EraBlock.blockTxs, EraBlock.transactions, Function.comp_def]

theorem map_body_attachAuxiliaryData {E : Era} (aux : List (UInt16 × E.AuxiliaryData))
    (txs : List ((E.Body × E.WitnessSet) × Nat)) :
    (attachAuxiliaryData aux txs).map Transaction.body = txs.map fun x => x.1.1 := by
  induction txs generalizing aux with
  | nil => rfl
  | cons x txs ih => simp [attachAuxiliaryData, ih]

/-- A position of at most 16 bits is listed as invalid as such. -/
theorem contains_ofNat_iff {ix : Nat} (h : ix < 2 ^ 16) (invalid : List UInt16) :
    invalid.contains (UInt16.ofNat ix) = invalid.any fun i => i.toNat = ix := by
  rw [List.contains_eq_any_beq]
  congr 1
  funext i
  rw [Bool.eq_iff_iff, beq_iff_eq, decide_eq_true_eq, ← UInt16.toNat_inj, UInt16.toNat_ofNat',
    Nat.mod_eq_of_lt h]
  exact eq_comm

/-- The follower takes the bodies of the valid transactions. -/
theorem map_body_unpackValidTransactions {E : Era} (hash : BlockHeaderHash) (block : Block E)
    (h : block.transactionBodies.length ≤ 2 ^ 16) :
    (unpackValidTransactions hash block).map (fun x => (x.1.body, x.2)) =
      (block.transactions.filter Transaction.isValid).map fun tx =>
        (tx.body, block.header.slot, block.header.blockNumber, hash) := by
  have hbodies := map_body_attachAuxiliaryData block.auxiliaryDataSet
    ((block.transactionBodies.zip block.transactionWitnessSets).zipIdx.filter
      fun x => !block.invalidTransactions.contains (UInt16.ofNat x.2))
  have hfilter : ((block.transactionBodies.zip block.transactionWitnessSets).zipIdx.filter
      fun x => !block.invalidTransactions.contains (UInt16.ofNat x.2)) =
      (block.transactionBodies.zip block.transactionWitnessSets).zipIdx.filter
        fun x => !block.invalidTransactions.any fun i => i.toNat = x.2 := by
    apply List.filter_congr
    rintro ⟨x, ix⟩ hx
    have hlt := List.snd_lt_of_mem_zipIdx hx
    rw [List.length_zip] at hlt
    have hix : ix < 2 ^ 16 := by
      simp only at hlt
      omega
    exact congrArg (!·) (contains_ofNat_iff hix block.invalidTransactions)
  rw [unpackValidTransactions, List.map_map, Block.transactions, List.filter_map, List.map_map]
  have hpair := congrArg (List.map fun body : E.Body =>
    (body, block.header.slot, block.header.blockNumber, hash)) hbodies
  rw [List.map_map, List.map_map] at hpair
  exact hpair.trans (congrArg (List.map _) hfilter)

theorem handledEvents_of_block (blk : EraBlock W A W' A') (h : blk.Aligned) :
    ((cml.unpackValidTransactionsMultiEra blk.multiEra).map BlockTx.applied).map
      (fun ev => Event.ledger (ev.map (TxViewMut.fromEither cml))) =
        handledEvents cml (blk.blockTxs cml) := by
  cases blk with
  | inl blk =>
    have hbodies := congrArg (List.map fun x : BlockTx BabbageTransactionBody =>
      Event.ledger (BlockTx.applied ((⟨cml.hashTransactionCanonical x.1.cborBytes, x.1.inputs,
        enumerate (x.1.outputs.map fun out =>
          .conwayFormatTxOut out.address out.value out.datum none)⟩ : TxViewMut), x.2)))
      (map_body_unpackValidTransactions (cml.blake2b256 (cml.babbageToCborBytes blk)) blk h.2)
    rw [List.map_map, List.map_map] at hbodies
    simp only [EraBlock.multiEra, Cml.unpackValidTransactionsMultiEra, List.map_map,
      Cml.unpackValidTransactionsBabbage, handledEvents, EraBlock.blockTxs, List.filter_map]
    exact hbodies
  | inr blk =>
    have hbodies := congrArg (List.map fun x : BlockTx TransactionBody =>
      Event.ledger (BlockTx.applied ((⟨cml.hashTransactionCanonical x.1.cborBytes, x.1.inputs,
        enumerate x.1.outputs⟩ : TxViewMut), x.2)))
      (map_body_unpackValidTransactions (cml.blake2b256 (cml.conwayToCborBytes blk)) blk h.2)
    rw [List.map_map, List.map_map] at hbodies
    simp only [EraBlock.multiEra, Cml.unpackValidTransactionsMultiEra, List.map_map,
      Cml.unpackValidTransactionsConway, handledEvents, EraBlock.blockTxs, List.filter_map]
    exact hbodies

/-- The blocks of the two eras have headers that can be hashed: the stream does not panic. -/
theorem exists_processUpstream (handleRollbacksAfter : Slot) (cache : LedgerCache)
    (blocks : List (EraBlock W A W' A' × Bytes)) :
    ∃ cache', cml.processUpstream handleRollbacksAfter cache
        (blocks.map fun (blk, blkBytes) => .rollForward blk.multiEra blkBytes false) =
      some (cache', blocks.flatMap fun (blk, _) =>
        (cml.unpackValidTransactionsMultiEra blk.multiEra).map BlockTx.applied) := by
  induction blocks generalizing cache with
  | nil => exact ⟨cache, rfl⟩
  | cons b blocks ih =>
    obtain ⟨blk, blkBytes⟩ := b
    have hstep : ∃ cache', cml.processUpstreamByTxs handleRollbacksAfter cache
        (.rollForward blk.multiEra blkBytes false) = some (cache',
          (cml.unpackValidTransactionsMultiEra blk.multiEra).map BlockTx.applied) := by
      have hpoint : ∃ point, cml.headerPoint blk.multiEra.header = some point := by
        cases blk <;> exact ⟨_, rfl⟩
      obtain ⟨point, hp⟩ := hpoint
      by_cases hslot : blk.multiEra.header.slot > handleRollbacksAfter <;>
        simp [Cml.processUpstreamByTxs, hslot, Cml.cacheBlock, Cml.cachePoint, hp]
    obtain ⟨cache₁, hstep⟩ := hstep
    obtain ⟨cache₂, hrest⟩ := ih cache₁
    exact ⟨cache₂, by simp [Cml.processUpstream, hstep, hrest]⟩

/-- The index holds what the handler makes of the valid transactions in order. -/
theorem indexOfBlocks_eq (handleRollbacksAfter : Slot) (cache : LedgerCache)
    (blocks : List (EraBlock W A W' A' × Bytes)) (aligned : ∀ b ∈ blocks, b.1.Aligned) :
    indexOfBlocks cml handleRollbacksAfter cache blocks =
      some (runEvents (handledEvents cml (blocks.flatMap fun b => b.1.blockTxs cml))) := by
  obtain ⟨cache', hrun⟩ := @exists_processUpstream _ _ _ _ cml handleRollbacksAfter cache blocks
  have hevents : (blocks.flatMap fun b =>
      (cml.unpackValidTransactionsMultiEra b.1.multiEra).map BlockTx.applied).map
        (fun ev => Event.ledger (ev.map (TxViewMut.fromEither cml))) =
      handledEvents cml (blocks.flatMap fun b => b.1.blockTxs cml) := by
    rw [List.map_flatMap, handledEvents, List.filter_flatMap, List.map_flatMap]
    apply List.flatMap_congr
    intro b hb
    exact handledEvents_of_block b.1 (aligned b hb)
  rw [indexOfBlocks, Cml.ledgerTransactions_none, hrun, Option.map_some, ← hevents]

/-! ### One output of the ledger -/

variable {txs : List (LedgerTx (babbageEra W A) (conwayEra W' A'))}
  {tx : LedgerTx (babbageEra W A) (conwayEra W' A')} {o : OutputRef}

theorem utxo_concat : utxo cml (txs ++ [tx]) o =
    match (tx.effect cml).outputAt o with
    | some out => some out.contents
    | none => if o ∈ (tx.effect cml).inputRefs then none else utxo cml txs o := by
  rw [utxo, List.foldl_append]
  rfl

theorem ValidChain.prefix {rest : List (LedgerTx (babbageEra W A) (conwayEra W' A'))}
    (h : ValidChain cml (txs ++ rest)) : ValidChain cml txs where
  distinct := by
    have hd := h.distinct
    rw [List.map_append] at hd
    exact hd.of_append_left
  unspent pre t post hsplit o ho hin := by
    refine h.unspent pre t (post ++ rest) (by simp [hsplit]) o ho ?_
    rw [List.map_append]
    exact List.mem_append_left _ hin

/-- A new transaction has a hash of its own. -/
theorem ValidChain.hash_ne (h : ValidChain cml (txs ++ [tx])) :
    ∀ t ∈ txs, (t.effect cml).hash ≠ (tx.effect cml).hash := by
  intro t ht heq
  have hd := h.distinct
  rw [List.map_append] at hd
  exact (List.nodup_append.mp hd).2.2 _ (List.mem_map_of_mem ht) _ (List.mem_singleton_self _) heq

theorem ValidChain.not_created (h : ValidChain cml (txs ++ [tx]))
    (ho : o ∈ (tx.effect cml).outputRefs) : ∀ t ∈ txs, o ∉ (t.effect cml).outputRefs := by
  intro t ht hot
  exact h.hash_ne t ht (((t.effect cml).hash_of_mem_outputRefs hot).symm.trans
    ((tx.effect cml).hash_of_mem_outputRefs ho))

theorem exists_creator (h : utxo cml txs o ≠ none) :
    ∃ t ∈ txs, o ∈ (t.effect cml).outputRefs := by
  induction txs using List.reverseRecOn with
  | nil => exact absurd rfl h
  | append_singleton txs tx ih =>
    rw [utxo_concat] at h
    cases hout : (tx.effect cml).outputAt o with
    | some out => exact ⟨tx, by simp, (tx.effect cml).isSome_outputAt.mp (by rw [hout]; rfl)⟩
    | none =>
      rw [hout] at h
      by_cases hin : o ∈ (tx.effect cml).inputRefs
      · simp [hin] at h
      · obtain ⟨t, ht, hot⟩ := ih (by simpa [hin] using h)
        exact ⟨t, List.mem_append_left _ ht, hot⟩

/-- What a new transaction creates was not consumed before. -/
theorem ValidChain.not_consumed (h : ValidChain cml (txs ++ [tx]))
    (ho : o ∈ (tx.effect cml).outputRefs) :
    ∀ t ∈ txs ++ [tx], o ∉ (t.effect cml).inputRefs := by
  intro t ht hin
  obtain ⟨pre, post, hsplit⟩ := List.append_of_mem ht
  have hpre : pre <+: txs := by
    rcases List.eq_nil_or_concat' post with rfl | ⟨post, last, rfl⟩
    · exact (List.append_inj' hsplit rfl).1 ▸ List.prefix_rfl
    · rw [← List.cons_append, ← List.append_assoc] at hsplit
      rw [(List.append_inj' hsplit rfl).1]
      exact List.prefix_append ..
  have hhash := (tx.effect cml).hash_of_mem_outputRefs ho
  obtain ⟨u, hu, hou⟩ := exists_creator
    (h.unspent pre t post hsplit o hin (hhash ▸ List.mem_map_of_mem (by simp)))
  exact h.not_created ho u (hpre.subset hu) hou

/-- What is in the UTxO set was created by a transaction of the chain and consumed by none. -/
theorem ValidChain.utxo_eq_some_iff (h : ValidChain cml txs) {c : Contents} :
    utxo cml txs o = some c ↔
      (∃ t ∈ txs, ∃ out, (t.effect cml).outputAt o = some out ∧ out.contents = c) ∧
        ∀ t ∈ txs, o ∉ (t.effect cml).inputRefs := by
  induction txs using List.reverseRecOn with
  | nil => simp [utxo]
  | append_singleton txs tx ih =>
    rw [utxo_concat]
    cases hout : (tx.effect cml).outputAt o with
    | some out =>
      have ho := (tx.effect cml).isSome_outputAt.mp (by rw [hout]; rfl)
      rw [Option.some.injEq]
      constructor
      · exact fun hc => ⟨⟨tx, by simp, out, hout, hc⟩, h.not_consumed ho⟩
      · rintro ⟨⟨t, ht, out', hout', rfl⟩, -⟩
        rcases List.mem_append.mp ht with ht | ht
        · exact absurd ((t.effect cml).isSome_outputAt.mp (by rw [hout']; rfl))
            (h.not_created ho t ht)
        · obtain rfl := List.mem_singleton.mp ht
          rw [Option.some.inj (hout.symm.trans hout')]
    | none =>
      simp only [List.mem_append, List.mem_singleton, or_imp, forall_and, forall_eq, or_and_right,
        exists_or, exists_eq_left, hout, reduceCtorEq, false_and, exists_false, or_false]
      by_cases hin : o ∈ (tx.effect cml).inputRefs
      · simp [hin]
      · simp [hin, ih h.prefix]

/-- No output is consumed by two transactions. -/
theorem ValidChain.consumed_once (h : ValidChain cml txs) {t w : LedgerTx _ _} (ht : t ∈ txs)
    (hw : w ∈ txs) (hne : t ≠ w) (ho : o.txHash ∈ txs.map fun tx => (tx.effect cml).hash)
    (hot : o ∈ (t.effect cml).inputRefs) : o ∉ (w.effect cml).inputRefs := by
  have hafter : ∀ pre a post, txs = pre ++ a :: post → ∀ b ∈ pre,
      o ∈ (a.effect cml).inputRefs → o ∉ (b.effect cml).inputRefs := by
    intro pre a post hsplit b hb hoa
    have hpre : ValidChain cml pre := ValidChain.prefix (hsplit ▸ h)
    obtain ⟨c, hc⟩ := Option.ne_none_iff_exists'.mp (h.unspent pre a post hsplit o hoa ho)
    exact (hpre.utxo_eq_some_iff.mp hc).2 b hb
  intro how
  obtain ⟨pre, post, hsplit⟩ := List.append_of_mem ht
  rw [hsplit] at hw
  rcases List.mem_append.mp hw with hw | hw
  · exact hafter pre t post hsplit w hw hot how
  · rcases List.mem_cons.mp hw with rfl | hw
    · exact hne rfl
    · obtain ⟨pre', post', rfl⟩ := List.append_of_mem hw
      exact hafter (pre ++ t :: pre') w post' (by simp [hsplit]) t (by simp) how hot

/-! ### One output of the index -/

/-- An output as the index stores it. -/
def LedgerTx.seen (tx : LedgerTx (babbageEra W A) (conwayEra W' A')) (out : TransactionOutput) :
    TransactionOutput :=
  if tx.isBabbage then .conwayFormatTxOut out.address out.value out.datum none else out

theorem contents_seen_iff {out : TransactionOutput} :
    (tx.seen out).contents = out.contents ↔ (tx.isBabbage = true → out.scriptRef = none) := by
  cases hb : tx.isBabbage with
  | false => simp [LedgerTx.seen, hb]
  | true => simp [LedgerTx.seen, hb, TransactionOutput.contents, TransactionOutput.address,
      TransactionOutput.value, TransactionOutput.datum, TransactionOutput.scriptRef, eq_comm]

theorem inputRefs_fromEither (hv : tx.isValid = true) :
    (TxViewMut.fromEither cml tx).inputRefs = (tx.effect cml).inputRefs := by
  cases tx <;> simp [TxViewMut.inputRefs, TxViewMut.fromEither, TxViewMut.fromTransaction,
    LedgerTx.effect, hv, LedgerTx.body, BabbageTransactionBody.upcast]

theorem outputAt_fromEither (hv : tx.isValid = true) :
    (TxViewMut.fromEither cml tx).outputAt o = ((tx.effect cml).outputAt o).map tx.seen := by
  have hupcast : ∀ out : BabbageTransactionOutput, TransactionOutput.conwayFormatTxOut
      out.upcast.address out.upcast.value out.upcast.datum none =
        .conwayFormatTxOut out.address out.value out.datum none := by
    rintro (_ | _) <;> rfl
  have houts : (TxViewMut.fromEither cml tx).outputs =
      (tx.effect cml).outputs.map fun out => (out.1, tx.seen out.2) := by
    cases tx with
    | inl tx =>
      simp only [TxViewMut.fromEither, LedgerTx.effect, hv, if_true, LedgerTx.body,
        BabbageTransactionBody.upcast, ← enumerate_map, List.map_map]
      congr 1
      apply List.map_congr_left
      intro out _
      exact (hupcast out).symm
    | inr tx =>
      simp [TxViewMut.fromEither, TxViewMut.fromTransaction, LedgerTx.effect, hv, LedgerTx.body,
        LedgerTx.seen, LedgerTx.isBabbage]
  have hhash : (TxViewMut.fromEither cml tx).hash = (tx.effect cml).hash := by
    cases tx <;> rfl
  rw [TxViewMut.outputAt, TxViewMut.outputAt, houts, hhash, List.filter_map, List.getLast?_map,
    Option.map_map, Option.map_map]
  rfl

variable {xs : List (BlockTx (LedgerTx (babbageEra W A) (conwayEra W' A')))}
  {x : BlockTx (LedgerTx (babbageEra W A) (conwayEra W' A'))}

theorem storedTxo_of_invalid (hv : x.1.isValid = false) :
    storedTxo (runEvents (handledEvents cml (xs ++ [x]))) o =
      storedTxo (runEvents (handledEvents cml xs)) o := by
  simp [handledEvents, hv]

/-- The record of an output after the next valid transaction. -/
theorem storedTxo_of_valid (hv : x.1.isValid = true) :
    storedTxo (runEvents (handledEvents cml (xs ++ [x]))) o =
      match (x.1.effect cml).outputAt o with
      | some out => some ⟨x.1.seen out, some x.2.1,
          keptSpent (((x.1.effect cml).marked true o
            (storedTxo (runEvents (handledEvents cml xs)) o)))⟩
      | none => (x.1.effect cml).marked true o
          (storedTxo (runEvents (handledEvents cml xs)) o) := by
  have hevents : handledEvents cml (xs ++ [x]) = handledEvents cml xs ++
      [.ledger (.txApplied (TxViewMut.fromEither cml x.1) x.2.1 x.2.2.1 x.2.2.2)] := by
    simp [handledEvents, hv, BlockTx.applied]
  have hmarked : ∀ r, (TxViewMut.fromEither cml x.1).marked true o r =
      (x.1.effect cml).marked true o r := fun r => by
    rw [TxViewMut.marked, TxViewMut.marked, inputRefs_fromEither hv]
  rw [hevents, storedTxo_concat]
  change (TxViewMut.fromEither cml x.1).applied (some x.2.1) o _ = _
  rw [TxViewMut.applied, outputAt_fromEither hv, hmarked]
  cases (x.1.effect cml).outputAt o <;> rfl

theorem storedTxo_eq_none
    (h : ∀ t ∈ xs.map Prod.fst, t.isValid = true → o ∉ (t.effect cml).outputRefs) :
    storedTxo (runEvents (handledEvents cml xs)) o = none := by
  induction xs using List.reverseRecOn with
  | nil => simp [handledEvents, runEvents, storedTxo, cellOf, RocksDB.empty]
  | append_singleton xs x ih =>
    simp only [List.map_append, List.map_cons, List.map_nil, List.mem_append, List.mem_singleton,
      or_imp, forall_and, forall_eq] at h
    have hbefore := ih h.1
    cases hv : x.1.isValid with
    | false => rw [storedTxo_of_invalid hv, hbefore]
    | true =>
      rw [storedTxo_of_valid hv, (x.1.effect cml).outputAt_eq_none.mpr (h.2 hv), hbefore]
      simp [TxViewMut.marked]

/-- An output of a valid transaction is stored as it was seen, and spent once a valid transaction
consumes it. -/
theorem storedTxo_of_created (h : ValidChain cml (xs.map Prod.fst)) (ht : tx ∈ xs.map Prod.fst)
    (hv : tx.isValid = true) {out : TransactionOutput}
    (hout : (tx.effect cml).outputAt o = some out) :
    ∃ r, storedTxo (runEvents (handledEvents cml xs)) o = some r ∧ r.output = tx.seen out ∧
      (r.spent = true ↔
        ∃ w ∈ xs.map Prod.fst, w.isValid = true ∧ o ∈ (w.effect cml).inputRefs) := by
  have ho : o ∈ (tx.effect cml).outputRefs := (tx.effect cml).isSome_outputAt.mp (by rw [hout]; rfl)
  induction xs using List.reverseRecOn with
  | nil => simp at ht
  | append_singleton xs x ih =>
    have happ : (xs ++ [x]).map Prod.fst = xs.map Prod.fst ++ [x.1] := by simp
    rw [happ] at h ht ⊢
    rcases List.mem_append.mp ht with ht | ht
    · obtain ⟨r, hr, hrout, hrspent⟩ := ih h.prefix ht
      have hnew : (x.1.effect cml).outputAt o = none := by
        rw [TxViewMut.outputAt_eq_none]
        exact fun hx => h.not_created hx tx ht ho
      simp only [List.mem_append, List.mem_singleton, or_and_right, exists_or, exists_eq_left]
      cases hvx : x.1.isValid with
      | false =>
        rw [storedTxo_of_invalid hvx]
        exact ⟨r, hr, hrout, by simpa using hrspent⟩
      | true =>
        rw [storedTxo_of_valid hvx, hnew, hr, TxViewMut.marked]
        by_cases hin : o ∈ (x.1.effect cml).inputRefs
        · refine ⟨r.mark true, ?_, hrout, by simp [TxoRecord.mark, hin]⟩
          rw [if_pos hin]
          rfl
        · refine ⟨r, ?_, hrout, by simpa [hin] using hrspent⟩
          rw [if_neg hin]
    · obtain rfl := List.mem_singleton.mp ht
      have hbefore : storedTxo (runEvents (handledEvents cml xs)) o = none :=
        storedTxo_eq_none fun t ht' _ => h.not_created ho t ht'
      rw [storedTxo_of_valid hv, hout, hbefore]
      refine ⟨_, rfl, rfl, ?_⟩
      have hnever : ¬ ∃ w ∈ xs.map Prod.fst ++ [x.1], w.isValid = true ∧
          o ∈ (w.effect cml).inputRefs := by
        rintro ⟨w, hw, -, how⟩
        exact h.not_consumed ho w hw how
      simp only [hnever, iff_false, TxViewMut.marked]
      split <;> simp [keptSpent]

/-! ### The index against the ledger -/

variable (cml) in
/-- No output of the chain serves as collateral of a failed transaction, no collateral return is
left unspent, and no unspent output of the earlier era has a script reference. -/
structure Undisturbed (txs : List (LedgerTx (babbageEra W A) (conwayEra W' A'))) : Prop where
  collateral : ∀ t ∈ txs, t.isValid = false → ∀ o ∈ (t.effect cml).inputRefs,
    ∀ v ∈ txs, v.isValid = true → o ∉ (v.effect cml).outputRefs
  returns : ∀ t ∈ txs, t.isValid = false → ∀ o ∈ (t.effect cml).outputRefs, utxo cml txs o = none
  scripts : ∀ t ∈ txs, t.isValid = true → t.isBabbage = true → ∀ o out,
    (t.effect cml).outputAt o = some out → utxo cml txs o ≠ none → out.scriptRef = none

/-- The unspent output that the index has of a valid transaction. -/
theorem unspentContents_of_created (h : ValidChain cml (xs.map Prod.fst))
    (ht : tx ∈ xs.map Prod.fst) (hv : tx.isValid = true) {out : TransactionOutput}
    (hout : (tx.effect cml).outputAt o = some out) :
    (unspentContents (runEvents (handledEvents cml xs)) o = none ↔
      ∃ w ∈ xs.map Prod.fst, w.isValid = true ∧ o ∈ (w.effect cml).inputRefs) ∧
    ∀ c, unspentContents (runEvents (handledEvents cml xs)) o = some c →
      c = (tx.seen out).contents := by
  obtain ⟨r, hr, hrout, hrspent⟩ := storedTxo_of_created h ht hv hout
  rw [unspentContents, hr, Option.bind_some, ← hrspent, ← hrout]
  cases hs : r.spent with
  | true => simp
  | false => simp [eq_comm]

theorem utxo_of_created (h : ValidChain cml txs) (ht : tx ∈ txs) {out : TransactionOutput}
    (hout : (tx.effect cml).outputAt o = some out) :
    (utxo cml txs o = none ↔ ∃ w ∈ txs, o ∈ (w.effect cml).inputRefs) ∧
      ∀ c, utxo cml txs o = some c → c = out.contents := by
  have hall : (∀ t ∈ txs, o ∉ (t.effect cml).inputRefs) → utxo cml txs o = some out.contents :=
    fun hc => h.utxo_eq_some_iff.mpr ⟨⟨tx, ht, out, hout, rfl⟩, hc⟩
  constructor
  · constructor
    · intro hnone
      by_contra hno
      have hsome := hall fun w hw how => hno ⟨w, hw, how⟩
      rw [hnone] at hsome
      cases hsome
    · rintro ⟨w, hw, how⟩
      by_contra hne
      obtain ⟨c, hc⟩ := Option.ne_none_iff_exists'.mp hne
      exact (h.utxo_eq_some_iff.mp hc).2 w hw how
  · intro c hc
    rw [hall (h.utxo_eq_some_iff.mp hc).2, Option.some.injEq] at hc
    exact hc.symm

theorem ValidChain.eq_of_created (h : ValidChain cml txs) {t v : LedgerTx _ _} (ht : t ∈ txs)
    (hv : v ∈ txs) (hot : o ∈ (t.effect cml).outputRefs) (hov : o ∈ (v.effect cml).outputRefs) :
    t = v :=
  List.inj_on_of_nodup_map h.distinct ht hv
    (((t.effect cml).hash_of_mem_outputRefs hot).symm.trans
      ((v.effect cml).hash_of_mem_outputRefs hov))

theorem undisturbed_of_forall_eq (h : ValidChain cml (xs.map Prod.fst))
    (heq : ∀ o, unspentContents (runEvents (handledEvents cml xs)) o =
      utxo cml (xs.map Prod.fst) o) : Undisturbed cml (xs.map Prod.fst) where
  collateral := by
    intro t ht hinvalid o hot v hv hvalid hov
    obtain ⟨out, hout⟩ := Option.isSome_iff_exists.mp ((v.effect cml).isSome_outputAt.mpr hov)
    have hconsumed := (utxo_of_created h hv hout).1.mpr ⟨t, ht, hot⟩
    rw [← heq] at hconsumed
    obtain ⟨w, hw, hwvalid, how⟩ := (unspentContents_of_created h hv hvalid hout).1.mp hconsumed
    have hne : t ≠ w := by
      rintro rfl
      rw [hinvalid] at hwvalid
      cases hwvalid
    refine h.consumed_once ht hw hne ?_ hot how
    rw [(v.effect cml).hash_of_mem_outputRefs hov]
    exact List.mem_map_of_mem hv
  returns := by
    intro t ht hinvalid o hot
    rw [← heq, unspentContents, storedTxo_eq_none]
    · rfl
    · intro v hv hvalid hov
      rw [← h.eq_of_created ht hv hot hov, hinvalid] at hvalid
      cases hvalid
  scripts := by
    intro t ht hvalid hbabbage o out hout hne
    obtain ⟨c, hc⟩ := Option.ne_none_iff_exists'.mp hne
    have hseen := (unspentContents_of_created h ht hvalid hout).2 c ((heq o).trans hc)
    rw [(utxo_of_created h ht hout).2 c hc] at hseen
    exact contents_seen_iff.mp hseen.symm hbabbage

theorem Undisturbed.unspentContents_eq (hu : Undisturbed cml (xs.map Prod.fst))
    (h : ValidChain cml (xs.map Prod.fst)) (o : OutputRef) :
    unspentContents (runEvents (handledEvents cml xs)) o = utxo cml (xs.map Prod.fst) o := by
  by_cases hcreated : ∃ t ∈ xs.map Prod.fst, t.isValid = true ∧ o ∈ (t.effect cml).outputRefs
  · obtain ⟨t, ht, hvalid, hot⟩ := hcreated
    obtain ⟨out, hout⟩ := Option.isSome_iff_exists.mp ((t.effect cml).isSome_outputAt.mpr hot)
    obtain ⟨hnone, hsome⟩ := unspentContents_of_created h ht hvalid hout
    obtain ⟨hnone', hsome'⟩ := utxo_of_created h ht hout
    cases hc : utxo cml (xs.map Prod.fst) o with
    | none =>
      obtain ⟨w, hw, how⟩ := hnone'.mp hc
      apply hnone.mpr
      refine ⟨w, hw, ?_, how⟩
      by_contra hinvalid
      exact hu.collateral w hw (by simpa using hinvalid) o how t ht hvalid hot
    | some c =>
      have hunspent : unspentContents (runEvents (handledEvents cml xs)) o ≠ none := by
        intro hn
        obtain ⟨w, hw, -, how⟩ := hnone.mp hn
        rw [hnone'.mpr ⟨w, hw, how⟩] at hc
        cases hc
      obtain ⟨c', hc'⟩ := Option.ne_none_iff_exists'.mp hunspent
      have hseen : (t.seen out).contents = out.contents := contents_seen_iff.mpr fun hb =>
        hu.scripts t ht hvalid hb o out hout (by simp [hc])
      rw [hc', hsome c' hc', hsome' c hc, hseen]
  · rw [unspentContents, storedTxo_eq_none fun t ht hv hot => hcreated ⟨t, ht, hv, hot⟩,
      Option.bind_none]
    by_contra hne
    obtain ⟨t, ht, hot⟩ := exists_creator (Ne.symm hne)
    have hinvalid : t.isValid = false := by
      by_contra hv
      exact hcreated ⟨t, ht, by simpa using hv, hot⟩
    exact hne (hu.returns t ht hinvalid o hot).symm

/-- Fed with the blocks of a chain from its first one on, the index has the UTxO set of the ledger as
its unspent outputs precisely when failed transactions leave it alone and no script reference is
lost. -/
theorem index_is_utxo_iff (cml : Cml (babbageEra W A) (conwayEra W' A'))
    (handleRollbacksAfter : Slot) (cache : LedgerCache)
    (blocks : List (EraBlock W A W' A' × Bytes)) (aligned : ∀ b ∈ blocks, b.1.Aligned)
    (valid : ValidChain cml (blocks.flatMap fun b => b.1.transactions)) :
    ∃ db, indexOfBlocks cml handleRollbacksAfter cache blocks = some db ∧
      ((∀ o, unspentContents db o = utxo cml (blocks.flatMap fun b => b.1.transactions) o) ↔
        Undisturbed cml (blocks.flatMap fun b => b.1.transactions)) := by
  have htxs : (blocks.flatMap fun b => b.1.transactions) =
      (blocks.flatMap fun b => b.1.blockTxs cml).map Prod.fst := by
    simp only [List.map_flatMap, map_fst_blockTxs]
  rw [htxs] at valid ⊢
  exact ⟨_, indexOfBlocks_eq handleRollbacksAfter cache blocks aligned,
    undisturbed_of_forall_eq valid, fun hu => hu.unspentContents_eq valid⟩

end Ledger

/-! ### A block with a failed transaction -/

/-- The first transaction creates an output. -/
def creatingBody : TransactionBody where
  inputs := [⟨.replicate 0, 0⟩]
  outputs := [.conwayFormatTxOut (.enterprise (.pubKey (.replicate 7))) ⟨1, []⟩ none none]
  collateralInputs := []
  collateralReturn := none
  cborBytes := [1]

/-- The second one fails; its collateral is the given input. -/
def failedBody (collateral : TransactionInput) : TransactionBody where
  inputs := []
  outputs := []
  collateralInputs := [collateral]
  collateralReturn := none
  cborBytes := [2]

def failedBlock (collateral : TransactionInput) : EraBlock Unit Unit Unit Unit :=
  .inr ⟨⟨5, 0, [0]⟩, [creatingBody, failedBody collateral], [(), ()], [], [1]⟩

/-- The output of the first transaction. -/
def createdInput : TransactionInput := ⟨paddedCml.hashTransactionCanonical [1], 0⟩

theorem transactions_failedBlock (collateral : TransactionInput) :
    (failedBlock collateral).transactions =
      [.inr ⟨creatingBody, (), true, none⟩, .inr ⟨failedBody collateral, (), false, none⟩] := rfl

theorem hashes_failedBlock (collateral : TransactionInput) :
    ((failedBlock collateral).transactions.map fun tx => (tx.effect paddedCml).hash) =
      [paddedCml.hashTransactionCanonical [1], paddedCml.hashTransactionCanonical [2]] := rfl

theorem validChain_failedBlock {collateral : TransactionInput}
    (h : collateral = createdInput ∨ collateral = ⟨.replicate 9, 0⟩) :
    ValidChain paddedCml (failedBlock collateral).transactions where
  distinct := by
    rw [hashes_failedBlock]
    decide +kernel
  unspent := by
    intro pre tx post hsplit o ho hhash
    rw [hashes_failedBlock] at hhash
    rw [transactions_failedBlock] at hsplit
    rcases pre with - | ⟨a, - | ⟨b, pre⟩⟩
    · obtain ⟨rfl, -⟩ := List.cons.inj hsplit
      obtain rfl : o = ⟨.replicate 0, 0⟩ := List.mem_singleton.mp ho
      revert hhash
      decide +kernel
    · obtain ⟨rfl, hsplit'⟩ := List.cons.inj hsplit
      obtain ⟨rfl, -⟩ := List.cons.inj hsplit'
      obtain rfl : o = .ofInput collateral := List.mem_singleton.mp ho
      rcases h with rfl | rfl
      · decide +kernel
      · revert hhash
        decide +kernel
    · simp at hsplit

theorem index_is_utxo_failedBlock : ∃ db,
    indexOfBlocks paddedCml 0 ∅ [(failedBlock ⟨.replicate 9, 0⟩, [])] = some db ∧
      ∀ o, unspentContents db o =
        utxo paddedCml (failedBlock ⟨.replicate 9, 0⟩).transactions o := by
  have haligned : ∀ b ∈ [(failedBlock ⟨.replicate 9, 0⟩, ([] : Bytes))], b.1.Aligned := by
    intro b hb
    obtain rfl := List.mem_singleton.mp hb
    exact ⟨rfl, by decide⟩
  have hvalid := validChain_failedBlock (.inr (rfl : _ = (⟨.replicate 9, 0⟩ : TransactionInput)))
  obtain ⟨db, hdb, hiff⟩ := index_is_utxo_iff paddedCml 0 ∅
    [(failedBlock ⟨.replicate 9, 0⟩, [])] haligned (by simpa using hvalid)
  refine ⟨db, hdb, fun o => ?_⟩
  have hu : Undisturbed paddedCml (failedBlock ⟨.replicate 9, 0⟩).transactions := by
    rw [transactions_failedBlock]
    refine ⟨by decide +kernel, by decide +kernel, ?_⟩
    intro t ht _ hbabbage
    rcases List.mem_cons.mp ht with rfl | ht
    · cases hbabbage
    · obtain rfl := List.mem_singleton.mp ht
      cases hbabbage
  simpa using hiff.mpr (by simpa using hu) o

/-- The output that a failed transaction of the same block takes as collateral stays unspent in the
index. -/
theorem collateral_stays_unspent : ∃ db,
    indexOfBlocks paddedCml 0 ∅ [(failedBlock createdInput, [])] = some db ∧
      ValidChain paddedCml (failedBlock createdInput).transactions ∧
      ¬ ∀ o, unspentContents db o = utxo paddedCml (failedBlock createdInput).transactions o := by
  have hvalid := validChain_failedBlock (.inl (rfl : createdInput = createdInput))
  have htxs : ((failedBlock createdInput).blockTxs paddedCml).map Prod.fst =
      (failedBlock createdInput).transactions := map_fst_blockTxs _
  refine ⟨_, indexOfBlocks_eq 0 ∅ _ ?_, hvalid, ?_⟩
  · intro b hb
    obtain rfl := List.mem_singleton.mp hb
    exact ⟨rfl, by decide⟩
  · intro heq
    rw [← htxs] at hvalid heq
    have hu := undisturbed_of_forall_eq hvalid (by simpa using heq)
    rw [htxs, transactions_failedBlock] at hu
    exact hu.collateral _ (.tail _ (.head _)) rfl (.ofInput createdInput) (.head _) _ (.head _) rfl
      (.head _)

end UtxoMonitor
