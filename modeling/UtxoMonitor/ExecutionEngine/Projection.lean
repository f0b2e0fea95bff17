import UtxoMonitor.ExecutionEngine.Blueprint

/-! Inputs, outputs and redeemers of a projected blueprint agree on their indices. -/
namespace UtxoMonitor.ExecutionEngine

open Lib LiquidityBook

open EventSink (FinalizedTxOut)

/-- How many references come before `r` in the order of the ledger. -/
def rank (references : List OutputRef) (r : OutputRef) : Nat :=
  references.countP fun r' => compare r' r = .lt

namespace TxIo

/-- The input that an entry adds. -/
def input (ordering : TxInputsOrdering) : TxIo → Option BuilderInput
  | .inl (input, _) => some ⟨input.reference, input.utxo,
      .plutusScript input.script.hash (input.redeemer.compute ordering) input.requiredSigners⟩
  | .inr (funding, _) => funding.map fun funding => ⟨funding.reference, funding.out, .paymentKey⟩

/-- An entry with a reference has only lesser references before it. -/
def Before (a b : TxIo) : Prop :=
  ∀ r', b.reference = some r' → ∃ r, a.reference = some r ∧ compare r r' = .lt

/-- References in the order of the ledger, and entries without one behind them. -/
def leRef : Option OutputRef → Option OutputRef → Bool
  | _, none => true
  | none, some _ => false
  | some r, some r' => compare r r' ≠ .gt

theorem leRef_trans (a b c : Option OutputRef) (hab : leRef a b) (hbc : leRef b c) :
    leRef a c := by
  cases a with
  | none =>
    cases b with
    | none => exact hbc
    | some r => cases hab
  | some r =>
    cases b with
    | none =>
      cases c with
      | none => rfl
      | some r'' => cases hbc
    | some r' =>
      cases c with
      | none => rfl
      | some r'' =>
        simp only [leRef, decide_eq_true_eq, ← Ordering.isLE_iff_ne_gt] at hab hbc ⊢
        exact Std.TransCmp.isLE_trans hab hbc

theorem leRef_total (a b : Option OutputRef) : leRef a b || leRef b a := by
  cases a with
  | none => cases b <;> simp [leRef]
  | some r =>
    cases b with
    | none => rfl
    | some r' =>
      have hswap : compare r' r = (compare r r').swap := Std.OrientedCmp.eq_swap
      rw [leRef, leRef, hswap]
      cases compare r r' <;> rfl

/-- In the order of the ledger, with distinct references. -/
theorem before_of_le {a b : TxIo} (hle : leRef a.reference b.reference)
    (hne : ∀ r, a.reference = some r → ∀ r', b.reference = some r' → r ≠ r') : Before a b := by
  intro r' hb
  cases ha : a.reference with
  | none =>
    rw [ha, hb] at hle
    cases hle
  | some r =>
    refine ⟨r, rfl, ?_⟩
    have hdistinct : compare r r' ≠ .eq := by
      intro heq
      exact hne r ha r' hb (Std.LawfulEqOrd.eq_of_compare heq)
    rw [ha, hb, leRef, decide_eq_true_eq] at hle
    cases hcmp : compare r r' with
    | lt => rfl
    | eq => exact absurd hcmp hdistinct
    | gt => exact absurd hcmp hle

/-- Entries are compared by their references, if one of them is a script input. -/
theorem cmp_inl (script : ScriptInputBlueprint × Pools.TransactionOutput) (b : TxIo) :
    decide (cmp (.inl script) b ≠ .gt) = leRef (reference (.inl script)) b.reference ∧
      decide (cmp b (.inl script) ≠ .gt) = leRef b.reference (reference (.inl script)) := by
  rcases b with ⟨input, output⟩ | ⟨_ | funding, output⟩ <;> exact ⟨rfl, rfl⟩

end TxIo

namespace TxBlueprint

/-- The entries in the order in which they are collected. -/
def collected (self : TxBlueprint)
    (entry : Option (Option FinalizedTxOut × Pools.TransactionOutput)) : List TxIo :=
  self.scriptIo.map .inl ++ (entry.map .inr).toList

theorem entries_eq (self : TxBlueprint)
    (entry : Option (Option FinalizedTxOut × Pools.TransactionOutput)) :
    self.entries entry =
      (self.collected entry).mergeSort fun a b => TxIo.leRef a.reference b.reference := by
  apply mergeSort_congr
  rw [List.pairwise_append]
  refine ⟨?_, ?_, ?_⟩
  · rw [List.pairwise_map]
    exact List.pairwise_of_forall fun a b => TxIo.cmp_inl a (.inl b)
  · cases entry <;> simp
  · intro a ha b hb
    obtain ⟨script, _, rfl⟩ := List.mem_map.mp ha
    exact TxIo.cmp_inl script b

section Entries

variable {self : TxBlueprint} {entry : Option (Option FinalizedTxOut × Pools.TransactionOutput)}

theorem entries_perm : (self.entries entry).Perm (self.collected entry) :=
  List.mergeSort_perm _ _

theorem references_perm : ((self.entries entry).filterMap TxIo.reference).Perm
    (self.scriptIo.map (·.1.reference) ++
      (entry.bind fun (funding, _) => funding.map FinalizedTxOut.reference).toList) := by
  refine (entries_perm.filterMap _).trans (.of_eq ?_)
  rw [collected, List.filterMap_append, List.filterMap_map]
  congr 1
  · exact congrFun (List.filterMap_eq_map (f := fun io => io.1.reference)) self.scriptIo
  · rcases entry with _ | ⟨_ | funding, output⟩ <;> rfl

theorem entries_ordered (hnodup : ((self.entries entry).filterMap TxIo.reference).Nodup) :
    (self.entries entry).Pairwise TxIo.Before := by
  have hsorted : (self.entries entry).Pairwise fun a b =>
      (TxIo.leRef a.reference b.reference : Prop) := by
    rw [entries_eq]
    exact List.pairwise_mergeSort
      (fun a b c => TxIo.leRef_trans a.reference b.reference c.reference)
      (fun a b => TxIo.leRef_total a.reference b.reference) _
  exact (hsorted.and (List.pairwise_filterMap.mp hnodup)).imp fun ⟨hle, hne⟩ =>
    TxIo.before_of_le hle hne

end Entries

/-! ### Indices -/

section Indices

variable {io before after : List TxIo} {e : TxIo} {r : OutputRef}

/-- An entry stands at the rank of its reference. -/
theorem rank_eq (hordered : (before ++ e :: after).Pairwise TxIo.Before)
    (hr : e.reference = some r) :
    rank ((before ++ e :: after).filterMap TxIo.reference) r = before.length := by
  obtain ⟨_, hafter, hbefore⟩ := List.pairwise_append.mp hordered
  rw [rank, List.countP_filterMap]
  apply countP_before
  · intro b hb
    obtain ⟨r', hr', hlt⟩ := hbefore b hb e List.mem_cons_self r hr
    simp [hr', hlt]
  · simp [hr, Std.ReflCmp.compare_self]
  · intro b hb
    cases hb' : b.reference with
    | none => simp
    | some r' =>
      obtain ⟨r'', hr'', hlt⟩ := (List.pairwise_cons.mp hafter).1 b hb r' hb'
      cases hr.symm.trans hr''
      have hswap : compare r' r = (compare r r').swap := Std.OrientedCmp.eq_swap
      have hgt : compare r' r ≠ .lt := by
        rw [hswap, hlt]
        decide
      simp [hgt]

theorem indexOf_eq (hnodup : (io.filterMap TxIo.reference).Nodup) {ix : Nat}
    (he : io[ix]? = some e) (hr : e.reference = some r) :
    (inputsOrdering io).indexOf r = some ix := by
  apply lookup_foldl_insert
  · show ((io.zipIdx.filterMap fun pair => pair.1.reference.map (·, pair.2)).map Prod.fst).Nodup
    have hkeys : (io.zipIdx.filterMap fun pair => pair.1.reference.map (·, pair.2)).map Prod.fst =
        io.filterMap TxIo.reference := by
      rw [List.map_filterMap]
      conv_rhs => rw [← List.zipIdx_map_fst 0 io, List.filterMap_map]
      apply List.filterMap_congr
      intro pair _
      cases h : pair.1.reference <;> simp [h]
    rw [hkeys]
    exact hnodup
  · rw [List.mem_filterMap]
    exact ⟨(e, ix), List.mem_zipIdx_iff_getElem?.mpr he, by simp [hr]⟩

end Indices

/-! ### What is built -/

section Built

variable (ordering : TxInputsOrdering) {txb : TransactionBuilder} {es : List (TxIo × Nat)}
  {ix : Nat}

theorem addTo_io (txb : TransactionBuilder) (e : TxIo × Nat) :
    (addTo ordering txb e).inputs = txb.inputs ++ (e.1.input ordering).toList ∧
      (addTo ordering txb e).outputs = txb.outputs ++ [e.1.output] := by
  rcases e with ⟨⟨input, output⟩ | ⟨_ | funding, output⟩, ix⟩
  · exact ⟨rfl, rfl⟩
  · exact ⟨(List.append_nil _).symm, rfl⟩
  · exact ⟨rfl, rfl⟩

theorem foldl_addTo_io (txb : TransactionBuilder) (es : List (TxIo × Nat)) :
    (es.foldl (addTo ordering) txb).inputs =
        txb.inputs ++ es.filterMap (fun e => e.1.input ordering) ∧
      (es.foldl (addTo ordering) txb).outputs = txb.outputs ++ es.map (·.1.output) := by
  induction es generalizing txb with
  | nil => simp
  | cons e es ih =>
    obtain ⟨hinputs, houtputs⟩ := addTo_io ordering txb e
    rw [List.foldl_cons, (ih _).1, (ih _).2, hinputs, houtputs]
    constructor
    · rw [List.append_assoc, List.filterMap_cons]
      cases e.1.input ordering <;> rfl
    · rw [List.append_assoc, List.map_cons, List.singleton_append]

theorem addTo_exunits {e : TxIo × Nat} (hix : e.2 ≠ ix) :
    (addTo ordering txb e).exunits.lookup ⟨.spend, ix⟩ = txb.exunits.lookup ⟨.spend, ix⟩ := by
  rcases e with ⟨⟨input, output⟩ | ⟨_ | funding, output⟩, ix'⟩
  · apply AList.lookup_insert_ne
    intro heq
    cases heq
    exact hix rfl
  · rfl
  · rfl

theorem foldl_addTo_exunits (hix : ∀ e ∈ es, e.2 ≠ ix) :
    (es.foldl (addTo ordering) txb).exunits.lookup ⟨.spend, ix⟩ =
      txb.exunits.lookup ⟨.spend, ix⟩ := by
  induction es generalizing txb with
  | nil => rfl
  | cons e es ih =>
    rw [List.foldl_cons, ih fun e' he' => hix e' (List.mem_cons_of_mem _ he'),
      addTo_exunits ordering (hix e List.mem_cons_self)]

/-- The cost of a script input is entered under its index, and not overwritten. -/
theorem exunits_of_script {before after : List TxIo} {input : ScriptInputBlueprint}
    {output : Pools.TransactionOutput} :
    ((before ++ .inl (input, output) :: after).zipIdx.foldl (addTo ordering) txb).exunits.lookup
      ⟨.spend, before.length⟩ = some (input.script.cost.compute ⟨before.length⟩) := by
  rw [List.zipIdx_append, List.foldl_append, List.zipIdx_cons, List.foldl_cons,
    foldl_addTo_exunits]
  · rw [Nat.zero_add]
    exact AList.lookup_insert _
  · intro e he
    have hle := List.le_snd_of_mem_zipIdx he
    omega

theorem foldl_addReferenceInput (txb : TransactionBuilder) (utxos : List FinalizedTxOut) :
    (utxos.foldl TransactionBuilder.addReferenceInput txb).inputs = txb.inputs ∧
      (utxos.foldl TransactionBuilder.addReferenceInput txb).outputs = txb.outputs := by
  induction utxos generalizing txb with
  | nil => exact ⟨rfl, rfl⟩
  | cons utxo utxos ih => exact ih _

/-- Witness scripts touch neither inputs nor outputs, and no redeemer of a script input. -/
theorem foldl_addWitnessScript (txb : TransactionBuilder) (ix : Nat)
    (scripts : List (DeployedValidatorErased × PlutusData × Nat)) :
    (scripts.foldl addWitnessScript txb).inputs = txb.inputs ∧
      (scripts.foldl addWitnessScript txb).outputs = txb.outputs ∧
      (scripts.foldl addWitnessScript txb).exunits.lookup ⟨.spend, ix⟩ =
        txb.exunits.lookup ⟨.spend, ix⟩ := by
  induction scripts generalizing txb with
  | nil => exact ⟨rfl, rfl, rfl⟩
  | cons script scripts ih =>
    obtain ⟨hinputs, houtputs, hexunits⟩ := ih (addWitnessScript txb script)
    refine ⟨hinputs, houtputs, hexunits.trans ?_⟩
    apply AList.lookup_insert_ne
    intro heq
    cases heq

theorem build_io (self : TxBlueprint) (io : List TxIo) :
    (self.build .new io).inputs = io.filterMap (TxIo.input (inputsOrdering io)) ∧
      (self.build .new io).outputs = io.map TxIo.output := by
  have hfst : io.zipIdx.map Prod.fst = io := List.zipIdx_map_fst 0 io
  obtain ⟨hinputs, houtputs⟩ := foldl_addTo_io (inputsOrdering io)
    (self.referenceInputs.foldl TransactionBuilder.addReferenceInput .new) io.zipIdx
  obtain ⟨hinputs', houtputs'⟩ := foldl_addReferenceInput .new self.referenceInputs
  obtain ⟨hinputs'', houtputs'', _⟩ := foldl_addWitnessScript
    (io.zipIdx.foldl (addTo (inputsOrdering io))
      (self.referenceInputs.foldl TransactionBuilder.addReferenceInput .new)) 0 self.witnessScripts
  constructor
  · have hmap : io.zipIdx.filterMap (fun e => e.1.input (inputsOrdering io)) =
        (io.zipIdx.map Prod.fst).filterMap (TxIo.input (inputsOrdering io)) := by
      rw [List.filterMap_map]
      rfl
    rw [build, hinputs'', hinputs, hinputs', hmap, hfst]
    rfl
  · have hmap : io.zipIdx.map (·.1.output) = (io.zipIdx.map Prod.fst).map TxIo.output := by
      rw [List.map_map]
      rfl
    rw [build, houtputs'', houtputs, houtputs', hmap, hfst]
    rfl

end Built

/-! ### The transaction of a blueprint -/

/-- The funding box is spent if the interest is too small for an output of its own. -/
def spendsFunding (operatorInterest : UInt64) : Bool :=
  0 < operatorInterest ∧ operatorInterest < minSafeLovelaceValue

/-- The references of all inputs, of scripts and of the funding. -/
def inputRefs (self : TxBlueprint) (operatorFunding : FinalizedTxOut) (operatorInterest : UInt64) :
    List OutputRef :=
  self.scriptIo.map (·.1.reference) ++
    if spendsFunding operatorInterest then [operatorFunding.reference] else []

/-- Inputs are in the order of the ledger, and what belongs to a script input is under its rank. -/
structure Indexed (self : TxBlueprint) (references : List OutputRef) (txb : TransactionBuilder)
    (ordering : TxInputsOrdering) : Prop where
  inputs : (txb.inputs.map (·.reference)).Perm references
  sorted : (txb.inputs.map (·.reference)).Pairwise fun r r' => compare r r' = .lt
  index : ∀ r ∈ references, ordering.indexOf r = some (rank references r)
  redeemer : ∀ io ∈ self.scriptIo, ⟨io.1.reference, io.1.utxo, .plutusScript io.1.script.hash
    (io.1.redeemer.compute ordering) io.1.requiredSigners⟩ ∈ txb.inputs
  cost : ∀ io ∈ self.scriptIo, txb.exunits.lookup ⟨.spend, rank references io.1.reference⟩ =
    some (io.1.script.cost.compute ⟨rank references io.1.reference⟩)
  output : ∀ io ∈ self.scriptIo, txb.outputs[rank references io.1.reference]? = some io.2

theorem fundingEntry_cases (operatorAddress : Address) (operatorFunding : FinalizedTxOut)
    (operatorInterest : UInt64) :
    (∃ entry fundingIo,
      fundingEntry operatorAddress operatorFunding operatorInterest = .ok (entry, fundingIo) ∧
        (entry.bind fun (funding, _) => funding.map FinalizedTxOut.reference).toList =
          if spendsFunding operatorInterest then [operatorFunding.reference] else []) ∨
      (spendsFunding operatorInterest ∧
        2 ^ 64 ≤ operatorFunding.out.value.coin + operatorInterest.toNat ∧
        fundingEntry operatorAddress operatorFunding operatorInterest = .error .overflow) := by
  unfold fundingEntry
  split
  · rename_i hpos
    split
    · rename_i hsafe
      have hnot : spendsFunding operatorInterest = false := by
        simp [spendsFunding, UInt64.not_lt.mpr hsafe]
      left
      split
      · exact ⟨_, _, rfl, by rw [hnot]; rfl⟩
      · exact ⟨_, _, rfl, by rw [hnot]; rfl⟩
    · rename_i hsmall
      have hspends : spendsFunding operatorInterest = true := by
        simp [spendsFunding, hpos, UInt64.not_le.mp hsmall]
      by_cases hfits : operatorFunding.out.value.coin + operatorInterest.toNat < 2 ^ 64
      · exact .inl ⟨_, _, dif_pos hfits, by rw [hspends]; rfl⟩
      · exact .inr ⟨hspends, Nat.le_of_not_lt hfits, dif_neg hfits⟩
  · rename_i hzero
    have hnot : spendsFunding operatorInterest = false := by
      simp [spendsFunding, hzero]
    exact .inl ⟨_, _, rfl, by rw [hnot]; rfl⟩

/-- An entry with a reference stands where its rank says. -/
theorem exists_split (self : TxBlueprint)
    {entry : Option (Option FinalizedTxOut × Pools.TransactionOutput)} {references : List OutputRef}
    (hperm : ((self.entries entry).filterMap TxIo.reference).Perm references)
    (hdistinct : references.Nodup) {e : TxIo} {r : OutputRef} (he : e ∈ self.entries entry)
    (hr : e.reference = some r) : ∃ before after, self.entries entry = before ++ e :: after ∧
      rank references r = before.length := by
  have hordered := entries_ordered (hperm.nodup_iff.mpr hdistinct)
  have hrank : rank ((self.entries entry).filterMap TxIo.reference) r = rank references r :=
    hperm.countP_eq _
  obtain ⟨before, after, heq⟩ := List.append_of_mem he
  refine ⟨before, after, heq, ?_⟩
  rw [← hrank, heq]
  exact rank_eq (heq ▸ hordered) hr

/-- What is built of entries with distinct references is indexed by their ranks. -/
theorem build_indexed (self : TxBlueprint)
    (entry : Option (Option FinalizedTxOut × Pools.TransactionOutput)) {references : List OutputRef}
    (hperm : ((self.entries entry).filterMap TxIo.reference).Perm references)
    (hdistinct : references.Nodup) :
    self.Indexed references (self.build .new (self.entries entry))
      (inputsOrdering (self.entries entry)) := by
  set ordering := inputsOrdering (self.entries entry) with hordering
  set txb := self.build .new (self.entries entry) with htxb
  have hnodup : ((self.entries entry).filterMap TxIo.reference).Nodup :=
    hperm.nodup_iff.mpr hdistinct
  have hordered := entries_ordered hnodup
  obtain ⟨hinputs, houtputs⟩ := self.build_io (self.entries entry)
  rw [← htxb, ← hordering] at hinputs
  rw [← htxb] at houtputs
  have hreferences : txb.inputs.map (·.reference) =
      (self.entries entry).filterMap TxIo.reference := by
    rw [hinputs, List.map_filterMap]
    apply List.filterMap_congr
    intro e _
    rcases e with ⟨input, output⟩ | ⟨_ | funding, output⟩ <;> rfl
  have hscript (io : ScriptInputBlueprint × Pools.TransactionOutput) (hio : io ∈ self.scriptIo) :
      .inl io ∈ self.entries entry :=
    entries_perm.mem_iff.mpr (List.mem_append_left _ (List.mem_map_of_mem hio))
  refine ⟨hreferences ▸ hperm, ?_, ?_, ?_, ?_, ?_⟩
  · rw [hreferences, List.pairwise_filterMap]
    apply hordered.imp
    intro a b hbefore r hr r' hr'
    obtain ⟨r'', hr'', hlt⟩ := hbefore r' hr'
    cases hr.symm.trans hr''
    exact hlt
  · intro r hr
    obtain ⟨e, he, her⟩ := List.mem_filterMap.mp (hperm.mem_iff.mpr hr)
    obtain ⟨before, after, heq, hix⟩ := self.exists_split hperm hdistinct he her
    rw [hix]
    apply indexOf_eq hnodup _ her
    rw [heq]
    simp
  · intro io hio
    rw [hinputs, List.mem_filterMap]
    exact ⟨.inl io, hscript io hio, rfl⟩
  · intro io hio
    obtain ⟨before, after, heq, hix⟩ := self.exists_split hperm hdistinct (hscript io hio) rfl
    rw [hix, htxb, build, (foldl_addWitnessScript _ _ _).2.2, heq]
    exact exunits_of_script _
  · intro io hio
    obtain ⟨before, after, heq, hix⟩ := self.exists_split hperm hdistinct (hscript io hio) rfl
    rw [hix, houtputs, heq]
    simp [TxIo.output]

/-- With distinct inputs, everything about an input is under its rank, unless the value of the
replaced funding box does not fit. -/
theorem projection_indexed (self : TxBlueprint) (operatorAddress : Address)
    (operatorFunding : FinalizedTxOut) (operatorInterest : UInt64)
    (hdistinct : (self.inputRefs operatorFunding operatorInterest).Nodup) :
    (∃ txb fundingIo,
      self.projectOntoBuilder .new operatorAddress operatorFunding operatorInterest =
        .ok (txb, fundingIo) ∧
      ∃ ordering, self.Indexed (self.inputRefs operatorFunding operatorInterest) txb ordering) ∨
    (spendsFunding operatorInterest ∧
      2 ^ 64 ≤ operatorFunding.out.value.coin + operatorInterest.toNat ∧
      self.projectOntoBuilder .new operatorAddress operatorFunding operatorInterest =
        .error .overflow) := by
  rcases fundingEntry_cases operatorAddress operatorFunding operatorInterest with
    ⟨entry, fundingIo, hentry, hfunding⟩ | ⟨hspends, hover, herror⟩
  · left
    refine ⟨self.build .new (self.entries entry), fundingIo, ?_,
      inputsOrdering (self.entries entry), ?_⟩
    · rw [projectOntoBuilder, hentry]
      rfl
    · apply self.build_indexed entry _ hdistinct
      rw [inputRefs, ← hfunding]
      exact references_perm
  · right
    refine ⟨hspends, hover, ?_⟩
    rw [projectOntoBuilder, herror]
    rfl

/-! ### A funding box before the only script input -/

def boxAt (hash : UInt8) : OutputRef := ⟨.replicate hash, 0⟩

def sampleFunding (hash : UInt8) : FinalizedTxOut :=
  ⟨⟨.byron, .ofTokens 2000000 [], none⟩, boxAt hash⟩

/-- A script input that tells its index to the script. -/
def sampleBlueprint : TxBlueprint :=
  TxBlueprint.new.addIo
    { reference := boxAt 2
      utxo := ⟨.enterprise (.script (.replicate 7)), .ofTokens 5000000 [], none⟩
      script := ⟨.replicate 7, .ready ⟨0, 0⟩⟩
      redeemer := .delayed fun ordering => .integer ((ordering.indexOf (boxAt 2)).getD 0)
      requiredSigners := [] }
    ⟨.enterprise (.script (.replicate 7)), .ofTokens 4000000 [], none⟩

theorem projection_indexed_sample :
    (sampleBlueprint.inputRefs (sampleFunding 1) 5).Nodup ∧
      ∃ txb fundingIo, sampleBlueprint.projectOntoBuilder .new .byron (sampleFunding 1) 5 =
        .ok (txb, fundingIo) ∧
        ∃ ordering, sampleBlueprint.Indexed (sampleBlueprint.inputRefs (sampleFunding 1) 5) txb
          ordering := by
  have hdistinct : (sampleBlueprint.inputRefs (sampleFunding 1) 5).Nodup := by decide +kernel
  refine ⟨hdistinct, ?_⟩
  have hfits : ¬ 2 ^ 64 ≤ (sampleFunding 1).out.value.coin + (5 : UInt64).toNat := by
    decide +kernel
  rcases projection_indexed sampleBlueprint .byron (sampleFunding 1) 5 hdistinct with
    h | ⟨_, hover, _⟩
  · exact h
  · exact absurd hover hfits

theorem sortIo_pair (a b : TxIo) :
    sortIo [a, b] = if TxIo.cmp a b ≠ .gt then [a, b] else [b, a] := by
  simp [sortIo, List.mergeSort, List.MergeSort.Internal.splitInTwo, List.merge]

/-- The output of the script input stands behind that of the funding box, and a funding box that is
the script input as well takes its index. -/
theorem output_behind_funding :
    (∃ txb fundingIo, sampleBlueprint.projectOntoBuilder .new .byron (sampleFunding 1) 5 =
        .ok (txb, fundingIo) ∧
      txb.outputs[rank (sampleBlueprint.scriptIo.map (·.1.reference)) (boxAt 2)]?.map (·.address) =
        some .byron) ∧
    ∃ txb fundingIo, sampleBlueprint.projectOntoBuilder .new .byron (sampleFunding 2) 5 =
        .ok (txb, fundingIo) ∧
      rank (sampleBlueprint.inputRefs (sampleFunding 2) 5) (boxAt 2) = 0 ∧
      txb.inputs[0]?.map (·.witness) = some (.plutusScript (.replicate 7) (.integer 1) []) := by
  refine ⟨⟨_, _, rfl, ?_⟩, _, _, rfl, by decide +kernel, ?_⟩
  · show Option.map _ (sampleBlueprint.build .new (sortIo [_, _])).outputs[_]? = _
    rw [sortIo_pair]
    decide +kernel
  · show Option.map _ (sampleBlueprint.build .new (sortIo [_, _])).inputs[_]? = _
    rw [sortIo_pair]
    rfl

end TxBlueprint

end UtxoMonitor.ExecutionEngine
