import UtxoMonitor.Handler.Rollback

/-! Replaying the end of a chain that is applied already. A replayed producer files its output at
the creation slot again, and only the replay of the spender takes that entry back. -/
namespace UtxoMonitor

open Lib

/-- Transactions in chain order, each with the slot of its block. -/
structure IsChain (txs : List (TxViewMut × Slot)) : Prop where
  oneProducer : txs.Pairwise fun a b => ∀ o ∈ a.1.outputRefs, o ∉ b.1.outputRefs
  noDoubleSpend : txs.Pairwise fun a b => ∀ o ∈ a.1.inputRefs, o ∉ b.1.inputRefs
  producersFirst : txs.Pairwise fun a b => ∀ o ∈ a.1.inputRefs, o ∉ b.1.outputRefs
  notOwnInput : ∀ t ∈ txs, ∀ o ∈ t.1.inputRefs, o ∉ t.1.outputRefs

def applyChain (txs : List (TxViewMut × Slot)) (db : RocksDB) : RocksDB :=
  applyAll (txs.map fun t => (t.1, some t.2)) db

def chainUpdates (txs : List (TxViewMut × Slot)) : List (OutputRef × Update) :=
  txs.flatMap fun t => applyUpdates t.1.hash t.1.inputRefs t.1.outputs (some t.2)

theorem chainUpdates_cons (t : TxViewMut × Slot) (txs : List (TxViewMut × Slot)) :
    chainUpdates (t :: txs) =
      applyUpdates t.1.hash t.1.inputRefs t.1.outputs (some t.2) ++ chainUpdates txs := rfl

theorem applyChain_eq (txs : List (TxViewMut × Slot)) (db : RocksDB) :
    applyChain txs db = runUpdates (chainUpdates txs) db := by
  induction txs generalizing db with
  | nil => rfl
  | cons t txs ih =>
    change applyChain txs ((applyTx t.1 (some t.2)).run db) = _
    rw [ih, run_applyTx, chainUpdates_cons, runUpdates_append]

/-! ### One output over a chain -/

/-- Creations at slot `a`, then spends at slot `b`. -/
def life (outs : List (UInt64 × TransactionOutput)) (a : Option Slot) (ins : List OutputRef)
    (b : Option Slot) : List Update :=
  (outs.map fun p => .create p.2 a) ++ ins.map fun _ => .mark b true

/-- A chain creates an output in one transaction and spends it in one later transaction. -/
theorem updatesOf_chain {txs : List (TxViewMut × Slot)} (h : IsChain txs) (o : OutputRef) :
    ∃ outs a ins b, updatesOf o (chainUpdates txs) = life outs a ins b ∧
      (outs ≠ [] → ∃ t ∈ txs, o ∈ t.1.outputRefs) ∧ (ins ≠ [] → ∃ t ∈ txs, o ∈ t.1.inputRefs) := by
  induction txs with
  | nil => exact ⟨[], none, [], none, rfl, by simp, by simp⟩
  | cons t txs ih =>
    obtain ⟨hprod, hspend, hfirst, hown⟩ := h
    rw [List.pairwise_cons] at hprod hspend hfirst
    obtain ⟨outs, a, ins, b, hus, hout, hin⟩ := ih ⟨hprod.2, hspend.2, hfirst.2,
      fun t ht => hown t (.tail _ ht)⟩
    have hcons : updatesOf o (chainUpdates (t :: txs)) =
        ((t.1.inputRefs.filter fun oref => oref = o).map fun _ => .mark (some t.2) true) ++
          ((t.1.outputs.filter fun p => OutputRef.mk t.1.hash p.1 = o).map fun p =>
            .create p.2 (some t.2)) ++ life outs a ins b := by
      rw [chainUpdates_cons, updatesOf_append, hus, applyUpdates,
        updatesOf_append, updatesOf_map o t.1.inputRefs (fun oref => oref),
        updatesOf_map o t.1.outputs (fun p => ⟨t.1.hash, p.1⟩)]
    rw [hcons]
    by_cases hi : o ∈ t.1.inputRefs
    · have houts : outs = [] := by
        by_contra hn
        obtain ⟨t', ht', ho⟩ := hout hn
        exact hfirst.1 t' ht' o hi ho
      have hins : ins = [] := by
        by_contra hn
        obtain ⟨t', ht', ho⟩ := hin hn
        exact hspend.1 t' ht' o hi ho
      have hnone := (filter_eq_nil_iff_notMem_map o t.1.outputs fun p => ⟨t.1.hash, p.1⟩).mpr
        (hown t (.head _) o hi)
      refine ⟨[], none, t.1.inputRefs.filter fun oref => oref = o, some t.2, ?_, by simp,
        fun _ => ⟨t, .head _, hi⟩⟩
      simp [hnone, houts, hins, life]
    · have hnone : (t.1.inputRefs.filter fun oref => oref = o) = [] := by
        simpa using (filter_eq_nil_iff_notMem_map o t.1.inputRefs fun oref => oref).mpr (by simpa)
      by_cases ho : o ∈ t.1.outputRefs
      · have houts : outs = [] := by
          by_contra hn
          obtain ⟨t', ht', ho'⟩ := hout hn
          exact hprod.1 t' ht' o ho ho'
        refine ⟨t.1.outputs.filter fun p => OutputRef.mk t.1.hash p.1 = o, some t.2, ins, b, ?_,
          fun _ => ⟨t, .head _, ho⟩, ?_⟩
        · simp [hnone, houts, life]
        · intro hn
          obtain ⟨t', ht', hi'⟩ := hin hn
          exact ⟨t', .tail _ ht', hi'⟩
      · have hnone' := (filter_eq_nil_iff_notMem_map o t.1.outputs fun p => ⟨t.1.hash, p.1⟩).mpr ho
        refine ⟨outs, a, ins, b, by simp [hnone, hnone'], fun hn => ?_, fun hn => ?_⟩
        · obtain ⟨t', ht', ho'⟩ := hout hn
          exact ⟨t', .tail _ ht', ho'⟩
        · obtain ⟨t', ht', hi'⟩ := hin hn
          exact ⟨t', .tail _ ht', hi'⟩

theorem records_life (outs : List (UInt64 × TransactionOutput)) (a : Option Slot)
    (ins : List OutputRef) (b : Option Slot) (r : Option TxoRecord) :
    Update.records (life outs a ins b) r =
      let r' := match outs.getLast? with
        | some p => some ⟨p.2, a, keptSpent r⟩
        | none => r
      if ins = [] then r' else r'.map (.mark true) := by
  rw [life, Update.records_append, Update.records_creates]
  apply Update.records_marks

/-! ### The events entries along a replay -/

/-- The events entries of a cell are those of its creation slot, or else in `K`. -/
def Cell.Within (x : Cell) (K : CredentialKind → Credential → Slot → Prop) : Prop :=
  ∀ k c t, x.events k c t → Filed x.txo (x.txo.bind TxoRecord.settledAt) k c t ∨ K k c t

section Events

variable {x : Cell} {K : CredentialKind → Credential → Slot → Prop}

theorem Cell.Within.create (h : x.Within K) (out : TransactionOutput) (a : Option Slot) :
    (((Update.create out a).cell x.txo x).Within K) ∧
      ∀ k c t, Filed ((Update.create out a).cell x.txo x).txo a k c t →
        ((Update.create out a).cell x.txo x).events k c t := by
  constructor
  · intro k c t hev
    rw [Update.cell_txo]
    rcases (Update.cell_events _ x k c t).mp hev with ⟨hev, hn⟩ | hf
    · exact .inr ((h k c t hev).resolve_left hn)
    · exact .inl hf
  · intro k c t hf
    rw [Update.cell_txo] at hf
    exact (Update.cell_events _ x k c t).mpr (.inr hf)

theorem Cell.Within.creates {outs : List (UInt64 × TransactionOutput)} (hne : outs ≠ [])
    (h : x.Within K) (a : Option Slot) :
    (x.steps (outs.map fun p => .create p.2 a)).Within K ∧
      ∀ k c t, Filed (x.steps (outs.map fun p => .create p.2 a)).txo a k c t →
        (x.steps (outs.map fun p => .create p.2 a)).events k c t := by
  induction outs generalizing x with
  | nil => exact absurd rfl hne
  | cons p outs ih =>
    have hp := h.create p.2 a
    rcases List.eq_nil_or_concat outs with rfl | ⟨_, _, hcat⟩
    · exact hp
    · exact ih (by simp [hcat]) hp.1

theorem Cell.Within.marks {ins : List OutputRef} (hne : ins ≠ []) {b : Option Slot}
    (h : x.Within K) (hK : ∀ k c t, K k c t → Filed x.txo b k c t) (k : CredentialKind)
    (c : Credential) (t : Slot) :
    (x.steps (ins.map fun _ => .mark b true)).events k c t ↔ Filed x.txo b k c t := by
  induction ins generalizing x K with
  | nil => exact absurd rfl hne
  | cons o ins ih =>
    have hsame : ∀ k c t, Filed ((Update.mark b true).cell x.txo x).txo b k c t ↔
        Filed x.txo b k c t := by
      intro k c t
      rw [Update.cell_txo]
      cases x.txo <;> simp [Filed, Update.record]
    have hev : ∀ k c t, ((Update.mark b true).cell x.txo x).events k c t ↔
        Filed x.txo b k c t := by
      intro k c t
      rw [← hsame, Update.cell_txo, Update.cell_events]
      refine ⟨?_, .inr⟩
      rintro (⟨hev, hn⟩ | hf)
      · have hf := hK k c t ((h k c t hev).resolve_left hn)
        rwa [← hsame, Update.cell_txo] at hf
      · exact hf
    rcases List.eq_nil_or_concat ins with rfl | ⟨_, _, hcat⟩
    · exact hev k c t
    · rw [← hsame]
      refine ih (K := Filed x.txo b) (by simp [hcat]) (fun k c t h => ?_) fun k c t h => ?_
      · exact .inr ((hev k c t).mp h)
      · exact (hsame k c t).mpr h

end Events

@[simp] theorem storedCredentials_mark (r : Option TxoRecord) (spent : Bool) :
    storedCredentials (r.map (.mark spent)) = storedCredentials r := by
  cases r <;> rfl

theorem filed_steps_marks (x : Cell) (ins : List OutputRef) (b s : Option Slot)
    (k : CredentialKind) (c : Credential) (t : Slot) :
    Filed (x.steps (ins.map fun _ => .mark b true)).txo s k c t ↔ Filed x.txo s k c t := by
  rw [Update.steps_txo, ← Update.records, Update.records_marks]
  split <;> simp [Filed]

theorem steps_life (x : Cell) (outs : List (UInt64 × TransactionOutput)) (a : Option Slot)
    (ins : List OutputRef) (b : Option Slot) :
    x.steps (life outs a ins b) =
      (x.steps (outs.map fun p => .create p.2 a)).steps (ins.map fun _ => .mark b true) := by
  rw [life, Cell.steps_append]

/-- After creations and spends of one output its events entries are those of the last event. -/
theorem Cell.Within.events_life {x : Cell} {K : CredentialKind → Credential → Slot → Prop}
    (h : x.Within K) {outs : List (UInt64 × TransactionOutput)} (hne : outs ≠ [])
    (a : Option Slot) (ins : List OutputRef) (b : Option Slot)
    (hK : ∀ k c t, K k c t →
      Filed (x.steps (life outs a ins b)).txo (if ins = [] then a else b) k c t)
    (k : CredentialKind) (c : Credential) (t : Slot) :
    (x.steps (life outs a ins b)).events k c t ↔
      Filed (x.steps (life outs a ins b)).txo (if ins = [] then a else b) k c t := by
  obtain ⟨hwithin, hfiled⟩ := h.creates hne a
  have hslot : (x.steps (outs.map fun p => .create p.2 a)).txo.bind TxoRecord.settledAt = a := by
    obtain ⟨init, p, rfl⟩ := (List.eq_nil_or_concat outs).resolve_left hne
    rw [Update.steps_txo, ← Update.records, Update.records_creates]
    simp
  rw [steps_life] at hK ⊢
  by_cases hi : ins = []
  · subst hi
    refine ⟨?_, hfiled k c t⟩
    intro hev
    rcases hwithin k c t hev with hf | hk
    · rwa [hslot] at hf
    · exact hK k c t hk
  · simp only [if_neg hi, filed_steps_marks] at hK ⊢
    exact hwithin.marks hi hK k c t

/-- The cell of an output that was not there before its life. -/
theorem events_first_pass {x : Cell} (hx : x.txo = none) (he : ∀ k c t, ¬ x.events k c t)
    (outs : List (UInt64 × TransactionOutput)) (a : Option Slot) (ins : List OutputRef)
    (b : Option Slot) (k : CredentialKind) (c : Credential) (t : Slot) :
    (x.steps (life outs a ins b)).events k c t ↔
      Filed (x.steps (life outs a ins b)).txo (if ins = [] then a else b) k c t := by
  have hwithin : x.Within fun _ _ _ => False := fun k c t h => absurd h (he k c t)
  by_cases ho : outs = []
  · subst ho
    have hnone : ∀ s, ¬ Filed x.txo s k c t := by simp [hx, Filed]
    rw [steps_life, filed_steps_marks]
    by_cases hi : ins = []
    · subst hi
      exact iff_of_false (he k c t) (hnone a)
    · rw [if_neg hi]
      exact hwithin.marks hi (fun _ _ _ h => h.elim) k c t
  · exact hwithin.events_life ho a ins b (fun _ _ _ h => h.elim) k c t

/-- The end of a life is one itself: all spends after some creations, or some spends only. -/
theorem life_suffix {us vs : List Update} {outs : List (UInt64 × TransactionOutput)}
    {a : Option Slot} {ins : List OutputRef} {b : Option Slot} (h : us ++ vs = life outs a ins b) :
    ∃ outs₁ outs₂ ins₁ ins₂, outs = outs₁ ++ outs₂ ∧ ins = ins₁ ++ ins₂ ∧
      vs = life outs₂ a ins₂ b ∧ (outs₂ = [] ∨ ins₁ = []) := by
  rcases List.append_eq_append_iff.mp h with ⟨m, hm, rfl⟩ | ⟨m, rfl, hm⟩
  · obtain ⟨outs₁, outs₂, rfl, -, rfl⟩ := List.map_eq_append_iff.mp hm
    exact ⟨outs₁, outs₂, [], ins, rfl, rfl, rfl, .inr rfl⟩
  · obtain ⟨ins₁, ins₂, rfl, -, rfl⟩ := List.map_eq_append_iff.mp hm
    exact ⟨outs, [], ins₁, ins₂, by simp, rfl, rfl, .inl rfl⟩

/-- Replaying the end of a life rewrites the record it left. -/
theorem records_replay (outs₁ outs₂ : List (UInt64 × TransactionOutput)) (a : Option Slot)
    {ins₁ : List OutputRef} (ins₂ : List OutputRef) (b : Option Slot)
    (h : outs₂ = [] ∨ ins₁ = []) :
    Update.records (life outs₂ a ins₂ b)
        (Update.records (life (outs₁ ++ outs₂) a (ins₁ ++ ins₂) b) none) =
      Update.records (life (outs₁ ++ outs₂) a (ins₁ ++ ins₂) b) none := by
  have hmark : ∀ r : Option TxoRecord, (r.map (TxoRecord.mark true)).map (TxoRecord.mark true) =
      r.map (TxoRecord.mark true) := by
    intro r
    cases r <;> rfl
  simp only [records_life]
  rcases List.eq_nil_or_concat outs₂ with rfl | ⟨init, p, rfl⟩
  · by_cases hi : ins₂ = [] <;> simp [hi, hmark]
  · obtain rfl : ins₁ = [] := h.resolve_left (by simp)
    by_cases hi : ins₂ = [] <;> simp [hi, keptSpent, TxoRecord.mark]

/-- Replaying the end of its life leaves the record and the events entries of an output. -/
theorem replay_life {x : Cell} (hx : x.txo = none) (he : ∀ k c t, ¬ x.events k c t)
    {us vs : List Update} {outs : List (UInt64 × TransactionOutput)} {a : Option Slot}
    {ins : List OutputRef} {b : Option Slot} (hl : us ++ vs = life outs a ins b) :
    ((x.steps (us ++ vs)).steps vs).txo = (x.steps (us ++ vs)).txo ∧
      ∀ k c t, ((x.steps (us ++ vs)).steps vs).events k c t ↔
        (x.steps (us ++ vs)).events k c t := by
  obtain ⟨outs₁, outs₂, ins₁, ins₂, rfl, rfl, rfl, hor⟩ := life_suffix hl
  have hfirst := events_first_pass hx he (outs₁ ++ outs₂) a (ins₁ ++ ins₂) b
  have htxo : ((x.steps (us ++ life outs₂ a ins₂ b)).steps (life outs₂ a ins₂ b)).txo =
      (x.steps (us ++ life outs₂ a ins₂ b)).txo := by
    rw [Update.steps_txo, hl, Update.steps_txo, hx]
    exact records_replay outs₁ outs₂ a ins₂ b hor
  rw [← hl] at hfirst
  generalize x.steps (us ++ life outs₂ a ins₂ b) = y at hfirst htxo
  refine ⟨htxo, ?_⟩
  intro k c t
  have hwithin : y.Within (Filed y.txo (if ins₁ ++ ins₂ = [] then a else b)) := fun k c t h =>
    .inr ((hfirst k c t).mp h)
  by_cases ho : outs₂ = []
  · subst ho
    by_cases hi : ins₂ = []
    · subst hi
      rfl
    · rw [if_neg (by simp [hi])] at hwithin
      rw [hfirst, if_neg (by simp [hi])]
      exact hwithin.marks hi (fun _ _ _ h => h) k c t
  · obtain rfl : ins₁ = [] := hor.resolve_left ho
    have hevents := hwithin.events_life ho a ins₂ b (by rw [htxo]; exact fun _ _ _ h => h) k c t
    rw [hevents, htxo, hfirst]
    rfl

/-! ### The whole index -/

theorem no_sentinel_empty (pre : Bytes) : ¬ HasSentinel RocksDB.empty pre := by
  simp [HasSentinel, RocksDB.empty]

/-- Applying the end of a chain again leaves every table of the index as it was. -/
theorem replay_suffix (earlier later : List (TxViewMut × Slot)) (h : IsChain (earlier ++ later)) :
    applyChain later (applyChain (earlier ++ later) RocksDB.empty) =
      applyChain (earlier ++ later) RocksDB.empty := by
  have hsplit : chainUpdates (earlier ++ later) = chainUpdates earlier ++ chainUpdates later :=
    List.flatMap_append
  simp only [applyChain_eq]
  have hc := Consistent.empty.runUpdates (chainUpdates (earlier ++ later))
  have hc' := hc.runUpdates (chainUpdates later)
  have hlife : ∀ o, storedTxo (runUpdates (chainUpdates later)
        (runUpdates (chainUpdates (earlier ++ later)) RocksDB.empty)) o =
      storedTxo (runUpdates (chainUpdates (earlier ++ later)) RocksDB.empty) o ∧
      ∀ k c t, (cellOf (runUpdates (chainUpdates later)
          (runUpdates (chainUpdates (earlier ++ later)) RocksDB.empty)) o).events k c t ↔
        (cellOf (runUpdates (chainUpdates (earlier ++ later)) RocksDB.empty) o).events k c t := by
    intro o
    obtain ⟨outs, a, ins, b, hl, -⟩ := updatesOf_chain h o
    simp only [storedTxo, cellOf_runUpdates]
    rw [hsplit, updatesOf_append] at hl ⊢
    exact replay_life rfl (by simp [cellOf, RocksDB.empty]) hl
  have hsent : ∀ us pre, ¬ HasSentinel (runUpdates us RocksDB.empty) pre := fun us pre hs =>
    no_sentinel_empty pre (hasSentinel_of_runUpdates hs)
  have hsame := (hc'.sameTables_iff hc).mpr fun o => (hlife o).1
  funext cf
  cases cf with
  | txo => exact hsame.txo
  | events k => exact hc'.shaped.events_ext hc.shaped fun o c t => (hlife o).2 k c t
  | unspent k => exact hsame.unspent k
  | unitUnspent =>
    refine hsame.unitUnspent_eq ?_ (hsent _)
    intro pre hs
    exact hsent _ pre (hasSentinel_of_runUpdates hs)

theorem replay_suffix_txConsume :
    IsChain ([] ++ [(txProduce, 1), (txConsume, 2)]) ∧
      applyChain [(txProduce, 1), (txConsume, 2)]
          (applyChain ([] ++ [(txProduce, 1), (txConsume, 2)]) RocksDB.empty) =
        applyChain ([] ++ [(txProduce, 1), (txConsume, 2)]) RocksDB.empty := by
  have h : IsChain ([] ++ [(txProduce, 1), (txConsume, 2)]) := by
    constructor <;> decide +kernel
  exact ⟨h, replay_suffix [] _ h⟩

end UtxoMonitor
