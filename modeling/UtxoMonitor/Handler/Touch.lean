import UtxoMonitor.Handler.Overtake

/-! What an event does to one output: which updates it makes of it, in which order, and what becomes
of its record. -/
namespace UtxoMonitor

open Lib

/-- What an event does to the record of one output. An output that is created may be spent by the
same transaction. -/
inductive Touch where
  | keep
  | mark (spent : Bool)
  | create (out : TransactionOutput) (settledAt : Option Slot) (spends : Bool)
  | delete

namespace Touch

def record : Touch → Option TxoRecord → Option TxoRecord
  | keep, r => r
  | mark spent, r => r.map (.mark spent)
  | create out settledAt spends, r =>
    some ⟨out, settledAt, if spends then r.isSome else keptSpent r⟩
  | delete, _ => none

/-- What is taken over from two records is the same. -/
def Alike : Touch → Option TxoRecord → Option TxoRecord → Prop
  | keep, r, r' => r = r'
  | mark _, r, r' => (r.map fun r => (r.output, r.settledAt)) = r'.map fun r => (r.output, r.settledAt)
  | create _ _ false, r, r' => keptSpent r = keptSpent r'
  | create _ _ true, r, r' => r.isSome = r'.isSome
  | delete, _, _ => True

/-- The order does not matter, for creations at different slots. -/
def Commutes : Touch → Touch → Option TxoRecord → Prop
  | mark s, mark t, r => r ≠ none → s = t
  | mark s, create _ _ spends, r => if r = none then s = false else spends → s
  | create _ _ spends, mark s, r => if r = none then s = false else spends → s
  | create _ _ _, create _ _ _, _ => False
  | create _ _ _, delete, _ => False
  | delete, create _ _ _, _ => False
  | _, _, _ => True

/-- The slot a creation is settled at. -/
def slot : Touch → Option (Option Slot)
  | create _ settledAt _ => some settledAt
  | _ => none

/-- Not both create the output at the same slot. -/
def Apart (f g : Touch) : Prop := ∀ s ∈ f.slot, ∀ t ∈ g.slot, s ≠ t

theorem record_eq_iff (f : Touch) (r r' : Option TxoRecord) :
    f.record r = f.record r' ↔ f.Alike r r' := by
  cases f with
  | keep => rfl
  | mark spent => cases r <;> cases r' <;> simp [record, Alike, TxoRecord.mark]
  | create out settledAt spends => cases spends <;> simp [record, Alike]
  | delete => simp [record, Alike]

theorem commutes_iff {f g : Touch} (h : f.Apart g) (r : Option TxoRecord) :
    f.record (g.record r) = g.record (f.record r) ↔ f.Commutes g r := by
  cases f with
  | keep => simp [record, Commutes]
  | delete => cases g <;> simp [record, Commutes]
  | mark s =>
    cases g with
    | create out settledAt spends =>
      cases r <;> cases spends <;> simp [record, Commutes, TxoRecord.mark, keptSpent]
    | _ => cases r <;> simp [record, Commutes, TxoRecord.mark]
  | create out settledAt spends =>
    cases g with
    | mark s =>
      cases r <;> cases spends <;> simp [record, Commutes, TxoRecord.mark, keptSpent, eq_comm]
    | create out' settledAt' spends' =>
      have hne : settledAt ≠ settledAt' := h _ rfl _ rfl
      simp [record, Commutes, hne]
    | _ => simp [record, Commutes]

/-- Where the first of two would leave the record that the second one makes, the second one makes
the same after the first. -/
theorem record_absorb {f g : Touch} (h : f.Apart g) {r : Option TxoRecord}
    (hr : f.record (g.record r) = g.record r) : g.record (f.record r) = g.record r := by
  cases f with
  | keep => rfl
  | delete =>
    cases g <;> cases r <;> simp_all [record]
  | mark s =>
    cases g with
    | create out settledAt spends =>
      cases r <;> cases spends <;> simp_all [record, TxoRecord.mark, keptSpent]
    | _ => cases r <;> simp_all [record, TxoRecord.mark]
  | create out settledAt spends =>
    cases g with
    | create out' settledAt' spends' =>
      have hne : settledAt ≠ settledAt' := h _ rfl _ rfl
      simp_all [record]
    | _ => cases r <;> simp_all [record, TxoRecord.mark]

/-- What is made of an output that is not stored is unspent. -/
theorem record_none (f : Touch) :
    f.record none = none ∨ ∃ out, ∃ s ∈ f.slot, f.record none = some ⟨out, s, false⟩ := by
  cases f with
  | create out settledAt spends => cases spends <;> exact .inr ⟨out, settledAt, rfl, rfl⟩
  | _ => exact .inl rfl

theorem record_of_slot {f : Touch} {s : Option Slot} (h : s ∈ f.slot) (r : Option TxoRecord) :
    ∃ q, f.record r = some q ∧ q.settledAt = s := by
  cases f with
  | create out settledAt spends =>
    obtain rfl : settledAt = s := Option.some.inj h
    exact ⟨_, rfl, rfl⟩
  | _ => cases h

end Touch

namespace Event

/-- The database transaction of an event. -/
def prog : Event → Tx Unit
  | ledger (.txApplied tx slot _ _) => applyTx tx (some slot)
  | ledger (.txUnapplied tx _ _ _) => unapplyTx tx
  | mempool (.txAccepted tx) => applyTx tx none
  | mempool (.txDropped tx) => unapplyTx tx

theorem run_prog (ev : Event) (db : RocksDB) : ev.prog.run db = ev.run db := by
  cases ev with
  | ledger ev => cases ev <;> rfl
  | mempool ev => cases ev <;> rfl

/-- What an event does to an output that its transaction spends. -/
def markUpdate (ev : Event) : Update := .mark (ev.applies.getD none) ev.applies.isSome

/-- What an event does to an output that its transaction creates. -/
def writeUpdate (ev : Event) (out : TransactionOutput) : Update :=
  match ev.applies with
  | some settledAt => .create out settledAt
  | none => .delete

def updates (ev : Event) : List (OutputRef × Update) :=
  (ev.tx.inputRefs.map fun oref => (oref, ev.markUpdate)) ++
    ev.tx.outputs.map fun (ix, out) => (⟨ev.tx.hash, ix⟩, ev.writeUpdate out)

theorem prog_eq_updates (ev : Event) : ev.prog = ev.updates.forM fun u => u.2.prog u.1 := by
  have happly : ∀ tx settledAt, applyTx tx settledAt =
      (applyUpdates tx.hash tx.inputRefs tx.outputs settledAt).forM fun u => u.2.prog u.1 := by
    intro tx settledAt
    simp only [applyUpdates, List.forM_eq_forM, List.forM_append, List.forM_map]
    rfl
  have hunapply : ∀ tx, unapplyTx tx =
      (unapplyUpdates tx.hash tx.inputRefs tx.outputs).forM fun u => u.2.prog u.1 := by
    intro tx
    simp only [unapplyUpdates, List.forM_eq_forM, List.forM_append, List.forM_map]
    rfl
  cases ev with
  | ledger ev =>
    cases ev with
    | txApplied tx slot blockNumber blockHash => exact happly tx (some slot)
    | txUnapplied tx slot blockNumber blockHash => exact hunapply tx
  | mempool ev =>
    cases ev with
    | txAccepted tx => exact happly tx none
    | txDropped tx => exact hunapply tx

theorem records_updates (ev : Event) (o : OutputRef) (r : Option TxoRecord) :
    Update.records (updatesOf o ev.updates) r = ev.record o r := by
  cases ev with
  | ledger ev =>
    cases ev with
    | txApplied tx slot blockNumber blockHash => exact records_applyUpdates tx o (some slot) r
    | txUnapplied tx slot blockNumber blockHash => exact records_unapplyUpdates tx o r
  | mempool ev =>
    cases ev with
    | txAccepted tx => exact records_applyUpdates tx o none r
    | txDropped tx => exact records_unapplyUpdates tx o r

/-- The updates of `o` among the first `n` reads of an event. -/
def overtaken (ev : Event) (n : Nat) (o : OutputRef) : List Update :=
  updatesOf o (ev.updates.take n)

/-- The updates of `o` after the first `n` reads of an event. -/
def pending (ev : Event) (n : Nat) (o : OutputRef) : List Update :=
  updatesOf o (ev.updates.drop n)

theorem overtaken_append_pending (ev : Event) (n : Nat) (o : OutputRef) :
    ev.overtaken n o ++ ev.pending n o = updatesOf o ev.updates := by
  rw [overtaken, pending, ← updatesOf_append, List.take_append_drop]

def touch (ev : Event) (o : OutputRef) : Touch :=
  match ev.applies, ev.tx.outputAt o with
  | some settledAt, some out => .create out settledAt (o ∈ ev.tx.inputRefs)
  | none, some _ => .delete
  | settledAt, none => if o ∈ ev.tx.inputRefs then .mark settledAt.isSome else .keep

theorem record_touch (ev : Event) (o : OutputRef) (r : Option TxoRecord) :
    (ev.touch o).record r = ev.record o r := by
  unfold touch record
  cases ev.applies with
  | none =>
    unfold TxViewMut.unapplied
    cases hout : ev.tx.outputAt o with
    | none =>
      rw [if_neg (ev.tx.outputAt_eq_none.mp hout), TxViewMut.marked]
      by_cases hin : o ∈ ev.tx.inputRefs <;> simp [hin, Touch.record]
    | some out =>
      rw [if_pos (ev.tx.isSome_outputAt.mp (Option.isSome_of_mem hout))]
      rfl
  | some settledAt =>
    unfold TxViewMut.applied TxViewMut.marked
    cases hout : ev.tx.outputAt o with
    | none => by_cases hin : o ∈ ev.tx.inputRefs <;> simp [hin, Touch.record]
    | some out =>
      by_cases hin : o ∈ ev.tx.inputRefs <;>
        cases r <;> simp [hin, Touch.record, keptSpent, TxoRecord.mark]

/-- The updates of an output that is marked `m` times and then listed in `outs`. -/
def listed (ev : Event) (m : Nat) (outs : List (UInt64 × TransactionOutput)) : List Update :=
  List.replicate m ev.markUpdate ++ outs.map fun p => ev.writeUpdate p.2

/-- The updates of one output before and after the first `n` reads. -/
theorem halves (ev : Event) (n : Nat) (o : OutputRef) :
    ∃ m₁ m₂ outs₁ outs₂, ev.overtaken n o = ev.listed m₁ outs₁ ∧
      ev.pending n o = ev.listed m₂ outs₂ ∧ (outs₁ ≠ [] → m₂ = 0) := by
  let marks (orefs : List OutputRef) := (orefs.filter fun oref => oref = o).length
  let outs (outputs : List (UInt64 × TransactionOutput)) :=
    outputs.filter fun p => OutputRef.mk ev.tx.hash p.1 = o
  have hmarks : ∀ orefs : List OutputRef,
      updatesOf o (orefs.map fun oref => (oref, ev.markUpdate)) =
        List.replicate (marks orefs) ev.markUpdate := by
    intro orefs
    rw [updatesOf_map o orefs (fun oref => oref) fun _ => ev.markUpdate, List.map_const']
  have houts : ∀ outputs : List (UInt64 × TransactionOutput),
      updatesOf o (outputs.map fun p => (⟨ev.tx.hash, p.1⟩, ev.writeUpdate p.2)) =
        (outs outputs).map fun p => ev.writeUpdate p.2 :=
    fun outputs => updatesOf_map o outputs (fun p => ⟨ev.tx.hash, p.1⟩) fun p => ev.writeUpdate p.2
  have hlen : (ev.tx.inputRefs.map fun oref => (oref, ev.markUpdate)).length =
      ev.tx.inputRefs.length := List.length_map _
  refine ⟨marks (ev.tx.inputRefs.take n), marks (ev.tx.inputRefs.drop n),
    outs (ev.tx.outputs.take (n - ev.tx.inputRefs.length)),
    outs (ev.tx.outputs.drop (n - ev.tx.inputRefs.length)), ?_, ?_, ?_⟩
  · rw [overtaken, updates, List.take_append, updatesOf_append, ← List.map_take, ← List.map_take,
      hmarks, houts, hlen, listed]
  · rw [pending, updates, List.drop_append, updatesOf_append, ← List.map_drop, ← List.map_drop,
      hmarks, houts, hlen, listed]
  · intro hne
    have hle : ev.tx.inputRefs.length ≤ n := by
      by_contra hlt
      apply hne
      rw [Nat.sub_eq_zero_of_le (Nat.le_of_not_le hlt)]
      rfl
    rw [List.drop_eq_nil_of_le hle]
    rfl

theorem records_listed (ev : Event) (m : Nat) (outs : List (UInt64 × TransactionOutput))
    (r : Option TxoRecord) :
    Update.records (ev.listed m outs) r =
      match ev.applies, outs.getLast? with
      | some settledAt, some p =>
        some ⟨p.2, settledAt, keptSpent (if m = 0 then r else r.map (.mark true))⟩
      | none, some _ => none
      | applies, none => if m = 0 then r else r.map (.mark applies.isSome) := by
  have hmarks : Update.records (List.replicate m ev.markUpdate) r =
      if m = 0 then r else r.map (.mark ev.applies.isSome) := by
    have h := Update.records_marks Nat (List.range m) (ev.applies.getD none) ev.applies.isSome r
    rw [List.map_const', List.length_range] at h
    simpa [markUpdate] using h
  rw [listed, Update.records_append, hmarks]
  unfold writeUpdate
  cases ev.applies with
  | none =>
    rw [Update.records_deletes]
    cases outs using List.reverseRecOn <;> simp
  | some settledAt =>
    rw [Update.records_creates]
    cases outs.getLast? <;> rfl

/-- Where the overtaken updates have written nothing, the pending ones make what all would have
made unless one that matters is lost. -/
theorem records_pending_iff (ev : Event) (n : Nat) (o : OutputRef) {r : Option TxoRecord}
    (hskip : ∀ u ∈ ev.overtaken n o, u.record none = none) (hr : keptSpent r = false) :
    Update.records (ev.pending n o) r = ev.record o r ↔
      r = none ∨ ∀ u ∈ ev.overtaken n o, u = .mark none false ∨ u ∈ ev.pending n o := by
  rw [← records_updates, ← overtaken_append_pending ev n o, Update.records_append]
  obtain ⟨m₁, m₂, outs₁, outs₂, h₁, h₂, hm⟩ := ev.halves n o
  rw [h₁, h₂, records_listed, records_listed, records_listed]
  rw [h₁] at hskip
  have hr' : r = none ∨ ∃ out settledAt, r = some ⟨out, settledAt, false⟩ := by
    cases r with
    | none => exact .inl rfl
    | some ρ => exact .inr ⟨ρ.output, ρ.settledAt, congrArg some (by rw [← hr]; rfl)⟩
  cases ha : ev.applies with
  | some settledAt =>
    have hnil : outs₁ = [] := by
      by_contra hne
      obtain ⟨p, hp⟩ := List.exists_mem_of_ne_nil _ hne
      have hskip' := hskip _ (List.mem_append_right _ (List.mem_map_of_mem hp))
      simp [writeUpdate, ha, Update.record] at hskip'
    have hmark : (∀ u ∈ ev.listed m₁ outs₁, u = .mark none false ∨ u ∈ ev.listed m₂ outs₂) ↔
        (m₁ ≠ 0 → m₂ ≠ 0) := by
      subst hnil
      simp [listed, markUpdate, writeUpdate, ha, List.mem_replicate]
    rw [hmark, hnil]
    rcases hr' with rfl | ⟨out, slot, rfl⟩ <;> by_cases h1 : m₁ = 0 <;> by_cases h2 : m₂ = 0 <;>
      cases outs₂.getLast? <;> simp [h1, h2, TxoRecord.mark, keptSpent]
  | none =>
    have hmark : (∀ u ∈ ev.listed m₁ outs₁, u = .mark none false ∨ u ∈ ev.listed m₂ outs₂) ↔
        (outs₁ ≠ [] → outs₂ ≠ []) := by
      have hwrite : ∀ p : UInt64 × TransactionOutput, ev.writeUpdate p.2 = .delete := fun p => by
        simp [writeUpdate, ha]
      have hmem : ∀ m outs, .delete ∈ ev.listed m outs ↔ outs ≠ [] := fun m outs => by
        cases outs <;> simp [listed, markUpdate, hwrite, List.mem_replicate]
      constructor
      · intro h hne
        have hdelete := h .delete ((hmem m₁ outs₁).mpr hne)
        exact (hmem m₂ outs₂).mp (hdelete.resolve_left (by simp))
      · intro h u hu
        rcases List.mem_append.mp hu with hu | hu
        · left
          rw [List.eq_of_mem_replicate hu, markUpdate, ha]
          rfl
        · obtain ⟨p, hp, rfl⟩ := List.mem_map.mp hu
          rw [hwrite]
          exact .inr ((hmem m₂ outs₂).mpr (h (List.ne_nil_of_mem hp)))
    rw [hmark]
    rcases hr' with rfl | ⟨out, slot, rfl⟩ <;> by_cases h1 : m₁ = 0 <;> by_cases h2 : m₂ = 0 <;>
      rcases List.eq_nil_or_concat' outs₁ with rfl | ⟨init₁, last₁, rfl⟩ <;>
      rcases List.eq_nil_or_concat' outs₂ with rfl | ⟨init₂, last₂, rfl⟩ <;>
      simp_all [TxoRecord.mark, keptSpent]

theorem run_eq_runUpdates (ev : Event) (db : RocksDB) : ev.run db = runUpdates ev.updates db := by
  rw [← run_prog, prog_eq_updates, TxProg.run_forM]
  rfl

theorem resume_prog (ev : Event) (n : Nat) (old new : RocksDB) :
    ev.prog.resume n old new =
      runUpdates (ev.updates.drop n) (overtake (ev.updates.take n) old new) := by
  rw [prog_eq_updates, resume_updates]

end Event

end UtxoMonitor
