import UtxoMonitor.Handler.Touch
import UtxoMonitor.Index.Paging

/-! The index while units are backfilled. A backfill writes what it has found after it has looked, so
the rows it writes may be those of outputs that events have spent or taken back meanwhile. -/
namespace UtxoMonitor

open Lib

/-- The output that each reference names; a transaction hash stands for its outputs. -/
abbrev Chain := OutputRef → TransactionOutput

/-- An event creates only what the references name. -/
def Event.OfChain (chain : Chain) (ev : Event) : Prop :=
  ∀ p ∈ ev.tx.outputs, p.2 = chain ⟨ev.tx.hash, p.1⟩

/-! ### One output -/

/-- The entries of an output that a scan relies on. An unspent output has all its units; units that
are left over are units of the output nevertheless. -/
structure Cell.Serves (x : Cell) (out : TransactionOutput) : Prop where
  output : ∀ r, x.txo = some r → r.output = out
  unspent : ∀ k c, x.unspent k c ↔
    ∃ r, x.txo = some r ∧ r.spent = false ∧ (k, c) ∈ r.output.credentials
  complete : ∀ r, x.txo = some r → r.spent = false → ∀ u ∈ outputUnits r.output, x.units u
  known : ∀ u, x.units u → u ∈ outputUnits out

theorem Update.record_output {u : Update} {existing : Option TxoRecord} {out : TransactionOutput}
    (hu : ∀ txo s, u = .create txo s → txo = out) (he : ∀ r, existing = some r → r.output = out)
    {r : TxoRecord} (hr : u.record existing = some r) : r.output = out := by
  cases u with
  | mark slot spent =>
    obtain ⟨r', hr', rfl⟩ := Option.map_eq_some_iff.mp hr
    exact he r' hr'
  | create txo settledAt =>
    obtain rfl := Option.some.inj hr
    exact hu txo settledAt rfl
  | delete => cases hr

theorem Cell.units_of_removeFound {x : Cell} {existing : Option TxoRecord} {v : Bytes}
    (h : (x.removeFound existing).units v) : x.units v := by
  cases existing with
  | none => exact h
  | some r => exact h.1

namespace Cell.Serves

variable {x : Cell} {out : TransactionOutput}

theorem not_unspent_removeFound (h : x.Serves out) (k : CredentialKind) (c : Credential) :
    ¬ (x.removeFound x.txo).unspent k c := by
  intro hu
  cases hx : x.txo with
  | none =>
    rw [hx] at hu
    obtain ⟨r, hr, -⟩ := (h.unspent k c).mp hu
    rw [hx] at hr
    cases hr
  | some r =>
    rw [hx] at hu
    obtain ⟨r', hr, -, hm⟩ := (h.unspent k c).mp hu.1
    obtain rfl : r = r' := Option.some.inj (hx.symm.trans hr)
    exact hu.2 hm

theorem update (h : x.Serves out) (u : Update) (hu : ∀ txo s, u = .create txo s → txo = out) :
    (u.cell x.txo x).Serves out := by
  have htxo := u.cell_txo x
  have hunspent := h.not_unspent_removeFound
  have houtput : ∀ r, u.record x.txo = some r → r.output = out :=
    fun r hr => Update.record_output hu h.output hr
  unfold Update.cell at htxo ⊢
  cases hr : u.record x.txo with
  | none =>
    rw [hr] at htxo
    refine ⟨?_, ?_, ?_, ?_⟩
    · intro r hr'
      rw [htxo] at hr'
      cases hr'
    · simp [htxo, hunspent]
    · intro r hr'
      rw [htxo] at hr'
      cases hr'
    · intro v hv
      exact h.known v (units_of_removeFound hv)
  | some r =>
    have hrout := houtput r hr
    refine ⟨?_, ?_, ?_, ?_⟩
    · intro r' hr'
      obtain rfl := Option.some.inj hr'
      exact hrout
    · simp [Cell.write, Cell.writeSecondaryIndexes, hunspent, and_comm]
    · intro r' hr' hsp v hv
      obtain rfl := Option.some.inj hr'
      exact .inr ⟨hsp, hv⟩
    · rintro v (hv | ⟨-, hv⟩)
      · exact h.known v (units_of_removeFound hv)
      · rwa [hrout] at hv

theorem steps (h : x.Serves out) {us : List Update}
    (hus : ∀ u ∈ us, ∀ txo s, u = .create txo s → txo = out) : (x.steps us).Serves out := by
  induction us generalizing x with
  | nil => exact h
  | cons u us ih =>
    exact ih (h.update u (hus u List.mem_cons_self)) fun v hv => hus v (List.mem_cons_of_mem _ hv)

end Cell.Serves

/-! ### The whole index -/

/-- The invariant of the index that events and backfills keep. -/
structure Serves (chain : Chain) (db : RocksDB) : Prop where
  shaped : Shaped db
  cell : ∀ o, (cellOf db o).Serves (chain o)

theorem Serves.empty (chain : Chain) : Serves chain RocksDB.empty where
  shaped := Shaped.empty
  cell o := by constructor <;> simp [cellOf, RocksDB.empty]

variable {chain : Chain} {db : RocksDB}

theorem Event.writeUpdate_eq_create {ev : Event} {out txo : TransactionOutput} {s : Option Slot}
    (h : ev.writeUpdate out = .create txo s) : txo = out := by
  unfold writeUpdate at h
  split at h
  · simp only [Update.create.injEq] at h
    exact h.1.symm
  · cases h

theorem Event.OfChain.creates {ev : Event} (h : ev.OfChain chain) {o : OutputRef} {u : Update}
    (hu : u ∈ updatesOf o ev.updates) : ∀ txo s, u = .create txo s → txo = chain o := by
  rintro txo s rfl
  obtain ⟨⟨o', u'⟩, hmem, ho⟩ := List.mem_filterMap.mp hu
  by_cases heq : o' = o
  · rw [if_pos heq, Option.some.injEq] at ho
    rcases List.mem_append.mp hmem with hmark | hwrite
    · obtain ⟨oref, -, hmark⟩ := List.mem_map.mp hmark
      rw [Prod.mk.injEq] at hmark
      rw [← hmark.2] at ho
      cases ho
    · obtain ⟨p, hp, hwrite⟩ := List.mem_map.mp hwrite
      rw [Prod.mk.injEq] at hwrite
      rw [← heq, ← hwrite.1, ← h p hp]
      exact Event.writeUpdate_eq_create (hwrite.2.trans ho)
  · rw [if_neg heq] at ho
    cases ho

theorem Serves.event (h : Serves chain db) {ev : Event} (hev : ev.OfChain chain) :
    Serves chain (ev.run db) := by
  rw [ev.run_eq_runUpdates]
  refine ⟨h.shaped.runUpdates _, ?_⟩
  intro o
  rw [cellOf_runUpdates]
  exact (h.cell o).steps fun u hu => hev.creates hu

/-- Rows that a scan for a unit may have found at some time. -/
def FoundRows (chain : Chain) (p : Bytes) (found : List (Bytes × Stored)) : Prop :=
  ∀ row ∈ found, ∃ o, row.1 = utxoKey o ∧ p ∈ outputUnits (chain o)

theorem Serves.foundRows (h : Serves chain db) {p : Bytes} (hp : toAsciiLowercase p = p) :
    FoundRows chain p (backfillRows db p) := by
  intro row hrow
  obtain ⟨o, ho, r, hr, -, hu⟩ :=
    (mem_backfillRows h.shaped.outputKeyed hp).mp ⟨row, hrow, rfl⟩
  rw [(h.cell o).output r hr] at hu
  exact ⟨o, ho, hu⟩

/-- Rows that are written late do no harm. -/
theorem Serves.backfill (h : Serves chain db) {p : Bytes} {found : List (Bytes × Stored)}
    (hf : FoundRows chain p found) : Serves chain ((UtxoMonitor.backfill p found).run db) := by
  have hother := backfill_other p found db
  refine ⟨h.shaped.backfill fun row hrow => ?_, ?_⟩
  · obtain ⟨o, ho, -⟩ := hf row hrow
    exact ⟨o, ho⟩
  · intro o
    have hcell := h.cell o
    have htxo : (cellOf ((UtxoMonitor.backfill p found).run db) o).txo = (cellOf db o).txo := by
      simp only [cellOf]
      rw [hother .txo (by simp)]
    have hunits : ∀ u, (cellOf ((UtxoMonitor.backfill p found).run db) o).units u ↔
        (∃ row ∈ found, unitIndexEntryKey u o = p ++ row.1) ∨ (cellOf db o).units u :=
      fun u => mem_backfill p found db (not_isSentinelKey_entry u o)
    refine ⟨?_, ?_, ?_, ?_⟩
    · intro r hr
      rw [htxo] at hr
      exact hcell.output r hr
    · intro k c
      rw [htxo, ← hcell.unspent]
      simp only [cellOf]
      rw [hother (.unspent k) (by simp)]
    · intro r hr hsp u hu
      rw [htxo] at hr
      exact (hunits u).mpr (.inr (hcell.complete r hr hsp u hu))
    · intro u hu
      rcases (hunits u).mp hu with ⟨row, hrow, heq⟩ | hu
      · obtain ⟨o', ho, hunit⟩ := hf row hrow
        rw [ho] at heq
        obtain ⟨rfl, rfl⟩ := unitIndexEntryKey_inj.mp
          (show _ = unitIndexEntryKey p o' from heq)
        exact hunit
      · exact hcell.known u hu

/-! ### Answers -/

theorem Serves.mem_unspentMatches (h : Serves chain db) {k : CredentialKind} {c : Credential}
    {unitFilter : Option Bytes} {txo : Txo} :
    txo ∈ unspentMatches db k c unitFilter ↔ ∃ r, storedTxo db txo.oref = some r ∧
      (r.spent = false ∧ (k, c) ∈ r.output.credentials ∧
        ∀ unit ∈ unitFilter, outputContainsUnit r.output unit) ∧ txo = .ofRecord txo.oref r := by
  rw [UtxoMonitor.mem_unspentMatches h.shaped, mem_scopedMatch, (h.cell _).unspent]
  constructor
  · rintro ⟨⟨r, hr, hsp, hc⟩, r', hr', hu, heq⟩
    obtain rfl : r = r' := Option.some.inj (hr.symm.trans hr')
    exact ⟨r, hr, ⟨hsp, hc, hu⟩, heq⟩
  · rintro ⟨r, hr, ⟨hsp, hc, hu⟩, heq⟩
    exact ⟨⟨r, hr, hsp, hc⟩, r, hr, hu, heq⟩

theorem Serves.mem_unitMatches (h : Serves chain db) {p : Bytes} {txo : Txo} :
    txo ∈ unitMatches db p ↔ ∃ r, storedTxo db txo.oref = some r ∧
      (r.spent = false ∧ p ∈ outputUnits r.output) ∧ txo = .ofRecord txo.oref r := by
  rw [h.shaped.outputKeyed.mem_unitMatches]
  constructor
  · rintro ⟨hunit, r, hr, hsp, heq⟩
    have hknown := (h.cell txo.oref).known p hunit
    rw [← (h.cell txo.oref).output r hr] at hknown
    exact ⟨r, hr, ⟨hsp, hknown⟩, heq⟩
  · rintro ⟨r, hr, ⟨hsp, hu⟩, heq⟩
    exact ⟨(h.cell txo.oref).complete r hr hsp p hu, r, hr, hsp, heq⟩

end UtxoMonitor
