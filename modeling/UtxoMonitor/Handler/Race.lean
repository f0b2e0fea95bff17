import UtxoMonitor.Handler.Touch

/-! A ledger event and a mempool event handled at the same time, each in its own transaction. -/
namespace UtxoMonitor

open Lib

/-- The reads of `second` that the commit of `first` has overtaken do no harm to `o`, where they found
the record `r`. If `second` writes `o` all the same, it takes the same over from both records and
deals with every entry of the record it has not seen; otherwise it loses no update that matters. -/
def Unharmed (r : Option TxoRecord) (first second : Event) (n : Nat) (o : OutputRef) : Prop :=
  ((∃ u ∈ second.overtaken n o, u.Writes r) ∧ (second.touch o).Alike r (first.record o r) ∧
    ∀ e, ListedBy (first.record o r) e → Covers e (updatesOf o second.updates) r) ∨
  ((∀ u ∈ second.overtaken n o, ¬ u.Writes r) ∧ (first.record o r = none ∨
    ∀ u ∈ second.overtaken n o, u = .mark none false ∨ u ∈ second.pending n o))

/-- All updates of `o` by an event are overtaken and none has written it. -/
def Missed (r : Option TxoRecord) (ev : Event) (n : Nat) (o : OutputRef) : Prop :=
  (∀ u ∈ ev.overtaken n o, ¬ u.Writes r) ∧ ev.pending n o = []

section Output

variable {x : Cell} {first second : Event} {n : Nat} {o : OutputRef}

/-- The cell of `o` when the first `n` reads of `second` see it before `first`. -/
def Cell.raced (x : Cell) (first second : Event) (n : Nat) (o : OutputRef) : Cell :=
  (Cell.overtake (second.overtaken n o) x (x.steps (updatesOf o first.updates))).steps
    (second.pending n o)

theorem Cell.steps_updates_txo (x : Cell) (ev : Event) (o : OutputRef) :
    (x.steps (updatesOf o ev.updates)).txo = ev.record o x.txo := by
  rw [Update.steps_txo, ← ev.records_updates]
  rfl

/-- Where overtaken updates write the output, they leave the record made of the one before, and an
exact cell only if they deal with the entries of the one they have not seen. -/
theorem Cell.Exact.raced_of_writes (hx : x.Exact) (first : Event)
    (h : ∃ u ∈ second.overtaken n o, u.Writes x.txo) :
    (x.raced first second n o).txo = second.record o x.txo ∧
    ((x.raced first second n o).Exact ↔ ∀ e, ListedBy (first.record o x.txo) e →
      Covers e (updatesOf o second.updates) x.txo) := by
  obtain ⟨htxo, hlists⟩ := Cell.overtake_of_writes h (x.steps (updatesOf o first.updates))
    (second.pending n o)
  rw [second.overtaken_append_pending, second.records_updates] at htxo
  rw [second.overtaken_append_pending, second.records_updates] at hlists
  refine ⟨htxo, ?_⟩
  have hfirst := Cell.exact_iff.mp (hx.steps (updatesOf o first.updates))
  rw [Cell.steps_updates_txo] at hfirst
  have hlast : ∀ e, ListedBy (second.record o x.txo) e →
      Covers e (updatesOf o second.updates) x.txo := by
    intro e he
    rw [← second.records_updates] at he
    rw [← second.overtaken_append_pending n] at he ⊢
    obtain ⟨u, hu, -⟩ := h
    obtain ⟨v, us, hus⟩ := List.exists_cons_of_ne_nil (List.ne_nil_of_mem hu)
    rw [hus] at he ⊢
    exact .of_listed he
  rw [Cell.exact_iff, show (x.raced first second n o).txo = _ from htxo]
  constructor
  · intro hexact e he
    by_contra hc
    exact hc (hlast e ((hexact e).mp ((hlists e).mpr (.inr ⟨(hfirst e).mpr he, hc⟩))))
  · intro hcovers e
    refine (hlists e).trans ⟨?_, .inl⟩
    rintro (he | ⟨he, hc⟩)
    · exact he
    · exact absurd (hcovers e ((hfirst e).mp he)) hc

theorem Cell.raced_of_not_writes (h : ∀ u ∈ second.overtaken n o, ¬ u.Writes x.txo) :
    x.raced first second n o =
      (x.steps (updatesOf o first.updates)).steps (second.pending n o) := by
  rw [raced, overtake_of_not_writes h]

theorem Cell.Exact.raced_of_not_writes (hx : x.Exact) (first : Event)
    (h : ∀ u ∈ second.overtaken n o, ¬ u.Writes x.txo) :
    (x.raced first second n o).txo =
        Update.records (second.pending n o) (first.record o x.txo) ∧
      (x.raced first second n o).Exact := by
  rw [Cell.raced_of_not_writes h]
  refine ⟨?_, (hx.steps _).steps _⟩
  rw [Update.steps_txo, Cell.steps_updates_txo]
  rfl

theorem not_writes_cases {us : List Update} {r : Option TxoRecord} (h : ∀ u ∈ us, ¬ u.Writes r) :
    us = [] ∨ r = none ∧ ∀ u ∈ us, u.record none = none := by
  rcases us with _ | ⟨u, us⟩
  · exact .inl rfl
  · obtain ⟨rfl, -⟩ := Update.not_writes_iff.mp (h u List.mem_cons_self)
    exact .inr ⟨rfl, fun v hv => (Update.not_writes_iff.mp (h v hv)).2⟩

theorem records_of_not_writes {us : List Update} {r : Option TxoRecord}
    (h : ∀ u ∈ us, ¬ u.Writes r) : Update.records us r = r := by
  induction us with
  | nil => rfl
  | cons u us ih =>
    obtain ⟨hr, hu⟩ := Update.not_writes_iff.mp (h u List.mem_cons_self)
    change Update.records us (u.record r) = r
    rw [hu, ← hr]
    exact ih fun v hv => h v (List.mem_cons_of_mem _ hv)

theorem keptSpent_record_none (ev : Event) (o : OutputRef) :
    keptSpent (ev.record o none) = false := by
  rw [← ev.record_touch]
  rcases (ev.touch o).record_none with h | ⟨out, s, -, h⟩ <;> rw [h] <;> rfl

/-- Where nothing is written, the record is that of the first event and then the second one unless
an update that matters is lost. -/
theorem records_pending_of_not_writes (h : ∀ u ∈ second.overtaken n o, ¬ u.Writes x.txo) :
    Update.records (second.pending n o) (first.record o x.txo) =
        second.record o (first.record o x.txo) ↔
      first.record o x.txo = none ∨
        ∀ u ∈ second.overtaken n o, u = .mark none false ∨ u ∈ second.pending n o := by
  rcases not_writes_cases h with hnil | ⟨hnone, hskip⟩
  · rw [← second.records_updates, ← second.overtaken_append_pending n, hnil]
    simp
  · rw [hnone]
    exact second.records_pending_iff n o hskip (keptSpent_record_none first o)

theorem unharmed_of_writes {r : Option TxoRecord} (h : ∃ u ∈ second.overtaken n o, u.Writes r) :
    Unharmed r first second n o ↔ second.record o r = second.record o (first.record o r) ∧
      ∀ e, ListedBy (first.record o r) e → Covers e (updatesOf o second.updates) r := by
  rw [← second.record_touch, ← second.record_touch, Touch.record_eq_iff, Unharmed]
  constructor
  · rintro (⟨-, hharm⟩ | ⟨hnot, -⟩)
    · exact hharm
    · obtain ⟨u, hu, hwrites⟩ := h
      exact absurd hwrites (hnot u hu)
  · intro hharm
    exact .inl ⟨h, hharm⟩

theorem unharmed_of_not_writes (h : ∀ u ∈ second.overtaken n o, ¬ u.Writes x.txo) :
    Unharmed x.txo first second n o ↔
      Update.records (second.pending n o) (first.record o x.txo) =
        second.record o (first.record o x.txo) := by
  rw [records_pending_of_not_writes h, Unharmed]
  constructor
  · rintro (⟨⟨u, hu, hwrites⟩, -⟩ | ⟨-, hkept⟩)
    · exact absurd hwrites (h u hu)
    · exact hkept
  · intro hkept
    exact .inr ⟨h, hkept⟩

/-- The interleaving agrees with the order of the commits exactly where no harm is done. -/
theorem Cell.Exact.agrees_first_iff (hx : x.Exact) :
    (x.raced first second n o).Agrees
        ((x.steps (updatesOf o first.updates)).steps (updatesOf o second.updates)) ↔
      Unharmed x.txo first second n o := by
  have hserial := (hx.steps (updatesOf o first.updates)).steps (updatesOf o second.updates)
  rw [hserial.agrees_iff, Cell.steps_updates_txo, Cell.steps_updates_txo]
  by_cases hwrites : ∃ u ∈ second.overtaken n o, u.Writes x.txo
  · obtain ⟨htxo, hexact⟩ := hx.raced_of_writes first hwrites
    rw [htxo, hexact, unharmed_of_writes hwrites]
  · have hnot : ∀ u ∈ second.overtaken n o, ¬ u.Writes x.txo := fun u hu hw => hwrites ⟨u, hu, hw⟩
    obtain ⟨htxo, hexact⟩ := hx.raced_of_not_writes first hnot
    rw [htxo, unharmed_of_not_writes hnot]
    exact and_iff_left hexact

/-- Of an output that is not stored, the pending updates do not leave what the other order would
leave, if there are any and an update that matters is lost. -/
theorem not_lost_of_second (hapart : (first.touch o).Apart (second.touch o))
    (hskip : ∀ u ∈ second.overtaken n o, u.record none = none) (hpending : second.pending n o ≠ [])
    (h : Update.records (second.pending n o) (first.record o none) =
      first.record o (second.record o none)) :
    first.record o none = none ∨
      ∀ u ∈ second.overtaken n o, u = .mark none false ∨ u ∈ second.pending n o := by
  rcases (first.touch o).record_none with hnone | ⟨out, s, hs, hfirst⟩
  · exact .inl ((first.record_touch o none).symm.trans hnone)
  right
  rw [first.record_touch] at hfirst
  rw [hfirst] at h
  obtain ⟨m₁, m₂, outs₁, outs₂, h₁, h₂, hm⟩ := second.halves n o
  rw [h₂] at h hpending
  have hsecond : second.record o none =
      Update.records (second.listed m₂ outs₂) (Update.records (second.overtaken n o) none) := by
    rw [← second.records_updates, ← second.overtaken_append_pending n, h₂, Update.records_append]
  rw [records_of_not_writes fun u hu => Update.not_writes_iff.mpr ⟨rfl, hskip u hu⟩] at hsecond
  rw [second.records_listed] at h hsecond
  cases ha : second.applies with
  | none =>
    rcases List.eq_nil_or_concat' outs₂ with rfl | ⟨init, p, rfl⟩
    · -- only marks are pending, so no deletion has been overtaken
      have hm₂ : m₂ ≠ 0 := by
        rintro rfl
        exact hpending rfl
      have houts₁ : outs₁ = [] := by
        by_contra hne
        exact hm₂ (hm hne)
      intro u hu
      rw [h₁, houts₁, Event.listed, List.map_nil, List.append_nil] at hu
      left
      rw [List.eq_of_mem_replicate hu, Event.markUpdate, ha]
      rfl
    · -- a pending deletion leaves nothing
      have hnone : second.record o none = none := by simpa [ha] using hsecond
      rw [hnone, hfirst] at h
      simp [ha] at h
  | some t =>
    rcases List.eq_nil_or_concat' outs₂ with rfl | ⟨init, p, rfl⟩
    · -- a pending mark spends what the first event leaves unspent
      have hm₂ : m₂ ≠ 0 := by
        rintro rfl
        exact hpending rfl
      have hnone : second.record o none = none := by simpa [ha] using hsecond
      rw [hnone, hfirst] at h
      simp [ha, hm₂, TxoRecord.mark] at h
    · -- both create the output, at different slots
      have hsome : second.record o none = some ⟨p.2, t, false⟩ := by
        simpa [ha, keptSpent] using hsecond
      have ht : t ∈ (second.touch o).slot := by
        rw [← second.record_touch] at hsome
        rcases (second.touch o).record_none with hnone | ⟨out', t', ht', hrec⟩
        · rw [hnone] at hsome
          cases hsome
        · rw [hrec] at hsome
          cases hsome
          exact ht'
      obtain ⟨q, hq, hslot⟩ := Touch.record_of_slot hs (second.record o none)
      rw [first.record_touch] at hq
      rw [hq] at h
      simp only [ha, List.getLast?_concat, Option.some.injEq] at h
      exact absurd (by rw [← hslot, ← h]) (hapart s hs t ht)

theorem Cell.Exact.agrees_second_iff (hx : x.Exact)
    (hapart : (first.touch o).Apart (second.touch o)) :
    (x.raced first second n o).Agrees
        ((x.steps (updatesOf o second.updates)).steps (updatesOf o first.updates)) ↔
      Missed x.txo second n o ∨
        (Unharmed x.txo first second n o ∧ (first.touch o).Commutes (second.touch o) x.txo) := by
  have hserial := (hx.steps (updatesOf o second.updates)).steps (updatesOf o first.updates)
  rw [hserial.agrees_iff, Cell.steps_updates_txo, Cell.steps_updates_txo,
    ← Touch.commutes_iff hapart]
  simp only [Event.record_touch]
  by_cases hwrites : ∃ u ∈ second.overtaken n o, u.Writes x.txo
  · obtain ⟨htxo, hexact⟩ := hx.raced_of_writes first hwrites
    have hmissed : ¬ Missed x.txo second n o := fun hm => by
      obtain ⟨u, hu, hw⟩ := hwrites
      exact hm.1 u hu hw
    rw [htxo, hexact, unharmed_of_writes hwrites, or_iff_right hmissed]
    constructor
    · rintro ⟨hrec, hcovers⟩
      have habsorb : second.record o (first.record o x.txo) = second.record o x.txo := by
        have := Touch.record_absorb hapart (r := x.txo)
        simp only [Event.record_touch] at this
        exact this hrec.symm
      exact ⟨⟨habsorb.symm, hcovers⟩, hrec.symm.trans habsorb.symm⟩
    · rintro ⟨⟨halike, hcovers⟩, hcomm⟩
      exact ⟨halike.trans hcomm.symm, hcovers⟩
  · have hnot : ∀ u ∈ second.overtaken n o, ¬ u.Writes x.txo := fun u hu hw => hwrites ⟨u, hu, hw⟩
    obtain ⟨htxo, hexact⟩ := hx.raced_of_not_writes first hnot
    rw [htxo, unharmed_of_not_writes hnot, and_iff_left hexact]
    constructor
    · intro h
      by_cases hpending : second.pending n o = []
      · exact .inl ⟨hnot, hpending⟩
      · have hkept : Update.records (second.pending n o) (first.record o x.txo) =
            second.record o (first.record o x.txo) := by
          rcases not_writes_cases hnot with hnil | ⟨hnone, hskip⟩
          · rw [← second.records_updates, ← second.overtaken_append_pending n, hnil]
            rfl
          · rw [records_pending_of_not_writes hnot]
            rw [hnone] at h ⊢
            exact not_lost_of_second hapart hskip hpending h
        exact .inr ⟨hkept, h.symm.trans hkept⟩
    · rintro (⟨-, hpending⟩ | ⟨hkept, hcomm⟩)
      · have hsecond : second.record o x.txo = x.txo := by
          rw [← second.records_updates, ← second.overtaken_append_pending n, hpending,
            List.append_nil]
          exact records_of_not_writes hnot
        rw [hpending, hsecond]
        rfl
      · exact hkept.trans hcomm.symm

end Output

/-! ### Two events at the same time -/

/-- The interleaving leaves an order of the two events on all outputs: the order of the commits, or
the other one where the second event has missed what the first one creates. -/
def Harmless (db : RocksDB) (first second : Event) (n : Nat) : Prop :=
  (∀ o, Unharmed (storedTxo db o) first second n o) ∨
  ∀ o, Missed (storedTxo db o) second n o ∨
    (Unharmed (storedTxo db o) first second n o ∧
      (first.touch o).Commutes (second.touch o) (storedTxo db o))

/-- Events one after the other are harmless. -/
theorem harmless_zero (db : RocksDB) (first second : Event) : Harmless db first second 0 := by
  refine .inl fun o => .inr ⟨?_, .inr ?_⟩
  · rintro u ⟨⟩
  · rintro u ⟨⟩

/-- The events that the two tasks handle. -/
def tasks (ledger : LedgerTxEvent TxViewMut) (mempool : MempoolUpdate TxViewMut) : Side → Event
  | .left => .ledger ledger
  | .right => .mempool mempool

theorem Event.applies_of_slot {ev : Event} {o : OutputRef} {s : Option Slot}
    (h : s ∈ (ev.touch o).slot) : ev.applies = some s := by
  unfold touch at h
  split at h
  · rename_i settledAt out ha hout
    obtain rfl : settledAt = s := Option.some.inj h
    exact ha
  · cases h
  · split at h <;> cases h

/-- The ledger task settles outputs at a slot, the mempool task at none. -/
theorem apart_tasks (ledger : LedgerTxEvent TxViewMut) (mempool : MempoolUpdate TxViewMut)
    (i : Side) (o : OutputRef) :
    ((tasks ledger mempool i).touch o).Apart ((tasks ledger mempool i.other).touch o) := by
  intro s hs t ht
  have hs' := Event.applies_of_slot hs
  have ht' := Event.applies_of_slot ht
  cases i <;> cases ledger <;> cases mempool <;>
    simp_all [tasks, Event.applies, Side.other] <;> simp [← hs', ← ht']

section Race

variable {db : RocksDB} {first second : Event} {n : Nat}

theorem cellOf_event (ev : Event) (db : RocksDB) (o : OutputRef) :
    cellOf (ev.run db) o = (cellOf db o).steps (updatesOf o ev.updates) := by
  rw [ev.run_eq_runUpdates, cellOf_runUpdates]

theorem cellOf_resume (o : OutputRef) :
    cellOf (second.prog.resume n db (first.prog.run db)) o =
      (cellOf db o).raced first second n o := by
  rw [second.resume_prog, first.run_prog, cellOf_runUpdates, cellOf_overtake, cellOf_event]
  rfl

theorem Shaped.resume (hs : Shaped db) :
    Shaped (second.prog.resume n db (first.prog.run db)) := by
  rw [second.resume_prog, first.run_prog, first.run_eq_runUpdates]
  exact (hs.runUpdates _).overtake.runUpdates _

theorem hasSentinel_of_event {ev : Event} {pre : Bytes} (h : HasSentinel (ev.run db) pre) :
    HasSentinel db pre := by
  rw [ev.run_eq_runUpdates] at h
  exact hasSentinel_of_runUpdates h

theorem hasSentinel_of_resume {pre : Bytes}
    (h : HasSentinel (second.prog.resume n db (first.prog.run db)) pre) : HasSentinel db pre := by
  rw [second.resume_prog, first.run_prog] at h
  exact hasSentinel_of_event (hasSentinel_of_overtake (hasSentinel_of_runUpdates h))

/-- What the second event makes of the database after the first one, its first `n` reads being
overtaken, are the tables of an order of both exactly if this is harmless. -/
theorem resume_serial_iff (h : Consistent db) {evs : Side → Event} (i : Side)
    (hapart : ∀ o, ((evs i).touch o).Apart ((evs i.other).touch o)) :
    (∃ j, SameTables ((evs i.other).prog.resume n db ((evs i).prog.run db))
        ((evs j.other).run ((evs j).run db))) ↔ Harmless db (evs i) (evs i.other) n := by
  have hsame : ∀ j, SameTables ((evs i.other).prog.resume n db ((evs i).prog.run db))
        ((evs j.other).run ((evs j).run db)) ↔
      ∀ o, ((cellOf db o).raced (evs i) (evs i.other) n o).Agrees
        (((cellOf db o).steps (updatesOf o (evs j).updates)).steps
          (updatesOf o (evs j.other).updates)) := by
    intro j
    rw [h.shaped.resume.sameTables_iff ((h.event _).event _).shaped]
    simp only [cellOf_resume, cellOf_event]
  simp only [hsame]
  constructor
  · rintro ⟨j, hj⟩
    by_cases hji : j = i
    · subst hji
      exact .inl fun o => (h.exact o).agrees_first_iff.mp (hj o)
    · obtain rfl : j = i.other := Side.eq_other hji
      rw [Side.other_other] at hj
      exact .inr fun o => ((h.exact o).agrees_second_iff (hapart o)).mp (hj o)
  · rintro (hall | hall)
    · exact ⟨i, fun o => (h.exact o).agrees_first_iff.mpr (hall o)⟩
    · refine ⟨i.other, ?_⟩
      intro o
      rw [Side.other_other]
      exact ((h.exact o).agrees_second_iff (hapart o)).mpr (hall o)

end Race

/-- Every completed interleaving of a ledger event and a mempool event leaves the tables of one of
the two orders exactly if it is harmless; the whole unit table is that of this order where the index
has no markers. -/
theorem race_serial_iff (calls : List Call) (ledger : LedgerTxEvent TxViewMut)
    (mempool : MempoolUpdate TxViewMut) (schedule : List Side) (final : Pair Cf UInt8 Stored)
    (run : (Pair.start (runCalls calls) fun i => (tasks ledger mempool i).prog).run schedule =
      some final) (done : ∀ i, final.parties i = .committed) :
    ∃ i n, (Pair.start (runCalls calls) fun i => (tasks ledger mempool i).prog).firstCommit schedule =
        some (i, n) ∧
      ((∃ j, SameTables final.db ((tasks ledger mempool j.other).run
          ((tasks ledger mempool j).run (runCalls calls)))) ↔
        Harmless (runCalls calls) (tasks ledger mempool i) (tasks ledger mempool i.other) n) ∧
      ((∀ pre, ¬ HasSentinel (runCalls calls) pre) → ∀ j,
        SameTables final.db ((tasks ledger mempool j.other).run
          ((tasks ledger mempool j).run (runCalls calls))) →
        final.db .unitUnspent = (tasks ledger mempool j.other).run
          ((tasks ledger mempool j).run (runCalls calls)) .unitUnspent) := by
  obtain ⟨i, n, hfirst, hfinal⟩ := Pair.run_start run done
  refine ⟨i, n, hfirst, ?_, ?_⟩
  · rw [hfinal]
    exact resume_serial_iff (consistent_runCalls calls) i (apart_tasks ledger mempool i)
  · intro hn j hsame
    refine hsame.unitUnspent_eq (fun pre hs => hn pre ?_) fun pre hs => hn pre ?_
    · rw [hfinal] at hs
      exact hasSentinel_of_resume hs
    · exact hasSentinel_of_event (hasSentinel_of_event hs)

/-! The confirmation of a transaction reads its unspent output; before it writes, a transaction that
spends the output is announced. -/

def raceCalls : List Call :=
  [.apply txProduce.hash txProduce.inputRefs txProduce.outputs none]

def raceEvents : Side → Event :=
  tasks (.txApplied txProduce 1 1 (.replicate 1)) (.txAccepted txConsume)

def raceStart : Pair Cf UInt8 Stored := .start (runCalls raceCalls) fun i => (raceEvents i).prog

def raceSchedule : List Side :=
  List.replicate 2 .left ++ List.replicate 10 .right ++ List.replicate 7 .left

/-- The output ends unspent, while in both orders it ends spent. -/
theorem race_loses_spend :
    ∃ final, raceStart.run raceSchedule = some final ∧ (∀ i, final.parties i = .committed) ∧
      (storedTxo final.db ⟨txProduce.hash, 0⟩).map TxoRecord.spent = some false ∧
      ∀ j, ¬ SameTables final.db
        ((raceEvents j.other).run ((raceEvents j).run (runCalls raceCalls))) := by
  have hrun : (raceStart.run raceSchedule).isSome := by decide +kernel
  have hunspent : (storedTxo ((raceStart.run raceSchedule).get hrun).db
      ⟨txProduce.hash, 0⟩).map TxoRecord.spent = some false := by decide +kernel +revert
  have hspent : ∀ j, (storedTxo ((raceEvents j.other).run ((raceEvents j).run
      (runCalls raceCalls))) ⟨txProduce.hash, 0⟩).map TxoRecord.spent = some true := by
    intro j
    cases j <;> decide +kernel
  refine ⟨_, (Option.some_get hrun).symm, ?_, hunspent, ?_⟩
  · intro i
    cases i <;> decide +kernel +revert
  · intro j hsame
    simp only [storedTxo, cellOf] at hunspent hspent
    rw [hsame.txo, hspent] at hunspent
    cases hunspent

/-- Without the pause the same two events leave the tables of an order. -/
theorem race_serial_iff_paused :
    ∃ final, raceStart.run (List.replicate 9 .left ++ List.replicate 10 .right) = some final ∧
      ∃ j, SameTables final.db
        ((raceEvents j.other).run ((raceEvents j).run (runCalls raceCalls))) := by
  have hrun : (raceStart.run (List.replicate 9 .left ++ List.replicate 10 .right)).isSome := by
    decide +kernel
  refine ⟨_, (Option.some_get hrun).symm, ?_⟩
  obtain ⟨i, n, hfirst, hiff, -⟩ := race_serial_iff raceCalls (.txApplied txProduce 1 1 (.replicate 1))
    (.txAccepted txConsume) _ _ (Option.some_get hrun).symm fun i => by
      cases i <;> decide +kernel +revert
  have hleft : raceStart.firstCommit (List.replicate 9 .left ++ List.replicate 10 .right) =
      some (.left, 0) := by decide +kernel
  obtain ⟨rfl, rfl⟩ : .left = i ∧ 0 = n := by simpa using hleft.symm.trans hfirst
  exact hiff.mpr (harmless_zero _ _ _)

end UtxoMonitor
