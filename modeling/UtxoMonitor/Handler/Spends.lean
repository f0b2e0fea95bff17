import UtxoMonitor.Handler.TxHandler

/-! The spent flag against the transactions that are applied. The flag is one bit, so an event that
takes one spender back clears it for all of them, and a new record starts without it. -/
namespace UtxoMonitor

open Lib

/-- What tells transactions apart. -/
abbrev TxId := TransactionHash × List TransactionInput

def TxViewMut.id (tx : TxViewMut) : TxId := (tx.hash, tx.inputs)

def TxId.inputRefs (id : TxId) : List OutputRef := id.2.map OutputRef.ofInput

/-- Whether the most recent event of a transaction is an application. -/
def liveAfter (evs : List Event) : TxId → Bool :=
  evs.foldl (fun live ev => Function.update live ev.tx.id ev.applies.isSome) fun _ => false

/-- An applied transaction has `o` among its inputs. -/
def SpentAfter (evs : List Event) (o : OutputRef) : Prop :=
  ∃ id, liveAfter evs id = true ∧ o ∈ TxId.inputRefs id

/-- The flag of every stored output says whether an applied transaction spends it. -/
def SpentExact (evs : List Event) : Prop :=
  ∀ o r, storedTxo (runEvents evs) o = some r → (r.spent = true ↔ SpentAfter evs o)

/-- An application must not create an output anew that it or an applied transaction spends; what
an event takes back must not be the spend of an output that stays stored and that another applied
transaction spends too. -/
def SpendSafe (evs : List Event) (ev : Event) : Prop :=
  if ev.applies.isSome then
    ∀ o ∈ ev.tx.outputRefs, storedTxo (runEvents evs) o = none →
      o ∉ ev.tx.inputRefs ∧ ¬ SpentAfter evs o
  else
    ∀ o ∈ ev.tx.inputRefs, o ∉ ev.tx.outputRefs → storedTxo (runEvents evs) o ≠ none →
      ∀ id, id ≠ ev.tx.id → liveAfter evs id = true → o ∉ TxId.inputRefs id

theorem liveAfter_concat (evs : List Event) (ev : Event) :
    liveAfter (evs ++ [ev]) =
      Function.update (liveAfter evs) ev.tx.id ev.applies.isSome := List.foldl_concat ..

section Records

variable {tx : TxViewMut} {o : OutputRef} {r : Option TxoRecord} {r' : TxoRecord}

/-- A transaction marks what it spends; an output it creates anew starts unspent. -/
theorem TxViewMut.spent_of_applied {settledAt : Option Slot}
    (h : tx.applied settledAt o r = some r') :
    (r = none ∧ o ∈ tx.outputRefs ∧ r'.spent = false) ∨
      ∃ q, r = some q ∧ (r'.spent = true ↔ q.spent = true ∨ o ∈ tx.inputRefs) := by
  unfold applied at h
  cases hout : tx.outputAt o with
  | some out =>
    have ho := tx.isSome_outputAt.mp (Option.isSome_of_mem hout)
    simp only [hout, Option.some.injEq] at h
    subst h
    cases r with
    | none => exact .inl ⟨rfl, ho, by simp [marked, keptSpent]⟩
    | some q =>
      refine .inr ⟨q, rfl, ?_⟩
      by_cases hi : o ∈ tx.inputRefs <;> simp [marked, hi, keptSpent, TxoRecord.mark]
  | none =>
    simp only [hout] at h
    cases r with
    | none => simp [marked] at h
    | some q =>
      refine .inr ⟨q, rfl, ?_⟩
      by_cases hi : o ∈ tx.inputRefs
      · obtain rfl : q.mark true = r' := by simpa [marked, hi] using h
        simp [hi, TxoRecord.mark]
      · obtain rfl : q = r' := by simpa [marked, hi] using h
        simp [hi]

theorem TxViewMut.applied_isSome (settledAt : Option Slot) (h : o ∈ tx.outputRefs) :
    ∃ r', tx.applied settledAt o r = some r' := by
  obtain ⟨out, hout⟩ := Option.isSome_iff_exists.mp (tx.isSome_outputAt.mpr h)
  exact ⟨_, by rw [applied, hout]⟩

theorem TxViewMut.spent_of_unapplied (h : tx.unapplied o r = some r') :
    o ∉ tx.outputRefs ∧
      ∃ q, r = some q ∧ (r'.spent = true ↔ q.spent = true ∧ o ∉ tx.inputRefs) := by
  unfold unapplied at h
  by_cases ho : o ∈ tx.outputRefs
  · simp [ho] at h
  refine ⟨ho, ?_⟩
  cases r with
  | none => simp [ho, marked] at h
  | some q =>
    refine ⟨q, rfl, ?_⟩
    by_cases hi : o ∈ tx.inputRefs
    · obtain rfl : q.mark false = r' := by simpa [ho, marked, hi] using h
      simp [hi, TxoRecord.mark]
    · obtain rfl : q = r' := by simpa [ho, marked, hi] using h
      simp [hi]

theorem TxViewMut.unapplied_isSome (q : TxoRecord) (h : o ∉ tx.outputRefs) :
    ∃ r', tx.unapplied o (some q) = some r' := by
  by_cases hi : o ∈ tx.inputRefs <;> simp [unapplied, h, marked, hi]

end Records

section Step

variable {evs : List Event} {ev : Event} {o : OutputRef}

theorem spentAfter_applied (h : ev.applies.isSome) :
    SpentAfter (evs ++ [ev]) o ↔ SpentAfter evs o ∨ o ∈ ev.tx.inputRefs := by
  simp only [SpentAfter, liveAfter_concat, h]
  constructor
  · rintro ⟨id, hlive, ho⟩
    by_cases hid : id = ev.tx.id
    · subst hid
      exact .inr ho
    · rw [Function.update_of_ne hid] at hlive
      exact .inl ⟨id, hlive, ho⟩
  · rintro (⟨id, hlive, ho⟩ | ho)
    · refine ⟨id, ?_, ho⟩
      by_cases hid : id = ev.tx.id
      · rw [hid, Function.update_self]
      · rwa [Function.update_of_ne hid]
    · exact ⟨ev.tx.id, Function.update_self .., ho⟩

theorem spentAfter_unapplied (h : ev.applies.isSome = false) :
    SpentAfter (evs ++ [ev]) o ↔
      ∃ id, id ≠ ev.tx.id ∧ liveAfter evs id = true ∧ o ∈ TxId.inputRefs id := by
  simp only [SpentAfter, liveAfter_concat, h]
  constructor
  · rintro ⟨id, hlive, ho⟩
    have hid : id ≠ ev.tx.id := by
      rintro rfl
      simp at hlive
    rw [Function.update_of_ne hid] at hlive
    exact ⟨id, hid, hlive, ho⟩
  · rintro ⟨id, hid, hlive, ho⟩
    exact ⟨id, by rwa [Function.update_of_ne hid], ho⟩

theorem spentExact_applied (hexact : SpentExact evs) (h : ev.applies.isSome) :
    SpentExact (evs ++ [ev]) ↔ SpendSafe evs ev := by
  obtain ⟨settledAt, ha⟩ := Option.isSome_iff_exists.mp h
  have hrec : ∀ o, storedTxo (runEvents (evs ++ [ev])) o =
      ev.tx.applied settledAt o (storedTxo (runEvents evs) o) := by
    intro o
    rw [storedTxo_concat, Event.record, ha]
  rw [SpendSafe, if_pos h]
  constructor
  · intro hafter o ho hnone
    obtain ⟨r', hr'⟩ := ev.tx.applied_isSome settledAt (r := storedTxo (runEvents evs) o) ho
    have hspent : r'.spent = false := by
      rcases TxViewMut.spent_of_applied hr' with ⟨-, -, hsp⟩ | ⟨q, hq, -⟩
      · exact hsp
      · rw [hnone] at hq
        cases hq
    have hiff := hafter o r' ((hrec o).trans hr')
    rw [spentAfter_applied h, hspent] at hiff
    constructor
    · intro hi
      exact absurd (hiff.mpr (.inr hi)) (by simp)
    · intro hs
      exact absurd (hiff.mpr (.inl hs)) (by simp)
  · intro hsafe o r' hr'
    rw [hrec] at hr'
    rw [spentAfter_applied h]
    rcases TxViewMut.spent_of_applied hr' with ⟨hnone, ho, hsp⟩ | ⟨q, hq, hiff⟩
    · obtain ⟨hin, hlive⟩ := hsafe o ho hnone
      simp [hsp, hin, hlive]
    · rw [hiff, hexact o q hq]

theorem spentExact_unapplied (hexact : SpentExact evs) (h : ev.applies.isSome = false) :
    SpentExact (evs ++ [ev]) ↔ SpendSafe evs ev := by
  have hrec : ∀ o, storedTxo (runEvents (evs ++ [ev])) o =
      ev.tx.unapplied o (storedTxo (runEvents evs) o) := by
    intro o
    have ha : ev.applies = none := by simpa using h
    rw [storedTxo_concat, Event.record, ha]
  rw [SpendSafe, if_neg (by simp [h])]
  constructor
  · intro hafter o hi ho hstored id hid hlive hmem
    obtain ⟨q, hq⟩ := Option.ne_none_iff_exists'.mp hstored
    obtain ⟨r', hr'⟩ : ∃ r', ev.tx.unapplied o (some q) = some r' :=
      TxViewMut.unapplied_isSome q ho
    rw [← hq, ← hrec] at hr'
    have hspent := (hafter o r' hr').mpr ((spentAfter_unapplied h).mpr ⟨id, hid, hlive, hmem⟩)
    rw [hrec] at hr'
    obtain ⟨-, q', -, hiff⟩ := TxViewMut.spent_of_unapplied hr'
    exact (hiff.mp hspent).2 hi
  · intro hsafe o r' hr'
    rw [hrec] at hr'
    obtain ⟨ho, q, hq, hiff⟩ := TxViewMut.spent_of_unapplied hr'
    rw [hiff, hexact o q hq, spentAfter_unapplied h]
    constructor
    · rintro ⟨⟨id, hlive, hmem⟩, hi⟩
      refine ⟨id, ?_, hlive, hmem⟩
      rintro rfl
      exact hi hmem
    · rintro ⟨id, hid, hlive, hmem⟩
      refine ⟨⟨id, hlive, hmem⟩, ?_⟩
      intro hi
      exact hsafe o hi ho (by simp [hq]) id hid hlive hmem

/-- One event keeps the flags exact precisely when it is safe. -/
theorem spentExact_concat_iff (hexact : SpentExact evs) (ev : Event) :
    SpentExact (evs ++ [ev]) ↔ SpendSafe evs ev := by
  cases h : ev.applies.isSome with
  | true => exact spentExact_applied hexact h
  | false => exact spentExact_unapplied hexact h

end Step

/-- The flags are exact along a run of the handlers exactly if every event is safe, and then no
query for unspent outputs returns one that an applied transaction spends. -/
theorem spent_exact_iff (evs : List Event) :
    ((∀ pre, pre <+: evs → SpentExact pre) ↔
      ∀ pre ev, pre ++ [ev] <+: evs → SpendSafe pre ev) ∧
    ((∀ pre ev, pre ++ [ev] <+: evs → SpendSafe pre ev) →
      ∀ scope (query : TxoQuery) offset limit txos, query.ForUnspent →
        (getUtxos (runEvents evs) scope query offset limit).2 = some txos →
        ∀ txo ∈ txos, ¬ SpentAfter evs txo.oref) := by
  have hiff := holds_along_iff SpentExact SpendSafe
    (by simp [SpentExact, runEvents, storedTxo, cellOf, RocksDB.empty])
    (fun pre ev h => spentExact_concat_iff h ev) evs
  refine ⟨hiff, ?_⟩
  intro hsafe scope query offset limit txos hq ht txo hm hspent
  obtain ⟨r, hr, hsp⟩ := (consistent_runEvents evs).unspent_of_mem hq ht hm
  have hexact := hiff.mpr hsafe evs (List.prefix_refl evs)
  have := (hexact _ r hr).mpr hspent
  simp [hsp] at this

/-- No transaction is applied before a producer of an output it spends, where there is one. -/
def ProducersFirst (evs : List Event) : Prop :=
  ∀ i : Fin evs.length, (evs.get i).applies.isSome → ∀ o ∈ (evs.get i).tx.inputRefs,
    ∀ j : Fin evs.length, (evs.get j).applies.isSome → o ∈ (evs.get j).tx.outputRefs →
      ∃ l : Fin evs.length, l < i ∧ (evs.get l).applies.isSome ∧ (evs.get l).tx.id = (evs.get j).tx.id

/-- A transaction that spends what `txConsume` does. -/
def txConflict : TxViewMut := { txConsume with hash := .replicate 3 }

/-- The mempool drops a transaction whose input a confirmed transaction spends. -/
def conflictRun : List Event :=
  [.ledger (.txApplied txProduce 1 1 (.replicate 1)), .mempool (.txAccepted txConsume),
    .ledger (.txApplied txConflict 2 2 (.replicate 2)), .mempool (.txDropped txConsume)]

set_option synthInstance.maxSize 400 in
theorem spent_exact_fails : ProducersFirst conflictRun ∧ ¬ SpentExact conflictRun := by
  refine ⟨by unfold ProducersFirst; decide +kernel, ?_⟩
  intro hexact
  have hstored : storedTxo (runEvents conflictRun) ⟨txProduce.hash, 0⟩ =
      some ⟨.conwayFormatTxOut (.enterprise (.pubKey (.replicate 7))) ⟨1, []⟩ none none, some 1,
        false⟩ := by decide +kernel
  have hspent := (hexact _ _ hstored).mpr
    ⟨txConflict.id, by decide +kernel, by decide +kernel⟩
  cases hspent

end UtxoMonitor
