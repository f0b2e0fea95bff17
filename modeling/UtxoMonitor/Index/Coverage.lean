import UtxoMonitor.Index.Events
import UtxoMonitor.Index.Paging

/-! What the query for all outputs of a credential leaves out when no slot is given. -/
namespace UtxoMonitor

open Lib

variable {db : RocksDB}

/-- A query for all outputs since a slot returns the stored outputs with an entry from it on. -/
theorem Consistent.returns_all_iff (h : Consistent db) {k : CredentialKind} {c : Credential}
    {least : Option Slot} {txo : Txo} :
    Returns db (some (c, k)) (.all least) txo ↔
      (∃ s, (cellOf db txo.oref).events k c s ∧ eventSlot least ≤ s) ∧
        ∃ r, storedTxo db txo.oref = some r ∧ txo = .ofRecord txo.oref r := by
  rw [h.returns_iff]
  apply (mem_eventsMatches h.shaped).trans
  simp only [mem_scopedMatch, Option.not_mem_none, IsEmpty.forall_iff, implies_true, true_and]

/-- Without a slot the scan starts at the last slot there is, that of unsettled events. -/
theorem le_slot_none {s : Slot} : eventSlot none ≤ s ↔ s = eventSlot none := by
  rw [UInt64.le_iff_toNat_le, ← UInt64.toNat_inj]
  have h := s.toNat_lt
  have hmax : (eventSlot none).toNat = 18446744073709551615 := rfl
  omega

theorem Consistent.returns_all_none_iff (h : Consistent db) {k : CredentialKind}
    {c : Credential} {txo : Txo} :
    Returns db (some (c, k)) (.all none) txo ↔ (cellOf db txo.oref).events k c (eventSlot none) ∧
      ∃ r, storedTxo db txo.oref = some r ∧ txo = .ofRecord txo.oref r := by
  rw [h.returns_all_iff]
  simp only [le_slot_none, exists_eq_right]

/-! ### Stored outputs are filed -/

/-- A stored output has an entry under each of its credentials. -/
def Cell.Listed (x : Cell) : Prop :=
  ∀ r, x.txo = some r → ∀ k c, (k, c) ∈ r.output.credentials → ∃ s, x.events k c s

theorem Cell.listed_update (x : Cell) (u : Update) : (u.cell x.txo x).Listed := by
  intro r hr k c hc
  rw [u.cell_txo] at hr
  refine ⟨eventSlot (u.filedAt x.txo), (u.cell_events x k c _).mpr (.inr ?_)⟩
  exact ⟨by rwa [hr], rfl⟩

theorem Cell.Listed.steps {x : Cell} (h : x.Listed) (us : List Update) : (x.steps us).Listed := by
  induction us generalizing x with
  | nil => exact h
  | cons u us ih => exact ih (x.listed_update u)

theorem listed_runCalls (calls : List Call) (o : OutputRef) :
    (cellOf (runCalls calls) o).Listed := by
  have hempty : (cellOf RocksDB.empty o).Listed := by
    intro r hr
    simp [cellOf, RocksDB.empty] at hr
  rw [cellOf_runCalls, cellOf_runUpdates]
  exact hempty.steps _

/-! ### Coverage -/

/-- The query for all outputs of a credential behaves as its documentation says. -/
structure AllCovers (db : RocksDB) (k : CredentialKind) (c : Credential) : Prop where
  stored : ∀ o r, storedTxo db o = some r → (k, c) ∈ r.output.credentials →
    Returns db (some (c, k)) (.all none) (.ofRecord o r)
  since : ∀ s txo, Returns db (some (c, k)) (.all (some s)) txo →
    Returns db (some (c, k)) (.all none) txo
  antitone : ∀ s t txo, s ≤ t → Returns db (some (c, k)) (.all (some t)) txo →
    Returns db (some (c, k)) (.all (some s)) txo

/-- Every stored output in the events table of a credential is there as unsettled. -/
def FiledUnsettled (db : RocksDB) (k : CredentialKind) (c : Credential) : Prop :=
  ∀ o s, (storedTxo db o).isSome → credentialToUtxoAllKey c (some s) o ∈ db (.events k) →
    credentialToUtxoAllKey c none o ∈ db (.events k)

theorem Consistent.all_antitone (h : Consistent db) {k : CredentialKind} {c : Credential}
    {s t : Slot} (hst : s ≤ t) {txo : Txo}
    (ht : Returns db (some (c, k)) (.all (some t)) txo) :
    Returns db (some (c, k)) (.all (some s)) txo := by
  obtain ⟨⟨slot, hev, hle⟩, hr⟩ := h.returns_all_iff.mp ht
  exact h.returns_all_iff.mpr ⟨⟨slot, hev, UInt64.le_trans hst hle⟩, hr⟩

/-- After any run the query for all outputs covers a credential precisely when no stored output
of it is filed under settled slots only. -/
theorem all_covers_iff (calls : List Call) (k : CredentialKind) (c : Credential) :
    AllCovers (runCalls calls) k c ↔ FiledUnsettled (runCalls calls) k c := by
  have h := consistent_runCalls calls
  constructor
  · intro hall o s hstored hev
    obtain ⟨r, hr⟩ := Option.isSome_iff_exists.mp hstored
    have hsince : Returns (runCalls calls) (some (c, k)) (.all (some s)) (.ofRecord o r) :=
      h.returns_all_iff.mpr ⟨⟨s, hev, UInt64.le_refl _⟩, r, hr, rfl⟩
    exact (h.returns_all_none_iff.mp (hall.since s _ hsince)).1
  · intro hfiled
    have hnone : ∀ txo s, (cellOf (runCalls calls) txo.oref).events k c s →
        (∃ r, storedTxo (runCalls calls) txo.oref = some r ∧ txo = .ofRecord txo.oref r) →
        Returns (runCalls calls) (some (c, k)) (.all none) txo := by
      rintro txo s hev ⟨r, hr, heq⟩
      refine h.returns_all_none_iff.mpr ⟨?_, r, hr, heq⟩
      exact hfiled txo.oref s (by simp [hr]) hev
    refine ⟨?_, ?_, fun s t txo hst => h.all_antitone hst⟩
    · intro o r hr hc
      obtain ⟨s, hev⟩ := listed_runCalls calls o r hr k c hc
      exact hnone (.ofRecord o r) s hev ⟨r, hr, rfl⟩
    · intro s txo ht
      obtain ⟨⟨slot, hev, -⟩, hr⟩ := h.returns_all_iff.mp ht
      exact hnone txo slot hev hr

/-- A settled output is stored, and found since slot 0, but not when no slot is given. -/
theorem all_misses_settled :
    (storedTxo (runCalls [txProduce.applyCall (some 1)]) ⟨txProduce.hash, 0⟩).isSome ∧
    (answer [txProduce.applyCall (some 1)] (some (.pubKey (.replicate 7), .payment))
      (.all (some 0)) 0 10).map Txo.oref = [⟨txProduce.hash, 0⟩] ∧
    answer [txProduce.applyCall (some 1)] (some (.pubKey (.replicate 7), .payment))
      (.all none) 0 10 = [] := by
  decide +kernel

end UtxoMonitor
