import UtxoMonitor.Cardano.Types

/-! Which texts are read as output references. -/
namespace UtxoMonitor.OutputRef

open Lib

/-- The text of a reference: 64 hexadecimal digits, `#`, and an index without a sign. -/
def WellFormed (s : Bytes) : Prop :=
  ∃ rawTxId strIdx, s = rawTxId ++ 35 :: strIdx ∧
    (rawTxId.length = 64 ∧ ∀ c ∈ rawTxId, IsHexadecimal c) ∧ IsU64 strIdx

/-- The reading ends without a panic, and accepts the text exactly if it is well formed. -/
structure ReadsRight (s : Bytes) : Prop where
  no_panic : tryFrom s ≠ .panicked
  accepts : (∃ o, tryFrom s = .ok o) ↔ WellFormed s

theorem splitOnce_eq_none {c : UInt8} {s : Bytes} : splitOnce c s = none ↔ c ∉ s := by
  induction s with
  | nil => simp [splitOnce]
  | cons x s ih =>
    rw [splitOnce, List.mem_cons, not_or, ← ih]
    split
    · rename_i heq
      simp [heq]
    · rename_i hne
      simpa using fun _ => Ne.symm hne

theorem isSome_fromHex {n : Nat} (s : Bytes) : (RawBytes.fromHex s : Option (RawBytes n)).isSome ↔
    s.length = 2 * n ∧ ∀ c ∈ s, IsHexadecimal c := by
  have hdecode := isSome_hexDecode s
  rw [RawBytes.fromHex]
  cases hs : hexDecode s with
  | none =>
    rw [hs] at hdecode
    simp only [Option.bind_none, Option.isSome_none, Bool.false_eq_true, false_iff] at hdecode ⊢
    rintro ⟨hlength, hall⟩
    exact hdecode ⟨⟨n, hlength⟩, hall⟩
  | some bs =>
    rw [hs] at hdecode
    have hlength := length_of_hexDecode hs
    have hall := (hdecode.mp rfl).2
    rw [Option.bind_some, RawBytes.fromRawBytes]
    split
    · rename_i hbs
      refine iff_of_true rfl ⟨?_, hall⟩
      rw [hlength, hbs]
    · rename_i hbs
      simp only [Option.isSome_none, Bool.false_eq_true, false_iff]
      rintro ⟨h, _⟩
      omega

theorem tryFrom_eq_err {s : Bytes} : tryFrom s = .err ↔ 35 ∉ s := by
  rw [← splitOnce_eq_none, tryFrom]
  cases splitOnce 35 s with
  | none => simp
  | some p =>
    obtain ⟨rawTxId, strIdx⟩ := p
    dsimp only
    split <;> simp

theorem tryFrom_of_wellFormed {s : Bytes} (h : WellFormed s) : ∃ o, tryFrom s = .ok o := by
  obtain ⟨rawTxId, strIdx, rfl, hhash, hidx⟩ := h
  have hno : (35 : UInt8) ∉ rawTxId := by
    intro hmem
    exact absurd (hhash.2 35 hmem) (by decide)
  obtain ⟨hash, hread⟩ := Option.isSome_iff_exists.mp
    ((isSome_fromHex (n := 32) rawTxId).mpr hhash)
  have hstrip := hidx.stripPlus
  obtain ⟨index, hindex⟩ := Option.isSome_iff_exists.mp
    ((isSome_parseU64 strIdx).mpr (hstrip.symm ▸ hidx))
  exact ⟨⟨hash, index⟩, by simp [tryFrom, splitOnce_append hno, hread, hindex]⟩

/-- A text is read right exactly if it has no `#` or is well formed, and what a reference is shown
as is always read back. -/
theorem reads_right_iff (s : Bytes) : (ReadsRight s ∧ ∀ o : OutputRef, tryFrom o.display = .ok o) ↔
    35 ∉ s ∨ WellFormed s := by
  constructor
  · rintro ⟨h, _⟩
    by_cases hsep : 35 ∈ s
    · right
      apply h.accepts.mp
      cases hread : tryFrom s with
      | ok o => exact ⟨o, rfl⟩
      | err => exact absurd hsep (tryFrom_eq_err.mp hread)
      | panicked => exact absurd hread h.no_panic
    · exact .inl hsep
  · intro h
    refine ⟨?_, tryFrom_display⟩
    rcases h with hsep | hwf
    · have herr := tryFrom_eq_err.mpr hsep
      refine ⟨by simp [herr], ?_⟩
      rw [herr]
      constructor
      · rintro ⟨o, ho⟩
        cases ho
      · rintro ⟨rawTxId, strIdx, rfl, _⟩
        simp at hsep
    · obtain ⟨o, ho⟩ := tryFrom_of_wellFormed hwf
      exact ⟨by simp [ho], iff_of_true ⟨o, ho⟩ hwf⟩

/-- A hash of one byte. -/
theorem short_hash_panics : ¬ ReadsRight "00#0".toUTF8.toList := by
  intro h
  exact h.no_panic (by decide +kernel)

end UtxoMonitor.OutputRef
