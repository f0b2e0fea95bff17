import UtxoMonitor.Cardano.Types

/-! The keys of the index tables. Every key names the output reference it belongs to, and two
keys of one table agree only when all of their parts do. -/
namespace UtxoMonitor

open Lib

def utxoKey (rf : OutputRef) : Bytes := msgpackStr rf.display

/-- Reading an output reference back from its key, `none` when the reader fails or panics. -/
def readUtxoKey (key : Bytes) : Option OutputRef :=
  (readMsgpackStr key).bind fun s => (OutputRef.tryFrom s).toOption

def credentialTagAndBytes : Credential → UInt8 × Bytes
  | .pubKey hash => (0, hash.toRawBytes)
  | .script hash => (1, hash.toRawBytes)

def credentialKeyPrefix (credential : Credential) : Bytes :=
  (credentialTagAndBytes credential).1 :: (credentialTagAndBytes credential).2

/-- `settled_at.unwrap_or(u64::MAX)`: the slot under which an event is filed. -/
def eventSlot (settledAt : Option Slot) : Slot := settledAt.getD 0xffffffffffffffff

def settledAtKey (settledAt : Option Slot) : Bytes := bigEndian 8 (eventSlot settledAt).toNat

def credentialToUtxoAllKey (credential : Credential) (settledAt : Option Slot) (rf : OutputRef) :
    Bytes :=
  credentialKeyPrefix credential ++ settledAtKey settledAt ++ utxoKey rf

def credentialToUtxoUnspentKey (credential : Credential) (rf : OutputRef) : Bytes :=
  credentialKeyPrefix credential ++ utxoKey rf

def unitIndexSentinel : UInt8 := 0

def unitIndexKeyPrefix (unit : Bytes) : Bytes := unit

def unitIndexEntryKey (pre : Bytes) (oref : OutputRef) : Bytes := pre ++ utxoKey oref

def unitIndexSentinelKey (pre : Bytes) : Bytes := pre ++ [unitIndexSentinel]

/-! ### Output keys -/

theorem utxoKey_eq (rf : OutputRef) :
    utxoKey rf = 0xd9 :: UInt8.ofNat rf.display.length :: rf.display := by
  have h := rf.length_display
  exact msgpackStr_of_length (by omega) (by omega)

@[simp] theorem readUtxoKey_utxoKey (rf : OutputRef) : readUtxoKey (utxoKey rf) = some rf := by
  have h := rf.length_display
  rw [readUtxoKey, utxoKey, readMsgpackStr_msgpackStr (by omega) (by omega)]
  simp [Outcome.toOption]

theorem utxoKey_injective : Function.Injective utxoKey := by
  intro a b h
  have := congrArg readUtxoKey h
  simpa using this

@[simp] theorem utxoKey_inj {a b : OutputRef} : utxoKey a = utxoKey b ↔ a = b :=
  utxoKey_injective.eq_iff

/-- The header byte of an output key occurs nowhere else in it. -/
theorem header_notMem_utxoKey_tail (rf : OutputRef) :
    (0xd9 : UInt8) ∉ UInt8.ofNat rf.display.length :: rf.display := by
  have h := rf.length_display
  have hlen : (0xd9 : UInt8) ≠ UInt8.ofNat rf.display.length := by
    intro he
    have := congrArg UInt8.toNat he
    simp at this
    omega
  intro hm
  rcases List.mem_cons.mp hm with he | hm
  · exact hlen he
  · exact absurd (OutputRef.display_ascii hm).2 (by decide)

/-! ### Credential keys -/

@[simp] theorem length_credentialKeyPrefix (c : Credential) :
    (credentialKeyPrefix c).length = 29 := by
  cases c <;> simp [credentialKeyPrefix, credentialTagAndBytes]

theorem credentialKeyPrefix_injective : Function.Injective credentialKeyPrefix := by
  intro a b h
  cases a <;> cases b <;>
    simp_all [credentialKeyPrefix, credentialTagAndBytes, RawBytes.toRawBytes_injective.eq_iff]

@[simp] theorem length_settledAtKey (s : Option Slot) : (settledAtKey s).length = 8 := by
  simp [settledAtKey]

theorem settledAtKey_inj {s t : Option Slot} :
    settledAtKey s = settledAtKey t ↔ eventSlot s = eventSlot t := by
  rw [settledAtKey, settledAtKey, bigEndian_inj (slot_lt _) (slot_lt _), UInt64.toNat_inj]

theorem credentialToUtxoAllKey_inj {c d : Credential} {s t : Option Slot} {a b : OutputRef} :
    credentialToUtxoAllKey c s a = credentialToUtxoAllKey d t b ↔
      c = d ∧ eventSlot s = eventSlot t ∧ a = b := by
  constructor
  · intro h
    obtain ⟨h, hk⟩ := List.append_inj h (by simp)
    obtain ⟨hc, hs⟩ := List.append_inj h (by simp)
    exact ⟨credentialKeyPrefix_injective hc, settledAtKey_inj.mp hs, utxoKey_injective hk⟩
  · rintro ⟨rfl, hs, rfl⟩
    rw [credentialToUtxoAllKey, settledAtKey_inj.mpr hs, credentialToUtxoAllKey]

theorem credentialToUtxoUnspentKey_inj {c d : Credential} {a b : OutputRef} :
    credentialToUtxoUnspentKey c a = credentialToUtxoUnspentKey d b ↔ c = d ∧ a = b := by
  constructor
  · intro h
    obtain ⟨hc, hk⟩ := List.append_inj h (by simp)
    exact ⟨credentialKeyPrefix_injective hc, utxoKey_injective hk⟩
  · rintro ⟨rfl, rfl⟩
    rfl

/-! ### Unit keys -/

/-- A separator that a suffix avoids splits a string in one way only. -/
theorem split_at_last {c : UInt8} {u v xs ys : Bytes} (hx : c ∉ xs) (hy : c ∉ ys)
    (h : u ++ c :: xs = v ++ c :: ys) : u = v ∧ xs = ys := by
  induction u generalizing v with
  | nil =>
    cases v with
    | nil => simpa using h
    | cons d v =>
      have : c ∈ xs := by
        rw [List.nil_append, List.cons_append, List.cons.injEq] at h
        simp [h.2]
      exact absurd this hx
  | cons d u ih =>
    cases v with
    | nil =>
      have : c ∈ ys := by
        rw [List.nil_append, List.cons_append, List.cons.injEq] at h
        simp [← h.2]
      exact absurd this hy
    | cons e v =>
      simp only [List.cons_append, List.cons.injEq] at h
      obtain ⟨rfl, h⟩ := h
      obtain ⟨rfl, rfl⟩ := ih h
      exact ⟨rfl, rfl⟩

/-- A unit key determines its unit and its output, whatever bytes the unit is made of. -/
theorem unitIndexEntryKey_inj {u v : Bytes} {a b : OutputRef} :
    unitIndexEntryKey u a = unitIndexEntryKey v b ↔ u = v ∧ a = b := by
  constructor
  · intro h
    simp only [unitIndexEntryKey] at h
    rw [utxoKey_eq, utxoKey_eq] at h
    obtain ⟨rfl, ht⟩ :=
      split_at_last (header_notMem_utxoKey_tail a) (header_notMem_utxoKey_tail b) h
    refine ⟨rfl, utxoKey_injective ?_⟩
    rw [utxoKey_eq, utxoKey_eq, ht]
  · rintro ⟨rfl, rfl⟩
    rfl

theorem unitIndexSentinelKey_inj {u v : Bytes} :
    unitIndexSentinelKey u = unitIndexSentinelKey v ↔ u = v := by
  simp [unitIndexSentinelKey]

/-- The keys that mark a unit as looked for and not found. -/
def IsSentinelKey (key : Bytes) : Prop := ∃ pre, key = unitIndexSentinelKey pre

theorem not_isSentinelKey_entry (u : Bytes) (o : OutputRef) :
    ¬ IsSentinelKey (unitIndexEntryKey u o) := by
  rintro ⟨pre, h⟩
  have hne : o.display ≠ [] := by
    have := o.length_display
    intro he
    simp [he] at this
  have hlast : (unitIndexEntryKey u o).getLast? = o.display.getLast? := by
    rw [unitIndexEntryKey, utxoKey_eq, List.getLast?_append_of_ne_nil _ (by simp)]
    obtain ⟨c, cs, hc⟩ := List.exists_cons_of_ne_nil hne
    rw [hc, List.getLast?_cons_cons, List.getLast?_cons_cons]
  rw [h, unitIndexSentinelKey, List.getLast?_append_of_ne_nil _ (by simp)] at hlast
  have hmem : unitIndexSentinel ∈ o.display := List.mem_of_getLast? hlast.symm
  exact absurd (OutputRef.display_ascii hmem).1 (by decide)

end UtxoMonitor
