import UtxoMonitor.Cardano.AssetNames
import UtxoMonitor.Lib.Text

/-! Names of assets as text: a name is written as text where its bytes are one and in hexadecimal
where they are not, and a text is read as hexadecimal where it can be. -/
namespace UtxoMonitor.LiquidityBook.AssetName

open Lib

def tryFromHex (s : String) : Option AssetName := (hexDecode (utf8Bytes s)).bind tryFrom

/-- `&s[0..n]`: there have to be as many bytes, and no character may go on after them. -/
def sliceTo (s : Bytes) (n : Nat) : Checked Bytes :=
  Checked.unwrap (if isCharBoundary s n then some (s.take n) else none)

theorem length_fill (bs : Bytes) : ((bs ++ List.replicate 32 0).take 32).length = 32 := by
  rw [List.length_take, List.length_append, List.length_replicate]
  omega

/-- The first 32 bytes of some, and zeros where there are less. -/
def fill (bs : Bytes) : RawBytes 32 := ⟨(bs ++ List.replicate 32 0).take 32, length_fill bs⟩

/-- The length is the one before the text was cut, in a byte. -/
def fromUtf8 (tn : String) : Checked AssetName := do
  let origLen := (utf8Bytes tn).length
  let tn ← if origLen > 32 then sliceTo (utf8Bytes tn) 32 else pure (utf8Bytes tn)
  return ⟨UInt8.ofNat origLen, fill tn⟩

def display (name : AssetName) : Checked String := do
  let slice ← name.slice
  return (Lib.fromUtf8 slice).getD (hexText slice)

def serialize (name : AssetName) : Checked String := name.display

def deserialize (s : String) : Checked AssetName :=
  match tryFromHex s with
  | some name => return name
  | none => fromUtf8 s

/-- What is written of a name is read as the name. -/
def RoundTrips (name : UtxoMonitor.AssetName) : Prop :=
  (serialize (padded name) >>= deserialize) = .ok (padded name)

/-- A name is read, and it has as many bytes as its length says. -/
def ReadsSafely (s : String) : Prop := ∃ name, deserialize s = .ok name ∧ name.len ≤ 32

/-- Bytes that can be read as hexadecimal. -/
def IsHexText (bs : Bytes) : Prop := 2 ∣ bs.length ∧ ∀ c ∈ bs, IsHexadecimal c

instance (bs : Bytes) : Decidable (IsHexText bs) := inferInstanceAs (Decidable (_ ∧ _))

variable {name : UtxoMonitor.AssetName} {s : String}

/-! ### Writing -/

theorem serialize_padded (name : UtxoMonitor.AssetName) :
    serialize (padded name) = .ok ((Lib.fromUtf8 name.val).getD (hexText name.val)) := by
  rw [serialize, display, slice_padded]
  rfl

/-- Hexadecimal digits are text. -/
theorem serialize_of_isHexText (h : IsHexText name.val) :
    serialize (padded name) = .ok (asciiText name.val) := by
  have hascii := fromUtf8_of_ascii fun c hc => lt_of_isHexadecimal (h.2 c hc)
  rw [serialize_padded, hascii, Option.getD_some]

/-! ### Reading -/

theorem deserialize_of_tryFromHex {made : AssetName} (h : tryFromHex s = some made) :
    deserialize s = .ok made := by
  rw [deserialize, h]
  rfl

theorem deserialize_of_not_tryFromHex (h : tryFromHex s = none) :
    deserialize s = fromUtf8 s := by
  rw [deserialize, h]

theorem tryFromHex_eq_some {made : AssetName} :
    tryFromHex s = some made ↔ ∃ name, hexDecode (utf8Bytes s) = some name.val ∧ padded name = made := by
  rw [tryFromHex, Option.bind_eq_some_iff]
  constructor
  · rintro ⟨bs, hdecode, htry⟩
    obtain ⟨name, rfl, hname⟩ := tryFrom_eq_some.mp htry
    exact ⟨name, hdecode, hname⟩
  · rintro ⟨name, hdecode, rfl⟩
    exact ⟨name.val, hdecode, tryFrom_val name⟩

/-- Read in hexadecimal are at most 64 digits. -/
theorem isSome_tryFromHex (s : String) : (tryFromHex s).isSome ↔
    IsHexText (utf8Bytes s) ∧ (utf8Bytes s).length ≤ 64 := by
  rw [IsHexText, ← isSome_hexDecode, tryFromHex]
  cases hdecode : hexDecode (utf8Bytes s) with
  | none => simp
  | some bs =>
    have hlength := length_of_hexDecode hdecode
    rw [Option.bind_some, Option.isSome_some, eq_true rfl, true_and, Option.isSome_iff_ne_none,
      ne_eq, tryFrom_eq_none]
    omega

theorem fill_val (name : UtxoMonitor.AssetName) : fill name.val = (padded name).bytes := by
  have h := name.property
  apply Subtype.ext
  show (name.val ++ List.replicate 32 0).take 32 =
    name.val ++ List.replicate (32 - name.val.length) 0
  rw [List.take_append, List.take_of_length_le h, List.take_replicate]
  congr 2
  omega

/-- A text of at most 32 bytes is read as its bytes. -/
theorem fromUtf8_of_eq (h : utf8Bytes s = name.val) : fromUtf8 s = .ok (padded name) := by
  have hle : ¬ name.val.length > 32 := Nat.not_lt.mpr name.property
  rw [fromUtf8, h]
  dsimp only
  rw [if_neg hle]
  show Except.ok (AssetName.mk (UInt8.ofNat name.val.length) (fill name.val)) = _
  rw [fill_val]
  rfl

/-- Of a longer text the first bytes are kept, and the length is the one of the whole text. -/
theorem fromUtf8_of_lt (h : 32 < (utf8Bytes s).length) :
    fromUtf8 s = if isCharBoundary (utf8Bytes s) 32 then
      .ok ⟨UInt8.ofNat (utf8Bytes s).length, fill ((utf8Bytes s).take 32)⟩ else .error .unwrap := by
  rw [fromUtf8]
  dsimp only
  rw [if_pos h, sliceTo]
  split <;> rfl

theorem len_padded_le (name : UtxoMonitor.AssetName) : (padded name).len ≤ 32 := by
  rw [UInt8.le_iff_toNat_le, len_padded]
  exact name.property

/-! ### Both -/

/-- A name that is not hexadecimal text is read back: as text from its own bytes, and else from the
hexadecimal digits of them. -/
theorem roundTrips_of_not_isHexText (h : ¬ IsHexText name.val) : RoundTrips name := by
  rw [RoundTrips, serialize_padded]
  show deserialize _ = _
  cases htext : Lib.fromUtf8 name.val with
  | some s =>
    have hbytes := fromUtf8_eq_some.mp htext
    have hnone : tryFromHex s = none := by
      rw [Option.eq_none_iff_forall_ne_some]
      intro made hmade
      have hhex := (isSome_tryFromHex s).mp (by rw [hmade]; rfl)
      rw [hbytes] at hhex
      exact h hhex.1
    rw [Option.getD_some, deserialize_of_not_tryFromHex hnone, fromUtf8_of_eq hbytes]
  | none =>
    apply deserialize_of_tryFromHex
    rw [Option.getD_none, tryFromHex_eq_some]
    refine ⟨name, ?_, rfl⟩
    rw [utf8Bytes_hexText, hexDecode_hexEncode]

/-- Hexadecimal text is read as half as many bytes. -/
theorem roundTrips_of_isHexText (h : IsHexText name.val) : RoundTrips name ↔ name.val = [] := by
  have hascii := utf8Bytes_asciiText fun c hc => lt_of_isHexadecimal (h.2 c hc)
  have hlt : name.val.length ≤ 64 := Nat.le_trans name.property (by omega)
  obtain ⟨made, hmade⟩ := Option.isSome_iff_exists.mp
    ((isSome_tryFromHex (asciiText name.val)).mpr (by rw [hascii]; exact ⟨h, hlt⟩))
  obtain ⟨read, hdecode, rfl⟩ := tryFromHex_eq_some.mp hmade
  have hlength := length_of_hexDecode hdecode
  rw [hascii] at hlength
  rw [RoundTrips, serialize_of_isHexText h]
  show deserialize _ = _ ↔ _
  rw [deserialize_of_tryFromHex hmade, Except.ok.injEq, padded_inj]
  constructor
  · rintro rfl
    exact List.length_eq_zero_iff.mp (by omega)
  · intro hnil
    rw [hnil, List.length_nil] at hlength
    have hread : read.val = [] := List.length_eq_zero_iff.mp (by omega)
    exact Subtype.ext (hread.trans hnil.symm)

theorem roundTrips_iff (name : UtxoMonitor.AssetName) :
    RoundTrips name ↔ name.val = [] ∨ ¬ IsHexText name.val := by
  by_cases h : IsHexText name.val
  · rw [roundTrips_of_isHexText h, eq_true h, not_true_eq_false, or_false]
  · exact iff_of_true (roundTrips_of_not_isHexText h) (.inr h)

/-- A text of more than 32 bytes that is not hexadecimal is read safely if 32 bytes of it are a text
and its length in a byte is at most 32. -/
theorem readsSafely_iff (s : String) : ReadsSafely s ↔
    (utf8Bytes s).length ≤ 32 ∨ (IsHexText (utf8Bytes s) ∧ (utf8Bytes s).length ≤ 64) ∨
      (isCharBoundary (utf8Bytes s) 32 ∧ (utf8Bytes s).length % 256 ≤ 32) := by
  by_cases hhex : IsHexText (utf8Bytes s) ∧ (utf8Bytes s).length ≤ 64
  · refine iff_of_true ?_ (.inr (.inl hhex))
    obtain ⟨made, hmade⟩ := Option.isSome_iff_exists.mp ((isSome_tryFromHex s).mpr hhex)
    obtain ⟨name, _, rfl⟩ := tryFromHex_eq_some.mp hmade
    exact ⟨_, deserialize_of_tryFromHex hmade, len_padded_le name⟩
  have hnone : tryFromHex s = none := by
    rw [← Option.not_isSome_iff_eq_none, isSome_tryFromHex]
    exact hhex
  rw [ReadsSafely, deserialize_of_not_tryFromHex hnone]
  by_cases hle : (utf8Bytes s).length ≤ 32
  · obtain ⟨name, hname⟩ : ∃ name : UtxoMonitor.AssetName, utf8Bytes s = name.val :=
      ⟨⟨utf8Bytes s, hle⟩, rfl⟩
    exact iff_of_true ⟨_, fromUtf8_of_eq hname, len_padded_le name⟩ (.inl hle)
  rw [fromUtf8_of_lt (by omega)]
  by_cases hboundary : isCharBoundary (utf8Bytes s) 32
  · rw [if_pos hboundary]
    constructor
    · rintro ⟨made, hmade, hlen⟩
      cases hmade
      rw [UInt8.le_iff_toNat_le, UInt8.toNat_ofNat'] at hlen
      exact .inr (.inr ⟨hboundary, hlen⟩)
    · rintro (h | h | ⟨_, hlen⟩)
      · exact absurd h hle
      · exact absurd h hhex
      · refine ⟨_, rfl, ?_⟩
        rw [UInt8.le_iff_toNat_le, UInt8.toNat_ofNat']
        exact hlen
  · rw [if_neg hboundary]
    constructor
    · rintro ⟨made, hmade, _⟩
      cases hmade
    · rintro (h | h | ⟨h, _⟩)
      · exact absurd h hle
      · exact absurd h hhex
      · exact absurd h hboundary

/-- A name is read back from its text exactly if it is empty or no hexadecimal text itself. -/
theorem text_of_name_iff (name : UtxoMonitor.AssetName) (s : String) :
    (RoundTrips name ↔ name.val = [] ∨ ¬ IsHexText name.val) ∧
    (ReadsSafely s ↔ (utf8Bytes s).length ≤ 32 ∨
      (IsHexText (utf8Bytes s) ∧ (utf8Bytes s).length ≤ 64) ∨
      (isCharBoundary (utf8Bytes s) 32 ∧ (utf8Bytes s).length % 256 ≤ 32)) :=
  ⟨roundTrips_iff name, readsSafely_iff s⟩

/-- A name that is hexadecimal text. -/
def cafe : UtxoMonitor.AssetName := ⟨"cafe".toUTF8.toList, by decide +kernel⟩

/-- `cafe` is read as two bytes, 33 letters as a name of length 33, and a letter of two bytes in the
way of the cut stops the reading. -/
theorem text_misread : ¬ RoundTrips cafe ∧
    ¬ ReadsSafely "zzzzzzzzzzzzzzzzzzzzzzzzzzzzzzzzz" ∧
    deserialize "zzzzzzzzzzzzzzzzzzzzzzzzzzzzzzzé" = .error .unwrap := by
  refine ⟨?_, ?_, ?_⟩
  · rw [roundTrips_iff]
    decide +kernel
  · rw [readsSafely_iff]
    decide +kernel
  · decide +kernel

end UtxoMonitor.LiquidityBook.AssetName
