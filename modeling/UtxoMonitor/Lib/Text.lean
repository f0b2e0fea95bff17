import Mathlib.Data.List.Basic
import UtxoMonitor.Lib.Table

/-! ASCII text as bytes: hexadecimal, decimal and MessagePack strings, each with its reader; and the
bytes of any text. -/
namespace Lib

/-! ### Hexadecimal -/

def hexDigit (n : UInt8) : UInt8 := if n < 10 then 48 + n else 87 + n

def hexValue (c : UInt8) : Option UInt8 :=
  if 48 ≤ c ∧ c ≤ 57 then some (c - 48)
  else if 97 ≤ c ∧ c ≤ 102 then some (c - 87)
  else if 65 ≤ c ∧ c ≤ 70 then some (c - 55)
  else none

def hexEncode : Bytes → Bytes
  | [] => []
  | b :: bs => hexDigit (b / 16) :: hexDigit (b % 16) :: hexEncode bs

def hexDecode : Bytes → Option Bytes
  | [] => some []
  | [_] => none
  | hi :: lo :: rest => do
    let h ← hexValue hi
    let l ← hexValue lo
    let bs ← hexDecode rest
    return (h * 16 + l) :: bs

/-- Every property of a byte is a property of the 256 numbers below it. -/
theorem forall_byte {P : UInt8 → Prop} (h : ∀ n : Fin 256, P (UInt8.ofNat n.val)) (b : UInt8) :
    P b := by
  have hb := h ⟨b.toNat, UInt8.toNat_lt b⟩
  rwa [UInt8.ofNat_toNat] at hb

theorem hexValue_high (b : UInt8) : hexValue (hexDigit (b / 16)) = some (b / 16) := by
  revert b
  exact forall_byte (by decide +kernel)

theorem hexValue_low (b : UInt8) : hexValue (hexDigit (b % 16)) = some (b % 16) := by
  revert b
  exact forall_byte (by decide +kernel)

theorem high_low (b : UInt8) : b / 16 * 16 + b % 16 = b := by
  revert b
  exact forall_byte (by decide +kernel)

/-- The digits a byte is written with: `0`–`9` and `a`–`f`. -/
def IsHexDigit (c : UInt8) : Prop := (48 ≤ c ∧ c ≤ 57) ∨ (97 ≤ c ∧ c ≤ 102)

instance (c : UInt8) : Decidable (IsHexDigit c) := inferInstanceAs (Decidable (_ ∨ _))

theorem isHexDigit_high (b : UInt8) : IsHexDigit (hexDigit (b / 16)) := by
  revert b
  exact forall_byte (by decide +kernel)

theorem isHexDigit_low (b : UInt8) : IsHexDigit (hexDigit (b % 16)) := by
  revert b
  exact forall_byte (by decide +kernel)

theorem isHexDigit_of_mem_hexEncode {bs : Bytes} {c : UInt8} (h : c ∈ hexEncode bs) :
    IsHexDigit c := by
  induction bs with
  | nil => cases h
  | cons b bs ih =>
    simp only [hexEncode, List.mem_cons] at h
    rcases h with rfl | rfl | h
    · exact isHexDigit_high b
    · exact isHexDigit_low b
    · exact ih h

@[simp] theorem length_hexEncode (bs : Bytes) : (hexEncode bs).length = 2 * bs.length := by
  induction bs with
  | nil => rfl
  | cons b bs ih => simp [hexEncode, ih]; omega

@[simp] theorem hexDecode_hexEncode (bs : Bytes) : hexDecode (hexEncode bs) = some bs := by
  induction bs with
  | nil => rfl
  | cons b bs ih => simp [hexEncode, hexDecode, hexValue_high, hexValue_low, ih, high_low]

/-- The digits a byte is read from: those it is written with, and `A`–`F`. -/
def IsHexadecimal (c : UInt8) : Prop := IsHexDigit c ∨ (65 ≤ c ∧ c ≤ 70)

instance (c : UInt8) : Decidable (IsHexadecimal c) := inferInstanceAs (Decidable (_ ∨ _))

theorem isSome_hexValue (c : UInt8) : (hexValue c).isSome ↔ IsHexadecimal c := by
  revert c
  exact forall_byte (by decide +kernel)

theorem length_of_hexDecode {s bs : Bytes} (h : hexDecode s = some bs) :
    s.length = 2 * bs.length := by
  fun_induction hexDecode s generalizing bs with
  | case1 =>
    cases h
    rfl
  | case2 c => cases h
  | case3 hi lo rest ih =>
    simp only [Option.bind_eq_bind, Option.bind_eq_some_iff, Option.pure_def,
      Option.some.injEq] at h
    obtain ⟨high, _, low, _, bytes, hrest, rfl⟩ := h
    have hlength := ih hrest
    simp only [List.length_cons]
    omega

/-- What can be read is an even number of digits, and nothing else. -/
theorem isSome_hexDecode (s : Bytes) :
    (hexDecode s).isSome ↔ 2 ∣ s.length ∧ ∀ c ∈ s, IsHexadecimal c := by
  fun_induction hexDecode s with
  | case1 => simp
  | case2 c => simp
  | case3 hi lo rest ih =>
    have hdvd : 2 ∣ rest.length + 1 + 1 ↔ 2 ∣ rest.length := by omega
    simp only [List.mem_cons, forall_eq_or_imp, ← isSome_hexValue, List.length_cons,
      hdvd] at ih ⊢
    cases hexValue hi with
    | none => simp
    | some high =>
      cases hexValue lo with
      | none => simp
      | some low => cases hrest : hexDecode rest <;> simp [← ih, hrest]

/-- Rust's `make_ascii_lowercase` on the bytes of a string. -/
def toAsciiLowercase (s : Bytes) : Bytes :=
  s.map fun c => if 65 ≤ c ∧ c ≤ 90 then c + 32 else c

theorem toAsciiLowercase_idem (s : Bytes) :
    toAsciiLowercase (toAsciiLowercase s) = toAsciiLowercase s := by
  simp only [toAsciiLowercase, List.map_map]
  apply List.map_congr_left
  intro c _
  exact forall_byte (P := fun c => ((fun c => if 65 ≤ c ∧ c ≤ 90 then c + 32 else c) ∘
    fun c => if 65 ≤ c ∧ c ≤ 90 then c + 32 else c) c =
      if 65 ≤ c ∧ c ≤ 90 then c + 32 else c) (by decide +kernel) c

/-! ### Decimal -/

def decimal (n : Nat) : Bytes := (Nat.toDigits 10 n).map fun c => UInt8.ofNat c.toNat

def stripPlus : Bytes → Bytes
  | [] => []
  | c :: cs => if c = 43 then cs else c :: cs

/-- Rust's `u64::from_str`: one optional `+`, then at least one digit, and no overflow. -/
def parseU64 (s : Bytes) : Option UInt64 :=
  let digits := stripPlus s
  if digits ≠ [] ∧ digits.all fun c => 48 ≤ c ∧ c ≤ 57 then
    let n := digits.foldl (fun acc c => 10 * acc + (c.toNat - 48)) 0
    if n < 2 ^ 64 then some (UInt64.ofNat n) else none
  else none

/-- A numeral without a sign, of a value that fits its word. -/
def IsU64 (s : Bytes) : Prop :=
  s ≠ [] ∧ (∀ c ∈ s, 48 ≤ c ∧ c ≤ 57) ∧
    s.foldl (fun acc c => 10 * acc + (c.toNat - 48)) 0 < 2 ^ 64

theorem isSome_parseU64 (s : Bytes) : (parseU64 s).isSome ↔ IsU64 (stripPlus s) := by
  unfold parseU64 IsU64
  simp only [List.all_eq_true, decide_eq_true_eq]
  split
  · rename_i h
    split
    · rename_i hlt
      simpa using ⟨h.1, h.2, hlt⟩
    · rename_i hlt
      simp only [Option.isSome_none, Bool.false_eq_true, false_iff]
      exact fun hu => hlt hu.2.2
  · rename_i h
    simp only [Option.isSome_none, Bool.false_eq_true, false_iff]
    exact fun hu => h ⟨hu.1, hu.2.1⟩

theorem IsU64.stripPlus {s : Bytes} (h : IsU64 s) : stripPlus s = s := by
  cases s with
  | nil => rfl
  | cons c cs =>
    have hne : c ≠ 43 := by
      rintro rfl
      exact absurd (h.2.1 43 List.mem_cons_self).1 (by decide)
    rw [Lib.stripPlus, if_neg hne]

theorem char_of_isDigit {c : Char} (h : c.isDigit) : 48 ≤ c.toNat ∧ c.toNat ≤ 57 := by
  simp only [Char.isDigit, Bool.and_eq_true, decide_eq_true_eq, UInt32.le_iff_toNat_le,
    ge_iff_le] at h
  exact h

theorem decimal_digit {n : Nat} {b : UInt8} (h : b ∈ decimal n) : 48 ≤ b ∧ b ≤ 57 := by
  obtain ⟨c, hc, rfl⟩ := List.mem_map.mp h
  have hd := char_of_isDigit (Nat.isDigit_of_mem_toDigits (by omega) (by omega) hc)
  have hm : c.toNat % 256 = c.toNat := by omega
  constructor <;> simp only [UInt8.le_iff_toNat_le, UInt8.toNat_ofNat', hm] <;> simp <;> omega

theorem decimal_ne_nil (n : Nat) : decimal n ≠ [] := by
  simp [decimal, Nat.toDigits_ne_nil]

theorem length_decimal_le {n : Nat} (h : n < 2 ^ 64) : (decimal n).length ≤ 20 := by
  rw [decimal, List.length_map, Nat.length_toDigits_le_iff (by omega) (by omega)]
  exact Nat.lt_trans h (by omega)

theorem foldl_digits (cs : List Char) (h : ∀ c ∈ cs, c.isDigit) (acc : Nat) :
    (cs.map fun c => UInt8.ofNat c.toNat).foldl (fun acc c => 10 * acc + (c.toNat - 48)) acc =
      Nat.ofDigitChars 10 cs acc := by
  induction cs generalizing acc with
  | nil => rfl
  | cons c cs ih =>
    have hd := char_of_isDigit (h c List.mem_cons_self)
    have hm : (UInt8.ofNat c.toNat).toNat = c.toNat := by
      simp only [UInt8.toNat_ofNat']
      omega
    rw [List.map_cons, List.foldl_cons, hm, ih (fun d hd => h d (List.mem_cons_of_mem _ hd)),
      Nat.ofDigitChars_cons]
    rfl

@[simp] theorem parseU64_decimal (n : UInt64) : parseU64 (decimal n.toNat) = some n := by
  have hdigits : ∀ c ∈ Nat.toDigits 10 n.toNat, c.isDigit := fun c hc =>
    Nat.isDigit_of_mem_toDigits (by omega) (by omega) hc
  have hval : (decimal n.toNat).foldl (fun acc c => 10 * acc + (c.toNat - 48)) 0 = n.toNat := by
    rw [decimal, foldl_digits _ hdigits, Nat.ofDigitChars_toDigits (by omega) (by omega)]
  have hplus : stripPlus (decimal n.toNat) = decimal n.toNat := by
    cases hs : decimal n.toNat with
    | nil => rfl
    | cons c cs =>
      have hc := (decimal_digit (n := n.toNat) (b := c) (by simp [hs])).1
      have hne : c ≠ 43 := by
        rintro rfl
        exact absurd hc (by decide)
      rw [stripPlus, if_neg hne]
  have hall : (decimal n.toNat).all fun c => 48 ≤ c ∧ c ≤ 57 := by
    rw [List.all_eq_true]
    intro c hc
    exact decide_eq_true (decimal_digit hc)
  unfold parseU64
  simp only [hplus, hval]
  rw [if_pos ⟨decimal_ne_nil _, hall⟩, if_pos n.toNat_lt]
  simp

/-! ### MessagePack strings -/

/-- The `rmp` writer of a string: the shortest header that holds the length. -/
def msgpackStr (s : Bytes) : Bytes :=
  if s.length < 32 then (0xa0 + UInt8.ofNat s.length) :: s
  else if s.length < 256 then 0xd9 :: UInt8.ofNat s.length :: s
  else if s.length < 65536 then 0xda :: (bigEndian 2 s.length ++ s)
  else 0xdb :: (bigEndian 4 s.length ++ s)

/-- The reader of a string with a one-byte length or a shorter header. -/
def readMsgpackStr : Bytes → Option Bytes
  | [] => none
  | tag :: rest =>
    if 0xa0 ≤ tag ∧ tag < 0xc0 then
      let n := tag.toNat - 0xa0
      if n ≤ rest.length then some (rest.take n) else none
    else if tag = 0xd9 then
      match rest with
      | [] => none
      | n :: body => if n.toNat ≤ body.length then some (body.take n.toNat) else none
    else none

theorem msgpackStr_of_length {s : Bytes} (h : 32 ≤ s.length) (h' : s.length < 256) :
    msgpackStr s = 0xd9 :: UInt8.ofNat s.length :: s := by
  rw [msgpackStr, if_neg (by omega), if_pos h']

theorem readMsgpackStr_msgpackStr {s : Bytes} (h : 32 ≤ s.length) (h' : s.length < 256) :
    readMsgpackStr (msgpackStr s) = some s := by
  have hn : s.length % 256 = s.length := Nat.mod_eq_of_lt h'
  rw [msgpackStr_of_length h h']
  simp [readMsgpackStr, hn]

/-! ### Text and its bytes

Which bytes are a text, and which places in the bytes lie between two characters. -/

section

/-- The bytes of a text in UTF-8. -/
def utf8Bytes (s : String) : Bytes := s.toByteArray.data.toList

/-- The text with these bytes, if they are valid UTF-8. -/
def fromUtf8 (bs : Bytes) : Option String := String.fromUTF8? ⟨bs.toArray⟩

/-- The text of ASCII characters. -/
def asciiText (bs : Bytes) : String := String.ofList (bs.map fun b => Char.ofNat b.toNat)

/-- Rust's `is_char_boundary`: the start, the end, or a byte that does not continue a character. -/
def isCharBoundary (s : Bytes) (index : Nat) : Prop :=
  index = 0 ∨ index = s.length ∨ ∃ b, s[index]? = some b ∧ (b < 128 ∨ 192 ≤ b)

instance (s : Bytes) (index : Nat) : Decidable (isCharBoundary s index) :=
  decidable_of_iff (index = 0 ∨ index = s.length ∨ (s[index]?.any fun b => b < 128 ∨ 192 ≤ b)) (by
    simp only [isCharBoundary, Option.any_eq_true, decide_eq_true_eq])

variable {bs : Bytes} {s : String}

theorem fromUtf8_eq_some : fromUtf8 bs = some s ↔ utf8Bytes s = bs := by
  constructor
  · intro h
    rw [fromUtf8, String.fromUTF8?] at h
    split at h
    · cases h
      rfl
    · cases h
  · rintro rfl
    rw [fromUtf8, String.fromUTF8?]
    have hvalid : ByteArray.IsValidUTF8 ⟨(utf8Bytes s).toArray⟩ := s.isValidUTF8
    rw [dif_pos hvalid]
    rfl

@[simp] theorem fromUtf8_utf8Bytes (s : String) : fromUtf8 (utf8Bytes s) = some s :=
  fromUtf8_eq_some.mpr rfl

/-! ### ASCII -/

theorem utf8EncodeChar_ascii {b : UInt8} (h : b < 128) :
    String.utf8EncodeChar (Char.ofNat b.toNat) = [b] := by
  have hall : ∀ b : UInt8, b < 128 → String.utf8EncodeChar (Char.ofNat b.toNat) = [b] :=
    forall_byte (by decide +kernel)
  exact hall b h

theorem utf8Bytes_asciiText (h : ∀ b ∈ bs, b < 128) : utf8Bytes (asciiText bs) = bs := by
  have hencode : (bs.map fun b => Char.ofNat b.toNat).flatMap String.utf8EncodeChar = bs := by
    induction bs with
    | nil => rfl
    | cons b bs ih =>
      have hb := utf8EncodeChar_ascii (h b List.mem_cons_self)
      rw [List.map_cons, List.flatMap_cons, hb, ih fun c hc => h c (List.mem_cons_of_mem b hc)]
      rfl
  rw [utf8Bytes, asciiText]
  show (List.utf8Encode _).data.toList = bs
  rw [List.utf8Encode, List.data_toByteArray, hencode]

theorem fromUtf8_of_ascii (h : ∀ b ∈ bs, b < 128) : fromUtf8 bs = some (asciiText bs) :=
  fromUtf8_eq_some.mpr (utf8Bytes_asciiText h)

theorem lt_of_isHexadecimal {c : UInt8} (h : IsHexadecimal c) : c < 128 := by
  have hall : ∀ c : UInt8, IsHexadecimal c → c < 128 := forall_byte (by decide +kernel)
  exact hall c h

/-- The text of bytes in hexadecimal. -/
def hexText (bs : Bytes) : String := asciiText (hexEncode bs)

@[simp] theorem utf8Bytes_hexText (bs : Bytes) : utf8Bytes (hexText bs) = hexEncode bs := by
  apply utf8Bytes_asciiText
  intro c hc
  exact lt_of_isHexadecimal (.inl (isHexDigit_of_mem_hexEncode hc))

end

end Lib
