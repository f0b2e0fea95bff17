import UtxoMonitor.Lib.Table

/-! Values that are written as bytes and read back, and strings that come before other bytes. -/
namespace Lib

/-- Values that are read back from the bytes they are written as. -/
class Serial (A : Type) where
  serialize : A → Bytes
  deserialize : Bytes → Option A
  deserialize_serialize : ∀ a, deserialize (serialize a) = some a

export Serial (serialize deserialize deserialize_serialize)

attribute [simp] deserialize_serialize

section

variable {A : Type} [Serial A]

theorem serialize_injective : Function.Injective (serialize : A → Bytes) := by
  intro a b h
  have hread := congrArg (deserialize (A := A)) h
  simpa using hread

/-- What was written is read back. -/
theorem bind_deserialize_map (a : Option A) : (a.map serialize).bind deserialize = a := by
  cases a with
  | none => rfl
  | some a => exact deserialize_serialize a

end

/-- A string comes after its length in eight bytes, the least of them first. -/
def serializeStr (s : Bytes) : Bytes := (bigEndian 8 s.length).reverse ++ s

theorem serializeStr_append_inj {s s' rest rest' : Bytes} (hs : s.length < 256 ^ 8)
    (hs' : s'.length < 256 ^ 8) :
    serializeStr s ++ rest = serializeStr s' ++ rest' ↔ s = s' ∧ rest = rest' := by
  constructor
  · intro h
    simp only [serializeStr, List.append_assoc] at h
    obtain ⟨hlength, htail⟩ := List.append_inj h (by simp)
    have heq := (bigEndian_inj hs hs').mp (List.reverse_injective hlength)
    exact List.append_inj htail heq
  · rintro ⟨rfl, rfl⟩
    rfl

end Lib
