import Mathlib.Algebra.Group.Nat.Defs
import Mathlib.Data.List.Basic
import Mathlib.Data.List.Nodup

/-! Ordered tables keyed by strings of symbols, as a sorted key-value store keeps them, and the
prefix scans that walk such a table in key order. -/
namespace Lib

open Std

abbrev Bytes := List UInt8

abbrev Table (α V : Type) [Ord α] := ExtTreeMap (List α) V compare

section Order

variable {α : Type} [Ord α]

theorem compare_append_left [ReflOrd α] (p a b : List α) :
    compare (p ++ a) (p ++ b) = compare a b := by
  induction p with
  | nil => rfl
  | cons x p ih =>
    rw [List.cons_append, List.cons_append, List.compare_cons_cons, ReflOrd.compare_self, ih]
    rfl

theorem compare_nil_isLE (b : List α) : (compare [] b).isLE = true := by
  cases b <;> rfl

end Order

namespace Table

variable {α V : Type} [Ord α] [TransOrd α] [LawfulEqOrd α] [DecidableEq α]

theorem getElem?_insert_iff (t : Table α V) (k a : List α) (v : V) :
    (t.insert k v)[a]? = if k = a then some v else t[a]? := by
  rw [ExtTreeMap.getElem?_insert]
  by_cases h : k = a <;> simp [h]

theorem getElem?_erase_iff (t : Table α V) (k a : List α) :
    (t.erase k)[a]? = if k = a then none else t[a]? := by
  rw [ExtTreeMap.getElem?_erase]
  by_cases h : k = a <;> simp [h]

/-- The rows whose key starts with `pre`, from `pre ++ lower` on, in key order. -/
def range (t : Table α V) (pre lower : List α) : List (List α × V) :=
  t.toList.filter fun row => pre.isPrefixOf row.1 && (compare (pre ++ lower) row.1).isLE

theorem mem_range {t : Table α V} {pre lower k : List α} {v : V} :
    (k, v) ∈ t.range pre lower ↔
      t[k]? = some v ∧ ∃ rest, k = pre ++ rest ∧ (compare lower rest).isLE = true := by
  simp only [range, List.mem_filter, ExtTreeMap.mem_toList_iff_getElem?_eq_some,
    Bool.and_eq_true, List.isPrefixOf_iff_prefix]
  constructor
  · rintro ⟨hk, ⟨rest, rfl⟩, hle⟩
    exact ⟨hk, rest, rfl, by rwa [compare_append_left] at hle⟩
  · rintro ⟨hk, rest, rfl, hle⟩
    exact ⟨hk, List.prefix_append _ _, by rwa [compare_append_left]⟩

omit [LawfulEqOrd α] in
theorem range_sorted (t : Table α V) (pre lower : List α) :
    (t.range pre lower).Pairwise fun a b => compare a.1 b.1 = .lt :=
  ExtTreeMap.ordered_keys_toList.filter _

omit [LawfulEqOrd α] in
theorem range_keys_nodup (t : Table α V) (pre lower : List α) :
    ((t.range pre lower).map Prod.fst).Nodup := by
  rw [List.Nodup, List.pairwise_map]
  apply (range_sorted t pre lower).imp
  intro a b hab heq
  rw [heq, ReflOrd.compare_self] at hab
  cases hab

omit [DecidableEq α] [LawfulEqOrd α] in
/-- A list sorted by its keys is determined by what it holds. -/
theorem eq_of_sorted {X : Type} {f : X → List α} {xs ys : List X}
    (hx : xs.Pairwise fun a b => compare (f a) (f b) = .lt)
    (hy : ys.Pairwise fun a b => compare (f a) (f b) = .lt) (h : ∀ x, x ∈ xs ↔ x ∈ ys) :
    xs = ys := by
  have hirr : ∀ a b, compare (f a) (f b) = .lt → a ≠ b := by
    rintro a b hab rfl
    rw [ReflOrd.compare_self] at hab
    cases hab
  have hperm : xs.Perm ys :=
    (List.perm_ext_iff_of_nodup (hx.imp fun {a b} => hirr a b) (hy.imp fun {a b} => hirr a b)).mpr h
  apply hperm.eq_of_pairwise ?_ hx hy
  intro a b _ _ hab hba
  have := OrientedCmp.gt_of_lt hab
  rw [hba] at this
  cases this

omit [DecidableEq α] in
theorem size_pos_of_mem {t : Table α V} {k : List α} (h : k ∈ t) : 0 < t.size := by
  obtain ⟨v, hv⟩ := Option.isSome_iff_exists.mp (ExtTreeMap.mem_iff_isSome_getElem?.mp h)
  rw [← ExtTreeMap.length_toList]
  exact List.length_pos_of_mem (ExtTreeMap.mem_toList_iff_getElem?_eq_some.mpr hv)

end Table

/-- `w` big-endian bytes of `n`. -/
def bigEndian : Nat → Nat → Bytes
  | 0, _ => []
  | w + 1, n => UInt8.ofNat (n / 256 ^ w) :: bigEndian w (n % 256 ^ w)

@[simp] theorem length_bigEndian (w n : Nat) : (bigEndian w n).length = w := by
  induction w generalizing n with
  | zero => rfl
  | succ w ih => simp [bigEndian, ih]

theorem compare_div_then_compare_mod {a b p : Nat} (hp : 0 < p) :
    (compare (a / p) (b / p)).then (compare (a % p) (b % p)) = compare a b := by
  have ha := Nat.div_add_mod a p
  have hb := Nat.div_add_mod b p
  have hra := Nat.mod_lt a hp
  have hrb := Nat.mod_lt b hp
  rcases Nat.lt_trichotomy (a / p) (b / p) with h | h | h
  · have hab : a < b := by
      by_contra hn
      exact absurd (Nat.div_le_div_right (c := p) (Nat.not_lt.mp hn)) (Nat.not_le.mpr h)
    rw [Nat.compare_eq_lt.mpr h, Nat.compare_eq_lt.mpr hab]
    rfl
  · rw [h, Nat.compare_eq_eq.mpr rfl, Ordering.eq_then]
    rw [h] at ha
    rcases Nat.lt_trichotomy (a % p) (b % p) with hm | hm | hm
    · rw [Nat.compare_eq_lt.mpr hm, Nat.compare_eq_lt.mpr (by omega)]
    · rw [Nat.compare_eq_eq.mpr hm, Nat.compare_eq_eq.mpr (by omega)]
    · rw [Nat.compare_eq_gt.mpr hm, Nat.compare_eq_gt.mpr (by omega)]
  · have hba : b < a := by
      by_contra hn
      exact absurd (Nat.div_le_div_right (c := p) (Nat.not_lt.mp hn)) (Nat.not_le.mpr h)
    rw [Nat.compare_eq_gt.mpr h, Nat.compare_eq_gt.mpr hba]
    rfl

/-- Byte order of equally long big-endian strings is numeric order, whatever follows them. -/
theorem compare_bigEndian_append {w a b : Nat} (ha : a < 256 ^ w) (hb : b < 256 ^ w)
    (xs ys : Bytes) :
    compare (bigEndian w a ++ xs) (bigEndian w b ++ ys) =
      (compare a b).then (compare xs ys) := by
  induction w generalizing a b with
  | zero =>
    have ha : a = 0 := by simpa using ha
    have hb : b = 0 := by simpa using hb
    subst ha hb
    rfl
  | succ w ih =>
    have hp : 0 < 256 ^ w := Nat.pow_pos (by omega)
    have hda : a / 256 ^ w < 256 := Nat.div_lt_of_lt_mul (by rwa [Nat.pow_succ] at ha)
    have hdb : b / 256 ^ w < 256 := Nat.div_lt_of_lt_mul (by rwa [Nat.pow_succ] at hb)
    have hhead : compare (UInt8.ofNat (a / 256 ^ w)) (UInt8.ofNat (b / 256 ^ w)) =
        compare (a / 256 ^ w) (b / 256 ^ w) := by
      rw [UInt8.compare_eq_toNat_compare_toNat]
      simp [Nat.mod_eq_of_lt hda, Nat.mod_eq_of_lt hdb]
    simp only [bigEndian, List.cons_append, List.compare_cons_cons, hhead]
    rw [ih (Nat.mod_lt _ hp) (Nat.mod_lt _ hp), ← Ordering.then_assoc,
      compare_div_then_compare_mod hp]

theorem bigEndian_inj {w a b : Nat} (ha : a < 256 ^ w) (hb : b < 256 ^ w) :
    bigEndian w a = bigEndian w b ↔ a = b := by
  constructor
  · intro h
    have hc := compare_bigEndian_append ha hb [] []
    rw [h, ReflOrd.compare_self] at hc
    have heq : compare a b = .eq := by
      cases hn : compare a b <;> simp_all [Ordering.then]
    exact Nat.compare_eq_eq.mp heq
  · rintro rfl
    rfl

end Lib
