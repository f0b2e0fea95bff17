import UtxoMonitor.ChainSync.Data

/-! The cache of the chain follower: one row for the tip and one row for every cached block. -/
namespace UtxoMonitor

open Lib

structure LinkedBlock where
  blockBytes : Bytes
  prevPoint : Point
deriving DecidableEq

/-- What the bytes of a row decode to. -/
inductive CacheValue where
  | point (p : Point)
  | block (b : LinkedBlock)
deriving DecidableEq

/-- `LedgerCacheRocksDB` -/
abbrev LedgerCache := Table UInt8 CacheValue

/-- The key `a:`. -/
def latestPoint : Bytes := [97, 58]

/-- The prefix `b:`. -/
def pointPrefix : Bytes := [98, 58]

def pointKey (pre : Bytes) (point : Point) : Bytes :=
  let (slot, hash) : Slot × Bytes := match point with
    | .origin => (0, [])
    | .specific slot hash => (slot, hash.toRawBytes)
  pre ++ bigEndian 8 slot.toNat ++ hash

theorem pointKey_injective (pre : Bytes) : Function.Injective (pointKey pre) := by
  intro p q h
  have hlen : ∀ s : Slot, (pre ++ bigEndian 8 s.toNat).length = pre.length + 8 := by simp
  cases p with
  | origin =>
    cases q with
    | origin => rfl
    | specific t k =>
      have := congrArg List.length h
      simp [pointKey] at this
  | specific s g =>
    cases q with
    | origin =>
      have := congrArg List.length h
      simp [pointKey] at this
    | specific t k =>
      obtain ⟨hpre, hhash⟩ := List.append_inj h (by simp)
      have hslot := (bigEndian_inj (slot_lt s) (slot_lt t)).mp (List.append_cancel_left hpre)
      rw [UInt64.toNat_inj.mp hslot, RawBytes.toRawBytes_injective hhash]

theorem latestPoint_ne_pointKey (p : Point) : latestPoint ≠ pointKey pointPrefix p := by
  cases p <;> simp [latestPoint, pointKey, pointPrefix]

namespace LedgerCache

variable (cache : LedgerCache) (p q : Point) (b : LinkedBlock)

def setTip : LedgerCache := cache.insert latestPoint (.point p)

def getTip : Option Point :=
  match cache[latestPoint]? with
  | some (.point p) => some p
  | _ => none

def putBlock : LedgerCache := cache.insert (pointKey pointPrefix p) (.block b)

def getBlock : Option LinkedBlock :=
  match cache[pointKey pointPrefix p]? with
  | some (.block b) => some b
  | _ => none

def delete : LedgerCache := cache.erase (pointKey pointPrefix p)

/-- All rows from the key of a point on that hold a block, in key order. -/
def replay (fromPoint : Point) : List LinkedBlock :=
  (cache.toList.filter fun row => (compare (pointKey pointPrefix fromPoint) row.1).isLE).filterMap
    fun row => match row.2 with
      | .block b => some b
      | .point _ => none

@[simp] theorem getTip_empty : (∅ : LedgerCache).getTip = none := by
  simp [getTip]

@[simp] theorem getBlock_empty : (∅ : LedgerCache).getBlock q = none := by
  simp [getBlock]

@[simp] theorem getTip_setTip : (cache.setTip p).getTip = some p := by
  simp [getTip, setTip]

@[simp] theorem getTip_putBlock : (cache.putBlock p b).getTip = cache.getTip := by
  simp [getTip, putBlock, Table.getElem?_insert_iff, (latestPoint_ne_pointKey p).symm]

@[simp] theorem getTip_delete : (cache.delete p).getTip = cache.getTip := by
  simp [getTip, delete, Table.getElem?_erase_iff, (latestPoint_ne_pointKey p).symm]

@[simp] theorem getBlock_setTip : (cache.setTip p).getBlock q = cache.getBlock q := by
  simp [getBlock, setTip, Table.getElem?_insert_iff, latestPoint_ne_pointKey]

theorem getBlock_putBlock :
    (cache.putBlock p b).getBlock q = if p = q then some b else cache.getBlock q := by
  by_cases h : p = q <;>
    simp [getBlock, putBlock, Table.getElem?_insert_iff, (pointKey_injective pointPrefix).eq_iff, h]

theorem getBlock_delete :
    (cache.delete p).getBlock q = if p = q then none else cache.getBlock q := by
  by_cases h : p = q <;>
    simp [getBlock, delete, Table.getElem?_erase_iff, (pointKey_injective pointPrefix).eq_iff, h]

variable {cache} {p} {b} in
theorem mem_of_getBlock (h : cache.getBlock p = some b) : pointKey pointPrefix p ∈ cache := by
  rw [Std.ExtTreeMap.mem_iff_isSome_getElem?]
  simp only [getBlock] at h
  split at h <;> simp_all

variable {cache} {p} in
theorem mem_of_getTip (h : cache.getTip = some p) : latestPoint ∈ cache := by
  rw [Std.ExtTreeMap.mem_iff_isSome_getElem?]
  simp only [getTip] at h
  split at h <;> simp_all

theorem getTip_eq_none (h : cache.size = 0) : cache.getTip = none := by
  by_contra hne
  obtain ⟨tip, ht⟩ := Option.ne_none_iff_exists'.mp hne
  have hpos := Table.size_pos_of_mem (mem_of_getTip ht)
  omega

/-- Popping a block makes the cache smaller. -/
theorem size_pop {tip : Point} (ht : cache.getTip = some tip) (hb : cache.getBlock p = some b) :
    ((cache.delete p).setTip q).size < cache.size := by
  have hkey := mem_of_getBlock hb
  have htip : latestPoint ∈ cache.delete p := mem_of_getTip ((cache.getTip_delete p).trans ht)
  have hpos : 0 < cache.size := Table.size_pos_of_mem hkey
  rw [setTip, Std.ExtTreeMap.size_insert, if_pos (Std.ExtTreeMap.mem_iff_contains.mp htip), delete,
    Std.ExtTreeMap.size_erase, if_pos (Std.ExtTreeMap.mem_iff_contains.mp hkey)]
  omega

end LedgerCache

end UtxoMonitor
