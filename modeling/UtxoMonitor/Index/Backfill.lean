import UtxoMonitor.Index.Events
import UtxoMonitor.Index.UnitScan

/-! The unit query on databases of which the unit table was not written from the start. -/
namespace UtxoMonitor

open Lib

/-- A row of the unit table that its records call for, or a marker. -/
def UnitRow (db : RocksDB) (key : Bytes) : Prop :=
  IsSentinelKey key ∨ ∃ u o, key = unitIndexEntryKey u o ∧ HasUnit db u o

/-- A database as an upgrade finds it: any records, some of the unit entries that they call for,
and any markers. -/
structure Upgraded where
  db : RocksDB
  keys : OutputKeyed db
  units : ∀ key ∈ db .unitUnspent, UnitRow db key

def fullScanRow (db : RocksDB) (unit key : Bytes) : Option Txo := do
  let r ← readTxo db key
  let oref ← readUtxoKey key
  if !r.spent && outputContainsUnit r.output unit then some (.ofRecord oref r) else none

/-- The answer of a scan over all records. -/
def fullScan (db : RocksDB) (unit : Bytes) : List Txo :=
  ((db .txo).toList.map Prod.fst).filterMap (fullScanRow db unit)

/-- The row lets the query for `unit` return without a backfill. -/
def Blocks (unit key : Bytes) : Prop :=
  unitIndexKeyPrefix (toAsciiLowercase unit) <+: key ∧
    isSentinelRow (toAsciiLowercase unit) key = false

/-- No row stops the backfill of the unit, or nothing is missing from its entries. -/
def Covered (db : RocksDB) (unit : Bytes) : Prop :=
  (∀ key ∈ db .unitUnspent, ¬ Blocks unit key) ∨
    ∀ o, HasUnit db (toAsciiLowercase unit) o →
      unitIndexEntryKey (toAsciiLowercase unit) o ∈ db .unitUnspent

/-! ### The full scan -/

section FullScan

variable {db : RocksDB} (hk : OutputKeyed db)

include hk

theorem OutputKeyed.fullScan_row {unit key : Bytes} {txo : Txo} :
    fullScanRow db unit key = some txo ↔ key = utxoKey txo.oref ∧ ∃ r,
      storedTxo db txo.oref = some r ∧ r.spent = false ∧
      toAsciiLowercase unit ∈ outputUnits r.output ∧ txo = .ofRecord txo.oref r := by
  simp only [fullScanRow, Option.bind_eq_bind, Option.bind_eq_some_iff, Option.ite_none_right_eq_some,
    Bool.and_eq_true, Bool.not_eq_true', outputContainsUnit_iff, Option.some.injEq]
  constructor
  · rintro ⟨r, hr, oref, ho, ⟨hsp, hu⟩, rfl⟩
    obtain ⟨o, rfl⟩ := hk _ _ hr
    rw [readUtxoKey_utxoKey, Option.some.injEq] at ho
    subst ho
    exact ⟨rfl, r, hr, hsp, hu, rfl⟩
  · rintro ⟨rfl, r, hr, hsp, hu, heq⟩
    exact ⟨r, hr, txo.oref, readUtxoKey_utxoKey _, ⟨hsp, hu⟩, heq.symm⟩

theorem OutputKeyed.mem_fullScan {unit : Bytes} {txo : Txo} :
    txo ∈ fullScan db unit ↔ ∃ r, storedTxo db txo.oref = some r ∧ r.spent = false ∧
      toAsciiLowercase unit ∈ outputUnits r.output ∧ txo = .ofRecord txo.oref r := by
  simp only [fullScan, List.mem_filterMap, hk.fullScan_row]
  constructor
  · rintro ⟨key, -, -, hr⟩
    exact hr
  · rintro ⟨r, hr, hu⟩
    have hget := Option.join_eq_some_iff.mp (show readTxo db (utxoKey txo.oref) = some r from hr)
    refine ⟨_, List.mem_map.mpr ⟨(utxoKey txo.oref, some r), ?_, rfl⟩, rfl, r, hr, hu⟩
    exact Std.ExtTreeMap.mem_toList_iff_getElem?_eq_some.mpr hget

theorem OutputKeyed.keyOrder_fullScan (unit : Bytes) : KeyOrder (fullScan db unit) := by
  apply keyOrder_filterMap (p := []) Std.ExtTreeMap.ordered_keys_toList
  intro row _ txo hm
  exact (hk.fullScan_row.mp hm).1

/-- The full scan finds an output under every reference that has the unit, and no other. -/
theorem OutputKeyed.hasUnit_iff {unit : Bytes} {o : OutputRef} :
    HasUnit db (toAsciiLowercase unit) o ↔ ∃ txo ∈ fullScan db unit, txo.oref = o := by
  constructor
  · rintro ⟨r, hr, hsp, hu⟩
    exact ⟨.ofRecord o r, hk.mem_fullScan.mpr ⟨r, hr, hsp, hu, rfl⟩, rfl⟩
  · rintro ⟨txo, hm, rfl⟩
    obtain ⟨r, hr, hsp, hu, -⟩ := hk.mem_fullScan.mp hm
    exact ⟨r, hr, hsp, hu⟩

end FullScan

/-! ### The query -/

variable {db : RocksDB}

theorem ensureUnitIndex_of_blocked {unit : Bytes} (h : ∃ key ∈ db .unitUnspent, Blocks unit key) :
    ensureUnitIndex db (toAsciiLowercase unit) = db := by
  obtain ⟨key, hkey, ⟨rest, rfl⟩, hrow⟩ := h
  obtain ⟨row, hmem, heq⟩ := List.mem_map.mp (mem_unitRows.mpr ⟨hkey, rest, rfl⟩)
  simp only [ensureUnitIndex]
  rw [if_pos]
  apply List.any_eq_true.mpr
  refine ⟨row, hmem, ?_⟩
  rw [← heq] at hrow
  simpa [unitIndexKeyPrefix] using hrow

theorem ensureUnitIndex_of_free {unit : Bytes} (h : ∀ key ∈ db .unitUnspent, ¬ Blocks unit key) :
    ensureUnitIndex db (toAsciiLowercase unit) =
      (backfill (toAsciiLowercase unit) (backfillRows db (toAsciiLowercase unit))).run db := by
  simp only [ensureUnitIndex]
  rw [if_neg]
  intro hany
  obtain ⟨row, hmem, hrow⟩ := List.any_eq_true.mp hany
  obtain ⟨hkey, rest, heq⟩ := mem_unitRows.mp (List.mem_map.mpr ⟨row, hmem, rfl⟩)
  apply h row.1 hkey
  exact ⟨⟨rest, heq.symm⟩, by simpa [unitIndexKeyPrefix] using hrow⟩

theorem OutputKeyed.ensureUnitIndex (hk : OutputKeyed db) (p : Bytes) :
    OutputKeyed (ensureUnitIndex db p) := by
  simp only [UtxoMonitor.ensureUnitIndex]
  split
  · exact hk
  · intro key r h
    rw [readTxo, backfill_other _ _ _ .txo (by simp)] at h
    exact hk key r h

theorem storedTxo_ensureUnitIndex (db : RocksDB) (p : Bytes) (o : OutputRef) :
    storedTxo (ensureUnitIndex db p) o = storedTxo db o := by
  simp only [ensureUnitIndex]
  split
  · rfl
  · rw [storedTxo, cellOf, backfill_other _ _ _ .txo (by simp)]
    rfl

/-- The entries of a unit after the backfill. -/
theorem mem_ensureUnitIndex (hk : OutputKeyed db) {unit : Bytes}
    (h : ∀ key ∈ db .unitUnspent, ¬ Blocks unit key) (o : OutputRef) :
    unitIndexEntryKey (toAsciiLowercase unit) o ∈
        ensureUnitIndex db (toAsciiLowercase unit) .unitUnspent ↔
      HasUnit db (toAsciiLowercase unit) o ∨
        unitIndexEntryKey (toAsciiLowercase unit) o ∈ db .unitUnspent := by
  have hrows := @mem_backfillRows db hk _ (utxoKey o) (toAsciiLowercase_idem unit)
  rw [ensureUnitIndex_of_free h, mem_backfill _ _ _ (not_isSentinelKey_entry _ o)]
  simp only [unitIndexEntryKey, List.append_cancel_left_eq, hrows, utxoKey_inj]
  simp

namespace Upgraded

variable (old : Upgraded) (unit : Bytes)

/-- The entries of a unit are outputs that have it. -/
theorem hasUnit_of_entry {u : Bytes} {o : OutputRef}
    (h : unitIndexEntryKey u o ∈ old.db .unitUnspent) : HasUnit old.db u o := by
  rcases old.units _ h with hs | ⟨u', o', heq, hu⟩
  · exact absurd hs (not_isSentinelKey_entry u o)
  · obtain ⟨rfl, rfl⟩ := unitIndexEntryKey_inj.mp heq
    exact hu

/-- A scan of the unit after the backfill, as far as the entries say. -/
theorem mem_unitMatches_ensured {txo : Txo} :
    txo ∈ unitMatches (ensureUnitIndex old.db (toAsciiLowercase unit)) (toAsciiLowercase unit) ↔
      unitIndexEntryKey (toAsciiLowercase unit) txo.oref ∈
          ensureUnitIndex old.db (toAsciiLowercase unit) .unitUnspent ∧
        txo ∈ fullScan old.db unit := by
  rw [(old.keys.ensureUnitIndex _).mem_unitMatches, old.keys.mem_fullScan,
    storedTxo_ensureUnitIndex]
  have hentry : unitIndexEntryKey (toAsciiLowercase unit) txo.oref ∈
      ensureUnitIndex old.db (toAsciiLowercase unit) .unitUnspent →
      HasUnit old.db (toAsciiLowercase unit) txo.oref := by
    intro hm
    by_cases hb : ∃ key ∈ old.db .unitUnspent, Blocks unit key
    · rw [ensureUnitIndex_of_blocked hb] at hm
      exact old.hasUnit_of_entry hm
    · rw [mem_ensureUnitIndex old.keys fun key hkey hbl => hb ⟨key, hkey, hbl⟩] at hm
      exact hm.elim id old.hasUnit_of_entry
  constructor
  · rintro ⟨hm, r, hr, hsp, heq⟩
    obtain ⟨r', hr', -, hu⟩ := hentry hm
    obtain rfl : r = r' := Option.some.inj (hr.symm.trans hr')
    exact ⟨hm, r, hr, hsp, hu, heq⟩
  · rintro ⟨hm, r, hr, hsp, -, heq⟩
    exact ⟨hm, r, hr, hsp, heq⟩

theorem query_eq (offset : Nat) {limit : Nat} (hl : 0 < limit) :
    (getUtxos old.db none (.unspentByUnit unit) offset limit).2 =
      some (((unitMatches (ensureUnitIndex old.db (toAsciiLowercase unit))
        (toAsciiLowercase unit)).drop offset).take limit) := by
  have hprep : prepareQuery old.db none (.unspentByUnit unit) limit =
      ensureUnitIndex old.db (toAsciiLowercase unit) := by
    rw [prepareQuery, if_neg (Nat.pos_iff_ne_zero.mp hl)]
  rw [getUtxos_snd _ _ _ _ hl, hprep, (old.keys.ensureUnitIndex _).query_byUnit unit offset hl]

/-- The query equals the full scan exactly when every output with the unit has its entry once the
call has looked at the unit. -/
theorem unitMatches_eq_fullScan_iff :
    unitMatches (ensureUnitIndex old.db (toAsciiLowercase unit)) (toAsciiLowercase unit) =
        fullScan old.db unit ↔ Covered old.db unit := by
  have hmem := fun txo => @mem_unitMatches_ensured old unit txo
  constructor
  · intro heq
    by_cases hb : ∃ key ∈ old.db .unitUnspent, Blocks unit key
    · refine .inr ?_
      intro o ho
      obtain ⟨txo, hm, rfl⟩ := old.keys.hasUnit_iff.mp ho
      have hentry := ((hmem txo).mp (by rwa [heq])).1
      rwa [ensureUnitIndex_of_blocked hb] at hentry
    · exact .inl fun key hkey hbl => hb ⟨key, hkey, hbl⟩
  · intro hc
    apply ((old.keys.ensureUnitIndex _).keyOrder_unitMatches _).unique
      (old.keys.keyOrder_fullScan unit)
    intro txo
    rw [hmem]
    apply and_iff_right_of_imp
    intro hm
    have hu := old.keys.hasUnit_iff.mpr ⟨txo, hm, rfl⟩
    by_cases hb : ∃ key ∈ old.db .unitUnspent, Blocks unit key
    · rw [ensureUnitIndex_of_blocked hb]
      obtain ⟨key, hkey, hbl⟩ := hb
      rcases hc with hfree | hall
      · exact absurd hbl (hfree key hkey)
      · exact hall _ hu
    · rw [mem_ensureUnitIndex old.keys fun key hkey hbl => hb ⟨key, hkey, hbl⟩]
      exact .inl hu

end Upgraded

/-- After an upgrade a query for a unit equals the full scan precisely when no row stops its
backfill, or no entry of the unit is missing. -/
theorem upgraded_byUnit_iff (old : Upgraded) (unit : Bytes) :
    (∀ limit, (fullScan old.db unit).length ≤ limit →
      (getUtxos old.db none (.unspentByUnit unit) 0 limit).2 = some (fullScan old.db unit)) ↔
    Covered old.db unit := by
  rw [← old.unitMatches_eq_fullScan_iff unit]
  constructor
  · intro h
    have hlong := h (max ((fullScan old.db unit).length + 1) (unitMatches (ensureUnitIndex old.db
      (toAsciiLowercase unit)) (toAsciiLowercase unit)).length) (by omega)
    rw [old.query_eq unit 0 (by omega), List.drop_zero, List.take_of_length_le (by omega)] at hlong
    exact Option.some.inj hlong
  · intro heq limit hl
    rcases Nat.eq_zero_or_pos limit with rfl | hpos
    · simp [getUtxos, List.eq_nil_of_length_eq_zero (Nat.le_zero.mp hl)]
    · rw [old.query_eq unit 0 hpos, heq, List.drop_zero, List.take_of_length_le hl]

/-! ### Databases from before the unit table -/

/-- The unit entries of a cell are units of an unspent record. -/
def Cell.UnitsCorrect (x : Cell) : Prop :=
  ∀ u, x.units u → ∃ r, x.txo = some r ∧ r.spent = false ∧ u ∈ outputUnits r.output

theorem Cell.UnitsCorrect.update {x : Cell} (h : x.UnitsCorrect) (u : Update) :
    (u.cell x.txo x).UnitsCorrect := by
  have hremoved : ∀ v, ¬ (x.removeFound x.txo).units v := by
    intro v hv
    cases hx : x.txo with
    | none =>
      simp only [hx, Cell.removeFound] at hv
      obtain ⟨r, hr, -⟩ := h v hv
      simp [hx] at hr
    | some r =>
      simp only [hx, Cell.removeFound, Cell.remove] at hv
      obtain ⟨r', hr, -, hm⟩ := h v hv.1
      obtain rfl : r = r' := by simpa [hx] using hr
      exact hv.2 hm
  intro v hv
  unfold Update.cell at hv ⊢
  cases hr : u.record x.txo with
  | none =>
    rw [hr] at hv
    exact absurd hv (hremoved v)
  | some r =>
    rw [hr] at hv
    exact ⟨r, rfl, hv.resolve_left (hremoved v)⟩

theorem Cell.UnitsCorrect.steps {x : Cell} (h : x.UnitsCorrect) (us : List Update) :
    (x.steps us).UnitsCorrect := by
  induction us generalizing x with
  | nil => exact h
  | cons u us ih => exact ih (h.update u)

/-- What a run keeps of a database whose unit table is incomplete. -/
structure UnitsPartial (db : RocksDB) : Prop where
  shaped : Shaped db
  correct : ∀ o, (cellOf db o).UnitsCorrect

theorem UnitsPartial.runUpdates {db : RocksDB} (h : UnitsPartial db)
    (us : List (OutputRef × Update)) : UnitsPartial (runUpdates us db) where
  shaped := h.shaped.runUpdates us
  correct o := by
    rw [cellOf_runUpdates]
    exact (h.correct o).steps _

theorem UnitsPartial.ensureUnitIndex {db : RocksDB} (h : UnitsPartial db) (unit : Bytes) :
    UnitsPartial (ensureUnitIndex db (toAsciiLowercase unit)) where
  shaped := h.shaped.ensureUnitIndex (toAsciiLowercase_idem unit)
  correct o := by
    intro u hu
    rw [show (cellOf (UtxoMonitor.ensureUnitIndex db (toAsciiLowercase unit)) o).txo =
      (cellOf db o).txo from storedTxo_ensureUnitIndex db _ o]
    by_cases hb : ∃ key ∈ db .unitUnspent, Blocks unit key
    · rw [ensureUnitIndex_of_blocked hb] at hu
      exact h.correct o u hu
    · rw [ensureUnitIndex_of_free fun key hkey hbl => hb ⟨key, hkey, hbl⟩] at hu
      rcases (mem_backfill _ _ _ (not_isSentinelKey_entry u o)).mp hu with ⟨row, hrow, heq⟩ | hu
      · obtain ⟨o', ho, hunit⟩ := (mem_backfillRows h.shaped.outputKeyed
          (toAsciiLowercase_idem unit)).mp ⟨row, hrow, rfl⟩
        rw [ho] at heq
        obtain ⟨rfl, rfl⟩ := unitIndexEntryKey_inj.mp
          (show _ = unitIndexEntryKey (toAsciiLowercase unit) o' from heq)
        exact hunit
      · exact h.correct o u hu

theorem UnitsPartial.call {db : RocksDB} (h : UnitsPartial db) (call : Call) :
    UnitsPartial (call.run db) := by
  cases call with
  | apply txHash inputs outputs settledAt =>
    rw [Call.run, run_apply]
    exact h.runUpdates _
  | unapply txHash inputs outputs =>
    rw [Call.run, run_unapply]
    exact h.runUpdates _
  | getUtxos scope query offset limit =>
    rw [Call.run, getUtxos_fst]
    unfold prepareQuery
    split
    · exact h
    · split
      · exact h.ensureUnitIndex _
      · exact h

theorem UnitsPartial.calls {db : RocksDB} (h : UnitsPartial db) (calls : List Call) :
    UnitsPartial (calls.foldl Call.run db) := by
  induction calls generalizing db with
  | nil => exact h
  | cons call calls ih => exact ih (h.call call)

/-- The database of a run, as a version without the unit table would have left it. -/
def withoutUnits (db : RocksDB) : RocksDB := Function.update db .unitUnspent ∅

theorem UnitsPartial.withoutUnits {db : RocksDB} (hs : Shaped db) :
    UnitsPartial (withoutUnits db) where
  shaped := by
    intro cf key v h
    by_cases hcf : cf = .unitUnspent
    · subst hcf
      simp [UtxoMonitor.withoutUnits] at h
    · rw [UtxoMonitor.withoutUnits, Function.update_of_ne hcf] at h
      exact hs cf key v h
  correct o := by
    intro u hu
    simp [cellOf, UtxoMonitor.withoutUnits] at hu

/-- A run before the upgrade and a run after it. -/
def upgradedRun (before after : List Call) : Upgraded where
  db := after.foldl Call.run (withoutUnits (runCalls before))
  keys := ((UnitsPartial.withoutUnits (consistent_runCalls before).shaped).calls
    after).shaped.outputKeyed
  units := by
    intro key hkey
    have h := (UnitsPartial.withoutUnits (consistent_runCalls before).shaped).calls after
    by_cases hs : IsSentinelKey key
    · exact .inl hs
    · obtain ⟨u, o, rfl⟩ := h.shaped.unit_key hkey hs
      exact .inr ⟨u, o, rfl, h.correct o u hkey⟩

/-- A transaction with one output that holds one token of the policy of `txMint`s. -/
def txMint (n : UInt8) : TxViewMut where
  hash := .replicate n
  inputs := []
  outputs := [(0, .conwayFormatTxOut (.enterprise (.pubKey (.replicate 7)))
    ⟨1, [(.replicate 5, [(⟨[1], by decide⟩, 1)])]⟩ none none)]

def mintedUnit : Bytes := hexEncode (List.replicate 28 5 ++ [1])

/-- An output stored before the upgrade is not found once a later one has the same unit. -/
theorem upgraded_byUnit_misses :
    (getUtxos (upgradedRun [(txMint 1).applyCall (some 1)] [(txMint 2).applyCall (some 2)]).db none
        (.unspentByUnit mintedUnit) 0 10).2.map (fun txos => txos.map Txo.oref) =
      some [⟨(txMint 2).hash, 0⟩] ∧
    (fullScan (upgradedRun [(txMint 1).applyCall (some 1)] [(txMint 2).applyCall (some 2)]).db
        mintedUnit).map Txo.oref = [⟨(txMint 1).hash, 0⟩, ⟨(txMint 2).hash, 0⟩] := by
  decide +kernel

end UtxoMonitor
