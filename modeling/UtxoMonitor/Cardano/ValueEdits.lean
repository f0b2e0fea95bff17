import Mathlib.Logic.Function.Basic
import UtxoMonitor.Cardano.AssetNames
import UtxoMonitor.Lib.Nested

/-! Changes of a value in place: what a sequence of additions and subtractions leaves of every asset,
and when it leaves an entry of zero. -/
namespace UtxoMonitor.ValueExtension

open Lib LiquidityBook

abbrev MultiAsset := Nested PolicyId UtxoMonitor.AssetName Nat

/-- ADA, and the names of every policy. -/
structure Value where
  coin : Nat
  multiasset : MultiAsset

namespace Value

def amountOf (self : Value) : AssetClass → Checked (Option Nat)
  | .native => return some self.coin
  | .token ⟨policy, an⟩ => do return self.multiasset.value policy (← an.intoLedger)

/-- What is left of one asset of a bundle. -/
def subFrom (bundle : AList fun _ : UtxoMonitor.AssetName => Nat) (an : UtxoMonitor.AssetName)
    (amt : Nat) : AList fun _ : UtxoMonitor.AssetName => Nat :=
  match bundle.lookup an with
  | some value => if value > amt then bundle.insert an (value - amt) else bundle.erase an
  | none => bundle

def subUnsafe (self : Value) (ac : AssetClass) (amt : Nat) : Checked Value :=
  match ac with
  | .native => do return { self with coin := ← Checked.sub self.coin amt }
  | .token ⟨policy, an⟩ =>
    match self.multiasset.lookup policy with
    | some bundle => do
      let bundle := subFrom bundle (← an.intoLedger) amt
      return { self with multiasset := self.multiasset.putOrDrop policy bundle }
    | none => return self

/-- One asset more of a bundle. -/
def addTo (bundle : AList fun _ : UtxoMonitor.AssetName => Nat) (an : UtxoMonitor.AssetName)
    (amt : Nat) : Checked (AList fun _ : UtxoMonitor.AssetName => Nat) :=
  match bundle.lookup an with
  | some asset => do return bundle.insert an (← Checked.add 64 asset amt)
  | none => return bundle.insert an amt

def addUnsafe (self : Value) (ac : AssetClass) (amt : Nat) : Checked Value :=
  match ac with
  | .native => do return { self with coin := ← Checked.add 64 self.coin amt }
  | .token ⟨policy, an⟩ => do
    let an ← an.intoLedger
    let bundle ← match self.multiasset.lookup policy with
      | some bundle => addTo bundle an amt
      | none => pure ((∅ : AList fun _ : UtxoMonitor.AssetName => Nat).insert an amt)
    return { self with multiasset := self.multiasset.insert policy bundle }

/-- The entry of an asset: ADA has one in every value. -/
def entry (self : Value) : Asset → Option Nat
  | .native => some self.coin
  | .token policy name => self.multiasset.value policy name

/-- A value as a map from assets to amounts. -/
def held (self : Value) (asset : Asset) : Nat := (self.entry asset).getD 0

/-- No entry of a token is zero, and no bundle is empty. -/
structure Canonical (value : Value) : Prop where
  ne_zero : ∀ policy name, value.multiasset.value policy name ≠ some 0
  noEmpty : value.multiasset.NoEmpty

end Value

/-- One addition or subtraction. -/
inductive Edit where
  | add (asset : Asset) (amt : Nat)
  | sub (asset : Asset) (amt : Nat)
deriving DecidableEq

namespace Edit

def asset : Edit → Asset
  | add asset _ => asset
  | sub asset _ => asset

def apply (self : Value) : Edit → Checked Value
  | add asset amt => self.addUnsafe asset.toClass amt
  | sub asset amt => self.subUnsafe asset.toClass amt

/-- The amount that an edit is to make of the one before. -/
def amount (amounts : Asset → Nat) : Edit → Nat
  | add asset amt => amounts asset + amt
  | sub asset amt => amounts asset - amt

/-- The map of amounts, changed at one asset. -/
def update (amounts : Asset → Nat) (edit : Edit) : Asset → Nat :=
  Function.update amounts edit.asset (edit.amount amounts)

/-- A sum fits its word, and not more is taken than is held. -/
def Permitted (amounts : Asset → Nat) : Edit → Prop
  | add asset amt => amounts asset + amt < 2 ^ 64
  | sub asset amt => amt ≤ amounts asset

instance (amounts : Asset → Nat) : ∀ edit : Edit, Decidable (edit.Permitted amounts)
  | add _ _ => inferInstanceAs (Decidable (_ < _))
  | sub _ _ => inferInstanceAs (Decidable (_ ≤ _))

end Edit

variable {self : Value} {edits : List Edit} {edit : Edit} {asset : Asset}

def run (self : Value) (edits : List Edit) : Checked Value := edits.foldlM Edit.apply self

def updates (amounts : Asset → Nat) (edits : List Edit) : Asset → Nat := edits.foldl Edit.update amounts

/-- Every edit is permitted where it is made. -/
def AllPermitted (amounts : Asset → Nat) : List Edit → Prop
  | [] => True
  | edit :: edits => edit.Permitted amounts ∧ AllPermitted (edit.update amounts) edits

instance decidableAllPermitted :
    ∀ (amounts : Asset → Nat) (edits : List Edit), Decidable (AllPermitted amounts edits)
  | _, [] => inferInstanceAs (Decidable True)
  | amounts, edit :: edits =>
    have := decidableAllPermitted (edit.update amounts) edits
    inferInstanceAs (Decidable (_ ∧ _))

/-! ### Entries after an edit -/

theorem Value.amountOf_toClass (self : Value) (asset : Asset) :
    self.amountOf asset.toClass = .ok (self.entry asset) := by
  cases asset with
  | native => rfl
  | token policy name =>
    rw [Asset.toClass, amountOf, AssetName.intoLedger_padded]
    rfl

/-- The entry that an edit leaves of its asset. -/
def Edit.left (self : Value) : Edit → Option Nat
  | .add asset amt => some (self.held asset + amt)
  | .sub .native amt => some (self.coin - amt)
  | .sub asset amt => if amt < self.held asset then some (self.held asset - amt) else none

theorem Value.lookup_subFrom (bundle : AList fun _ : UtxoMonitor.AssetName => Nat)
    (an an' : UtxoMonitor.AssetName) (amt : Nat) :
    (subFrom bundle an amt).lookup an' =
      if an' = an then
        if amt < (bundle.lookup an).getD 0 then some ((bundle.lookup an).getD 0 - amt) else none
      else bundle.lookup an' := by
  rw [subFrom]
  split
  · rename_i value hlookup
    rw [hlookup, Option.getD_some]
    split
    · exact lookup_insert_eq bundle an an' _
    · exact lookup_erase_eq bundle an an'
  · rename_i hlookup
    rw [hlookup, Option.getD_none, if_neg (Nat.not_lt_zero amt)]
    split
    · rename_i heq
      rw [heq, hlookup]
    · rfl

theorem Value.addTo_eq_ok (bundle : AList fun _ : UtxoMonitor.AssetName => Nat)
    (an : UtxoMonitor.AssetName) {amt : Nat} (h : (bundle.lookup an).getD 0 + amt < 2 ^ 64) :
    addTo bundle an amt = .ok (bundle.insert an ((bundle.lookup an).getD 0 + amt)) := by
  rw [addTo]
  split
  · rename_i value hlookup
    rw [hlookup, Option.getD_some] at h ⊢
    rw [Checked.add, if_pos h]
    rfl
  · rename_i hlookup
    rw [hlookup, Option.getD_none, Nat.zero_add]
    rfl

/-- The entries of a value with another entry of one token. -/
theorem Value.entry_of_value (self : Value) {after : Value} {policy : PolicyId} {name : UtxoMonitor.AssetName}
    {o : Option Nat} (hcoin : after.coin = self.coin)
    (h : ∀ policy' name', after.multiasset.value policy' name' =
      if policy' = policy ∧ name' = name then o else self.multiasset.value policy' name')
    (other : Asset) : after.entry other =
      if other = .token policy name then o else self.entry other := by
  cases other with
  | native =>
    rw [if_neg fun hnative => by cases hnative]
    exact congrArg some hcoin
  | token policy' name' =>
    rw [entry, h]
    exact if_congr (by rw [Asset.token.injEq]) rfl rfl

/-- The entries of a value with another amount of ADA. -/
theorem Value.entry_of_coin (self : Value) {after : Value} (h : after.multiasset = self.multiasset)
    (other : Asset) : after.entry other =
      if other = .native then some after.coin else self.entry other := by
  cases other with
  | native => rfl
  | token policy name =>
    rw [if_neg (fun hnative => by cases hnative), entry, h]
    rfl

/-- After an addition that fits its word. -/
theorem Value.addUnsafe_spec {amt : Nat} (h : self.held asset + amt < 2 ^ 64) :
    ∃ after, self.addUnsafe asset.toClass amt = .ok after ∧
      (∀ other, after.entry other =
        if other = asset then some (self.held asset + amt) else self.entry other) ∧
      (self.multiasset.NoEmpty → after.multiasset.NoEmpty) := by
  cases asset with
  | native =>
    refine ⟨{ self with coin := self.coin + amt }, ?_, entry_of_coin self rfl, id⟩
    have hlt : self.coin + amt < 2 ^ 64 := h
    rw [Asset.toClass, addUnsafe, Checked.add, if_pos hlt]
    rfl
  | token policy name =>
    have hheld : self.held (.token policy name) =
        (((self.multiasset.lookup policy).getD ∅).lookup name).getD 0 := by
      rw [held, entry, Nested.value_eq]
    refine ⟨⟨self.coin, self.multiasset.insert policy (((self.multiasset.lookup policy).getD ∅).insert
      name (self.held (.token policy name) + amt))⟩, ?_, ?_, ?_⟩
    · rw [hheld] at h ⊢
      rw [Asset.toClass, addUnsafe, AssetName.intoLedger_padded, Checked.ok_bind]
      cases hlookup : self.multiasset.lookup policy with
      | some bundle =>
        rw [hlookup, Option.getD_some] at h
        dsimp only
        rw [addTo_eq_ok bundle name h]
        rfl
      | none =>
        rw [Option.getD_none, AList.lookup_empty, Option.getD_none, Nat.zero_add]
        rfl
    · refine entry_of_value self rfl ?_
      intro policy' name'
      rw [Nested.value_insert]
      apply Nested.value_of_change
      intro name''
      rw [Nested.value_eq, lookup_insert_eq]
    · intro hno
      exact hno.insert (List.cons_ne_nil _ _)

/-- After a subtraction of no more than is held. -/
theorem Value.subUnsafe_spec {amt : Nat} (h : amt ≤ self.held asset) :
    ∃ after, self.subUnsafe asset.toClass amt = .ok after ∧
      (∀ other, after.entry other =
        if other = asset then (Edit.sub asset amt).left self else self.entry other) ∧
      (self.multiasset.NoEmpty → after.multiasset.NoEmpty) := by
  cases asset with
  | native =>
    refine ⟨{ self with coin := self.coin - amt }, ?_, entry_of_coin self rfl, id⟩
    have hle : amt ≤ self.coin := h
    rw [Asset.toClass, subUnsafe, Checked.sub, if_pos hle]
    rfl
  | token policy name =>
    cases hlookup : self.multiasset.lookup policy with
    | none =>
      have hnone : self.multiasset.value policy name = none := Nested.value_of_lookup_none hlookup
      refine ⟨self, ?_, ?_, id⟩
      · rw [Asset.toClass, subUnsafe]
        dsimp only
        rw [hlookup]
        rfl
      · refine entry_of_value self rfl ?_
        intro policy' name'
        split
        · rename_i heq
          obtain ⟨rfl, rfl⟩ := heq
          rw [hnone, Edit.left, held, entry, hnone, Option.getD_none, if_neg (Nat.not_lt_zero amt)]
          intro hnative
          cases hnative
        · rfl
    | some bundle =>
      have hheld : self.held (.token policy name) = (bundle.lookup name).getD 0 := by
        rw [held, entry, Nested.value_of_lookup hlookup]
      refine ⟨⟨self.coin, self.multiasset.putOrDrop policy (subFrom bundle name amt)⟩, ?_, ?_, ?_⟩
      · rw [Asset.toClass, subUnsafe]
        dsimp only
        rw [hlookup]
        dsimp only
        rw [AssetName.intoLedger_padded]
        rfl
      · refine entry_of_value self rfl ?_
        intro policy' name'
        rw [Nested.value_putOrDrop]
        apply Nested.value_of_change
        intro name''
        rw [lookup_subFrom, ← hheld, Nested.value_of_lookup hlookup]
        rfl
      · intro hno
        exact hno.putOrDrop

theorem Edit.apply_spec (h : edit.Permitted self.held) :
    ∃ after, edit.apply self = .ok after ∧
      (∀ asset, after.entry asset = if asset = edit.asset then edit.left self else self.entry asset) ∧
      (self.multiasset.NoEmpty → after.multiasset.NoEmpty) := by
  cases edit with
  | add asset amt => exact Value.addUnsafe_spec h
  | sub asset amt => exact Value.subUnsafe_spec h

theorem Edit.getD_left (self : Value) (edit : Edit) :
    (edit.left self).getD 0 = edit.amount self.held := by
  cases edit with
  | add asset amt => rfl
  | sub asset amt =>
    cases asset with
    | native => rfl
    | token policy name =>
      rw [left, amount]
      · split
        · rfl
        · rename_i hle
          rw [Option.getD_none]
          omega
      · intro h
        cases h

/-- An edit changes the amount of its asset as the map says, and no other. -/
theorem Edit.held_of_entry {after : Value} (h : ∀ asset, after.entry asset =
      if asset = edit.asset then edit.left self else self.entry asset) :
    after.held = edit.update self.held := by
  funext asset
  rw [Value.held, h, update, Function.update_apply]
  split
  · exact getD_left self edit
  · rfl

/-- An edit leaves an entry of zero for a token if it adds 0 where nothing is held. -/
theorem Edit.left_eq_zero_iff {policy : PolicyId} {name : UtxoMonitor.AssetName}
    (h : edit.asset = .token policy name) : edit.left self = some 0 ↔
      edit = .add (.token policy name) 0 ∧ self.held (.token policy name) = 0 := by
  cases edit with
  | add asset amt =>
    obtain rfl : asset = .token policy name := h
    rw [left, Option.some.injEq, Edit.add.injEq, eq_true rfl, true_and]
    omega
  | sub asset amt =>
    obtain rfl : asset = .token policy name := h
    constructor
    · intro hzero
      rw [left] at hzero
      · split at hzero
        · have := Option.some.inj hzero
          omega
        · cases hzero
      · intro h
        cases h
    · rintro ⟨hedit, _⟩
      cases hedit

/-! ### Sequences -/

/-- The last edit of an asset is an addition of 0, and nothing of it is held in the end. -/
def ZeroLeft (amounts : Asset → Nat) (edits : List Edit) (asset : Asset) : Prop :=
  (edits.filter fun edit => edit.asset = asset).getLast? = some (.add asset 0) ∧
    updates amounts edits asset = 0

theorem updates_snoc (amounts : Asset → Nat) (edits : List Edit) (edit : Edit) :
    updates amounts (edits ++ [edit]) = edit.update (updates amounts edits) :=
  List.foldl_concat ..

theorem allPermitted_snoc (amounts : Asset → Nat) (edits : List Edit) (edit : Edit) :
    AllPermitted amounts (edits ++ [edit]) ↔
      AllPermitted amounts edits ∧ edit.Permitted (updates amounts edits) := by
  induction edits generalizing amounts with
  | nil => simp [AllPermitted, updates]
  | cons first edits ih =>
    rw [List.cons_append, AllPermitted, AllPermitted, ih, and_assoc]
    rfl

theorem run_snoc {after : Value} (h : run self edits = .ok after) (edit : Edit) :
    run self (edits ++ [edit]) = edit.apply after := by
  rw [run] at h ⊢
  rw [List.foldlM_append, h, Checked.ok_bind, List.foldlM_cons]
  cases edit.apply after <;> rfl

theorem zeroLeft_snoc_of_ne {amounts : Asset → Nat} (h : asset ≠ edit.asset) :
    ZeroLeft amounts (edits ++ [edit]) asset ↔ ZeroLeft amounts edits asset := by
  have hother : ¬ edit.asset = asset := fun heq => h heq.symm
  rw [ZeroLeft, ZeroLeft, List.filter_append, List.filter_cons_of_neg (by simpa using hother),
    List.filter_nil, List.append_nil, updates_snoc, Edit.update, Function.update_of_ne h]

theorem zeroLeft_snoc {amounts : Asset → Nat} :
    ZeroLeft amounts (edits ++ [edit]) edit.asset ↔
      edit = .add edit.asset 0 ∧ updates amounts edits edit.asset = 0 := by
  rw [ZeroLeft, List.filter_append, List.filter_cons_of_pos (by simp), List.filter_nil,
    List.getLast?_append_of_ne_nil _ (by simp), updates_snoc, Edit.update, Function.update_self]
  constructor
  · rintro ⟨hlast, hzero⟩
    have hedit : edit = .add edit.asset 0 := Option.some.inj hlast
    rw [hedit] at hzero
    exact ⟨hedit, hzero⟩
  · rintro ⟨hedit, hzero⟩
    refine ⟨congrArg some hedit, ?_⟩
    rw [hedit]
    exact hzero

/-- After a sequence of permitted edits of a canonical value. -/
theorem run_spec (hcanonical : self.Canonical) (h : AllPermitted self.held edits) :
    ∃ after, run self edits = .ok after ∧ after.held = updates self.held edits ∧
      after.multiasset.NoEmpty ∧
      ∀ policy name, after.multiasset.value policy name = some 0 ↔
        ZeroLeft self.held edits (.token policy name) := by
  induction edits using List.reverseRecOn with
  | nil =>
    refine ⟨self, rfl, rfl, hcanonical.noEmpty, ?_⟩
    intro policy name
    refine iff_of_false (hcanonical.ne_zero policy name) ?_
    rintro ⟨hlast, _⟩
    cases hlast
  | append_singleton edits edit ih =>
    rw [allPermitted_snoc] at h
    obtain ⟨before, hrun, hheld, hno, hzero⟩ := ih h.1
    rw [← hheld] at h
    obtain ⟨after, happly, hentry, hkeep⟩ := Edit.apply_spec h.2
    refine ⟨after, ?_, ?_, hkeep hno, ?_⟩
    · rw [run_snoc hrun, happly]
    · rw [Edit.held_of_entry hentry, hheld, updates_snoc]
    · intro policy name
      show after.entry (.token policy name) = some 0 ↔ _
      rw [hentry]
      by_cases heq : Asset.token policy name = edit.asset
      · rw [if_pos heq, Edit.left_eq_zero_iff heq.symm, heq, zeroLeft_snoc, hheld]
      · rw [if_neg heq, zeroLeft_snoc_of_ne heq]
        exact hzero policy name

/-- Every amount is as the map says after permitted edits of a canonical value, and the value is
canonical again exactly if no token is left whose last edit adds 0 to nothing. -/
theorem edits_canonical_iff (hcanonical : self.Canonical) (h : AllPermitted self.held edits) :
    ∃ after, run self edits = .ok after ∧
      (∀ asset, ∃ amount, after.amountOf asset.toClass = .ok amount ∧
        amount.getD 0 = updates self.held edits asset) ∧
      (after.Canonical ↔ ∀ policy name, ¬ ZeroLeft self.held edits (.token policy name)) := by
  obtain ⟨after, hrun, hheld, hno, hzero⟩ := run_spec hcanonical h
  refine ⟨after, hrun, ?_, ?_⟩
  · intro asset
    exact ⟨after.entry asset, after.amountOf_toClass asset, congrFun hheld asset⟩
  constructor
  · intro hafter policy name hleft
    exact hafter.ne_zero policy name ((hzero policy name).mpr hleft)
  · intro hnone
    exact ⟨fun policy name hvalue => hnone policy name ((hzero policy name).mp hvalue), hno⟩

/-- One lovelace. -/
def sampleValue : Value := ⟨1, ∅⟩

def sampleToken : Asset := .token (.replicate 1) ⟨[2], by decide⟩

theorem canonical_sampleValue : sampleValue.Canonical where
  ne_zero policy name h := by cases h
  noEmpty := Nested.noEmpty_empty

theorem edits_canonical_sample : ∃ after,
    run sampleValue [.add sampleToken 5, .sub sampleToken 5, .sub .native 1] = .ok after ∧
      (∀ asset, ∃ amount, after.amountOf asset.toClass = .ok amount ∧
        amount.getD 0 = updates sampleValue.held
          [.add sampleToken 5, .sub sampleToken 5, .sub .native 1] asset) ∧
      (after.Canonical ↔ ∀ policy name, ¬ ZeroLeft sampleValue.held
        [.add sampleToken 5, .sub sampleToken 5, .sub .native 1] (.token policy name)) :=
  edits_canonical_iff canonical_sampleValue (by decide)

/-- Nothing is added to nothing. -/
theorem zero_entry_left : sampleValue.Canonical ∧
    AllPermitted sampleValue.held [.add sampleToken 0] ∧
    ∀ after, run sampleValue [.add sampleToken 0] = .ok after → ¬ after.Canonical := by
  refine ⟨canonical_sampleValue, by decide, ?_⟩
  intro after hrun hcanonical
  cases hrun
  exact hcanonical.ne_zero (.replicate 1) ⟨[2], by decide⟩ rfl

end UtxoMonitor.ValueExtension
