import Mathlib.Data.List.Basic

/-! A scan that skips rows, drops the first `offset` matches and stops after `limit` of them. -/
namespace Lib

variable {X R Y : Type}

/-- Walk over `rows`: `select` reads a row (`some none` passes over it), `finish` completes a match
that is kept, and `none` from either ends the whole scan without a result. -/
def page (select : X → Option (Option R)) (finish : R → Option Y) (offset limit : Nat) :
    List X → Nat → List Y → Option (List Y)
  | [], _, acc => some acc
  | row :: rows, matched, acc => do
    match ← select row with
    | none => page select finish offset limit rows matched acc
    | some r =>
      if matched < offset then
        page select finish offset limit rows (matched + 1) acc
      else
        let acc := acc ++ [← finish r]
        if limit ≤ acc.length then return acc
        page select finish offset limit rows (matched + 1) acc

variable {select : X → Option (Option R)} {finish : R → Option Y} {offset limit : Nat}

/-- Whatever a scan returns was selected from one of its rows. -/
theorem mem_of_page {rows : List X} {matched : Nat} {acc ys : List Y}
    (h : page select finish offset limit rows matched acc = some ys) {y : Y} (hy : y ∈ ys) :
    y ∈ acc ∨ ∃ row ∈ rows, ∃ r, select row = some (some r) ∧ finish r = some y := by
  induction rows generalizing matched acc with
  | nil =>
    obtain rfl : acc = ys := by simpa [page] using h
    exact .inl hy
  | cons row rows ih =>
    have hrest : ∀ {matched acc}, page select finish offset limit rows matched acc = some ys →
        y ∈ acc ∨ ∃ x ∈ row :: rows, ∃ r, select x = some (some r) ∧ finish r = some y := by
      intro matched acc hpage
      rcases ih hpage with hacc | ⟨x, hx, hsel⟩
      · exact .inl hacc
      · exact .inr ⟨x, .tail _ hx, hsel⟩
    cases hsel : select row with
    | none => simp [page, hsel] at h
    | some found =>
      cases found with
      | none => exact hrest (by simpa [page, hsel] using h)
      | some r =>
        by_cases hm : matched < offset
        · exact hrest (by simpa [page, hsel, hm] using h)
        · cases hfin : finish r with
          | none => simp [page, hsel, hm, hfin] at h
          | some z =>
            have hz : y ∈ acc ++ [z] →
                y ∈ acc ∨ ∃ x ∈ row :: rows, ∃ r, select x = some (some r) ∧ finish r = some y := by
              intro hmem
              rcases List.mem_append.mp hmem with hacc | hlast
              · exact .inl hacc
              · obtain rfl := List.mem_singleton.mp hlast
                exact .inr ⟨row, .head _, r, hsel, hfin⟩
            by_cases hl : limit ≤ (acc ++ [z]).length
            · simp only [page, hsel, hm, hfin, hl, Option.bind_eq_bind, Option.bind_some, if_true,
                if_false, Option.pure_def, Option.some.injEq] at h
              exact hz (h ▸ hy)
            · simp only [page, hsel, hm, hfin, hl, Option.bind_eq_bind, Option.bind_some,
                if_false] at h
              rcases hrest h with hacc | hsel
              · exact hz hacc
              · exact .inr hsel

theorem page_from {rows : List X} {sel : X → Option R} {fin : R → Y}
    (hs : ∀ row ∈ rows, select row = some (sel row))
    (hf : ∀ row ∈ rows, ∀ r, sel row = some r → finish r = some (fin r)) {matched : Nat}
    {acc : List Y} (hacc : acc.length < limit) :
    page select finish offset limit rows matched acc =
      some (acc ++ (((rows.filterMap sel).drop (offset - matched)).take
        (limit - acc.length)).map fin) := by
  induction rows generalizing matched acc with
  | nil => simp [page]
  | cons row rows ih =>
    have hs' : ∀ x ∈ rows, select x = some (sel x) := fun x hx => hs x (List.mem_cons_of_mem _ hx)
    have hf' : ∀ x ∈ rows, ∀ r, sel x = some r → finish r = some (fin r) :=
      fun x hx => hf x (List.mem_cons_of_mem _ hx)
    have hrow := hs row List.mem_cons_self
    cases hr : sel row with
    | none => simp [page, hrow, hr, ih hs' hf' hacc]
    | some r =>
      have hfin := hf row List.mem_cons_self r hr
      by_cases hm : matched < offset
      · have hd : offset - matched = offset - (matched + 1) + 1 := by omega
        simp [page, hrow, hr, hm, ih hs' hf' hacc, hd]
      · have hd : offset - matched = 0 := by omega
        have hd' : offset - (matched + 1) = 0 := by omega
        obtain ⟨n, hn⟩ : ∃ n, limit - acc.length = n + 1 := ⟨limit - acc.length - 1, by omega⟩
        by_cases hl : limit ≤ acc.length + 1
        · have : n = 0 := by omega
          simp [page, hrow, hr, hm, hfin, hl, hd, hn, this]
        · have hn' : limit - (acc.length + 1) = n := by omega
          have hacc' : (acc ++ [fin r]).length < limit := by
            simp
            omega
          simp [page, hrow, hr, hm, hfin, hl, hd, hn, hn', hd', ih hs' hf' hacc']

/-- A scan that meets no failing row returns one page of the list of all matches. -/
theorem page_eq {rows : List X} (sel : X → Option R) (fin : R → Y)
    (hs : ∀ row ∈ rows, select row = some (sel row))
    (hf : ∀ row ∈ rows, ∀ r, sel row = some r → finish r = some (fin r)) (hl : 0 < limit) :
    page select finish offset limit rows 0 [] =
      some ((((rows.filterMap sel).map fin).drop offset).take limit) := by
  rw [page_from hs hf (by simpa using hl)]
  simp [List.map_take, List.map_drop]

/-- The same list, with no total form of `finish` at hand. -/
theorem page_eq_filterMap [Nonempty Y] {rows : List X}
    (hs : ∀ row ∈ rows, ∃ found, select row = some found ∧ ∀ r, found = some r → (finish r).isSome)
    (hl : 0 < limit) :
    page select finish offset limit rows 0 [] =
      some (((rows.filterMap fun row => (select row).join.bind finish).drop offset).take limit) := by
  have hsel : ∀ row ∈ rows, select row = some (select row).join := by
    intro row hrow
    obtain ⟨found, hfound, -⟩ := hs row hrow
    simp [hfound]
  have hfin : ∀ row ∈ rows, ∀ r, (select row).join = some r →
      finish r = some ((finish r).getD (Classical.arbitrary Y)) := by
    intro row hrow r hr
    obtain ⟨found, hfound, hsome⟩ := hs row hrow
    obtain rfl : found = some r := by simpa [hfound] using hr
    obtain ⟨y, hy⟩ := Option.isSome_iff_exists.mp (hsome r rfl)
    simp [hy]
  rw [page_eq (fun row => (select row).join) _ hsel hfin hl, List.map_filterMap]
  congr 3
  apply List.filterMap_congr
  intro row hrow
  cases hr : (select row).join with
  | none => rfl
  | some r => exact (hfin row hrow r hr).symm

/-! ### Pages one after another -/

/-- `n` consecutive pages of length `limit`, put together. -/
theorem flatMap_pages {A : Type} (xs : List A) (limit n : Nat) :
    ((List.range n).flatMap fun i => (xs.drop (i * limit)).take limit) = xs.take (n * limit) := by
  induction n with
  | zero => simp
  | succ n ih =>
    rw [List.range_succ, List.flatMap_append, ih, List.flatMap_singleton, Nat.succ_mul,
      List.take_add]

end Lib
