import UtxoMonitor.Lib.Window
import UtxoMonitor.Tracker.CircularFilter

/-! What a circular filter knows of the calls on it. Histories are newest first. -/
namespace UtxoMonitor.CircularFilter

open Lib

variable {N : Nat} {T : Type} [DecidableEq T]

inductive Call (T : Type) where
  | add (a : T)
  | remove (a : T)

def call (f : CircularFilter N T) : Call T → CircularFilter N T
  | .add a => (f.add a).1
  | .remove a => f.remove a

def run (N : Nat) : List (Call T) → CircularFilter N T
  | [] => new
  | c :: earlier => (run N earlier).call c

/-- What was put in since `x` was, unless `x` was removed since or never put in. An element that is
held already is not put in. -/
def since (N : Nat) (x : T) : List (Call T) → Option (List T)
  | [] => none
  | .add a :: earlier =>
    if a ∈ (run N earlier).filter then since N x earlier
    else if a = x then some []
    else (since N x earlier).map (a :: ·)
  | .remove a :: earlier => if a = x then none else since N x earlier

/-- The filter knows what was put in before fewer than `N` others, and its two parts are one. -/
structure Lawful (N : Nat) (calls : List (Call T)) : Prop where
  contains_iff (x : T) : (run N calls).contains x = true ↔
    ∃ others, since N x calls = some others ∧ others.toFinset.card < N
  agree (x : T) : x ∈ (run N calls).filter ↔ x ∈ (run N calls).buffer

/-- There is room to add, and what is removed is not held. -/
def Harmless (N : Nat) (earlier : List (Call T)) : Call T → Prop
  | .add _ => 0 < N
  | .remove a => ¬ (run N earlier).contains a

theorem add_held {f : CircularFilter N T} {a : T} (h : a ∈ f.filter) : (f.add a).1 = f := by
  simp [add, h]

theorem remove_missing {f : CircularFilter N T} {a : T} (h : a ∉ f.filter) : f.remove a = f := by
  simp [remove, Finset.erase_eq_of_notMem h]

omit [DecidableEq T] in
theorem Tidy.of_synced {f : CircularFilter N T} (h : f.Tidy) (hs : f.Synced) (x : T) :
    x ∈ f.filter ↔ x ∈ f.buffer := ⟨h.listed x, hs.mem x⟩

/-- The buffer is a window of the history of what was put in. -/
structure Tracks (N : Nat) (calls : List (Call T)) (news : List T) : Prop where
  synced : (run N calls).Synced
  tidy : (run N calls).Tidy
  buffer : (run N calls).buffer = (news.take N).reverse
  fresh : Fresh N news
  put : ∀ x others, since N x calls = some others →
    ∃ older, news = others ++ x :: older ∧ x ∉ others
  known : ∀ x, x ∈ (run N calls).filter → (since N x calls).isSome

section Steps

variable {calls : List (Call T)} {news : List T} {a : T}

theorem tracks_nil : Tracks N ([] : List (Call T)) [] where
  synced := .new
  tidy := .new
  buffer := by simp [run, new]
  fresh := .nil
  put x others h := by cases h
  known x h := by simp [run, new] at h

theorem Tracks.mem_iff (h : Tracks N calls news) (x : T) :
    x ∈ (run N calls).filter ↔ x ∈ news.take N := by
  rw [h.tidy.of_synced h.synced, h.buffer, List.mem_reverse]

theorem Tracks.lawful (h : Tracks N calls news) : Lawful N calls where
  agree := h.tidy.of_synced h.synced
  contains_iff x := by
    rw [contains, decide_eq_true_eq]
    constructor
    · intro hmem
      obtain ⟨others, hsince⟩ := Option.isSome_iff_exists.mp (h.known x hmem)
      obtain ⟨older, rfl, hne⟩ := h.put x others hsince
      exact ⟨others, hsince, (h.fresh.mem_take_iff hne).mp ((h.mem_iff x).mp hmem)⟩
    · rintro ⟨others, hsince, hlt⟩
      obtain ⟨older, rfl, hne⟩ := h.put x others hsince
      exact (h.mem_iff x).mpr ((h.fresh.mem_take_iff hne).mpr hlt)

/-- A call that changes nothing but what was removed. -/
theorem Tracks.idle (h : Tracks N calls news) {c : Call T} (hrun : run N (c :: calls) = run N calls)
    (hput : ∀ x others, since N x (c :: calls) = some others → since N x calls = some others)
    (hknown : ∀ x ∈ (run N calls).filter, since N x (c :: calls) = since N x calls) :
    Tracks N (c :: calls) news := by
  constructor
  · rw [hrun]
    exact h.synced
  · rw [hrun]
    exact h.tidy
  · rw [hrun]
    exact h.buffer
  · exact h.fresh
  · intro x others hsince
    exact h.put x others (hput x others hsince)
  · intro x hx
    rw [hrun] at hx
    rw [hknown x hx]
    exact h.known x hx

theorem Tracks.add_held (h : Tracks N calls news) (ha : a ∈ (run N calls).filter) :
    Tracks N (.add a :: calls) news := by
  have hsince (x : T) : since N x (.add a :: calls) = since N x calls := by
    rw [since, if_pos ha]
  have hrun : run N (.add a :: calls) = run N calls := CircularFilter.add_held ha
  apply h.idle hrun
  · intro x others hput
    exact (hsince x).symm.trans hput
  · intro x _
    exact hsince x

/-- A window with one more in front drops its last when it is full. -/
theorem Tracks.buffer_add (h : Tracks N calls news) (hN : 0 < N)
    (ha : a ∉ (run N calls).buffer) :
    ((run N calls).add a).1.buffer = ((a :: news).take N).reverse := by
  obtain ⟨n, rfl⟩ : ∃ n, N = n + 1 := ⟨N - 1, by omega⟩
  have hbuffer := h.buffer
  rw [List.take_succ_cons, List.reverse_cons]
  rcases h.tidy.add_cases ha hN with ⟨hlt, heq⟩ | ⟨evicted, buffer, hsplit, hlength, heq⟩
  · rw [hbuffer, List.length_reverse, List.length_take] at hlt
    rw [heq, hbuffer, List.take_of_length_le (by omega), List.take_of_length_le (by omega)]
  · rw [heq]
    rw [hsplit] at hbuffer hlength
    have htail : buffer = (news.take (n + 1)).dropLast.reverse := by
      rw [← List.tail_reverse, ← hbuffer]
      rfl
    have hfull := congrArg List.length hbuffer
    rw [hlength, List.length_reverse, List.length_take] at hfull
    have hkept : min (min (n + 1) news.length - 1) (n + 1) = n := by omega
    rw [htail, List.dropLast_eq_take, List.length_take, List.take_take, hkept]

theorem Tracks.add_new (h : Tracks N calls news) (hN : 0 < N) (ha : a ∉ (run N calls).filter) :
    Tracks N (.add a :: calls) (a :: news) := by
  have hout : a ∉ (run N calls).buffer := fun hm => ha (h.synced.mem a hm)
  have hwindow : a ∉ news.take N := fun hm => ha ((h.mem_iff a).mpr hm)
  have hsince (x : T) : since N x (.add a :: calls) =
      if a = x then some [] else (since N x calls).map (a :: ·) := by
    rw [since, if_neg ha]
  constructor
  · exact h.synced.add a
  · exact h.tidy.add hout hN
  · exact h.buffer_add hN hout
  · exact .cons hwindow h.fresh
  · intro x others hput
    rw [hsince] at hput
    split at hput
    · rename_i heq
      cases hput
      exact ⟨news, by rw [heq]; rfl, by simp⟩
    · rename_i hne
      obtain ⟨others, hold, rfl⟩ := Option.map_eq_some_iff.mp hput
      obtain ⟨older, rfl, hx⟩ := h.put x others hold
      exact ⟨older, rfl, by simpa using ⟨Ne.symm hne, hx⟩⟩
  · intro x hx
    rw [hsince]
    split
    · rfl
    · rename_i hne
      rw [Option.isSome_map]
      exact h.known x ((mem_of_mem_add hx).resolve_left (Ne.symm hne))

theorem Tracks.remove (h : Tracks N calls news) (ha : a ∉ (run N calls).filter) :
    Tracks N (.remove a :: calls) news := by
  have hrun : run N (.remove a :: calls) = run N calls := remove_missing ha
  apply h.idle hrun
  · intro x others hput
    rw [since] at hput
    split at hput
    · cases hput
    · exact hput
  · intro x hx
    have hne : a ≠ x := by
      rintro rfl
      exact ha hx
    rw [since, if_neg hne]

end Steps

/-! ### Runs -/

theorem exists_tracks {calls : List (Call T)}
    (h : ∀ c earlier, c :: earlier <:+ calls → Harmless N earlier c) :
    ∃ news, Tracks N calls news := by
  induction calls with
  | nil => exact ⟨[], tracks_nil⟩
  | cons c calls ih =>
    obtain ⟨news, htracks⟩ := ih fun c' earlier hsuffix =>
      h c' earlier (hsuffix.trans (List.suffix_cons c calls))
    have hc := h c calls List.suffix_rfl
    cases c with
    | add a =>
      by_cases ha : a ∈ (run N calls).filter
      · exact ⟨news, htracks.add_held ha⟩
      · exact ⟨a :: news, htracks.add_new hc ha⟩
    | remove a => exact ⟨news, htracks.remove (by simpa [Harmless, contains] using hc)⟩

/-- The buffer of a filter without capacity stays empty. -/
theorem buffer_run_zero (calls : List (Call T)) : (run 0 calls).buffer = [] := by
  induction calls with
  | nil => rfl
  | cons c calls ih =>
    cases c with
    | add a =>
      rw [run, call, add, ih]
      split
      · exact ih
      · rfl
    | remove a => exact ih

/-- A call that leaves the two parts of the filter in agreement is harmless. -/
theorem harmless_of_agree {c : Call T} {earlier : List (Call T)} (hbefore : Lawful N earlier)
    (hafter : Lawful N (c :: earlier)) : Harmless N earlier c := by
  cases c with
  | add a =>
    apply Nat.pos_of_ne_zero
    rintro rfl
    have hmem : a ∈ (run 0 (.add a :: earlier)).filter := by
      have hnew : a ∉ (run 0 earlier).filter := by
        rw [hbefore.agree, buffer_run_zero]
        exact List.not_mem_nil
      simp [run, call, add, hnew, buffer_run_zero]
    rw [hafter.agree, buffer_run_zero] at hmem
    exact absurd hmem List.not_mem_nil
  | remove a =>
    intro hheld
    rw [contains, decide_eq_true_eq, hbefore.agree] at hheld
    exact absurd ((hafter.agree a).mpr hheld) (Finset.notMem_erase a _)

/-- The filter is right after every call exactly if nothing held is removed, and there is room for
what is added. -/
theorem lawful_iff_harmless (N : Nat) (calls : List (Call T)) :
    (∀ earlier, earlier <:+ calls → Lawful N earlier) ↔
      ∀ c earlier, c :: earlier <:+ calls → Harmless N earlier c := by
  constructor
  · intro h c earlier hsuffix
    exact harmless_of_agree (h earlier ((List.suffix_cons c earlier).trans hsuffix)) (h _ hsuffix)
  · intro h earlier hsuffix
    obtain ⟨news, htracks⟩ := exists_tracks fun c e hs => h c e (hs.trans hsuffix)
    exact htracks.lawful

/-- What is put in again after its removal is evicted at once, by the place it had before. -/
theorem readded_forgotten :
    ¬ Lawful 2 [Call.add 1, Call.remove 1, Call.add 2, Call.add 1] := by
  intro h
  have hsince : since 2 1 [Call.add 1, Call.remove 1, Call.add 2, Call.add 1] = some [] := by
    decide
  have hheld := (h.contains_iff 1).mpr ⟨[], hsince, by decide⟩
  revert hheld
  decide

end UtxoMonitor.CircularFilter
