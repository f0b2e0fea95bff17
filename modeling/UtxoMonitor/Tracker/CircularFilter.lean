import Mathlib.Data.Finset.Basic

/-! A filter that remembers a bounded number of elements. -/
namespace UtxoMonitor

structure CircularFilter (N : Nat) (T : Type) where
  buffer : List T
  filter : Finset T

namespace CircularFilter

variable {N : Nat} {T : Type} [DecidableEq T]

omit [DecidableEq T] in
def new : CircularFilter N T := ⟨[], ∅⟩

/-- The filter with `a`, and the element evicted for it. -/
def add (f : CircularFilter N T) (a : T) : CircularFilter N T × Option T :=
  if a ∈ f.filter then (f, none)
  else
    let filter := insert a f.filter
    if f.buffer.length < N then (⟨f.buffer ++ [a], filter⟩, none)
    else
      match f.buffer with
      | evicted :: buffer => (⟨buffer ++ [a], filter.erase evicted⟩, some evicted)
      | [] => (⟨[], filter⟩, none)

def contains (f : CircularFilter N T) (a : T) : Bool := a ∈ f.filter

/-- The buffer keeps the place of what is removed. -/
def remove (f : CircularFilter N T) (a : T) : CircularFilter N T := ⟨f.buffer, f.filter.erase a⟩

theorem mem_of_mem_add {f : CircularFilter N T} {a b : T} (h : b ∈ (f.add a).1.filter) :
    b = a ∨ b ∈ f.filter := by
  unfold add at h
  split at h
  · exact .inr h
  split at h
  · exact Finset.mem_insert.mp h
  split at h
  · exact Finset.mem_insert.mp (Finset.mem_of_mem_erase h)
  · exact Finset.mem_insert.mp h

/-- The buffer lists elements of the filter, once each. -/
structure Synced (f : CircularFilter N T) : Prop where
  nodup : f.buffer.Nodup
  mem : ∀ a ∈ f.buffer, a ∈ f.filter

omit [DecidableEq T] in
theorem Synced.new : (new : CircularFilter N T).Synced where
  nodup := List.nodup_nil
  mem a h := by cases h

theorem Synced.add {f : CircularFilter N T} (h : f.Synced) (a : T) : (f.add a).1.Synced := by
  unfold CircularFilter.add
  split
  · exact h
  rename_i hnew
  have hbuf : a ∉ f.buffer := fun hm => hnew (h.mem a hm)
  split
  · refine ⟨h.nodup.append (List.nodup_singleton a) (by simpa using hbuf), ?_⟩
    intro b hb
    rcases List.mem_append.mp hb with hb | hb
    · exact Finset.mem_insert_of_mem (h.mem b hb)
    · exact Finset.mem_insert.mpr (.inl (List.mem_singleton.mp hb))
  split
  · rename_i evicted buffer heq
    obtain ⟨hnd, hmem⟩ := h
    rw [heq] at hnd hmem hbuf
    obtain ⟨hev, hrest⟩ := List.nodup_cons.mp hnd
    simp only [List.mem_cons, not_or] at hbuf
    refine ⟨hrest.append (List.nodup_singleton a) (by simpa using hbuf.2), ?_⟩
    intro b hb
    rcases List.mem_append.mp hb with hold | hlast
    · apply Finset.mem_erase.mpr
      refine ⟨?_, Finset.mem_insert_of_mem (hmem b (.tail _ hold))⟩
      rintro rfl
      exact hev hold
    · rw [List.mem_singleton.mp hlast]
      exact Finset.mem_erase.mpr ⟨hbuf.1, Finset.mem_insert_self a _⟩
  · exact ⟨List.nodup_nil, fun b hb => by cases hb⟩

/-- An element is in the filter right after it was added. -/
theorem mem_add_self {f : CircularFilter N T} (h : f.Synced) (a : T) :
    a ∈ (f.add a).1.filter := by
  unfold CircularFilter.add
  split
  · assumption
  rename_i hnew
  split
  · exact Finset.mem_insert_self a _
  split
  · rename_i evicted buffer heq
    apply Finset.mem_erase.mpr
    refine ⟨?_, Finset.mem_insert_self a _⟩
    rintro rfl
    exact hnew (h.mem a (by simp [heq]))
  · exact Finset.mem_insert_self a _

/-- The buffer has room, and lists each element at most once and every element of the filter. -/
structure Tidy (f : CircularFilter N T) : Prop where
  nodup : f.buffer.Nodup
  listed : ∀ a ∈ f.filter, a ∈ f.buffer
  length_le : f.buffer.length ≤ N

omit [DecidableEq T] in
theorem Tidy.new : (new : CircularFilter N T).Tidy where
  nodup := List.nodup_nil
  listed a h := by simp [CircularFilter.new] at h
  length_le := Nat.zero_le N

theorem Tidy.remove {f : CircularFilter N T} (h : f.Tidy) (a : T) : (f.remove a).Tidy where
  nodup := h.nodup
  listed b hb := h.listed b (Finset.mem_of_mem_erase hb)
  length_le := h.length_le

/-- A new element goes to the end of the buffer, and takes the place of the first if there is no
other. -/
theorem Tidy.add_cases {f : CircularFilter N T} (h : f.Tidy) {a : T} (ha : a ∉ f.buffer)
    (hN : 0 < N) :
    (f.buffer.length < N ∧ (f.add a).1 = ⟨f.buffer ++ [a], insert a f.filter⟩) ∨
    ∃ evicted buffer, f.buffer = evicted :: buffer ∧ f.buffer.length = N ∧
      (f.add a).1 = ⟨buffer ++ [a], (insert a f.filter).erase evicted⟩ := by
  have hnew : a ∉ f.filter := fun hmem => ha (h.listed a hmem)
  have hle := h.length_le
  unfold CircularFilter.add
  rw [if_neg hnew]
  by_cases hlt : f.buffer.length < N
  · exact .inl ⟨hlt, by rw [if_pos hlt]⟩
  · right
    rw [if_neg hlt]
    cases hbuffer : f.buffer with
    | nil =>
      rw [hbuffer] at hlt
      exact absurd hN hlt
    | cons evicted buffer =>
      rw [hbuffer] at hlt hle
      exact ⟨evicted, buffer, rfl, by omega, rfl⟩

theorem Tidy.add {f : CircularFilter N T} (h : f.Tidy) {a : T} (ha : a ∉ f.buffer) (hN : 0 < N) :
    (f.add a).1.Tidy := by
  have hnodup := h.nodup
  rcases h.add_cases ha hN with ⟨hlt, heq⟩ | ⟨evicted, buffer, hbuffer, hlength, heq⟩
  · rw [heq]
    refine ⟨hnodup.append (List.nodup_singleton a) (by simpa using ha), ?_, ?_⟩
    rotate_left
    · rw [List.length_append]
      exact hlt
    intro b hb
    rcases Finset.mem_insert.mp hb with rfl | hb
    · simp
    · exact List.mem_append_left _ (h.listed b hb)
  · rw [heq]
    rw [hbuffer] at ha hnodup hlength
    have hrest := (List.nodup_cons.mp hnodup).2
    refine ⟨hrest.append (List.nodup_singleton a) ?_, ?_, by simpa using hlength.le⟩
    · simpa using fun hmem => ha (List.mem_cons_of_mem _ hmem)
    · intro b hb
      obtain ⟨hne, hb⟩ := Finset.mem_erase.mp hb
      rcases Finset.mem_insert.mp hb with rfl | hb
      · simp
      · have hmem := h.listed b hb
        rw [hbuffer] at hmem
        exact List.mem_append_left _ ((List.mem_cons.mp hmem).resolve_left hne)

theorem Tidy.add_last {f : CircularFilter N T} (h : f.Tidy) {a : T} (ha : a ∉ f.buffer)
    (hN : 0 < N) : a ∈ (f.add a).1.filter ∧ ∃ front, (f.add a).1.buffer = front ++ [a] := by
  rcases h.add_cases ha hN with ⟨-, heq⟩ | ⟨evicted, buffer, hbuffer, -, heq⟩
  · rw [heq]
    exact ⟨Finset.mem_insert_self _ _, f.buffer, rfl⟩
  · rw [heq]
    refine ⟨Finset.mem_erase.mpr ⟨?_, Finset.mem_insert_self _ _⟩, buffer, rfl⟩
    rintro rfl
    exact ha (by rw [hbuffer]; simp)

/-- A new element is put after all that the buffer has, of which the first may go. -/
theorem Tidy.add_keeps {f : CircularFilter N T} (h : f.Tidy) {a b : T} (ha : a ∉ f.buffer)
    {front back : List T} (hbuffer : f.buffer = front ++ b :: back) (hb : b ∈ f.filter) :
    (b ∈ (f.add a).1.filter ∧ ∃ front', (f.add a).1.buffer = front' ++ b :: (back ++ [a])) ∨
      back.length + 1 = N := by
  have hN : 0 < N := by
    have hle := h.length_le
    rw [hbuffer, List.length_append, List.length_cons] at hle
    omega
  rcases h.add_cases ha hN with ⟨-, heq⟩ | ⟨evicted, buffer, hbuffer', hlength, heq⟩
  · left
    rw [heq, hbuffer]
    exact ⟨Finset.mem_insert_of_mem hb, front, by simp⟩
  · rw [hbuffer] at hbuffer'
    cases front with
    | nil =>
      right
      rw [hbuffer] at hlength
      simpa using hlength
    | cons first front =>
      left
      obtain ⟨rfl, rfl⟩ := List.cons.inj hbuffer'
      rw [heq]
      refine ⟨Finset.mem_erase.mpr ⟨?_, Finset.mem_insert_of_mem hb⟩, front, by simp⟩
      rintro rfl
      have hnodup := h.nodup
      rw [hbuffer] at hnodup
      exact (List.nodup_cons.mp hnodup).1 (by simp)

end CircularFilter

end UtxoMonitor
