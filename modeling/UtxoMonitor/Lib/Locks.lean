import Mathlib.Data.Fintype.Basic
import Mathlib.Logic.Hydra

/-! Programs that run side by side over a shared state and lock parts of it: how they may block each
other, and that each run of them ends. -/
namespace Lib

/-- A program over a state `S` that it shares, of which it locks the parts `L`. -/
inductive LockProg (L S A : Type) where
  | done (a : A)
  | lock (l : L) (next : LockProg L S A)
  | unlock (l : L) (next : LockProg L S A)
  /-- Changes the state, and goes on with what it was. -/
  | access (f : S → S) (next : S → LockProg L S A)

namespace LockProg

variable {L S A B : Type}

protected def bind : LockProg L S A → (A → LockProg L S B) → LockProg L S B
  | done a, k => k a
  | lock l next, k => lock l (next.bind k)
  | unlock l next, k => unlock l (next.bind k)
  | access f next, k => access f fun s => (next s).bind k

instance : Monad (LockProg L S) where
  pure := done
  bind := LockProg.bind

def acquire (l : L) : LockProg L S Unit := lock l (done ())

def release (l : L) : LockProg L S Unit := unlock l (done ())

def read (f : S → A) : LockProg L S A := access id fun s => done (f s)

/-- Changes the state, and has a result that depends on what it was. -/
def update (f : S → A × S) : LockProg L S A := access (fun s => (f s).2) fun s => done (f s).1

@[simp] theorem pure_eq (a : A) : (pure a : LockProg L S A) = done a := rfl

@[simp] theorem bind_eq (p : LockProg L S A) (k : A → LockProg L S B) : p >>= k = p.bind k := rfl

/-- What the program does that runs alone. -/
def run : LockProg L S A → S → A × S
  | done a, s => (a, s)
  | lock _ next, s => next.run s
  | unlock _ next, s => next.run s
  | access f next, s => (next s).run (f s)

variable {p : LockProg L S A} {k : A → LockProg L S B} {s : S} {l : L}

@[simp] theorem run_done (a : A) : (done a : LockProg L S A).run s = (a, s) := rfl

@[simp] theorem run_acquire : (acquire l : LockProg L S Unit).run s = ((), s) := rfl

@[simp] theorem run_release : (release l : LockProg L S Unit).run s = ((), s) := rfl

@[simp] theorem run_read (f : S → A) : (read f : LockProg L S A).run s = (f s, s) := rfl

@[simp] theorem run_update (f : S → A × S) : (update f : LockProg L S A).run s = f s := rfl

@[simp] theorem run_bind : (p.bind k).run s = (k (p.run s).1).run (p.run s).2 := by
  induction p generalizing s with
  | done a => rfl
  | lock l next ih => exact ih
  | unlock l next ih => exact ih
  | access f next ih => exact ih s

/-- A program goes on with one of these. -/
inductive Next : LockProg L S A → LockProg L S A → Prop where
  | lock (l : L) (next : LockProg L S A) : Next next (lock l next)
  | unlock (l : L) (next : LockProg L S A) : Next next (unlock l next)
  | access (f : S → S) (next : S → LockProg L S A) (s : S) : Next (next s) (access f next)

theorem next_wf : WellFounded (Next (L := L) (S := S) (A := A)) := by
  constructor
  intro p
  induction p with
  | done a =>
    constructor
    intro q hq
    cases hq
  | lock l next ih =>
    constructor
    intro q hq
    cases hq
    exact ih
  | unlock l next ih =>
    constructor
    intro q hq
    cases hq
    exact ih
  | access f next ih =>
    constructor
    intro q hq
    cases hq with
    | access _ _ s => exact ih s

variable [DecidableEq L]

/-- Holding `held` the program waits for `l` only if `ok held l`; it releases what it holds, and when it
is done, `post` holds of its result and of what it still holds. -/
def Keeps (ok : List L → L → Prop) (post : A → List L → Prop) : LockProg L S A → List L → Prop
  | done a, held => post a held
  | lock l next, held => ok held l ∧ Keeps ok post next (l :: held)
  | unlock l next, held => l ∈ held ∧ Keeps ok post next (held.erase l)
  | access _ next, held => ∀ s, Keeps ok post (next s) held

variable {ok : List L → L → Prop} {mid : A → List L → Prop} {post : B → List L → Prop} {held : List L}

theorem Keeps.bind (hp : Keeps ok mid p held)
    (hk : ∀ a held, mid a held → Keeps ok post (k a) held) : Keeps ok post (p.bind k) held := by
  induction p generalizing held with
  | done a => exact hk a held hp
  | lock l next ih => exact ⟨hp.1, ih hp.2⟩
  | unlock l next ih => exact ⟨hp.1, ih hp.2⟩
  | access f next ih => exact fun s => ih s (hp s)

theorem keeps_release_both {l l' : L} : Keeps ok (fun _ held => held = [])
    (do release l; release l' : LockProg L S Unit) [l, l'] := by
  refine ⟨List.mem_cons_self, ?_⟩
  rw [List.erase_cons_head]
  exact ⟨List.mem_cons_self, List.erase_cons_head _ _⟩

end LockProg

/-! ### Tasks -/

open LockProg

/-- A task holds locks, and has some of its program left. -/
structure LockTask (L S A : Type) where
  held : List L
  rest : LockProg L S A

structure Tasks (I L S A : Type) where
  shared : S
  tasks : I → LockTask L S A

namespace Tasks

variable {I L S A : Type} [DecidableEq I] [DecidableEq L]

/-- Task `i` takes its next step. It waits for a lock as long as someone holds it. -/
inductive Step (i : I) (s : Tasks I L S A) : Tasks I L S A → Prop where
  | lock {l : L} {next : LockProg L S A} (hrest : (s.tasks i).rest = .lock l next)
    (hfree : ∀ j, l ∉ (s.tasks j).held) :
    Step i s { s with tasks := Function.update s.tasks i ⟨l :: (s.tasks i).held, next⟩ }
  | unlock {l : L} {next : LockProg L S A} (hrest : (s.tasks i).rest = .unlock l next) :
    Step i s { s with tasks := Function.update s.tasks i ⟨(s.tasks i).held.erase l, next⟩ }
  | access {f : S → S} {next : S → LockProg L S A} (hrest : (s.tasks i).rest = .access f next) :
    Step i s ⟨f s.shared, Function.update s.tasks i ⟨(s.tasks i).held, next s.shared⟩⟩

/-- Some task takes a step. -/
def Steps (s t : Tasks I L S A) : Prop := ∃ i, Step i s t

abbrev Reaches : Tasks I L S A → Tasks I L S A → Prop := Relation.ReflTransGen Steps

def start (shared : S) (progs : I → LockProg L S A) : Tasks I L S A where
  shared := shared
  tasks i := ⟨[], progs i⟩

/-- Task `i` has to take the lock next. -/
def Waits (s : Tasks I L S A) (i : I) (l : L) : Prop := ∃ next, (s.tasks i).rest = .lock l next

def Finished (s : Tasks I L S A) (i : I) : Prop := ∃ a, (s.tasks i).rest = .done a

variable {s t : Tasks I L S A} {i j : I} {l : L} {ok : I → List L → L → Prop}

theorem tasks_of_step (h : Step i s t) (hne : j ≠ i) : t.tasks j = s.tasks j := by
  cases h with
  | lock => exact Function.update_of_ne hne _ _
  | unlock => exact Function.update_of_ne hne _ _
  | access => exact Function.update_of_ne hne _ _

theorem next_of_step (h : Step i s t) : Next (t.tasks i).rest (s.tasks i).rest := by
  cases h with
  | lock hrest =>
    rw [hrest]
    simp only [Function.update_self]
    exact .lock _ _
  | unlock hrest =>
    rw [hrest]
    simp only [Function.update_self]
    exact .unlock _ _
  | access hrest =>
    rw [hrest]
    simp only [Function.update_self]
    exact .access _ _ _

/-- A task that is not finished takes a step, or waits for a lock that is taken. -/
theorem blocked_of_stuck (hstuck : ¬ ∃ t, Step i s t) (hfinished : ¬ Finished s i) :
    ∃ l j, Waits s i l ∧ l ∈ (s.tasks j).held := by
  cases hrest : (s.tasks i).rest with
  | done a => exact absurd ⟨a, hrest⟩ hfinished
  | lock l next =>
    by_contra hfree
    refine hstuck ⟨_, .lock hrest fun j hj => hfree ⟨l, j, ⟨next, hrest⟩, hj⟩⟩
  | unlock l next => exact absurd ⟨_, .unlock hrest⟩ hstuck
  | access f next => exact absurd ⟨_, .access hrest⟩ hstuck

/-- A task that waits for a lock that another holds waits as long as that one holds it. -/
theorem waits_of_step (hwaits : Waits s i l) (hheld : l ∈ (s.tasks j).held) (h : Steps s t) :
    t.tasks i = s.tasks i := by
  obtain ⟨k, h⟩ := h
  by_cases hk : i = k
  · subst hk
    obtain ⟨next, hnext⟩ := hwaits
    cases h with
    | lock hrest hfree =>
      rw [hnext] at hrest
      cases hrest
      exact absurd hheld (hfree j)
    | unlock hrest =>
      rw [hnext] at hrest
      cases hrest
    | access hrest =>
      rw [hnext] at hrest
      cases hrest
  · exact tasks_of_step h hk

/-! ### What every run keeps -/

/-- The tasks take locks in the order that is allowed to each, and hold none in the end. -/
def Sound (ok : I → List L → L → Prop) (s : Tasks I L S A) : Prop :=
  ∀ i, Keeps (ok i) (fun _ held => held = []) (s.tasks i).rest (s.tasks i).held

omit [DecidableEq I] in
theorem sound_start {shared : S} {progs : I → LockProg L S A}
    (h : ∀ i, Keeps (ok i) (fun _ held => held = []) (progs i) []) : Sound ok (start shared progs) := h

theorem Sound.step (h : Sound ok s) (hstep : Step i s t) : Sound ok t := by
  intro j
  by_cases hj : j = i
  · subst hj
    have hi := h j
    cases hstep with
    | lock hrest hfree =>
      rw [hrest] at hi
      simpa only [Function.update_self] using hi.2
    | unlock hrest =>
      rw [hrest] at hi
      simpa only [Function.update_self] using hi.2
    | access hrest =>
      rw [hrest] at hi
      simpa only [Function.update_self] using hi s.shared
  · rw [tasks_of_step hstep hj]
    exact h j

theorem Sound.reaches (h : Sound ok s) (hreaches : Reaches s t) : Sound ok t := by
  induction hreaches with
  | refl => exact h
  | tail _ hstep ih =>
    obtain ⟨i, hstep⟩ := hstep
    exact ih.step hstep

omit [DecidableEq I] in
theorem Sound.held_of_finished (h : Sound ok s) (hfinished : Finished s i) :
    (s.tasks i).held = [] := by
  obtain ⟨a, ha⟩ := hfinished
  have hi := h i
  rw [ha] at hi
  exact hi

omit [DecidableEq I] in
theorem Sound.ok_of_waits (h : Sound ok s) (hwaits : Waits s i l) : ok i (s.tasks i).held l := by
  obtain ⟨next, hnext⟩ := hwaits
  have hi := h i
  rw [hnext] at hi
  exact hi.1

/-- Whoever holds a lock when nothing moves waits for one himself. -/
theorem Sound.waits_of_holds (h : Sound ok s) (hstuck : ¬ ∃ t, Steps s t)
    (hheld : l ∈ (s.tasks i).held) :
    ∃ l' j, Waits s i l' ∧ ok i (s.tasks i).held l' ∧ l' ∈ (s.tasks j).held := by
  have hfinished : ¬ Finished s i := by
    intro hfinished
    rw [h.held_of_finished hfinished] at hheld
    cases hheld
  obtain ⟨l', j, hwaits, hj⟩ := blocked_of_stuck (fun ⟨t, ht⟩ => hstuck ⟨t, i, ht⟩) hfinished
  exact ⟨l', j, hwaits, h.ok_of_waits hwaits, hj⟩

/-- A task goes through its program when no other holds a lock, and does what it does alone. -/
theorem reaches_run (hnew : ∀ held l, ok i held l → l ∉ held)
    (hfree : ∀ j, j ≠ i → (s.tasks j).held = [])
    (hkeeps : Keeps (ok i) (fun _ held => held = []) (s.tasks i).rest (s.tasks i).held) :
    Reaches s ⟨((s.tasks i).rest.run s.shared).2,
      Function.update s.tasks i ⟨[], .done ((s.tasks i).rest.run s.shared).1⟩⟩ := by
  generalize hrest : (s.tasks i).rest = rest at hkeeps ⊢
  generalize hheld : (s.tasks i).held = held at hkeeps
  induction rest generalizing s held with
  | done a =>
    obtain rfl : held = [] := hkeeps
    have htask : s.tasks i = ⟨[], .done a⟩ := by rw [← hheld, ← hrest]
    rw [run_done, ← htask, Function.update_eq_self]
  | lock l next ih =>
    have hunlocked : ∀ j, l ∉ (s.tasks j).held := by
      intro j
      by_cases hj : j = i
      · subst hj
        rw [hheld]
        exact hnew _ _ hkeeps.1
      · rw [hfree j hj]
        exact List.not_mem_nil
    have hstep : Steps s _ := ⟨i, .lock hrest hunlocked⟩
    refine .head hstep ?_
    have hnext := ih (s := { s with tasks := Function.update s.tasks i ⟨l :: (s.tasks i).held, next⟩ })
      (fun j hj => by simpa only [Function.update_of_ne hj] using hfree j hj)
      (by simp only [Function.update_self]) (l :: held) (by simp only [Function.update_self, hheld])
      hkeeps.2
    rw [Function.update_idem] at hnext
    exact hnext
  | unlock l next ih =>
    have hstep : Steps s _ := ⟨i, .unlock hrest⟩
    refine .head hstep ?_
    have hnext := ih
      (s := { s with tasks := Function.update s.tasks i ⟨(s.tasks i).held.erase l, next⟩ })
      (fun j hj => by simpa only [Function.update_of_ne hj] using hfree j hj)
      (by simp only [Function.update_self]) (held.erase l)
      (by simp only [Function.update_self, hheld]) hkeeps.2
    rw [Function.update_idem] at hnext
    exact hnext
  | access f next ih =>
    have hstep : Steps s _ := ⟨i, .access hrest⟩
    refine .head hstep ?_
    have hnext := ih s.shared
      (s := ⟨f s.shared, Function.update s.tasks i ⟨(s.tasks i).held, next s.shared⟩⟩)
      (fun j hj => by simpa only [Function.update_of_ne hj] using hfree j hj)
      (by simp only [Function.update_self]) held (by simp only [Function.update_self, hheld])
      (hkeeps s.shared)
    rw [Function.update_idem] at hnext
    exact hnext

/-! ### Runs end -/

/-- What is left of the programs of the other tasks. -/
theorem rests_of_step [Fintype I] (h : Step i s t) : ∃ others : Multiset (LockProg L S A),
    Finset.univ.val.map (fun j => (s.tasks j).rest) = (s.tasks i).rest ::ₘ others ∧
      Finset.univ.val.map (fun j => (t.tasks j).rest) = (t.tasks i).rest ::ₘ others := by
  have hmem : i ∈ (Finset.univ : Finset I).val := Finset.mem_univ i
  have hsplit : (Finset.univ : Finset I).val = i ::ₘ (Finset.univ : Finset I).val.erase i :=
    (Multiset.cons_erase hmem).symm
  refine ⟨((Finset.univ : Finset I).val.erase i).map fun j => (s.tasks j).rest, ?_, ?_⟩
  · conv_lhs => rw [hsplit, Multiset.map_cons]
  · conv_lhs => rw [hsplit, Multiset.map_cons]
    congr 1
    apply Multiset.map_congr rfl
    intro j hj
    have hne : j ≠ i := ((Finset.univ : Finset I).nodup.mem_erase_iff.mp hj).1
    rw [tasks_of_step h hne]

/-- No run goes on for ever. -/
theorem acc_steps [Finite I] (s : Tasks I L S A) : Acc (fun t s : Tasks I L S A => Steps s t) s := by
  have := Fintype.ofFinite I
  have := (next_wf (L := L) (S := S) (A := A)).irrefl
  have hwf := (next_wf (L := L) (S := S) (A := A)).cutExpand
  let rests (s : Tasks I L S A) := (Finset.univ : Finset I).val.map fun j => (s.tasks j).rest
  have hsub : ∀ {t s : Tasks I L S A}, Steps s t → Relation.CutExpand Next (rests t) (rests s) := by
    rintro t s ⟨i, hstep⟩
    obtain ⟨others, hs, ht⟩ := rests_of_step hstep
    simp only [rests]
    rw [hs, ht, ← Multiset.singleton_add, ← Multiset.singleton_add]
    exact Relation.cutExpand_single_add (next_of_step hstep) others
  exact Subrelation.accessible hsub (InvImage.accessible rests (hwf.apply _))

end Tasks

end Lib
