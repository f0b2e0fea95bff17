import UtxoMonitor.Lib.Transaction

/-! Two transactions that run at the same time. A read takes no lock and sees the latest committed
value or a write of its own transaction; a write locks its key until the commit, which is atomic. -/
namespace Lib

variable {C α V : Type}

/-- A buffered write: a value to put, or `none` to delete the key. -/
structure Write (C α V : Type) where
  cf : C
  key : List α
  value : Option V

inductive Party (C α V : Type) where
  | running (prog : TxProg C α V Unit) (writes : List (Write C α V)) (reads : Nat)
  | committed

instance : (party : Party C α V) → Decidable (party = .committed)
  | .committed => .isTrue rfl
  | .running _ _ _ => .isFalse nofun

inductive Side where
  | left
  | right
deriving DecidableEq

def Side.other : Side → Side
  | left => right
  | right => left

@[simp] theorem Side.other_other (i : Side) : i.other.other = i := by cases i <;> rfl

@[simp] theorem Side.other_ne (i : Side) : i.other ≠ i := by cases i <;> simp [other]

theorem Side.eq_other {i j : Side} (h : j ≠ i) : j = i.other := by
  cases i <;> cases j <;> simp_all [other]

/-- The committed database and the two transactions over it. -/
structure Pair (C α V : Type) [Ord α] where
  db : Db C α V
  parties : Side → Party C α V

def Party.reads : Party C α V → Nat
  | running _ _ reads => reads
  | committed => 0

def Party.Commits : Party C α V → Bool
  | running (.done _) _ _ => true
  | _ => false

section Semantics

variable [DecidableEq C] [Ord α] [Std.TransOrd α]

def Db.write (db : Db C α V) (w : Write C α V) : Db C α V :=
  match w.value with
  | some v => db.put w.cf w.key v
  | none => db.delete w.cf w.key

def Db.commit (db : Db C α V) (ws : List (Write C α V)) : Db C α V := ws.foldl Db.write db

@[simp] theorem Db.commit_nil (db : Db C α V) : db.commit [] = db := rfl

@[simp] theorem Db.commit_concat (db : Db C α V) (ws : List (Write C α V)) (w : Write C α V) :
    db.commit (ws ++ [w]) = (db.commit ws).write w := by
  simp [commit]

variable [DecidableEq α]

def Party.locks (c : C) (k : List α) : Party C α V → Bool
  | running _ ws _ => ws.any fun w => w.cf = c ∧ w.key = k
  | committed => false

/-- One step of a transaction beside another one; none while the other one holds the lock it needs
and after the commit. -/
def Party.step (party other : Party C α V) (db : Db C α V) :
    Option (Db C α V × Party C α V) :=
  match party with
  | running (.done _) ws _ => some (db.commit ws, committed)
  | running (.get c k next) ws reads =>
    some (db, running (next (db.commit ws c)[k]?) ws (reads + 1))
  | running (.put c k v next) ws reads =>
    if other.locks c k then none else some (db, running next (ws ++ [⟨c, k, some v⟩]) reads)
  | running (.delete c k next) ws reads =>
    if other.locks c k then none else some (db, running next (ws ++ [⟨c, k, none⟩]) reads)
  | committed => none

namespace Pair

def start (db : Db C α V) (progs : Side → TxProg C α V Unit) : Pair C α V :=
  ⟨db, fun i => .running (progs i) [] 0⟩

def step (s : Pair C α V) (i : Side) : Option (Pair C α V) :=
  ((s.parties i).step (s.parties i.other) s.db).map fun (db, party) =>
    ⟨db, Function.update s.parties i party⟩

/-- The state after the given sides have made a step each, if all of these steps were possible. -/
def run (s : Pair C α V) : List Side → Option (Pair C α V)
  | [] => some s
  | i :: schedule => (s.step i).bind fun s => s.run schedule

/-- Who commits first, and how many reads the other transaction has made by then. -/
def firstCommit (s : Pair C α V) : List Side → Option (Side × Nat)
  | [] => none
  | i :: schedule =>
    if (s.parties i).Commits then some (i, (s.parties i.other).reads)
    else (s.step i).bind fun s => s.firstCommit schedule

end Pair

end Semantics

/-! ### What an interleaving amounts to -/

namespace TxProg

variable {A B : Type}

/-- A program that writes only. -/
inductive Blind : TxProg C α V A → Prop where
  | done (a : A) : Blind (done a)
  | put (c : C) (k : List α) (v : V) {next : TxProg C α V A} : Blind next → Blind (put c k v next)
  | delete (c : C) (k : List α) {next : TxProg C α V A} : Blind next → Blind (delete c k next)

theorem Blind.bind {p : TxProg C α V A} {f : A → TxProg C α V B} (hp : Blind p)
    (hf : ∀ a, Blind (f a)) : Blind (p.bind f) := by
  induction hp with
  | done a => exact hf a
  | put c k v _ ih => exact .put c k v ih
  | delete c k _ ih => exact .delete c k ih

theorem Blind.forM {X : Type} {xs : List X} {f : X → TxProg C α V PUnit}
    (hf : ∀ x, Blind (f x)) : Blind (xs.forM f) := by
  induction xs with
  | nil => exact .done _
  | cons x xs ih => exact (hf x).bind fun _ => ih

end TxProg

section Resume

variable [DecidableEq C] [Ord α] [Std.TransOrd α] {A B : Type}

namespace TxProg

/-- A program whose first reads see one database and whose later reads see another, its own writes
in both: what it makes of the second one. -/
def resume : TxProg C α V A → Nat → Db C α V → Db C α V → Db C α V
  | done _, _, _, new => new
  | get c k next, 0, old, new => (next (new c)[k]?).resume 0 old new
  | get c k next, n + 1, old, new => (next (old c)[k]?).resume n old new
  | put c k v next, n, old, new => next.resume n (old.put c k v) (new.put c k v)
  | delete c k next, n, old, new => next.resume n (old.delete c k) (new.delete c k)

@[simp] theorem resume_zero (p : TxProg C α V A) (old new : Db C α V) :
    p.resume 0 old new = p.run new := by
  induction p generalizing old new with
  | done a => rfl
  | get c k next ih => exact ih _ _ _
  | put c k v next ih => exact ih _ _
  | delete c k next ih => exact ih _ _

@[simp] theorem resume_self (p : TxProg C α V A) (n : Nat) (db : Db C α V) :
    p.resume n db db = p.run db := by
  induction p generalizing n db with
  | done a => rfl
  | get c k next ih =>
    cases n with
    | zero => exact ih _ _ _
    | succ n => exact ih _ _ _
  | put c k v next ih => exact ih _ _
  | delete c k next ih => exact ih _ _

/-- Writing leaves both databases written. -/
theorem Blind.resume_bind {p : TxProg C α V Unit} (hp : Blind p) (f : Unit → TxProg C α V B)
    (n : Nat) (old new : Db C α V) :
    (p.bind f).resume n old new = (f ()).resume n (p.run old) (p.run new) := by
  induction hp generalizing old new with
  | done a => rfl
  | put c k v _ ih => exact ih _ _
  | delete c k _ ih => exact ih _ _

end TxProg

/-- A transaction that began as `p₀` over `db` has made `reads` reads of it, with the writes `ws`
buffered and `p` left to run. -/
def Tracks (p₀ : TxProg C α V Unit) (db : Db C α V) (p : TxProg C α V Unit)
    (ws : List (Write C α V)) (reads : Nat) : Prop :=
  ∀ n new, p₀.resume (reads + n) db new = p.resume n (db.commit ws) (new.commit ws)

theorem Tracks.start (p₀ : TxProg C α V Unit) (db : Db C α V) : Tracks p₀ db p₀ [] 0 := by
  intro n new
  rw [Nat.zero_add, Db.commit_nil, Db.commit_nil]

theorem Tracks.step {p₀ p p' : TxProg C α V Unit} {db : Db C α V} {ws ws' : List (Write C α V)}
    {reads m : Nat} (h : Tracks p₀ db p ws reads)
    (hstep : ∀ (n : Nat) (new : Db C α V), p.resume (m + n) (db.commit ws) (new.commit ws) =
      p'.resume n (db.commit ws') (new.commit ws')) : Tracks p₀ db p' ws' (reads + m) := by
  intro n new
  rw [Nat.add_assoc, h, hstep]

/-- A transaction alone on the database leaves what its program makes of it. -/
theorem Tracks.run {p₀ p : TxProg C α V Unit} {db : Db C α V} {ws : List (Write C α V)}
    {reads : Nat} (h : Tracks p₀ db p ws reads) : p.run (db.commit ws) = p₀.run db := by
  have hself := h 0 db
  rw [TxProg.resume_self, TxProg.resume_self] at hself
  exact hself.symm

variable [DecidableEq α]

/-- A step commits the writes or leaves the database and goes on with the rest of the program. -/
theorem Party.step_cases {p : TxProg C α V Unit} {db db' : Db C α V} {ws : List (Write C α V)}
    {reads : Nat} {other party : Party C α V}
    (hstep : (running p ws reads).step other db = some (db', party)) :
    (p = .done () ∧ db' = db.commit ws ∧ party = committed) ∨
    ((running p ws reads).Commits = false ∧ db' = db ∧
      ∃ p' ws' m, party = running p' ws' (reads + m) ∧ ∀ (n : Nat) (new : Db C α V),
        p.resume (m + n) (db.commit ws) (new.commit ws) =
          p'.resume n (db.commit ws') (new.commit ws')) := by
  cases p with
  | done a =>
    obtain ⟨rfl, rfl⟩ : db.commit ws = db' ∧ committed = party := by simpa [step] using hstep
    exact .inl ⟨rfl, rfl, rfl⟩
  | get c k next =>
    obtain ⟨rfl, rfl⟩ : db = db' ∧ running (next (db.commit ws c)[k]?) ws (reads + 1) = party := by
      simpa [step] using hstep
    refine .inr ⟨rfl, rfl, _, ws, 1, rfl, ?_⟩
    intro n new
    rw [Nat.add_comm]
    rfl
  | put c k v next =>
    obtain ⟨-, rfl, rfl⟩ : other.locks c k = false ∧ db = db' ∧
        running next (ws ++ [⟨c, k, some v⟩]) reads = party := by simpa [step] using hstep
    refine .inr ⟨rfl, rfl, next, _, 0, rfl, ?_⟩
    intro n new
    rw [Nat.zero_add, Db.commit_concat, Db.commit_concat]
    rfl
  | delete c k next =>
    obtain ⟨-, rfl, rfl⟩ : other.locks c k = false ∧ db = db' ∧
        running next (ws ++ [⟨c, k, none⟩]) reads = party := by simpa [step] using hstep
    refine .inr ⟨rfl, rfl, next, _, 0, rfl, ?_⟩
    intro n new
    rw [Nat.zero_add, Db.commit_concat, Db.commit_concat]
    rfl

namespace Pair

theorem step_eq_some {s s' : Pair C α V} {i : Side} (h : s.step i = some s') :
    (s.parties i).step (s.parties i.other) s.db = some (s'.db, s'.parties i) ∧
      s'.parties i.other = s.parties i.other := by
  obtain ⟨⟨db, party⟩, hstep, rfl⟩ := Option.map_eq_some_iff.mp h
  constructor
  · simpa using hstep
  · simp

theorem run_committed {s final : Pair C α V} (hs : ∀ i, s.parties i = .committed)
    {schedule : List Side} (hrun : s.run schedule = some final) : final = s := by
  cases schedule with
  | nil => exact (Option.some.inj hrun).symm
  | cons i schedule =>
    obtain ⟨s', hstep, -⟩ := Option.bind_eq_some_iff.mp hrun
    obtain ⟨hparty, -⟩ := step_eq_some hstep
    rw [hs i] at hparty
    cases hparty

/-- Once the first transaction has committed, the second one goes on alone. -/
theorem run_second {s final : Pair C α V} {i : Side} {schedule : List Side}
    {q : TxProg C α V Unit} {ws : List (Write C α V)} {reads : Nat}
    (hi : s.parties i = .committed) (hq : s.parties i.other = .running q ws reads)
    (hrun : s.run schedule = some final) (hdone : final.parties i.other = .committed) :
    final.db = q.run (s.db.commit ws) := by
  induction schedule generalizing s q ws reads with
  | nil =>
    obtain rfl := Option.some.inj hrun
    rw [hq] at hdone
    cases hdone
  | cons j schedule ih =>
    obtain ⟨s', hstep, hrest⟩ := Option.bind_eq_some_iff.mp hrun
    obtain ⟨hparty, hother⟩ := step_eq_some hstep
    by_cases hj : j = i
    · subst hj
      rw [hi] at hparty
      cases hparty
    · obtain rfl : j = i.other := Side.eq_other hj
      rw [Side.other_other] at hparty hother
      rw [hq] at hparty
      rcases Party.step_cases hparty with ⟨rfl, hdb, hc⟩ | ⟨-, hdb, q', ws', m, hc, hresume⟩
      · have hall : ∀ j, s'.parties j = .committed := fun j => by
          by_cases hj : j = i
          · rw [hj, hother, hi]
          · rw [Side.eq_other hj, hc]
        rw [run_committed hall hrest, hdb]
        rfl
      · have hself := hresume 0 s.db
        rw [TxProg.resume_self, TxProg.resume_self] at hself
        rw [hself, ih (hother.trans hi) hc hrest, hdb]

/-- Both transactions have committed: the first as if alone, the second with the reads it had made
until then from the database before the first one. -/
theorem run_eq_resume {db : Db C α V} {progs : Side → TxProg C α V Unit} {s final : Pair C α V}
    {schedule : List Side} (hdb : s.db = db)
    (htracks : ∀ i, ∃ p ws reads, s.parties i = .running p ws reads ∧
      Tracks (progs i) db p ws reads)
    (hrun : s.run schedule = some final) (hdone : ∀ i, final.parties i = .committed) :
    ∃ i n, s.firstCommit schedule = some (i, n) ∧
      final.db = (progs i.other).resume n db ((progs i).run db) := by
  induction schedule generalizing s with
  | nil =>
    obtain rfl := Option.some.inj hrun
    obtain ⟨p, ws, reads, hp, -⟩ := htracks .left
    rw [hdone] at hp
    cases hp
  | cons i schedule ih =>
    obtain ⟨s', hstep, hrest⟩ := Option.bind_eq_some_iff.mp hrun
    obtain ⟨hparty, hother⟩ := step_eq_some hstep
    obtain ⟨p, ws, reads, hp, htrack⟩ := htracks i
    obtain ⟨q, ws', reads', hq, htrack'⟩ := htracks i.other
    subst hdb
    rw [hp] at hparty
    rcases Party.step_cases hparty with ⟨rfl, hdb, hc⟩ | ⟨hc, hdb, p', ws₂, m, hp', hresume⟩
    · refine ⟨i, reads', ?_, ?_⟩
      · simp [firstCommit, hp, hq, Party.Commits, Party.reads]
      · have hsecond := htrack' 0 ((progs i).run s.db)
        have hfirst := htrack.run
        rw [TxProg.run_done] at hfirst
        rw [Nat.add_zero, TxProg.resume_zero] at hsecond
        rw [run_second hc (hother.trans hq) hrest (hdone _), hdb, hfirst, hsecond]
    · have htracks' : ∀ j, ∃ p ws reads, s'.parties j = .running p ws reads ∧
          Tracks (progs j) s.db p ws reads := by
        intro j
        by_cases hj : j = i
        · subst hj
          exact ⟨p', ws₂, _, hp', htrack.step hresume⟩
        · obtain rfl : j = i.other := Side.eq_other hj
          exact ⟨q, ws', reads', hother.trans hq, htrack'⟩
      obtain ⟨j, n, hfirst, hfinal⟩ := ih hdb htracks' hrest
      refine ⟨j, n, ?_, hfinal⟩
      simp [firstCommit, hp, hc, hstep, hfirst]

/-- A completed interleaving leaves what the transaction that commits second makes of the database
after the first one, if its reads before that commit see the database before both. -/
theorem run_start {db : Db C α V} {progs : Side → TxProg C α V Unit} {final : Pair C α V}
    {schedule : List Side} (hrun : (start db progs).run schedule = some final)
    (hdone : ∀ i, final.parties i = .committed) :
    ∃ i n, (start db progs).firstCommit schedule = some (i, n) ∧
      final.db = (progs i.other).resume n db ((progs i).run db) :=
  run_eq_resume rfl (fun _ => ⟨_, _, _, rfl, .start _ db⟩) hrun hdone

end Pair

end Resume

end Lib
