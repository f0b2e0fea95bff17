import Mathlib.Logic.Function.Basic
import UtxoMonitor.Lib.Table

/-! Programs that run inside a database transaction, as the get, put and delete calls they make,
and what such a program does when it runs alone. -/
namespace Lib

/-- A database: one table for each column family. -/
abbrev Db (C α V : Type) [Ord α] := C → Table α V

namespace Db

variable {C α V : Type} [DecidableEq C] [Ord α] [Std.TransOrd α]

def put (db : Db C α V) (c : C) (k : List α) (v : V) : Db C α V :=
  Function.update db c ((db c).insert k v)

def delete (db : Db C α V) (c : C) (k : List α) : Db C α V :=
  Function.update db c ((db c).erase k)

theorem put_other (db : Db C α V) {c d : C} (k : List α) (v : V) (h : d ≠ c) :
    db.put c k v d = db d := by
  simp [put, h]

theorem delete_other (db : Db C α V) {c d : C} (k : List α) (h : d ≠ c) :
    db.delete c k d = db d := by
  simp [delete, h]

variable [Std.LawfulEqOrd α] [DecidableEq α]

theorem getElem?_put (db : Db C α V) (c d : C) (k a : List α) (v : V) :
    (db.put c k v d)[a]? = if d = c ∧ a = k then some v else (db d)[a]? := by
  by_cases hc : d = c
  · subst hc
    simp only [put, Function.update_self, Table.getElem?_insert_iff, true_and, eq_comm]
  · simp [put, hc]

theorem getElem?_delete (db : Db C α V) (c d : C) (k a : List α) :
    (db.delete c k d)[a]? = if d = c ∧ a = k then none else (db d)[a]? := by
  by_cases hc : d = c
  · subst hc
    simp only [delete, Function.update_self, Table.getElem?_erase_iff, true_and, eq_comm]
  · simp [delete, hc]

theorem mem_put (db : Db C α V) (c d : C) (k a : List α) (v : V) :
    a ∈ db.put c k v d ↔ (d = c ∧ a = k) ∨ a ∈ db d := by
  rw [Std.ExtTreeMap.mem_iff_isSome_getElem?, getElem?_put, Std.ExtTreeMap.mem_iff_isSome_getElem?]
  split <;> simp_all

theorem mem_delete (db : Db C α V) (c d : C) (k a : List α) :
    a ∈ db.delete c k d ↔ ¬ (d = c ∧ a = k) ∧ a ∈ db d := by
  rw [Std.ExtTreeMap.mem_iff_isSome_getElem?, getElem?_delete,
    Std.ExtTreeMap.mem_iff_isSome_getElem?]
  split <;> simp_all

end Db

/-- A transactional program over column families `C`, keys over `α` and values `V`. -/
inductive TxProg (C α V A : Type) where
  | done (a : A)
  | get (c : C) (k : List α) (next : Option V → TxProg C α V A)
  | put (c : C) (k : List α) (v : V) (next : TxProg C α V A)
  | delete (c : C) (k : List α) (next : TxProg C α V A)

namespace TxProg

variable {C α V A B : Type}

def bind : TxProg C α V A → (A → TxProg C α V B) → TxProg C α V B
  | done a, f => f a
  | get c k next, f => get c k fun v => (next v).bind f
  | put c k v next, f => put c k v (next.bind f)
  | delete c k next, f => delete c k (next.bind f)

instance : Monad (TxProg C α V) where
  pure := done
  bind := bind

@[simp] theorem pure_eq (a : A) : (pure a : TxProg C α V A) = done a := rfl

@[simp] theorem bind_eq (p : TxProg C α V A) (f : A → TxProg C α V B) : p >>= f = p.bind f := rfl

theorem bind_assoc {D : Type} (p : TxProg C α V A) (f : A → TxProg C α V B)
    (g : B → TxProg C α V D) : (p.bind f).bind g = p.bind fun a => (f a).bind g := by
  induction p with
  | done a => rfl
  | get c k next ih => exact congrArg (get c k) (funext ih)
  | put c k v next ih => exact congrArg (put c k v) ih
  | delete c k next ih => exact congrArg (delete c k) ih

theorem bind_done (p : TxProg C α V A) : p.bind done = p := by
  induction p with
  | done a => rfl
  | get c k next ih => exact congrArg (get c k) (funext ih)
  | put c k v next ih => exact congrArg (put c k v) ih
  | delete c k next ih => exact congrArg (delete c k) ih

instance : LawfulMonad (TxProg C α V) :=
  LawfulMonad.mk' _ bind_done (fun _ _ => rfl) bind_assoc

def getCf (c : C) (k : List α) : TxProg C α V (Option V) := get c k done

def putCf (c : C) (k : List α) (v : V) : TxProg C α V Unit := put c k v (done ())

def deleteCf (c : C) (k : List α) : TxProg C α V Unit := delete c k (done ())

section Exec

variable [DecidableEq C] [Ord α] [Std.TransOrd α]

/-- The result of a program that runs alone and the database after its commit. -/
def exec : TxProg C α V A → Db C α V → A × Db C α V
  | done a, db => (a, db)
  | get c k next, db => (next (db c)[k]?).exec db
  | put c k v next, db => next.exec (db.put c k v)
  | delete c k next, db => next.exec (db.delete c k)

def run (p : TxProg C α V A) (db : Db C α V) : Db C α V := (p.exec db).2

@[simp] theorem exec_bind (p : TxProg C α V A) (f : A → TxProg C α V B) (db : Db C α V) :
    (p.bind f).exec db = (f (p.exec db).1).exec (p.exec db).2 := by
  induction p generalizing db with
  | done a => rfl
  | get c k next ih => exact ih _ _
  | put c k v next ih => exact ih _
  | delete c k next ih => exact ih _

@[simp] theorem exec_done (a : A) (db : Db C α V) :
    (done a : TxProg C α V A).exec db = (a, db) := rfl

@[simp] theorem run_done (a : A) (db : Db C α V) : (done a : TxProg C α V A).run db = db := rfl

@[simp] theorem run_bind (p : TxProg C α V A) (f : A → TxProg C α V B) (db : Db C α V) :
    (p.bind f).run db = (f (p.exec db).1).run (p.run db) := by
  simp [run]

@[simp] theorem exec_getCf (c : C) (k : List α) (db : Db C α V) :
    (getCf c k : TxProg C α V _).exec db = ((db c)[k]?, db) := rfl

@[simp] theorem run_getCf (c : C) (k : List α) (db : Db C α V) :
    (getCf c k : TxProg C α V _).run db = db := rfl

@[simp] theorem run_putCf (c : C) (k : List α) (v : V) (db : Db C α V) :
    (putCf c k v).run db = db.put c k v := rfl

@[simp] theorem run_deleteCf (c : C) (k : List α) (db : Db C α V) :
    (deleteCf c k : TxProg C α V Unit).run db = db.delete c k := rfl

theorem run_forM {X : Type} (xs : List X) (f : X → TxProg C α V PUnit) (db : Db C α V) :
    (xs.forM f).run db = xs.foldl (fun db x => (f x).run db) db := by
  induction xs generalizing db with
  | nil => rfl
  | cons x xs ih =>
    change ((f x).bind fun _ => xs.forM f).run db = _
    rw [run_bind, ih]
    rfl

end Exec

end TxProg

end Lib
