import UtxoMonitor.LiquidityBook.Types

/-! Entities that move from state to state on the ledger, and the news of them. -/
namespace UtxoMonitor.Domain

open LiquidityBook

/-! ### Entities -/

/-- A state of an entity. -/
class EntitySnapshot (T : Type) extends Stable T where
  Version : Type
  decEqVersion : DecidableEq Version
  version : T → Version
  /-- Whether confirmed states are kept whatever becomes of them. -/
  isQuasiPermanent : T → Bool

export EntitySnapshot (Version version isQuasiPermanent)

instance {T : Type} [EntitySnapshot T] : DecidableEq (Version T) := EntitySnapshot.decEqVersion

/-- Entities that trade on a pair. -/
class Tradable (T : Type) where
  PairId : Type
  decEqPairId : DecidableEq PairId
  pairId : T → PairId

export Tradable (PairId pairId)

instance {T : Type} [Tradable T] : DecidableEq (PairId T) := Tradable.decEqPairId

/-! ### Transitions -/

/-- One thing, or the other, or both. -/
inductive Ior (A B : Type) where
  | left (a : A)
  | right (b : B)
  | both (a : A) (b : B)
deriving DecidableEq

namespace Ior

variable {A B : Type}

def swap : Ior A B → Ior B A
  | left a => right a
  | right b => left b
  | both a b => both b a

def tryFrom : Option A → Option B → Option (Ior A B)
  | some a, some b => some (both a b)
  | some a, none => some (left a)
  | none, some b => some (right b)
  | none, none => none

/-- What is on the left. -/
def fst : Ior A B → Option A
  | left a => some a
  | right _ => none
  | both a _ => some a

/-- What is on the right. -/
def snd : Ior A B → Option B
  | left _ => none
  | right b => some b
  | both _ b => some b

@[simp] theorem fst_swap (xa : Ior A B) : xa.swap.fst = xa.snd := by
  cases xa <;> rfl

@[simp] theorem snd_swap (xa : Ior A B) : xa.swap.snd = xa.fst := by
  cases xa <;> rfl

theorem tryFrom_eq_some {a : Option A} {b : Option B} {xa : Ior A B} :
    tryFrom a b = some xa ↔ a = xa.fst ∧ b = xa.snd := by
  cases xa <;> cases a <;> cases b <;> simp [tryFrom, fst, snd]

theorem isSome_tryFrom {a : Option A} {b : Option B} :
    (tryFrom a b).isSome ↔ a.isSome ∨ b.isSome := by
  cases a <;> cases b <;> simp [tryFrom]

end Ior

inductive Transition (T : Type) where
  | forward (xa : Ior T T)
  /-- State transition rollback (left: rolled back state, right: revived state). -/
  | backward (xa : Ior T T)
deriving DecidableEq

/-- Where the news of something came from. -/
inductive Channel (T Meta : Type) where
  | ledger (t : T) (cx : Meta)
  | mempool (t : T)
  | localTxSubmit (t : T)
deriving DecidableEq

namespace Channel

variable {T Meta : Type}

def erased : Channel T Meta → T
  | ledger t _ => t
  | mempool t => t
  | localTxSubmit t => t

end Channel

/-! ### Short lists -/

/-- A list cut off at its first 32 items. -/
def SmallVec (T : Type) := { xs : List T // xs.length ≤ 32 }

namespace SmallVec

variable {T : Type}

def new (refs : List T) : SmallVec T := ⟨refs.take 32, List.length_take_le 32 refs⟩

instance : Inhabited (SmallVec T) := ⟨new []⟩

def isEmpty (xs : SmallVec T) : Bool := xs.val.isEmpty

def exists_ (xs : SmallVec T) (f : T → Bool) : Bool := xs.val.any f

def contains [DecidableEq T] (xs : SmallVec T) (item : T) : Bool := xs.val.elem item

def count (xs : SmallVec T) (f : T → Bool) : Nat := xs.val.countP f

end SmallVec

end UtxoMonitor.Domain
