import UtxoMonitor.Domain
import UtxoMonitor.Lib.Assoc

/-! What the event handlers remember of the ledger: states by version, evicted some time after they
were spent. -/
namespace UtxoMonitor.EventSink

open Lib LiquidityBook Domain

/-! ### Eviction -/

section Eviction

variable {K V : Type} [DecidableEq K]

/-- The loop of `run_eviction`: entries go from the front of the queue as long as they are due. -/
def evict (now : Nat) : List (Nat × K) → (AList fun _ : K => V) → List (Nat × K) × AList fun _ : K => V
  | [], store => ([], store)
  | (ts, v) :: queue, store =>
    if ts ≤ now then evict now queue (store.erase v) else ((ts, v) :: queue, store)

variable {now : Nat} {queue : List (Nat × K)} {store : AList fun _ : K => V} {k : K} {x : V}

theorem lookup_of_evict (h : (evict now queue store).2.lookup k = some x) :
    store.lookup k = some x := by
  induction queue generalizing store with
  | nil => exact h
  | cons entry queue ih =>
    rw [evict] at h
    split at h
    · have hrest := ih h
      rw [lookup_erase_eq] at hrest
      split at hrest
      · cases hrest
      · exact hrest
    · exact h

/-- What is not due stays. -/
theorem lookup_evict (h : ∀ ts, (ts, k) ∈ queue → now < ts) :
    (evict now queue store).2.lookup k = store.lookup k := by
  induction queue generalizing store with
  | nil => rfl
  | cons entry queue ih =>
    rw [evict]
    split
    · rename_i hdue
      rw [ih fun ts hts => h ts (List.mem_cons_of_mem _ hts), lookup_erase_eq, if_neg]
      rintro rfl
      have hts := h entry.1 List.mem_cons_self
      omega
    · rfl

theorem evict_of_not_due (h : ∀ entry ∈ queue, now < entry.1) :
    evict now queue store = (queue, store) := by
  cases queue with
  | nil => rfl
  | cons entry queue =>
    have hts := h entry List.mem_cons_self
    rw [evict, if_neg (by omega)]

end Eviction

/-! ### Values by key -/

structure InMemoryKvIndex (K V : Type) [DecidableEq K] where
  store : AList fun _ : K => V
  evictionQueue : List (Nat × K)
  evictionDelay : Nat

namespace InMemoryKvIndex

variable {K V : Type} [DecidableEq K]

def new (evictionDelay : Nat) : InMemoryKvIndex K V := ⟨∅, [], evictionDelay⟩

def put (self : InMemoryKvIndex K V) (id : K) (value : V) : InMemoryKvIndex K V :=
  { self with store := self.store.insert id value }

def get (self : InMemoryKvIndex K V) (id : K) : Option V := self.store.lookup id

def registerForEviction (self : InMemoryKvIndex K V) (now : Nat) (id : K) : InMemoryKvIndex K V :=
  { self with evictionQueue := self.evictionQueue ++ [(now + self.evictionDelay, id)] }

def runEviction (self : InMemoryKvIndex K V) (now : Nat) : InMemoryKvIndex K V :=
  let evicted := evict now self.evictionQueue self.store
  { self with store := evicted.2, evictionQueue := evicted.1 }

end InMemoryKvIndex

/-! ### States of entities -/

/-- Entities whose versions are made of references to outputs. -/
class LedgerEntity (T : Type) extends EntitySnapshot T, Tradable T where
  /-- `From<OutputRef>` for versions -/
  versionOf : OutputRef → Version

export LedgerEntity (versionOf)

structure InMemoryEntityIndex (T : Type) [LedgerEntity T] where
  store : AList fun _ : Version T => T
  permanentPairs : AList fun _ : StableId T => PairId T
  evictionQueue : List (Nat × Version T)
  evictionDelay : Nat
  /-- States are stored under their own versions. -/
  keyed : ∀ {ver e}, store.lookup ver = some e → version e = ver

namespace InMemoryEntityIndex

variable {T : Type} [LedgerEntity T]

def new (evictionDelay : Nat) : InMemoryEntityIndex T where
  store := ∅
  permanentPairs := ∅
  evictionQueue := []
  evictionDelay := evictionDelay
  keyed h := by cases h

def putState (self : InMemoryEntityIndex T) (state : T) : InMemoryEntityIndex T where
  store := self.store.insert (version state) state
  permanentPairs :=
    if isQuasiPermanent state then self.permanentPairs.insert (stableId state) (pairId state)
    else self.permanentPairs
  evictionQueue := self.evictionQueue
  evictionDelay := self.evictionDelay
  keyed h := by
    rw [lookup_insert_eq] at h
    split at h
    · rename_i hver
      cases h
      exact hver.symm
    · exact self.keyed h

def getState (self : InMemoryEntityIndex T) (ver : Version T) : Option T := self.store.lookup ver

def pairOf (self : InMemoryEntityIndex T) (id : StableId T) : Option (PairId T) :=
  self.permanentPairs.lookup id

def exists_ (self : InMemoryEntityIndex T) (ver : Version T) : Bool := ver ∈ self.store

def registerForEviction (self : InMemoryEntityIndex T) (now : Nat) (ver : Version T) :
    InMemoryEntityIndex T :=
  { self with evictionQueue := self.evictionQueue ++ [(now + self.evictionDelay, ver)] }

def runEviction (self : InMemoryEntityIndex T) (now : Nat) : InMemoryEntityIndex T where
  store := (evict now self.evictionQueue self.store).2
  permanentPairs := self.permanentPairs
  evictionQueue := (evict now self.evictionQueue self.store).1
  evictionDelay := self.evictionDelay
  keyed h := self.keyed (lookup_of_evict h)

variable {self : InMemoryEntityIndex T} {ver : Version T} {e : T} {now : Nat}

theorem exists_iff : self.exists_ ver = true ↔ ∃ e, self.getState ver = some e := by
  rw [exists_, decide_eq_true_iff, ← AList.lookup_isSome, Option.isSome_iff_exists]
  rfl

@[simp] theorem getState_putState (self : InMemoryEntityIndex T) (state : T) (ver : Version T) :
    (self.putState state).getState ver =
      if ver = version state then some state else self.getState ver :=
  lookup_insert_eq self.store (version state) ver state

@[simp] theorem getState_registerForEviction (self : InMemoryEntityIndex T) (now : Nat)
    (v ver : Version T) : (self.registerForEviction now v).getState ver = self.getState ver := rfl

@[simp] theorem evictionQueue_putState (self : InMemoryEntityIndex T) (state : T) :
    (self.putState state).evictionQueue = self.evictionQueue := rfl

theorem version_of_getState (h : self.getState ver = some e) : version e = ver := self.keyed h

/-- The version is not due for eviction. -/
def Fresh (self : InMemoryEntityIndex T) (now : Nat) (ver : Version T) : Prop :=
  ∀ ts, (ts, ver) ∈ self.evictionQueue → now < ts

instance (self : InMemoryEntityIndex T) (now : Nat) (ver : Version T) :
    Decidable (self.Fresh now ver) :=
  decidable_of_iff (∀ entry ∈ self.evictionQueue, entry.2 = ver → now < entry.1) <| by
    constructor
    · intro h ts hts
      exact h (ts, ver) hts rfl
    · rintro h ⟨ts, v⟩ hentry rfl
      exact h ts hentry

theorem getState_runEviction (h : self.Fresh now ver) :
    (self.runEviction now).getState ver = self.getState ver := lookup_evict h

theorem runEviction_of_fresh (h : ∀ entry ∈ self.evictionQueue, now < entry.1) :
    self.runEviction now = self := by
  cases self
  simp only [runEviction, evict_of_not_due h]

end InMemoryEntityIndex

end UtxoMonitor.EventSink
