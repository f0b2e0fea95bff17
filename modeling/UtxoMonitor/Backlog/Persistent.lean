import Mathlib.Logic.Relation
import UtxoMonitor.Backlog.Hot

/-! The backlog that keeps its orders in a store: orders that are pending, that failed and are to be
retried, and that were submitted and are to be revisited. -/
namespace UtxoMonitor.Backlog

open Lib

/-! ### Orders -/

structure BacklogOrder (TOrd : Type) where
  order : TOrd
  timestamp : Int
deriving DecidableEq

structure PendingOrder (TOrd : Type) where
  order : TOrd
  timestamp : Int
deriving DecidableEq

structure ProgressingOrder (TOrd : Type) where
  order : TOrd
  timestamp : Int
deriving DecidableEq

/-- What the queues hold of an order. -/
structure WeightedOrder (TOrderId : Type) where
  order : TOrderId
  timestamp : Int
deriving DecidableEq

/-- Times in seconds. -/
structure BacklogConfig where
  orderLifespan : Int
  orderExecTime : Int
  retrySuspendedProb : Nat

section

variable {TOrd TOrderId : Type} [UniqueOrder TOrd TOrderId]

def BacklogOrder.weighted (bo : BacklogOrder TOrd) : WeightedOrder TOrderId :=
  ⟨getSelfRef bo.order, bo.timestamp⟩

def PendingOrder.weighted (po : PendingOrder TOrd) : WeightedOrder TOrderId :=
  ⟨getSelfRef po.order, po.timestamp⟩

def ProgressingOrder.weighted (po : ProgressingOrder TOrd) : WeightedOrder TOrderId :=
  ⟨getSelfRef po.order, po.timestamp⟩

/-- Orders under their ids. -/
structure BacklogStore (TOrd : Type) {TOrderId : Type} [UniqueOrder TOrd TOrderId] where
  orders : AList fun _ : TOrderId => BacklogOrder TOrd
  keyed : ∀ e ∈ orders.entries, getSelfRef e.2.order = e.1

namespace BacklogStore

variable [DecidableEq TOrderId]

def get (store : BacklogStore TOrd) (oid : TOrderId) : Option (BacklogOrder TOrd) :=
  store.orders.lookup oid

/-- `BacklogStore::exists` -/
def contains (store : BacklogStore TOrd) (oid : TOrderId) : Bool := oid ∈ store.orders

def put (store : BacklogStore TOrd) (bo : BacklogOrder TOrd) : BacklogStore TOrd where
  orders := store.orders.insert (getSelfRef bo.order) bo
  keyed e he := by
    rw [AList.entries_insert] at he
    rcases List.mem_cons.mp he with rfl | he
    · rfl
    · exact store.keyed e (List.kerase_sublist _ _ |>.subset he)

def remove (store : BacklogStore TOrd) (oid : TOrderId) : BacklogStore TOrd where
  orders := store.orders.erase oid
  keyed e he := store.keyed e ((List.kerase_sublist _ _).subset he)

end BacklogStore

end

/-! ### The backlog -/

structure PersistentPriorityBacklog (Q TOrd : Type) {TOrderId : Type} [UniqueOrder TOrd TOrderId] where
  store : BacklogStore TOrd
  conf : BacklogConfig
  pendingPq : Q
  suspendedPq : Q
  revisitQueue : List (WeightedOrder TOrderId)

namespace PersistentPriorityBacklog

variable {Q TOrd TOrderId W : Type} [DecidableEq TOrderId] [LE W]
  [PriorityQueue Q (WeightedOrder TOrderId) W] [UniqueOrder TOrd TOrderId] [Weighted TOrd W]

/-- The stored orders are all pending. -/
def new (store : BacklogStore TOrd) (conf : BacklogConfig) : PersistentPriorityBacklog Q TOrd where
  store := store
  conf := conf
  pendingPq := store.orders.entries.foldl
    (fun q e => PriorityQueue.push q e.2.weighted (weight e.2.order)) PriorityQueue.new
  suspendedPq := PriorityQueue.new
  revisitQueue := []

/-- The orders of the revisit queue up to the first that is too recent. -/
def revisitOrders (now : Int) : List (WeightedOrder TOrderId) →
    PersistentPriorityBacklog Q TOrd → PersistentPriorityBacklog Q TOrd
  | [], s => { s with revisitQueue := [] }
  | ord :: rest, s =>
    if s.conf.orderExecTime < now - ord.timestamp then
      if now - ord.timestamp ≤ s.conf.orderLifespan then
        match s.store.get ord.order with
        | some bo =>
          revisitOrders now rest
            { s with pendingPq := PriorityQueue.push s.pendingPq bo.weighted (weight bo.order) }
        | none => revisitOrders now rest s
      else revisitOrders now rest { s with store := s.store.remove ord.order }
    else { s with revisitQueue := ord :: rest }

def revisitProgressingOrders (s : PersistentPriorityBacklog Q TOrd) (now : Int) :
    PersistentPriorityBacklog Q TOrd :=
  revisitOrders now s.revisitQueue s

def put (s : PersistentPriorityBacklog Q TOrd) (ord : PendingOrder TOrd) :
    PersistentPriorityBacklog Q TOrd :=
  let oid := getSelfRef ord.order
  { s with
    store := if s.store.contains oid then s.store else s.store.put ⟨ord.order, ord.timestamp⟩
    revisitQueue := s.revisitQueue.eraseP fun wo => wo.order = oid
    suspendedPq :=
      match (PriorityQueue.items s.suspendedPq).find? fun wo => wo.order = oid with
      | some element => PriorityQueue.remove s.suspendedPq element
      | none => s.suspendedPq
    pendingPq :=
      if (PriorityQueue.items s.pendingPq).any fun wo => wo.order = oid then s.pendingPq
      else PriorityQueue.push s.pendingPq ord.weighted (weight ord.order) }

def suspend (s : PersistentPriorityBacklog Q TOrd) (ord : TOrd) :
    Bool × PersistentPriorityBacklog Q TOrd :=
  match s.store.get (getSelfRef ord) with
  | some backlogOrd =>
    (true, { s with
      suspendedPq := PriorityQueue.push s.suspendedPq ⟨getSelfRef ord, backlogOrd.timestamp⟩
        (weight ord) })
  | none => (false, s)

def checkLater (s : PersistentPriorityBacklog Q TOrd) (ord : ProgressingOrder TOrd) :
    Bool × PersistentPriorityBacklog Q TOrd :=
  if s.store.contains (getSelfRef ord.order) then
    (true, { s with revisitQueue := s.revisitQueue ++ [ord.weighted] })
  else (false, s)

/-- The order that was popped, if it is not too old and still stored. -/
def visit (conf : BacklogConfig) (now : Int) (store : BacklogStore TOrd)
    (ord : WeightedOrder TOrderId) : BacklogStore TOrd × Option TOrd :=
  if conf.orderLifespan < now - ord.timestamp then (store.remove ord.order, none)
  else (store, (store.get ord.order).map BacklogOrder.order)

def tryPopMaxOrder (conf : BacklogConfig) (store : BacklogStore TOrd) (pq : Q) (now : Int) :
    Option TOrd × Q × BacklogStore TOrd :=
  PriorityQueue.popUntil (visit conf now) (PriorityQueue.items pq).length pq store

/-- An order is popped of the orders that are pending, or, as the random number has it, of those that
are suspended. -/
def tryPop (s : PersistentPriorityBacklog Q TOrd) (now : Int) (rng : Nat) :
    Option TOrd × PersistentPriorityBacklog Q TOrd :=
  let s := s.revisitProgressingOrders now
  if s.conf.retrySuspendedProb ≤ rng then
    match tryPopMaxOrder s.conf s.store s.pendingPq now with
    | (res, pq, store) => (res, { s with store := store, pendingPq := pq })
  else
    match tryPopMaxOrder s.conf s.store s.suspendedPq now with
    | (res, pq, store) => (res, { s with store := store, suspendedPq := pq })

def remove (s : PersistentPriorityBacklog Q TOrd) (oid : TOrderId) :
    PersistentPriorityBacklog Q TOrd :=
  { s with store := s.store.remove oid }

def recharge (s : PersistentPriorityBacklog Q TOrd) (ord : TOrd) :
    PersistentPriorityBacklog Q TOrd :=
  match s.store.get (getSelfRef ord) with
  | some backlogOrd =>
    { s with
      pendingPq := PriorityQueue.push s.pendingPq ⟨getSelfRef ord, backlogOrd.timestamp⟩
        (weight ord) }
  | none => s

end PersistentPriorityBacklog

/-! ### Calls -/

/-- A call, with the reading of the clock and the random number of its own. -/
inductive BacklogCall (TOrd TOrderId : Type) where
  | put (ord : PendingOrder TOrd)
  | tryPop (now : Int) (rng : Nat)
  | suspend (ord : TOrd)
  | checkLater (ord : ProgressingOrder TOrd)
  | recharge (ord : TOrd)
  | remove (oid : TOrderId)
deriving DecidableEq

namespace PersistentPriorityBacklog

variable {Q TOrd TOrderId W : Type} [DecidableEq TOrderId] [LE W]
  [PriorityQueue Q (WeightedOrder TOrderId) W] [UniqueOrder TOrd TOrderId] [Weighted TOrd W]

def call (s : PersistentPriorityBacklog Q TOrd) :
    BacklogCall TOrd TOrderId → PersistentPriorityBacklog Q TOrd
  | .put ord => s.put ord
  | .tryPop now rng => (s.tryPop now rng).2
  | .suspend ord => (s.suspend ord).2
  | .checkLater ord => (s.checkLater ord).2
  | .recharge ord => s.recharge ord
  | .remove oid => s.remove oid

/-- What the call hands out. -/
def handedOut (s : PersistentPriorityBacklog Q TOrd) : BacklogCall TOrd TOrderId → Option TOrd
  | .tryPop now rng => (s.tryPop now rng).1
  | _ => none

end PersistentPriorityBacklog

end UtxoMonitor.Backlog
