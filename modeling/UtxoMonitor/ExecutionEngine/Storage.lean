import Mathlib.Data.List.AList
import UtxoMonitor.Domain

/-! States of entities in memory: four references to a state, and one store of versions. -/
namespace UtxoMonitor.ExecutionEngine

open LiquidityBook Domain

/-- `Into<[u8; 60]>` for the ids of entities. -/
class RawStableId (T : Type) [Stable T] where
  rawId : StableId T → RawBytes 60

export RawStableId (rawId)

inductive StateKey where
  | lastConfirmed
  | lastUnconfirmed
  | lastPredicted
  | fallback
deriving DecidableEq

def StateKey.byte : StateKey → UInt8
  | lastConfirmed => 3
  | lastUnconfirmed => 4
  | lastPredicted => 5
  | fallback => 6

def allStateKeys : List StateKey := [.lastConfirmed, .lastUnconfirmed, .lastPredicted, .fallback]

def ephemeralStateKeys : List StateKey := [.lastUnconfirmed, .lastPredicted, .fallback]

abbrev InMemoryIndexKey := RawBytes 61

def indexKey {T : Type} [EntitySnapshot T] [RawStableId T] (key : StateKey) (id : StableId T) : InMemoryIndexKey :=
  ⟨key.byte :: (rawId id).val, by rw [List.length_cons, (rawId id).property]⟩

structure InMemoryStateIndex (T : Type) [EntitySnapshot T] where
  store : AList fun _ : Version T => T
  index : AList fun _ : InMemoryIndexKey => Version T

namespace InMemoryStateIndex

variable {T : Type} [EntitySnapshot T] [RawStableId T]

def new : InMemoryStateIndex T := ⟨∅, ∅⟩

/-- Refers to a value under a key: what the key referred to before goes if nothing else refers
to it. -/
def put (self : InMemoryStateIndex T) (key : StateKey) (sid : StableId T) (value : T) :
    InMemoryStateIndex T :=
  let boundVersions := allStateKeys.filterMap fun p =>
    if p ≠ key then self.index.lookup (indexKey p sid) else none
  let store :=
    match self.index.lookup (indexKey key sid) with
    | some oldVer => if oldVer ∈ boundVersions then self.store else self.store.erase oldVer
    | none => self.store
  { store := store.insert (version value) value
    index := self.index.insert (indexKey key sid) (version value) }

def get (self : InMemoryStateIndex T) (key : StateKey) (id : StableId T) : Option T :=
  (self.index.lookup (indexKey key id)).bind self.store.lookup

def getLastConfirmed (self : InMemoryStateIndex T) : StableId T → Option T :=
  self.get .lastConfirmed

def getLastUnconfirmed (self : InMemoryStateIndex T) : StableId T → Option T :=
  self.get .lastUnconfirmed

def getLastPredicted (self : InMemoryStateIndex T) : StableId T → Option T :=
  self.get .lastPredicted

def getFallback (self : InMemoryStateIndex T) : StableId T → Option T := self.get .fallback

def putConfirmed (self : InMemoryStateIndex T) (entity : T) : InMemoryStateIndex T :=
  self.put .lastConfirmed (stableId entity) entity

def putUnconfirmed (self : InMemoryStateIndex T) (entity : T) : InMemoryStateIndex T :=
  self.put .lastUnconfirmed (stableId entity) entity

def putPredicted (self : InMemoryStateIndex T) (entity : T) : InMemoryStateIndex T :=
  self.put .lastPredicted (stableId entity) entity

def putFallback (self : InMemoryStateIndex T) (entity : T) : InMemoryStateIndex T :=
  self.put .fallback (stableId entity) entity

/-- Removes a reference if it is to the version. -/
def removeRef (index : AList fun _ : InMemoryIndexKey => Version T) (key : InMemoryIndexKey)
    (ver : Version T) : AList fun _ : InMemoryIndexKey => Version T :=
  if index.lookup key = some ver then index.erase key else index

def invalidateVersion (self : InMemoryStateIndex T) (ver : Version T) :
    Option (StableId T) × InMemoryStateIndex T :=
  match self.store.lookup ver with
  | some entity =>
    let sid := stableId entity
    let confirmed := self.index.lookup (indexKey .lastConfirmed sid) = some ver
    -- Confirmed state of quasi permanent entities cannot be dropped.
    let store :=
      if confirmed ∧ isQuasiPermanent entity then (self.store.erase ver).insert ver entity
      else self.store.erase ver
    let index :=
      if confirmed ∧ ¬ isQuasiPermanent entity then
        self.index.erase (indexKey .lastConfirmed sid)
      else self.index
    (some sid, {
      store := store
      index := ephemeralStateKeys.foldl (fun index p => removeRef index (indexKey p sid) ver) index })
  | none => (none, self)

/-- Removes a reference and the version referred to. -/
def eliminateKey (sid : StableId T) (self : InMemoryStateIndex T) (key : StateKey) :
    InMemoryStateIndex T :=
  match self.index.lookup (indexKey key sid) with
  | some ver => { store := self.store.erase ver, index := self.index.erase (indexKey key sid) }
  | none => self

def eliminate (self : InMemoryStateIndex T) (sid : StableId T) : InMemoryStateIndex T :=
  allStateKeys.foldl (eliminateKey sid) self

def contains (self : InMemoryStateIndex T) (ver : Version T) : Bool := (self.store.lookup ver).isSome

def getState (self : InMemoryStateIndex T) (ver : Version T) : Option T := self.store.lookup ver

/-- Latest state of an entity: what is closest to the tip first. -/
def resolveState (self : InMemoryStateIndex T) (id : StableId T) : Option T :=
  (self.getLastPredicted id).or <| (self.getLastUnconfirmed id).or <|
    (self.getFallback id).or (self.getLastConfirmed id)

end InMemoryStateIndex

end UtxoMonitor.ExecutionEngine
