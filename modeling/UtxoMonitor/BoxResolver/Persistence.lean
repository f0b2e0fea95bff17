import UtxoMonitor.ExecutionEngine.Storage
import UtxoMonitor.Lib.Assoc
import UtxoMonitor.Lib.Serial

/-! The store of on-chain entities, in memory and on disk. -/
namespace UtxoMonitor.BoxResolver

open Lib LiquidityBook Domain ExecutionEngine

/-- Stores on-chain entities. -/
class EntityRepo (T R : Type) [EntitySnapshot T] where
  getPredictionPredecessor : R → Version T → Option (Version T)
  getLastPredicted : R → StableId T → Option T
  getLastConfirmed : R → StableId T → Option T
  getLastUnconfirmed : R → StableId T → Option T
  /-- The entity, and the version it was predicted from. -/
  putPredicted : R → T → Option (Version T) → R
  putConfirmed : R → T → R
  putUnconfirmed : R → T → R
  invalidate : R → Version T → StableId T → R
  eliminate : R → T → R
  mayExist : R → Version T → Bool
  getState : R → Version T → Option T

/-! ### In memory -/

structure InMemoryEntityRepo (T : Type) [EntitySnapshot T] where
  store : AList fun _ : Version T => T
  index : AList fun _ : InMemoryIndexKey => Version T
  links : AList fun _ : Version T => Version T

namespace InMemoryEntityRepo

variable {T : Type} [EntitySnapshot T] [RawStableId T]

def new : InMemoryEntityRepo T := ⟨∅, ∅, ∅⟩

def lastPredictedPrefix : UInt8 := 2

def lastConfirmedPrefix : UInt8 := 3

def lastUnconfirmedPrefix : UInt8 := 4

def indexKey (pre : UInt8) (id : StableId T) : InMemoryIndexKey :=
  ⟨pre :: (rawId id).val, by rw [List.length_cons, (rawId id).property]⟩

/-- What the entry of the index refers to. -/
def getLast (self : InMemoryEntityRepo T) (pre : UInt8) (id : StableId T) : Option T :=
  (self.index.lookup (indexKey pre id)).bind self.store.lookup

def putLast (self : InMemoryEntityRepo T) (pre : UInt8) (entity : T) : InMemoryEntityRepo T :=
  { self with
    index := self.index.insert (indexKey pre (stableId entity)) (version entity)
    store := self.store.insert (version entity) entity }

instance : EntityRepo T (InMemoryEntityRepo T) where
  getPredictionPredecessor self id := self.links.lookup id
  getLastPredicted self := self.getLast lastPredictedPrefix
  getLastConfirmed self := self.getLast lastConfirmedPrefix
  getLastUnconfirmed self := self.getLast lastUnconfirmedPrefix
  putPredicted self entity prevStateId :=
    { self.putLast lastPredictedPrefix entity with
      links :=
        match prevStateId with
        | some prevSid => self.links.insert (version entity) prevSid
        | none => self.links }
  putConfirmed self := self.putLast lastConfirmedPrefix
  putUnconfirmed self := self.putLast lastUnconfirmedPrefix
  invalidate self sid eid :=
    let index :=
      match self.links.lookup sid with
      | some predecessor => self.index.insert (indexKey lastConfirmedPrefix eid) predecessor
      | none => self.index.erase (indexKey lastConfirmedPrefix eid)
    { index := (index.erase (indexKey lastPredictedPrefix eid)).erase
        (indexKey lastUnconfirmedPrefix eid)
      links := self.links.erase sid
      store := self.store.erase sid }
  eliminate self entity :=
    let eid := stableId entity
    let sid := version entity
    { index := ((self.index.erase (indexKey lastPredictedPrefix eid)).erase
        (indexKey lastConfirmedPrefix eid)).erase (indexKey lastUnconfirmedPrefix eid)
      links := self.links.erase sid
      store := self.store.erase sid }
  mayExist self sid := (self.store.lookup sid).isSome
  getState self sid := self.store.lookup sid

end InMemoryEntityRepo

/-! ### On disk -/

/-- A database of byte strings under byte strings, which knows of every key whether it has it. -/
abbrev RocksDB := AList fun _ : Bytes => Bytes

def prefixedKey {A : Type} [Serial A] (pre : Bytes) (id : A) : Bytes :=
  serializeStr pre ++ serialize id

structure EntityRepoRocksDB where
  db : RocksDB

namespace EntityRepoRocksDB

def new : EntityRepoRocksDB := ⟨∅⟩

def statePrefix : Bytes := "state".toUTF8.toList

def predictionLinkPrefix : Bytes := "prediction:link".toUTF8.toList

def lastPredictedPrefix : Bytes := "predicted:last".toUTF8.toList

def lastConfirmedPrefix : Bytes := "confirmed:last".toUTF8.toList

def lastUnconfirmedPrefix : Bytes := "unconfirmed:last".toUTF8.toList

variable {T : Type} [EntitySnapshot T] [Serial T] [Serial (Version T)] [Serial (StableId T)]

def getLast (self : EntityRepoRocksDB) (pre : Bytes) (id : StableId T) : Option T :=
  (((self.db.lookup (prefixedKey pre id)).bind (deserialize (A := Version T))).bind fun sid =>
    self.db.lookup (prefixedKey statePrefix sid)).bind deserialize

/-- The writes of one transaction. -/
def putLast (self : EntityRepoRocksDB) (pre : Bytes) (entity : T) : EntityRepoRocksDB where
  db := (self.db.insert (prefixedKey statePrefix (version entity)) (serialize entity)).insert
    (prefixedKey pre (stableId entity)) (serialize (version entity))

instance : EntityRepo T EntityRepoRocksDB where
  getPredictionPredecessor self sid :=
    (self.db.lookup (prefixedKey predictionLinkPrefix sid)).bind deserialize
  getLastPredicted self id :=
    (((self.db.lookup (prefixedKey lastPredictedPrefix id)).bind
      (deserialize (A := Version T))).bind fun sid =>
        if (self.db.lookup (prefixedKey predictionLinkPrefix sid)).isSome then
          self.db.lookup (prefixedKey statePrefix sid)
        else none).bind deserialize
  getLastConfirmed self := self.getLast lastConfirmedPrefix
  getLastUnconfirmed self := self.getLast lastUnconfirmedPrefix
  putPredicted self entity prevStateId :=
    let tx := (self.putLast lastPredictedPrefix entity).db
    match prevStateId with
    | some prevSid =>
      ⟨tx.insert (prefixedKey predictionLinkPrefix (version entity)) (serialize prevSid)⟩
    | none => ⟨tx⟩
  putConfirmed self := self.putLast lastConfirmedPrefix
  putUnconfirmed self := self.putLast lastUnconfirmedPrefix
  invalidate self sid eid :=
    let predecessor : Option (Version T) :=
      (self.db.lookup (prefixedKey predictionLinkPrefix sid)).bind deserialize
    let tx :=
      match predecessor with
      | some predecessor => self.db.insert (prefixedKey lastConfirmedPrefix eid) (serialize predecessor)
      | none => self.db.erase (prefixedKey lastConfirmedPrefix eid)
    ⟨(tx.erase (prefixedKey predictionLinkPrefix sid)).erase (prefixedKey lastUnconfirmedPrefix eid)⟩
  eliminate self entity :=
    ⟨(((self.db.erase (prefixedKey predictionLinkPrefix (version entity))).erase
      (prefixedKey lastPredictedPrefix (stableId entity))).erase
        (prefixedKey lastConfirmedPrefix (stableId entity))).erase
          (prefixedKey lastUnconfirmedPrefix (stableId entity))⟩
  mayExist self sid := (self.db.lookup (prefixedKey statePrefix sid)).isSome
  getState self sid := (self.db.lookup (prefixedKey statePrefix sid)).bind deserialize

end EntityRepoRocksDB

/-! ### Calls -/

inductive RepoCall (T : Type) [EntitySnapshot T] where
  | putPredicted (entity : T) (prevStateId : Option (Version T))
  | putConfirmed (entity : T)
  | putUnconfirmed (entity : T)
  | invalidate (sid : Version T) (eid : StableId T)
  | eliminate (entity : T)
  | getPredictionPredecessor (id : Version T)
  | getLastPredicted (id : StableId T)
  | getLastConfirmed (id : StableId T)
  | getLastUnconfirmed (id : StableId T)
  | mayExist (sid : Version T)
  | getState (sid : Version T)

inductive RepoAnswer (T : Type) [EntitySnapshot T] where
  | unit
  | version (sid : Option (Version T))
  | entity (entity : Option T)
  | mayExist (b : Bool)

namespace EntityRepo

variable {T R : Type} [EntitySnapshot T] [EntityRepo T R]

def call (repo : R) : RepoCall T → R
  | .putPredicted entity prevStateId => putPredicted repo entity prevStateId
  | .putConfirmed entity => putConfirmed repo entity
  | .putUnconfirmed entity => putUnconfirmed repo entity
  | .invalidate sid eid => invalidate (T := T) repo sid eid
  | .eliminate entity => eliminate repo entity
  | _ => repo

def answer (repo : R) : RepoCall T → RepoAnswer T
  | .getPredictionPredecessor id => .version (getPredictionPredecessor (T := T) repo id)
  | .getLastPredicted id => .entity (getLastPredicted repo id)
  | .getLastConfirmed id => .entity (getLastConfirmed repo id)
  | .getLastUnconfirmed id => .entity (getLastUnconfirmed repo id)
  | .mayExist sid => .mayExist (mayExist (T := T) repo sid)
  | .getState sid => .entity (getState repo sid)
  | _ => .unit

/-- The repository after the calls. -/
def run (repo : R) (calls : List (RepoCall T)) : R := calls.foldl call repo

end EntityRepo

end UtxoMonitor.BoxResolver
