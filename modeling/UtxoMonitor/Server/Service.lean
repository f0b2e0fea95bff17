import UtxoMonitor.Handler.Backfilling
import UtxoMonitor.Index.Backfill
import UtxoMonitor.Server.Lookup
import UtxoMonitor.Server.Responses

/-! The service as a whole. While the handlers change the index, the requests of any number of
clients are answered from it, each access to the database at a time of its own. -/
namespace UtxoMonitor

open Lib

structure GetTxOsBatchRequest where
  requests : List GetTxOsLookup
  offset : Nat
  limit : Nat
  includeCborHex : Bool

structure GetTxOsBatchResponseItem where
  request : GetTxOsLookup
  utxos : List UTxOResponse
  error : Option String

structure GetTxOsBatchResponse where
  offset : Nat
  limit : Nat
  responses : List GetTxOsBatchResponseItem

/-- What is asked of the index. -/
abbrev Question := Option (Credential × CredentialKind) × TxoQuery

def GetTxOsLookup.question (lib : AddressLibrary) (lookup : GetTxOsLookup) :
    Except String Question := do
  let scope ← resolveRequestCredentials lib lookup.address lookup.hash lookup.mode lookup.query
  let query ← TxoQuery.tryFrom lookup.query
  return (scope, query)

/-- Where a lookup stands between two accesses to the database: before the check for rows of its
unit, before the scan for them, before it writes what it found, before the snapshot. -/
inductive Phase where
  | start
  | scan (unit : Bytes)
  | commit (unit : Bytes) (found : List (Bytes × Stored))
  | snapshot (question : Question)

/-- A batch request that is being answered. A request of the single endpoint is a batch of one
lookup, except that the error becomes the body of the response. -/
structure Session where
  request : GetTxOsBatchRequest
  todo : List GetTxOsLookup
  phase : Phase
  responses : List GetTxOsBatchResponseItem

namespace Session

def accept (request : GetTxOsBatchRequest) : Session := ⟨request, request.requests, .start, []⟩

def push (s : Session) (todo : List GetTxOsLookup) (item : GetTxOsBatchResponseItem) : Session :=
  { s with todo := todo, phase := .start, responses := s.responses ++ [item] }

def goto (s : Session) (phase : Phase) : Session := { s with phase := phase }

/-- The index has a row of the unit other than its marker. -/
def hasUnitRow (db : RocksDB) (unitPrefix : Bytes) : Bool :=
  (getRangeIterator (db .unitUnspent) (unitIndexKeyPrefix unitPrefix) none).any fun row =>
    !isSentinelRow (unitIndexKeyPrefix unitPrefix) row.1

/-- One turn of the loop of `get_utxos_batch`, up to the next access to the database; `none` where
the lookup panics. -/
def advance (lib : AddressLibrary) (out : OutputLibrary) (db : RocksDB) (s : Session) :
    Option (RocksDB × Session) :=
  match s.todo with
  | [] => some (db, s)
  | lookup :: todo =>
    match s.phase with
    | .start =>
      match lookup.question lib with
      | .error err => some (db, s.push todo ⟨lookup, [], some err⟩)
      | .ok question =>
        if s.request.limit = 0 then some (db, s.push todo ⟨lookup, [], none⟩)
        else
          match question with
          | (none, .unspentByUnit unit) =>
            if hasUnitRow db (toAsciiLowercase unit) then some (db, s.goto (.snapshot question))
            else some (db, s.goto (.scan unit))
          | _ => some (db, s.goto (.snapshot question))
    | .scan unit => some (db, s.goto (.commit unit (backfillRows db (toAsciiLowercase unit))))
    | .commit unit found =>
      some ((backfill (toAsciiLowercase unit) found).run db,
        s.goto (.snapshot (none, .unspentByUnit unit)))
    | .snapshot question => do
      let utxos ← queryUtxos db question.1 question.2 s.request.offset s.request.limit
      return (db, s.push todo ⟨lookup, utxos.map (.of out s.request.includeCborHex), none⟩)

/-- The response, once every lookup is answered. -/
def response (s : Session) : Option GetTxOsBatchResponse :=
  if s.todo.isEmpty then some ⟨s.request.offset, s.request.limit, s.responses⟩ else none

end Session

structure Service where
  db : RocksDB
  sessions : List Session

inductive ServiceStep where
  | event (ev : Event)
  | accept (request : GetTxOsBatchRequest)
  | advance (i : Nat)

namespace Service

def start : Service := ⟨RocksDB.empty, []⟩

def step (lib : AddressLibrary) (out : OutputLibrary) (s : Service) :
    ServiceStep → Option Service
  | .event ev => some { s with db := ev.run s.db }
  | .accept request => some { s with sessions := s.sessions ++ [.accept request] }
  | .advance i =>
    match s.sessions[i]? with
    | none => some s
    | some session => do
      let (db, session) ← session.advance lib out s.db
      return ⟨db, s.sessions.set i session⟩

def run (lib : AddressLibrary) (out : OutputLibrary) (steps : List ServiceStep) : Option Service :=
  steps.foldlM (step lib out) start

end Service

/-! ### What the answers are about -/

/-- The record of every output, as the events have left it. -/
abbrev UtxoMap := OutputRef → Option TxoRecord

def UtxoMap.after (evs : List Event) : UtxoMap :=
  evs.foldl (fun m ev o => ev.record o (m o)) fun _ => none

/-- The records that a question asks for. Of the query for all outputs since a slot it says no
more than whose they are. -/
def Asked : Question → OutputRef → TxoRecord → Prop
  | (none, .byOutputRef oref), o, _ => o = oref
  | (none, .unspentByUnit unit), _, r =>
    r.spent = false ∧ toAsciiLowercase unit ∈ outputUnits r.output
  | (none, _), _, _ => False
  | (some (c, k), .byOutputRef oref), o, r => o = oref ∧ (k, c) ∈ r.output.credentials
  | (some (c, k), .unspent), _, r => r.spent = false ∧ (k, c) ∈ r.output.credentials
  | (some (c, k), .unspentByUnit unit), _, r =>
    r.spent = false ∧ (k, c) ∈ r.output.credentials ∧
      toAsciiLowercase unit ∈ outputUnits r.output
  | (some _, .all _), _, _ => True

/-- The list holds records that the question asks for and, unless that is about all outputs since a
slot, all of them in the order of their keys. -/
structure UtxoMap.Answer (m : UtxoMap) (question : Question) (txos : List Txo) : Prop where
  sound : ∀ txo ∈ txos, ∃ r, m txo.oref = some r ∧ Asked question txo.oref r ∧
    txo = .ofRecord txo.oref r
  complete : (∀ slot, question.2 ≠ .all slot) → KeyOrder txos ∧
    ∀ o r, m o = some r → Asked question o r → .ofRecord o r ∈ txos

/-- What a lookup is answered while the records are `m`. -/
inductive Answered (lib : AddressLibrary) (out : OutputLibrary) (request : GetTxOsBatchRequest)
    (m : UtxoMap) : GetTxOsBatchResponseItem → Prop
  | rejected {lookup : GetTxOsLookup} {err : String} (h : lookup.question lib = .error err) :
      Answered lib out request m ⟨lookup, [], some err⟩
  | found {lookup : GetTxOsLookup} {question : Question} {txos : List Txo}
      (h : lookup.question lib = .ok question) (htxos : m.Answer question txos) :
      Answered lib out request m ⟨lookup,
        ((txos.drop request.offset).take request.limit).map (.of out request.includeCborHex), none⟩

/-- The items are answered one after another while the events come in. -/
def AnsweredAlong (lib : AddressLibrary) (out : OutputLibrary) (request : GetTxOsBatchRequest) :
    List Event → List Event → List GetTxOsBatchResponseItem → Prop
  | _, _, [] => True
  | before, since, item :: items => ∃ seen rest, since = seen ++ rest ∧
      Answered lib out request (.after (before ++ seen)) item ∧
      AnsweredAlong lib out request (before ++ seen) rest items

/-- What has happened around a request: the events before it came in and since, and how often it
had its turn. -/
structure Visit where
  request : GetTxOsBatchRequest
  before : List Event
  since : List Event
  turns : Nat

def Visit.see (ev : Event) (v : Visit) : Visit := { v with since := v.since ++ [ev] }

def Visit.turn (v : Visit) : Visit := { v with turns := v.turns + 1 }

structure Log where
  events : List Event
  visits : List Visit

def Log.step (log : Log) : ServiceStep → Log
  | .event ev => ⟨log.events ++ [ev], log.visits.map (.see ev)⟩
  | .accept request => ⟨log.events, log.visits ++ [⟨request, log.events, [], 0⟩]⟩
  | .advance i => ⟨log.events, log.visits.modify i .turn⟩

def Log.of (steps : List ServiceStep) : Log := steps.foldl Log.step ⟨[], []⟩

/-- The lookups of the request are answered in order, each from the records at some time since the
request came in and no earlier than the one before, and after four turns for each all are. -/
structure Served (lib : AddressLibrary) (out : OutputLibrary) (v : Visit) (s : Session) : Prop where
  request : s.request = v.request
  items : s.responses.map GetTxOsBatchResponseItem.request ++ s.todo = v.request.requests
  answered : AnsweredAlong lib out v.request v.before v.since s.responses
  finished : 4 * v.request.requests.length ≤ v.turns → s.todo = []

/-! ### Answers of the index -/

section Answers

variable {chain : Chain} {db : RocksDB} {m : UtxoMap}

theorem keyOrder_toList (txo : Option Txo) : KeyOrder txo.toList := by
  cases txo <;> simp [KeyOrder]

theorem lookupOutputRef_eq_some (hm : ∀ o, storedTxo db o = m o) {oref : OutputRef} {txo : Txo} :
    lookupOutputRef db oref = some txo ↔ ∃ r, m oref = some r ∧ txo = .ofRecord oref r := by
  have hread : readTxo db (utxoKey oref) = m oref := hm oref
  simp only [lookupOutputRef, hread, Option.map_eq_some_iff, @eq_comm _ txo]

/-- The whole answer of the index is the answer to the question about its records. -/
theorem Serves.answer_allMatches (h : Serves chain db) (hm : ∀ o, storedTxo db o = m o)
    (question : Question) : m.Answer question (allMatches db question.1 question.2) := by
  have hlist : ∀ {txos : List Txo}, KeyOrder txos →
      (∀ txo, txo ∈ txos ↔ ∃ r, m txo.oref = some r ∧ Asked question txo.oref r ∧
        txo = .ofRecord txo.oref r) → m.Answer question txos := by
    intro txos hkey hmem
    refine ⟨fun txo htxo => (hmem txo).mp htxo, fun _ => ⟨hkey, ?_⟩⟩
    intro o r hr hasked
    exact (hmem (.ofRecord o r)).mpr ⟨r, hr, hasked, rfl⟩
  obtain ⟨scope, query⟩ := question
  cases scope with
  | none =>
    cases query with
    | all slot => exact hlist .nil (by simp [allMatches, Asked])
    | unspent => exact hlist .nil (by simp [allMatches, Asked])
    | unspentByUnit unit =>
      apply hlist (h.shaped.outputKeyed.keyOrder_unitMatches _)
      intro txo
      apply h.mem_unitMatches.trans
      simp only [hm, Asked]
    | byOutputRef oref =>
      apply hlist (keyOrder_toList _)
      intro txo
      simp only [Option.mem_toList, lookupOutputRef_eq_some hm]
      constructor
      · rintro ⟨r, hr, rfl⟩
        exact ⟨r, hr, rfl, rfl⟩
      · rintro ⟨r, hr, rfl, heq⟩
        exact ⟨r, hr, heq⟩
  | some scope =>
    obtain ⟨c, k⟩ := scope
    cases query with
    | all slot =>
      refine ⟨?_, fun hall => absurd rfl (hall slot)⟩
      intro txo htxo
      obtain ⟨-, hmatch⟩ := (mem_eventsMatches h.shaped).mp htxo
      obtain ⟨r, hr, -, heq⟩ := mem_scopedMatch.mp hmatch
      exact ⟨r, (hm _).symm.trans hr, trivial, heq⟩
    | unspent =>
      apply hlist (keyOrder_unspentMatches h.shaped k c none)
      intro txo
      apply h.mem_unspentMatches.trans
      simp [hm, Asked]
    | unspentByUnit unit =>
      apply hlist (keyOrder_unspentMatches h.shaped k c (some unit))
      intro txo
      apply h.mem_unspentMatches.trans
      simp [hm, Asked, outputContainsUnit_iff]
    | byOutputRef oref =>
      apply hlist (keyOrder_toList _)
      intro txo
      simp only [Option.mem_toList, Option.filter_eq_some_iff,
        lookupOutputRef_eq_some hm, List.any_eq_true, beq_iff_eq, exists_eq_right]
      constructor
      · rintro ⟨⟨r, hr, rfl⟩, hc⟩
        exact ⟨r, hr, ⟨rfl, hc⟩, rfl⟩
      · rintro ⟨r, hr, ⟨rfl, hc⟩, heq⟩
        rw [heq]
        exact ⟨⟨r, hr, rfl⟩, hc⟩

end Answers

/-! ### One session -/

section Session

variable {lib : AddressLibrary} {out : OutputLibrary} {request : GetTxOsBatchRequest}
  {before since : List Event} {items : List GetTxOsBatchResponseItem}
  {item : GetTxOsBatchResponseItem}

theorem AnsweredAlong.see (h : AnsweredAlong lib out request before since items) (ev : Event) :
    AnsweredAlong lib out request before (since ++ [ev]) items := by
  induction items generalizing before since with
  | nil => trivial
  | cons item items ih =>
    obtain ⟨seen, rest, rfl, hitem, hrest⟩ := h
    exact ⟨seen, rest ++ [ev], by rw [List.append_assoc], hitem, ih hrest⟩

theorem AnsweredAlong.concat (h : AnsweredAlong lib out request before since items)
    (hitem : Answered lib out request (.after (before ++ since)) item) :
    AnsweredAlong lib out request before since (items ++ [item]) := by
  induction items generalizing before since with
  | nil => exact ⟨since, [], by rw [List.append_nil], hitem, trivial⟩
  | cons first items ih =>
    obtain ⟨seen, rest, rfl, hfirst, hrest⟩ := h
    refine ⟨seen, rest, rfl, hfirst, ih hrest ?_⟩
    rwa [List.append_assoc]

def Phase.rank : Phase → Nat
  | .start => 0
  | .scan _ => 1
  | .commit _ _ => 2
  | .snapshot _ => 3

theorem Phase.rank_lt (phase : Phase) : phase.rank < 4 := by
  cases phase <;> simp [rank]

/-- The next lookup to do asks the question, of more than nothing. -/
def Session.Asks (lib : AddressLibrary) (s : Session) (question : Question) : Prop :=
  0 < s.request.limit ∧
    ∃ lookup todo, s.todo = lookup :: todo ∧ lookup.question lib = .ok question

/-- The phase of a session goes with its next lookup. -/
def Session.InPhase (chain : Chain) (lib : AddressLibrary) (s : Session) : Phase → Prop
  | .start => True
  | .scan unit => s.Asks lib (none, .unspentByUnit unit)
  | .commit unit found =>
    s.Asks lib (none, .unspentByUnit unit) ∧ FoundRows chain (toAsciiLowercase unit) found
  | .snapshot question => s.Asks lib question

/-- The invariant of a session. -/
structure Session.Live (chain : Chain) (lib : AddressLibrary) (out : OutputLibrary) (v : Visit)
    (s : Session) : Prop where
  request : s.request = v.request
  items : s.responses.map GetTxOsBatchResponseItem.request ++ s.todo = v.request.requests
  answered : AnsweredAlong lib out v.request v.before v.since s.responses
  phase : s.InPhase chain lib s.phase
  pace : s.todo = [] ∨
    v.turns + 4 * s.todo.length ≤ 4 * v.request.requests.length + s.phase.rank

namespace Session.Live

variable {chain : Chain} {db : RocksDB} {v : Visit} {s : Session} {lookup : GetTxOsLookup}
  {todo : List GetTxOsLookup}

theorem accept (chain : Chain) (lib : AddressLibrary) (out : OutputLibrary)
    (request : GetTxOsBatchRequest) (before : List Event) :
    (Session.accept request).Live chain lib out ⟨request, before, [], 0⟩ where
  request := rfl
  items := rfl
  answered := trivial
  phase := trivial
  pace := .inr (by simp [Session.accept, Phase.rank])

theorem served (h : s.Live chain lib out v) : Served lib out v s where
  request := h.request
  items := h.items
  answered := h.answered
  finished := by
    intro hturns
    rcases h.pace with hdone | hpace
    · exact hdone
    · have hrank := s.phase.rank_lt
      have hlen : s.todo.length = 0 := by omega
      exact List.eq_nil_of_length_eq_zero hlen

theorem see (h : s.Live chain lib out v) (ev : Event) : s.Live chain lib out (v.see ev) where
  request := h.request
  items := h.items
  answered := h.answered.see ev
  phase := h.phase
  pace := h.pace

theorem push (h : s.Live chain lib out v) (htodo : s.todo = lookup :: todo)
    (hitem : item.request = lookup)
    (hanswer : Answered lib out v.request (.after (v.before ++ v.since)) item) :
    (s.push todo item).Live chain lib out v.turn where
  request := h.request
  items := by
    have hitems := h.items
    rw [htodo] at hitems
    simpa [Session.push, Visit.turn, hitem] using hitems
  answered := h.answered.concat hanswer
  phase := trivial
  pace := by
    rcases h.pace with hdone | hpace
    · rw [hdone] at htodo
      cases htodo
    · right
      have hrank := s.phase.rank_lt
      rw [htodo, List.length_cons] at hpace
      simp only [Session.push, Visit.turn, Phase.rank]
      omega

theorem goto (h : s.Live chain lib out v) (htodo : s.todo = lookup :: todo) {phase : Phase}
    (hphase : (s.goto phase).InPhase chain lib phase) (hrank : s.phase.rank < phase.rank) :
    (s.goto phase).Live chain lib out v.turn where
  request := h.request
  items := h.items
  answered := h.answered
  phase := hphase
  pace := by
    rcases h.pace with hdone | hpace
    · rw [hdone] at htodo
      cases htodo
    · right
      simp only [Session.goto, Visit.turn]
      omega

/-- One turn of a session leaves the records alone and answers a lookup, if it does, from them. -/
theorem advance (hs : s.Live chain lib out v) (h : Serves chain db)
    (hm : ∀ o, storedTxo db o = UtxoMap.after (v.before ++ v.since) o) :
    ∃ db' s', s.advance lib out db = some (db', s') ∧ Serves chain db' ∧
      (∀ o, storedTxo db' o = storedTxo db o) ∧ s'.Live chain lib out v.turn := by
  cases htodo : s.todo with
  | nil =>
    refine ⟨db, s, ?_, h, fun _ => rfl, hs.request, hs.items, hs.answered, hs.phase, .inl htodo⟩
    simp only [Session.advance, htodo]
  | cons lookup todo =>
    have hphase := hs.phase
    have hasks : ∀ {question}, s.Asks lib question → lookup.question lib = .ok question := by
      rintro question ⟨-, first, rest, hfirst, hq⟩
      rw [htodo, List.cons.injEq] at hfirst
      rwa [hfirst.1]
    cases hp : s.phase with
    | start =>
      cases hq : lookup.question lib with
      | error err =>
        refine ⟨db, s.push todo ⟨lookup, [], some err⟩, ?_, h, fun _ => rfl,
          hs.push htodo rfl (.rejected hq)⟩
        simp only [Session.advance, htodo, hp, hq]
      | ok question =>
        by_cases hl : s.request.limit = 0
        · refine ⟨db, s.push todo ⟨lookup, [], none⟩, ?_, h, fun _ => rfl,
            hs.push htodo rfl ?_⟩
          · simp only [Session.advance, htodo, hp, hq, hl, if_true]
          · have hnone : Answered lib out v.request _ _ :=
              .found hq (h.answer_allMatches hm question)
            rwa [← hs.request, hl, List.take_zero, List.map_nil, hs.request] at hnone
        · have hasked : s.Asks lib question := ⟨Nat.pos_of_ne_zero hl, lookup, todo, htodo, hq⟩
          have hsnapshot : (s.goto (.snapshot question)).Live chain lib out v.turn :=
            hs.goto htodo hasked (by simp [hp, Phase.rank])
          obtain ⟨scope, query⟩ := question
          rcases scope with _ | scope <;> rcases query with slot | _ | unit | oref
          case none.unspentByUnit =>
            cases hrow : Session.hasUnitRow db (toAsciiLowercase unit) with
            | true =>
              refine ⟨db, _, ?_, h, fun _ => rfl, hsnapshot⟩
              simp only [Session.advance, htodo, hp, hq, hl, hrow, if_true, if_false]
            | false =>
              refine ⟨db, s.goto (.scan unit), ?_, h, fun _ => rfl,
                hs.goto htodo hasked (by simp [hp, Phase.rank])⟩
              simp only [Session.advance, htodo, hp, hq, hl, hrow, if_false, Bool.false_eq_true]
          all_goals
            refine ⟨db, _, ?_, h, fun _ => rfl, hsnapshot⟩
            simp only [Session.advance, htodo, hp, hq, hl, if_false]
    | scan unit =>
      rw [hp] at hphase
      refine ⟨db, s.goto (.commit unit (backfillRows db (toAsciiLowercase unit))), ?_, h,
        fun _ => rfl, hs.goto htodo ⟨hphase, h.foundRows (toAsciiLowercase_idem unit)⟩
          (by simp [hp, Phase.rank])⟩
      simp only [Session.advance, htodo, hp]
    | commit unit found =>
      rw [hp] at hphase
      refine ⟨(backfill (toAsciiLowercase unit) found).run db,
        s.goto (.snapshot (none, .unspentByUnit unit)), ?_, h.backfill hphase.2, ?_,
        hs.goto htodo hphase.1 (by simp [hp, Phase.rank])⟩
      · simp only [Session.advance, htodo, hp]
      · intro o
        rw [storedTxo, cellOf, backfill_other _ _ _ .txo (by simp)]
        rfl
    | snapshot question =>
      rw [hp] at hphase
      have hquery := h.shaped.queryUtxos_eq question.1 question.2 s.request.offset hphase.1
      rw [hs.request] at hquery
      refine ⟨db, _, ?_, h, fun _ => rfl, hs.push htodo rfl
        (.found (hasks hphase) (h.answer_allMatches hm question))⟩
      simp only [Session.advance, htodo, hp, hquery, hs.request]
      rfl

end Session.Live

end Session

/-! ### A session on its own -/

section Alone

variable {lib : AddressLibrary} {out : OutputLibrary}

/-- So many turns of a session with nothing in between. -/
def Session.turns (lib : AddressLibrary) (out : OutputLibrary) :
    Nat → RocksDB × Session → Option (RocksDB × Session)
  | 0, st => some st
  | n + 1, (db, s) => (s.advance lib out db).bind (turns lib out n)

theorem GetTxOsLookup.handle_eq (lookup : GetTxOsLookup) (db : RocksDB) (offset limit : Nat) :
    handleGetUtxos lib db ⟨lookup, offset, limit⟩ = (lookup.question lib).map fun question =>
      getUtxos db question.1 question.2 offset limit := by
  unfold handleGetUtxos question
  cases resolveRequestCredentials lib lookup.address lookup.hash lookup.mode lookup.query with
  | error err => rfl
  | ok scope => cases TxoQuery.tryFrom lookup.query <;> rfl

theorem Session.turns_snapshot (s : Session) (db : RocksDB) {lookup : GetTxOsLookup}
    {todo : List GetTxOsLookup} (htodo : s.todo = lookup :: todo) (question : Question) :
    turns lib out 1 (db, s.goto (.snapshot question)) =
      (queryUtxos db question.1 question.2 s.request.offset s.request.limit).map fun utxos =>
        (db, s.push todo ⟨lookup, utxos.map (.of out s.request.includeCborHex), none⟩) := by
  simp only [turns, advance, goto, htodo]
  cases queryUtxos db question.1 question.2 s.request.offset s.request.limit <;> rfl

/-- Left to itself, a session answers a lookup as the single endpoint does. -/
theorem Session.turns_alone (s : Session) (db : RocksDB) {lookup : GetTxOsLookup}
    {todo : List GetTxOsLookup} (htodo : s.todo = lookup :: todo) (hp : s.phase = .start) :
    match handleGetUtxos lib db ⟨lookup, s.request.offset, s.request.limit⟩ with
    | .error err => turns lib out 1 (db, s) = some (db, s.push todo ⟨lookup, [], some err⟩)
    | .ok (db', utxos) => ∃ n ≤ 4, turns lib out n (db, s) = utxos.map fun utxos =>
        (db', s.push todo ⟨lookup, utxos.map (.of out s.request.includeCborHex), none⟩) := by
  rw [lookup.handle_eq]
  cases hq : lookup.question lib with
  | error err => simp only [Except.map, turns, advance, htodo, hp, hq, Option.bind_some]
  | ok question =>
    simp only [Except.map]
    by_cases hl : s.request.limit = 0
    · refine ⟨1, by omega, ?_⟩
      simp [turns, advance, htodo, hp, hq, hl, getUtxos]
    · have hget : ∀ db', prepareQuery db question.1 question.2 s.request.limit = db' →
          ∀ n, turns lib out n (db, s) = turns lib out 1 (db', s.goto (.snapshot question)) →
          turns lib out n (db, s) =
            (getUtxos db question.1 question.2 s.request.offset s.request.limit).2.map
              fun utxos => ((getUtxos db question.1 question.2 s.request.offset
                s.request.limit).1,
                s.push todo ⟨lookup, utxos.map (.of out s.request.includeCborHex), none⟩) := by
        intro db' hprep n hn
        rw [hn, s.turns_snapshot db' htodo, getUtxos, if_neg hl, hprep]
      obtain ⟨scope, query⟩ := question
      rcases scope with _ | scope <;> rcases query with slot | _ | unit | oref
      case none.unspentByUnit =>
        cases hrow : hasUnitRow db (toAsciiLowercase unit) with
        | true =>
          refine ⟨2, by omega, hget db ?_ 2 ?_⟩
          · rw [prepareQuery, if_neg hl]
            exact if_pos hrow
          · simp only [turns, advance, htodo, hp, hq, hl, hrow, if_true, if_false,
              Option.bind_some]
        | false =>
          refine ⟨4, by omega, hget _ rfl 4 ?_⟩
          have hensure : prepareQuery db none (.unspentByUnit unit) s.request.limit =
              (backfill (toAsciiLowercase unit)
                (backfillRows db (toAsciiLowercase unit))).run db := by
            rw [prepareQuery, if_neg hl]
            exact if_neg (by simpa [hasUnitRow] using hrow)
          rw [hensure]
          simp only [turns, advance, goto, htodo, hp, hq, hl, hrow, if_false,
            Bool.false_eq_true, Option.bind_some]
      all_goals
        refine ⟨2, by omega, hget db ?_ 2 ?_⟩
        · exact if_neg hl
        · simp only [turns, advance, htodo, hp, hq, hl, if_false, Option.bind_some]

end Alone

/-! ### Runs -/

section Runs

variable {chain : Chain} {lib : AddressLibrary} {out : OutputLibrary}

/-- The sessions against what has happened around their requests. -/
structure Service.Mirrors (chain : Chain) (lib : AddressLibrary) (out : OutputLibrary) (log : Log)
    (s : Service) : Prop where
  serves : Serves chain s.db
  stored : ∀ o, storedTxo s.db o = UtxoMap.after log.events o
  moments : ∀ v ∈ log.visits, v.before ++ v.since = log.events
  sessions : List.Forall₂ (Session.Live chain lib out) log.visits s.sessions

theorem UtxoMap.after_concat (evs : List Event) (ev : Event) (o : OutputRef) :
    UtxoMap.after (evs ++ [ev]) o = ev.record o (UtxoMap.after evs o) := by
  simp [UtxoMap.after]

/-- Related lists stay related when related elements of them change together. -/
theorem forall₂_set {A B : Type} {R : A → B → Prop} {as : List A} {bs : List B}
    (h : List.Forall₂ R as bs) {f : A → A} {i : Nat} {b b' : B} (hb : bs[i]? = some b)
    (hf : ∀ a ∈ as, R a b → R (f a) b') : List.Forall₂ R (as.modify i f) (bs.set i b') := by
  induction h generalizing i with
  | nil => cases hb
  | @cons a b₀ as bs hab h ih =>
    cases i with
    | zero =>
      obtain rfl := Option.some.inj hb
      exact .cons (hf a List.mem_cons_self hab) h
    | succ i => exact .cons hab (ih hb fun a' ha' => hf a' (List.mem_cons_of_mem _ ha'))

theorem forall₂_mem_right {A B : Type} {R : A → B → Prop} {as : List A} {bs : List B}
    (h : List.Forall₂ R as bs) {b : B} (hb : b ∈ bs) : ∃ a ∈ as, R a b := by
  induction h with
  | nil => cases hb
  | @cons a b₀ as bs hab h ih =>
    rcases List.mem_cons.mp hb with rfl | hb
    · exact ⟨a, List.mem_cons_self, hab⟩
    · obtain ⟨a', ha', hr⟩ := ih hb
      exact ⟨a', List.mem_cons_of_mem _ ha', hr⟩

theorem Service.Mirrors.step {log : Log} {s : Service} (h : s.Mirrors chain lib out log)
    (st : ServiceStep) (hst : ∀ ev, st = .event ev → ev.OfChain chain) :
    ∃ s', s.step lib out st = some s' ∧ s'.Mirrors chain lib out (log.step st) := by
  cases st with
  | event ev =>
    refine ⟨_, rfl, h.serves.event (hst ev rfl), ?_, ?_, ?_⟩
    · intro o
      rw [storedTxo_event, h.stored]
      exact (UtxoMap.after_concat log.events ev o).symm
    · intro v hv
      obtain ⟨v, hmem, rfl⟩ := List.mem_map.mp hv
      simp only [Visit.see, Log.step, ← h.moments v hmem, List.append_assoc]
    · exact List.forall₂_map_left_iff.mpr (h.sessions.imp fun v s hs => hs.see ev)
  | accept request =>
    refine ⟨_, rfl, h.serves, h.stored, ?_, ?_⟩
    · intro v hv
      rcases List.mem_append.mp hv with hv | hv
      · exact h.moments v hv
      · obtain rfl := List.mem_singleton.mp hv
        exact List.append_nil _
    · exact List.rel_append h.sessions
        (.cons (.accept chain lib out request log.events) .nil)
  | advance i =>
    have hlen := h.sessions.length_eq
    cases hi : s.sessions[i]? with
    | none =>
      have hle : log.visits.length ≤ i := by
        rw [hlen]
        exact List.getElem?_eq_none_iff.mp hi
      refine ⟨s, by simp only [Service.step, hi], h.serves, h.stored, ?_, ?_⟩
      · rw [Log.step, List.modify_eq_self hle]
        exact h.moments
      · rw [Log.step, List.modify_eq_self hle]
        exact h.sessions
    | some session =>
      obtain ⟨v, hv, hlive⟩ := forall₂_mem_right h.sessions (List.mem_of_getElem? hi)
      have hturn : ∀ v ∈ log.visits, session.Live chain lib out v → _ := fun v hv hlive =>
        hlive.advance h.serves fun o => by rw [h.stored, h.moments v hv]
      obtain ⟨db, session', hadvance, hserves, hstored, -⟩ := hturn v hv hlive
      refine ⟨⟨db, s.sessions.set i session'⟩, ?_, hserves, ?_, ?_, ?_⟩
      · simp only [Service.step, hi, hadvance]
        rfl
      · intro o
        exact (hstored o).trans (h.stored o)
      · intro w hw
        obtain ⟨j, hj⟩ := List.mem_iff_getElem?.mp hw
        simp only [Log.step, List.getElem?_modify, Option.map_eq_map] at hj
        obtain ⟨w', hw', rfl⟩ := Option.map_eq_some_iff.mp hj
        have hmoment := h.moments w' (List.mem_of_getElem? hw')
        by_cases hij : i = j
        · rwa [if_pos hij]
        · rwa [if_neg hij]
      · apply forall₂_set h.sessions hi
        intro w hw hwlive
        obtain ⟨db₂, session₂, hadvance₂, -, -, hlive₂⟩ := hturn w hw hwlive
        rw [hadvance, Option.some.injEq, Prod.mk.injEq] at hadvance₂
        rwa [hadvance₂.2]

theorem Service.Mirrors.run (steps : List ServiceStep)
    (hsteps : ∀ ev, .event ev ∈ steps → ev.OfChain chain) :
    ∃ s, Service.run lib out steps = some s ∧ s.Mirrors chain lib out (Log.of steps) := by
  induction steps using List.reverseRecOn with
  | nil => exact ⟨_, rfl, .empty chain, fun _ => rfl, by simp [Log.of], .nil⟩
  | append_singleton steps st ih =>
    obtain ⟨s, hs, hmirrors⟩ := ih fun ev hev => hsteps ev (List.mem_append_left _ hev)
    obtain ⟨s', hs', hmirrors'⟩ := hmirrors.step st fun ev hev => hsteps ev (by simp [hev])
    refine ⟨s', ?_, ?_⟩
    · rw [Service.run, List.foldlM_append, ← Service.run, hs]
      simpa using hs'
    · rwa [Log.of, List.foldl_append]

/-- However the events, the requests and the accesses to the database interleave, no lookup fails,
the index holds what the events have left, and every request is served: no answer shows that the
units are indexed on demand, or that the rows found for them are written late. -/
theorem service_answers (lib : AddressLibrary) (out : OutputLibrary) (chain : Chain)
    (steps : List ServiceStep) (hsteps : ∀ ev, .event ev ∈ steps → ev.OfChain chain) :
    ∃ s, Service.run lib out steps = some s ∧
      (∀ o, storedTxo s.db o = UtxoMap.after (Log.of steps).events o) ∧
      List.Forall₂ (Served lib out) (Log.of steps).visits s.sessions := by
  obtain ⟨s, hs, h⟩ := Service.Mirrors.run steps hsteps
  exact ⟨s, hs, h.stored, h.sessions.imp fun v session hlive => hlive.served⟩

end Runs

/-- A library for outputs without datum and script that are not asked for as bytes. -/
def plainLibrary : OutputLibrary := ⟨fun _ => .replicate 0, .native, fun _ => []⟩

/-- A request for a unit scans for it before an event mints it, and writes what it found after. -/
def overtakenScan : List ServiceStep :=
  [.accept ⟨[⟨none, none, .byPaymentCredential, .unspentByUnit mintedUnit⟩], 0, 10, false⟩,
    .advance 0, .advance 0, .event (.mempool (.txAccepted (txMint 1))), .advance 0, .advance 0]

theorem overtakenScan_answers :
    ∃ s, Service.run sampleLibrary plainLibrary overtakenScan = some s ∧
      (∀ o, storedTxo s.db o = UtxoMap.after (Log.of overtakenScan).events o) ∧
      List.Forall₂ (Served sampleLibrary plainLibrary) (Log.of overtakenScan).visits
        s.sessions := by
  apply service_answers sampleLibrary plainLibrary fun o =>
    ((txMint 1).outputAt o).getD (.alonzoFormatTxOut .byron ⟨0, []⟩ none)
  intro ev hev
  simp only [overtakenScan, List.mem_cons, reduceCtorEq, ServiceStep.event.injEq, false_or,
    List.not_mem_nil, or_false] at hev
  subst hev
  intro p hp
  obtain rfl := List.mem_singleton.mp hp
  rfl

end UtxoMonitor
