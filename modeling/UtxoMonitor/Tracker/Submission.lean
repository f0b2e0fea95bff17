import UtxoMonitor.ExecutionEngine.Funding

/-! The agent that submits the transactions of several executors to the node, one at a time, and has
those that are accepted tracked. -/
namespace UtxoMonitor

/-! ### The agent -/

/-- A transaction, and whom to tell what came of it. -/
structure SubmitTx (C Tx : Type) where
  tx : Tx
  onResp : C

inductive TxSubmissionAgent (C Tx : Type) where
  | receiving
  | submitting (message : SubmitTx C Tx)
  | tracking (tx : Tx)
  /-- The submission failed, the one to tell is gone, or the tracker is. -/
  | panicked

/-- What the node rejects a transaction for. -/
inductive ConwayLedgerFailure (V : Type) where
  | badInputsUTxO (inputs : List V)
  | other

inductive TxValidationError (V : Type) where
  | shelley (nodeErrors : List (ConwayLedgerFailure V))
  | byron

namespace TxValidationError

variable {V : Type} [DecidableEq V]

def badInputs : ConwayLedgerFailure V → List V
  | .badInputsUTxO inputs => inputs
  | .other => []

/-- "No missing inputs" is `none`. -/
def missingUtxos : TxValidationError V → Option (Finset V)
  | shelley nodeErrors =>
    let missing := (nodeErrors.flatMap badInputs).toFinset
    if missing = ∅ then none else some missing
  | byron => none

theorem mem_missingUtxos {nodeErrors : List (ConwayLedgerFailure V)} {v : V} :
    v ∈ (missingUtxos (shelley nodeErrors)).getD ∅ ↔
      ∃ inputs, .badInputsUTxO inputs ∈ nodeErrors ∧ v ∈ inputs := by
  have hmem : v ∈ (nodeErrors.flatMap badInputs).toFinset ↔
      ∃ inputs, .badInputsUTxO inputs ∈ nodeErrors ∧ v ∈ inputs := by
    rw [List.mem_toFinset, List.mem_flatMap]
    constructor
    · rintro ⟨failure | _, hfailure, hv⟩
      · exact ⟨failure, hfailure, hv⟩
      · cases hv
    · rintro ⟨inputs, hfailure, hv⟩
      exact ⟨_, hfailure, hv⟩
  rw [← hmem, missingUtxos]
  split
  · rename_i hempty
    rw [hempty]
    rfl
  · rfl

end TxValidationError

/-! ### Executors and their agent -/

/-- A part of a program that has one transaction submitted at a time, and takes turns while none is. -/
structure Submitter (P Tx R : Type) where
  submission : P → Option Tx
  feedback : P → List (Except R Unit)
  turn : P → P → Prop
  submitted : Except R Unit → P → P
  feedback_submitted : ∀ result p, feedback (submitted result p) = feedback p ++ [result]
  submission_submitted : ∀ result p, submission (submitted result p) = none
  submission_of_turn : ∀ {p p'}, turn p p' → submission p = none
  feedback_of_turn : ∀ {p p'}, turn p p' → ∃ heard, feedback p = heard ++ feedback p'

/-- The parts, the channels between them and the agent, and what was sent to the tracker. -/
structure Submission (I P Tx R : Type) where
  parts : I → P
  /-- The part's transaction is sent to the agent. -/
  asked : I → Bool
  /-- The part is no more. -/
  gone : I → Bool
  mailbox : List (SubmitTx I Tx)
  agent : TxSubmissionAgent I Tx
  responses : I → Option (Except R Unit)
  tracked : List Tx

/-- What happens in the system. -/
inductive SubmissionEvent (I Tx R : Type) where
  | turned (i : I) (heard : List (Except R Unit)) (made : Option Tx)
  | asked (i : I) (tx : Tx)
  | judged (i : I) (tx : Tx) (result : Except R Unit)
  | tracked (tx : Tx)
  | nothing

variable {I P Tx R : Type} [DecidableEq I]

namespace Submission

/-- The agent's turn after the node has judged a transaction. -/
def agentAfter (tx : Tx) : Except R Unit → TxSubmissionAgent I Tx
  | .ok () => .tracking tx
  | .error _ => .receiving

/-- A step of one of the parts, of the agent or of the node. A full channel only delays its sender. -/
inductive Step (x : Submitter P Tx R) (s : Submission I P Tx R) :
    SubmissionEvent I Tx R → Submission I P Tx R → Prop where
  | turn (i : I) {p : P} (hgone : s.gone i = false) (hturn : x.turn (s.parts i) p) :
    Step x s
      (.turned i ((x.feedback (s.parts i)).take
        ((x.feedback (s.parts i)).length - (x.feedback p).length)) (x.submission p))
      { s with parts := Function.update s.parts i p }
  | ask {i : I} {tx : Tx} (hgone : s.gone i = false) (hrunning : s.agent ≠ .panicked)
    (hsubmission : x.submission (s.parts i) = some tx) (hasked : s.asked i = false) :
    Step x s (.asked i tx)
      { s with
        mailbox := s.mailbox ++ [⟨tx, i⟩]
        asked := Function.update s.asked i true }
  | receive {message : SubmitTx I Tx} {mailbox : List (SubmitTx I Tx)}
    (hagent : s.agent = .receiving) (hmailbox : s.mailbox = message :: mailbox) :
    Step x s .nothing { s with agent := .submitting message, mailbox := mailbox }
  | judge {message : SubmitTx I Tx} (result : Except R Unit)
    (hagent : s.agent = .submitting message) (hgone : s.gone message.onResp = false) :
    Step x s (.judged message.onResp message.tx result)
      { s with
        agent := agentAfter message.tx result
        responses := Function.update s.responses message.onResp (some result) }
  /-- "Responder was dropped" -/
  | judgeGone {message : SubmitTx I Tx} (result : Except R Unit)
    (hagent : s.agent = .submitting message) (hgone : s.gone message.onResp = true) :
    Step x s (.judged message.onResp message.tx result) { s with agent := .panicked }
  /-- The node does not answer in time, or the connection breaks. -/
  | fail {message : SubmitTx I Tx} (hagent : s.agent = .submitting message) :
    Step x s .nothing { s with agent := .panicked }
  | track {tx : Tx} (hagent : s.agent = .tracking tx) :
    Step x s (.tracked tx) { s with agent := .receiving, tracked := s.tracked ++ [tx] }
  /-- The tracker's channel is closed. -/
  | trackerGone {tx : Tx} (hagent : s.agent = .tracking tx) :
    Step x s .nothing { s with agent := .panicked }
  | deliver {i : I} {result : Except R Unit} (hgone : s.gone i = false)
    (hresponse : s.responses i = some result) :
    Step x s .nothing
      { s with
        parts := Function.update s.parts i (x.submitted result (s.parts i))
        asked := Function.update s.asked i false
        responses := Function.update s.responses i none }
  | drop (i : I) : Step x s .nothing { s with gone := Function.update s.gone i true }

def start (parts : I → P) : Submission I P Tx R where
  parts := parts
  asked := fun _ => false
  gone := fun _ => false
  mailbox := []
  agent := .receiving
  responses := fun _ => none
  tracked := []

inductive Run (x : Submitter P Tx R) (s : Submission I P Tx R) :
    List (SubmissionEvent I Tx R) → Submission I P Tx R → Prop where
  | refl : Run x s [] s
  | tail {log : List (SubmissionEvent I Tx R)} {event : SubmissionEvent I Tx R}
    {t t' : Submission I P Tx R} (run : Run x s log t) (step : Step x t event t') :
    Run x s (log ++ [event]) t'

/-- The messages that the node has not judged. -/
def inFlight (s : Submission I P Tx R) : List (SubmitTx I Tx) :=
  match s.agent with
  | .submitting message => message :: s.mailbox
  | _ => s.mailbox

end Submission

/-! ### What is told of a run -/

namespace SubmissionEvent

def asks : SubmissionEvent I Tx R → List (I × Tx)
  | .asked i tx => [(i, tx)]
  | _ => []

def judgments : SubmissionEvent I Tx R → List (I × Tx × Except R Unit)
  | .judged i tx result => [(i, tx, result)]
  | _ => []

/-- The transactions that a part makes. -/
def made (i : I) : SubmissionEvent I Tx R → List Tx
  | .turned j _ made => if j = i then made.toList else []
  | _ => []

/-- The fates of transactions that a part handles. -/
def heard (i : I) : SubmissionEvent I Tx R → List (Except R Unit)
  | .turned j heard _ => if j = i then heard else []
  | _ => []

variable {i j : I} {tx : Tx} {result : Except R Unit} {l : List (Except R Unit)} {txMade : Option Tx}

omit [DecidableEq I] in
@[simp] theorem asks_turned : (turned j l txMade).asks = [] := rfl

omit [DecidableEq I] in
@[simp] theorem asks_asked : (asked j tx : SubmissionEvent I Tx R).asks = [(j, tx)] := rfl

omit [DecidableEq I] in
@[simp] theorem asks_judged : (judged j tx result).asks = [] := rfl

omit [DecidableEq I] in
@[simp] theorem asks_nothing : (nothing : SubmissionEvent I Tx R).asks = [] := rfl

omit [DecidableEq I] in
@[simp] theorem judgments_turned : (turned j l txMade).judgments = [] := rfl

omit [DecidableEq I] in
@[simp] theorem judgments_asked : (asked j tx : SubmissionEvent I Tx R).judgments = [] := rfl

omit [DecidableEq I] in
@[simp] theorem judgments_judged : (judged j tx result).judgments = [(j, tx, result)] := rfl

omit [DecidableEq I] in
@[simp] theorem judgments_nothing : (nothing : SubmissionEvent I Tx R).judgments = [] := rfl

@[simp] theorem made_turned :
    (turned j l txMade).made i = if j = i then txMade.toList else [] := rfl

@[simp] theorem made_asked : (asked j tx : SubmissionEvent I Tx R).made i = [] := rfl

@[simp] theorem made_judged : (judged j tx result).made i = [] := rfl

@[simp] theorem made_nothing : (nothing : SubmissionEvent I Tx R).made i = [] := rfl

@[simp] theorem heard_turned : (turned j l txMade).heard i = if j = i then l else [] := rfl

@[simp] theorem heard_asked : (asked j tx : SubmissionEvent I Tx R).heard i = [] := rfl

@[simp] theorem heard_judged : (judged j tx result).heard i = [] := rfl

@[simp] theorem heard_nothing : (nothing : SubmissionEvent I Tx R).heard i = [] := rfl

end SubmissionEvent

/-- What concerns one part. -/
def ofPart {A : Type} (i : I) (l : List (I × A)) : List A :=
  l.filterMap fun (j, a) => if j = i then some a else none

@[simp] theorem ofPart_nil {A : Type} (i : I) : ofPart i ([] : List (I × A)) = [] := rfl

@[simp] theorem ofPart_append {A : Type} (i : I) (l l' : List (I × A)) :
    ofPart i (l ++ l') = ofPart i l ++ ofPart i l' := List.filterMap_append

@[simp] theorem ofPart_singleton {A : Type} (i j : I) (a : A) :
    ofPart i [(j, a)] = if j = i then [a] else [] := by
  by_cases h : j = i
  · simp [ofPart, h]
  · simp [ofPart, h]

theorem map_ofPart {A B : Type} (f : A → B) (i : I) (l : List (I × A)) :
    ofPart i (l.map (Prod.map id f)) = (ofPart i l).map f := by
  induction l with
  | nil => rfl
  | cons a l ih =>
    obtain ⟨j, a⟩ := a
    by_cases h : j = i
    · simpa [ofPart, h] using ih
    · simpa [ofPart, h] using ih

namespace Submission

variable {x : Submitter P Tx R} {s t : Submission I P Tx R} {log : List (SubmissionEvent I Tx R)}
  {event : SubmissionEvent I Tx R}

/-- Everything that is asked is judged or on its way, in the order in which it is asked; and what a part
makes is asked for it, and what the node judges of that comes back to it. Of what is on its way when the
agent panics some is lost. -/
structure Accounted (x : Submitter P Tx R) (log : List (SubmissionEvent I Tx R))
    (s : Submission I P Tx R) (rest : List (I × Tx)) (lost : I → List (Except R Unit)) : Prop where
  asks : log.flatMap SubmissionEvent.asks =
    (log.flatMap SubmissionEvent.judgments).map (Prod.map id Prod.fst) ++ rest
  flying : s.agent ≠ .panicked → rest = s.inFlight.map fun message => (message.onResp, message.tx)
  made : ∀ i, log.flatMap (·.made i) = ofPart i (log.flatMap SubmissionEvent.asks) ++
    if s.asked i then [] else (x.submission (s.parts i)).toList
  heard : ∀ i, (ofPart i (log.flatMap SubmissionEvent.judgments)).map Prod.snd =
    log.flatMap (·.heard i) ++ x.feedback (s.parts i) ++ (s.responses i).toList ++ lost i
  one : ∀ i, (ofPart i rest).length + (s.responses i).toList.length + (lost i).length ≤
    if s.asked i then 1 else 0
  occupied : ∀ i, s.asked i = true → x.submission (s.parts i) ≠ none

theorem accounted_start {parts : I → P} (hsubmission : ∀ i, x.submission (parts i) = none)
    (hfeedback : ∀ i, x.feedback (parts i) = []) :
    Accounted x [] (start parts) [] fun _ => [] where
  asks := rfl
  flying _ := rfl
  made i := by simp [start, hsubmission]
  heard i := by simp [start, hfeedback]
  one i := by simp [start]
  occupied i h := by cases h

/-- A step that neither asks nor judges, and leaves the parts alone. -/
theorem Accounted.still {rest : List (I × Tx)} {lost : I → List (Except R Unit)}
    (h : Accounted x log s rest lost) (hasks : event.asks = []) (hjudgments : event.judgments = [])
    (hmade : ∀ i, event.made i = []) (hheard : ∀ i, event.heard i = []) (hparts : t.parts = s.parts)
    (hasked : t.asked = s.asked) (hresponses : t.responses = s.responses)
    (hflying : t.agent ≠ .panicked → s.agent ≠ .panicked ∧ t.inFlight = s.inFlight) :
    Accounted x (log ++ [event]) t rest lost where
  asks := by simpa [hasks, hjudgments] using h.asks
  flying hrunning := by
    obtain ⟨hbefore, hsame⟩ := hflying hrunning
    rw [hsame]
    exact h.flying hbefore
  made i := by simpa [hasks, hmade, hparts, hasked] using h.made i
  heard i := by simpa [hjudgments, hheard, hparts, hresponses] using h.heard i
  one i := by
    rw [hasked, hresponses]
    exact h.one i
  occupied i := by
    rw [hasked, hparts]
    exact h.occupied i

theorem Accounted.turn {rest : List (I × Tx)} {lost : I → List (Except R Unit)}
    (h : Accounted x log s rest lost) {i : I} {p : P} (hturn : x.turn (s.parts i) p) :
    Accounted x (log ++ [.turned i ((x.feedback (s.parts i)).take
      ((x.feedback (s.parts i)).length - (x.feedback p).length)) (x.submission p)])
      { s with parts := Function.update s.parts i p } rest lost := by
  obtain ⟨heard, hfeedback⟩ := x.feedback_of_turn hturn
  have hsubmission := x.submission_of_turn hturn
  have htaken : (x.feedback (s.parts i)).take
      ((x.feedback (s.parts i)).length - (x.feedback p).length) = heard := by
    rw [hfeedback, List.length_append, Nat.add_sub_cancel, List.take_left']
    rfl
  have hasked : s.asked i = false := by
    cases hasked : s.asked i with
    | false => rfl
    | true => exact absurd hsubmission (h.occupied i hasked)
  rw [htaken]
  refine ⟨?_, h.flying, fun j => ?_, fun j => ?_, h.one, fun j hj => ?_⟩
  · simpa using h.asks
  · have hmade := h.made j
    by_cases hij : i = j
    · subst hij
      simp [hmade, hasked, hsubmission]
    · simp [hmade, hij, Function.update_of_ne (Ne.symm hij)]
  · have hheard := h.heard j
    by_cases hij : i = j
    · subst hij
      simp [hheard, hfeedback]
    · simp [hheard, hij, Function.update_of_ne (Ne.symm hij)]
  · have hne : j ≠ i := by
      rintro rfl
      rw [hasked] at hj
      cases hj
    show x.submission (Function.update s.parts i p j) ≠ none
    rw [Function.update_of_ne hne]
    exact h.occupied j hj

theorem Accounted.ask {rest : List (I × Tx)} {lost : I → List (Except R Unit)}
    (h : Accounted x log s rest lost) {i : I} {tx : Tx} (hrunning : s.agent ≠ .panicked)
    (hsubmission : x.submission (s.parts i) = some tx) (hasked : s.asked i = false) :
    Accounted x (log ++ [.asked i tx])
      { s with
        mailbox := s.mailbox ++ [⟨tx, i⟩]
        asked := Function.update s.asked i true } (rest ++ [(i, tx)]) lost := by
  refine ⟨?_, fun _ => ?_, fun j => ?_, fun j => ?_, fun j => ?_, fun j hj => ?_⟩
  · simp [h.asks]
  · rw [h.flying hrunning]
    simp only [inFlight]
    cases s.agent with
    | submitting message => simp
    | receiving => simp
    | tracking tx' => simp
    | panicked => simp
  · have hmade := h.made j
    by_cases hij : i = j
    · subst hij
      simp [hmade, hasked, hsubmission]
    · simp [hmade, hij, Function.update_of_ne (Ne.symm hij)]
  · simpa using h.heard j
  · have hone := h.one j
    by_cases hij : i = j
    · subst hij
      simp only [hasked, Bool.false_eq_true, if_false] at hone
      simp
      omega
    · simpa [hij, Function.update_of_ne (Ne.symm hij)] using hone
  · by_cases hij : j = i
    · subst hij
      show x.submission (s.parts j) ≠ none
      rw [hsubmission]
      exact Option.some_ne_none tx
    · have hbefore : s.asked j = true := by
        have hj : Function.update s.asked i true j = true := hj
        rwa [Function.update_of_ne hij] at hj
      exact h.occupied j hbefore

/-- A part whose transaction is on its way to the node waits for nothing else. -/
theorem alone_of_flying {i : I} {tx : Tx} {rest : List (I × Tx)} {asked : Bool}
    {response : Option (Except R Unit)} {lost : List (Except R Unit)}
    (h : (ofPart i ((i, tx) :: rest)).length + response.toList.length + lost.length ≤
      if asked then 1 else 0) :
    asked = true ∧ ofPart i rest = [] ∧ response = none ∧ lost = [] := by
  have hcons : ofPart i ((i, tx) :: rest) = tx :: ofPart i rest := by simp [ofPart]
  rw [hcons, List.length_cons] at h
  cases asked with
  | false =>
    simp only [Bool.false_eq_true, if_false] at h
    omega
  | true =>
    simp only [if_true] at h
    refine ⟨rfl, List.length_eq_zero_iff.mp (by omega), ?_, List.length_eq_zero_iff.mp (by omega)⟩
    cases response with
    | none => rfl
    | some result =>
      simp only [Option.toList_some, List.length_singleton] at h
      omega

/-- The message that the agent is at is the first of those on their way. -/
theorem Accounted.eq_cons {rest : List (I × Tx)} {lost : I → List (Except R Unit)}
    (h : Accounted x log s rest lost) {message : SubmitTx I Tx}
    (hagent : s.agent = .submitting message) : rest = (message.onResp, message.tx) ::
      s.mailbox.map fun message => (message.onResp, message.tx) := by
  have hrunning : s.agent ≠ .panicked := by
    intro hpanicked
    rw [hagent] at hpanicked
    cases hpanicked
  rw [h.flying hrunning, inFlight, hagent]
  rfl

/-- A part is told what the node judged of its transaction. -/
theorem Accounted.judge {rest : List (I × Tx)} {lost : I → List (Except R Unit)}
    (h : Accounted x log s rest lost) {message : SubmitTx I Tx} (result : Except R Unit)
    (hagent : s.agent = .submitting message) :
    Accounted x (log ++ [.judged message.onResp message.tx result])
      { s with
        agent := agentAfter message.tx result
        responses := Function.update s.responses message.onResp (some result) }
      (s.mailbox.map fun message => (message.onResp, message.tx)) lost := by
  obtain rfl := h.eq_cons hagent
  refine ⟨?_, fun _ => ?_, fun j => ?_, fun j => ?_, fun j => ?_, h.occupied⟩
  · simp [h.asks]
  · cases result with
    | ok _ => rfl
    | error _ => rfl
  · simpa using h.made j
  · have hheard := h.heard j
    by_cases hij : message.onResp = j
    · subst hij
      obtain ⟨-, -, hresponse, hlost⟩ := alone_of_flying (h.one message.onResp)
      simp [hheard, hresponse, hlost]
    · simp [hheard, hij, Function.update_of_ne (Ne.symm hij)]
  · have hone := h.one j
    by_cases hij : message.onResp = j
    · subst hij
      obtain ⟨hasked, hrest, -, hlost⟩ := alone_of_flying hone
      simp [hasked, hrest, hlost]
    · simpa [ofPart, hij, Function.update_of_ne (Ne.symm hij)] using hone

/-- There is nobody to tell, and the agent goes down with the judgment. -/
theorem Accounted.judgeGone {rest : List (I × Tx)} {lost : I → List (Except R Unit)}
    (h : Accounted x log s rest lost) {message : SubmitTx I Tx} (result : Except R Unit)
    (hagent : s.agent = .submitting message) :
    Accounted x (log ++ [.judged message.onResp message.tx result]) { s with agent := .panicked }
      (s.mailbox.map fun message => (message.onResp, message.tx))
      (Function.update lost message.onResp [result]) := by
  obtain rfl := h.eq_cons hagent
  refine ⟨?_, fun hrunning => absurd rfl hrunning, fun j => ?_, fun j => ?_, fun j => ?_,
    h.occupied⟩
  · simp [h.asks]
  · simpa using h.made j
  · have hheard := h.heard j
    by_cases hij : message.onResp = j
    · subst hij
      obtain ⟨-, -, hresponse, hlost⟩ := alone_of_flying (h.one message.onResp)
      simp [hheard, hresponse, hlost]
    · simp [hheard, hij, Function.update_of_ne (Ne.symm hij)]
  · have hone := h.one j
    by_cases hij : message.onResp = j
    · subst hij
      obtain ⟨hasked, hrest, hresponse, -⟩ := alone_of_flying hone
      simp [hasked, hrest, hresponse]
    · simpa [ofPart, hij, Function.update_of_ne (Ne.symm hij)] using hone

theorem Accounted.asked_of_response {rest : List (I × Tx)} {lost : I → List (Except R Unit)}
    (h : Accounted x log s rest lost) {i : I} {result : Except R Unit}
    (hresponse : s.responses i = some result) : s.asked i = true := by
  have hone := h.one i
  rw [hresponse, Option.toList_some, List.length_singleton] at hone
  cases hasked : s.asked i with
  | true => rfl
  | false =>
    rw [hasked] at hone
    simp only [Bool.false_eq_true, if_false] at hone
    omega

theorem Accounted.submission_of_response {rest : List (I × Tx)}
    {lost : I → List (Except R Unit)} (h : Accounted x log s rest lost) {i : I}
    {result : Except R Unit} (hresponse : s.responses i = some result) :
    x.submission (s.parts i) ≠ none :=
  h.occupied i (h.asked_of_response hresponse)

theorem Accounted.deliver {rest : List (I × Tx)} {lost : I → List (Except R Unit)}
    (h : Accounted x log s rest lost) {i : I} {result : Except R Unit}
    (hresponse : s.responses i = some result) :
    Accounted x (log ++ [.nothing])
      { s with
        parts := Function.update s.parts i (x.submitted result (s.parts i))
        asked := Function.update s.asked i false
        responses := Function.update s.responses i none } rest lost := by
  have hasked := h.asked_of_response hresponse
  have hone := h.one i
  rw [hresponse, hasked, if_pos rfl, Option.toList_some, List.length_singleton] at hone
  refine ⟨?_, h.flying, fun j => ?_, fun j => ?_, fun j => ?_, fun j hj => ?_⟩
  · simpa using h.asks
  · have hmade := h.made j
    by_cases hij : i = j
    · subst hij
      simp [hmade, hasked, x.submission_submitted]
    · simp [hmade, Function.update_of_ne (Ne.symm hij)]
  · have hheard := h.heard j
    by_cases hij : i = j
    · subst hij
      simp [hheard, hresponse, x.feedback_submitted]
    · simp [hheard, Function.update_of_ne (Ne.symm hij)]
  · by_cases hij : i = j
    · subst hij
      simp only [Function.update_self, Option.toList_none, List.length_nil, Bool.false_eq_true,
        if_false]
      omega
    · simpa [Function.update_of_ne (Ne.symm hij)] using h.one j
  · have hne : j ≠ i := by
      rintro rfl
      have hj : Function.update s.asked j false j = true := hj
      rw [Function.update_self] at hj
      cases hj
    have hj : Function.update s.asked i false j = true := hj
    rw [Function.update_of_ne hne] at hj
    show x.submission (Function.update s.parts i _ j) ≠ none
    rw [Function.update_of_ne hne]
    exact h.occupied j hj

theorem Accounted.step {rest : List (I × Tx)} {lost : I → List (Except R Unit)}
    (h : Accounted x log s rest lost) (hstep : Step x s event t) :
    ∃ rest' lost', Accounted x (log ++ [event]) t rest' lost' := by
  cases hstep with
  | turn i hgone hturn => exact ⟨_, _, h.turn hturn⟩
  | ask hgone hrunning hsubmission hasked => exact ⟨_, _, h.ask hrunning hsubmission hasked⟩
  | receive hagent hmailbox =>
    refine ⟨_, _, h.still rfl rfl (fun _ => rfl) (fun _ => rfl) rfl rfl rfl fun _ => ?_⟩
    refine ⟨?_, ?_⟩
    · rw [hagent]
      intro hpanicked
      cases hpanicked
    · simp only [inFlight, hagent, hmailbox]
  | judge result hagent hgone => exact ⟨_, _, h.judge result hagent⟩
  | judgeGone result hagent hgone => exact ⟨_, _, h.judgeGone result hagent⟩
  | fail hagent =>
    exact ⟨_, _, h.still rfl rfl (fun _ => rfl) (fun _ => rfl) rfl rfl rfl fun hrunning =>
      absurd rfl hrunning⟩
  | track hagent =>
    refine ⟨_, _, h.still rfl rfl (fun _ => rfl) (fun _ => rfl) rfl rfl rfl fun _ => ?_⟩
    refine ⟨?_, ?_⟩
    · rw [hagent]
      intro hpanicked
      cases hpanicked
    · simp only [inFlight, hagent]
  | trackerGone hagent =>
    exact ⟨_, _, h.still rfl rfl (fun _ => rfl) (fun _ => rfl) rfl rfl rfl fun hrunning =>
      absurd rfl hrunning⟩
  | deliver hgone hresponse => exact ⟨_, _, h.deliver hresponse⟩
  | drop i =>
    exact ⟨_, _, h.still rfl rfl (fun _ => rfl) (fun _ => rfl) rfl rfl rfl fun hrunning =>
      ⟨hrunning, rfl⟩⟩

theorem exists_accounted {parts : I → P} (hsubmission : ∀ i, x.submission (parts i) = none)
    (hfeedback : ∀ i, x.feedback (parts i) = []) (run : Run x (start parts) log s) :
    ∃ rest lost, Accounted x log s rest lost := by
  induction run with
  | refl => exact ⟨_, _, accounted_start hsubmission hfeedback⟩
  | tail _ step ih =>
    obtain ⟨rest, lost, h⟩ := ih
    exact h.step step

/-! ### What is tracked -/

def acceptedOf : I × Tx × Except R Unit → Option Tx
  | (_, tx, .ok ()) => some tx
  | (_, _, .error _) => none

/-- The accepted transactions that the agent has still to hand to the tracker, or never will. -/
def Owes : TxSubmissionAgent I Tx → List Tx → Prop
  | .tracking tx, untracked => untracked = [tx]
  | .panicked, untracked => untracked.length ≤ 1
  | _, untracked => untracked = []

/-- The transactions that the node accepts are tracked, each once and in order. -/
def Tracks (log : List (SubmissionEvent I Tx R)) (s : Submission I P Tx R) : Prop :=
  ∃ untracked, (log.flatMap SubmissionEvent.judgments).filterMap acceptedOf =
    s.tracked ++ untracked ∧ Owes s.agent untracked

omit [DecidableEq I] in
theorem Tracks.still (h : Tracks log s) (hjudgments : event.judgments = [])
    (htracked : t.tracked = s.tracked)
    (howes : ∀ untracked, Owes s.agent untracked → Owes t.agent untracked) :
    Tracks (log ++ [event]) t := by
  obtain ⟨untracked, haccepted, hbefore⟩ := h
  refine ⟨untracked, ?_, howes _ hbefore⟩
  rw [htracked]
  simpa [hjudgments] using haccepted

theorem Tracks.step (h : Tracks log s) (hstep : Step x s event t) : Tracks (log ++ [event]) t := by
  cases hstep with
  | turn i hgone hturn => exact h.still rfl rfl fun _ howes => howes
  | ask hgone hrunning hsubmission hasked => exact h.still rfl rfl fun _ howes => howes
  | receive hagent hmailbox =>
    refine h.still rfl rfl fun untracked howes => ?_
    rw [hagent] at howes
    exact howes
  | @judge message result hagent hgone =>
    obtain ⟨untracked, haccepted, howes⟩ := h
    rw [hagent] at howes
    obtain rfl : untracked = [] := howes
    refine ⟨(acceptedOf (message.onResp, message.tx, result)).toList, ?_, ?_⟩
    · cases result <;> simp [haccepted, acceptedOf]
    · cases result with
      | ok _ => rfl
      | error _ => rfl
  | @judgeGone message result hagent hgone =>
    obtain ⟨untracked, haccepted, howes⟩ := h
    rw [hagent] at howes
    obtain rfl : untracked = [] := howes
    refine ⟨(acceptedOf (message.onResp, message.tx, result)).toList, ?_, ?_⟩
    · cases result <;> simp [haccepted, acceptedOf]
    · exact Option.length_toList_le
  | fail hagent =>
    refine h.still rfl rfl fun untracked howes => ?_
    rw [hagent] at howes
    obtain rfl : untracked = [] := howes
    exact Nat.zero_le 1
  | track hagent =>
    obtain ⟨untracked, haccepted, howes⟩ := h
    rw [hagent] at howes
    obtain rfl : untracked = [_] := howes
    exact ⟨[], by simpa [SubmissionEvent.judgments] using haccepted, rfl⟩
  | trackerGone hagent =>
    refine h.still rfl rfl fun untracked howes => ?_
    rw [hagent] at howes
    obtain rfl : untracked = [_] := howes
    exact Nat.le_refl 1
  | deliver hgone hresponse => exact h.still rfl rfl fun _ howes => howes
  | drop i => exact h.still rfl rfl fun _ howes => howes

theorem tracks_of_run {parts : I → P} (run : Run x (start parts) log s) : Tracks log s := by
  induction run with
  | refl => exact ⟨[], rfl, rfl⟩
  | tail _ step ih => exact ih.step step

/-! ### Fates -/

/-- Every part handles the fates of its own transactions, in the order in which it makes them;
everything asked is judged in order, but for what is on its way, or was when the agent panicked; and
what is accepted is tracked. -/
structure HearsFates (log : List (SubmissionEvent I Tx R)) (s : Submission I P Tx R) : Prop where
  made : ∀ i, (ofPart i (log.flatMap SubmissionEvent.judgments)).map Prod.fst <+:
    log.flatMap (·.made i)
  heard : ∀ i, log.flatMap (·.heard i) <+:
    (ofPart i (log.flatMap SubmissionEvent.judgments)).map Prod.snd
  inOrder : ∃ rest, log.flatMap SubmissionEvent.asks =
    (log.flatMap SubmissionEvent.judgments).map (Prod.map id Prod.fst) ++ rest ∧
      (s.agent ≠ .panicked → rest = s.inFlight.map fun message => (message.onResp, message.tx))
  tracked : Tracks log s

theorem Accounted.made_eq {rest : List (I × Tx)} {lost : I → List (Except R Unit)}
    (h : Accounted x log s rest lost) (i : I) : log.flatMap (·.made i) =
      (ofPart i (log.flatMap SubmissionEvent.judgments)).map Prod.fst ++ ofPart i rest ++
        if s.asked i then [] else (x.submission (s.parts i)).toList := by
  rw [h.made, h.asks, ofPart_append, map_ofPart]

theorem Accounted.hearsFates {rest : List (I × Tx)} {lost : I → List (Except R Unit)}
    (h : Accounted x log s rest lost) (htracks : Tracks log s) : HearsFates log s where
  made i := by
    rw [h.made_eq, List.append_assoc]
    exact List.prefix_append _ _
  heard i := by
    rw [h.heard, List.append_assoc, List.append_assoc]
    exact List.prefix_append _ _
  inOrder := ⟨rest, h.asks, h.flying⟩
  tracked := htracks

/-- A part with no transaction under way has handled the fates of all that it made. -/
theorem Accounted.settled {rest : List (I × Tx)} {lost : I → List (Except R Unit)}
    (h : Accounted x log s rest lost) {i : I} (hsubmission : x.submission (s.parts i) = none)
    (hfeedback : x.feedback (s.parts i) = []) :
    (ofPart i (log.flatMap SubmissionEvent.judgments)).map Prod.fst = log.flatMap (·.made i) ∧
      (ofPart i (log.flatMap SubmissionEvent.judgments)).map Prod.snd =
        log.flatMap (·.heard i) := by
  have hasked : s.asked i = false := by
    cases hasked : s.asked i with
    | false => rfl
    | true => exact absurd hsubmission (h.occupied i hasked)
  have hone := h.one i
  rw [hasked] at hone
  simp only [Bool.false_eq_true, if_false] at hone
  have hrest : ofPart i rest = [] := List.length_eq_zero_iff.mp (by omega)
  have hresponse : (s.responses i).toList = [] := List.length_eq_zero_iff.mp (by omega)
  have hlost : lost i = [] := List.length_eq_zero_iff.mp (by omega)
  constructor
  · simp [h.made_eq, hrest, hasked, hsubmission]
  · simp [h.heard, hfeedback, hresponse, hlost]

end Submission

/-! ### Executors that submit -/

namespace ExecutionEngine.ExecutionPart

open LiquidityBook Submission

variable {IX L PR CO B V SO SID U LCX TC TX R : Type} [DecidableEq PR] [DecidableEq V]
  [DecidableEq SID] [Stable CO] [MarketTaker CO U] [TakerBehaviour CO] [Ord CO] [SideOrd CO]
  [Stable P] [MarketMaker P U] [MakerBehavior P] [Composable CO P SID] [Ord B] [Std.TransOrd B]
  [StateIndex IX (EvolvingEntity CO P V B)] [SpecializedOrder SO V SID]
  [HotBacklog L (Bundled SO B) V] [HasVersion B V] [Zero U] [Add U] [LT U]
  {interpreters : Interpreters CO SO P V B TC TX} {missingInputs : R → Option (Finset V)}
  {p p' : ExecutionPart IX L PR CO P V B SO TX R}

theorem feedback_of_step (hsubmission : p.submission = none)
    (h : Step LCX interpreters missingInputs p (.ok p')) :
    ∃ heard, p.feedback = heard ++ p'.feedback := by
  obtain ⟨news, hears⟩ : ∃ news, Hears LCX interpreters missingInputs p news p' := exists_hears h
  cases hears with
  | submitted result hsome =>
    rw [hsubmission] at hsome
    cases hsome
  | @accepted effects feedback executor hnone hpending hfeedback hexec =>
    exact ⟨[.ok ()], hfeedback⟩
  | @rejected effects feedback err executor relevantBearers _ _ hfeedback _ _ hexec =>
    exact ⟨[.error err], hfeedback⟩
  | upstream pair event hpolled hexec => exact ⟨[], rfl⟩
  | announced event hpolled => exact ⟨[], rfl⟩
  | block blocker hpolled hblocker => exact ⟨[], rfl⟩
  | unblock hpolled => exact ⟨[], rfl⟩
  | matchmake hpolled hblocker hmatch => exact ⟨[], rfl⟩

/-- A partition submits what its executor makes, and waits for what comes of it. -/
def submitter (LCX : Type) (interpreters : Interpreters CO SO P V B TC TX)
    (missingInputs : R → Option (Finset V)) :
    Submitter (ExecutionPart IX L PR CO P V B SO TX R) TX R where
  submission := submission
  feedback := feedback
  turn p p' := p.submission = none ∧ Step LCX interpreters missingInputs p (.ok p')
  submitted result p := { p with feedback := p.feedback ++ [result], submission := none }
  feedback_submitted _ _ := rfl
  submission_submitted _ _ := rfl
  submission_of_turn h := h.1
  feedback_of_turn h := feedback_of_step h.1 h.2

variable {I : Type} [DecidableEq I] {parts : I → ExecutionPart IX L PR CO P V B SO TX R}
  {log : List (SubmissionEvent I TX R)}
  {s : Submission I (ExecutionPart IX L PR CO P V B SO TX R) TX R}

/-- What a partition does in the system is a run of its own, so whatever holds over those holds here. -/
theorem reaches_of_run (hsubmission : ∀ i, (parts i).submission = none)
    (hfeedback : ∀ i, (parts i).feedback = [])
    (run : Submission.Run (submitter LCX interpreters missingInputs) (Submission.start parts) log s)
    (i : I) : Reaches LCX interpreters missingInputs (parts i) (s.parts i) := by
  induction run with
  | refl => exact .refl
  | @tail log event t t' run step ih =>
    cases step with
    | @turn j p hgone hturn =>
      by_cases hij : i = j
      · subst hij
        show Reaches LCX interpreters missingInputs (parts i) (Function.update t.parts i p i)
        rw [Function.update_self]
        exact ih.tail hturn.2
      · show Reaches LCX interpreters missingInputs (parts i) (Function.update t.parts j p i)
        rw [Function.update_of_ne hij]
        exact ih
    | @deliver j result hgone hresponse =>
      by_cases hij : i = j
      · subst hij
        obtain ⟨rest, lost, h⟩ := exists_accounted hsubmission hfeedback run
        obtain ⟨tx, htx⟩ := Option.ne_none_iff_exists'.mp (h.submission_of_response hresponse)
        show Reaches LCX interpreters missingInputs (parts i) (Function.update t.parts i _ i)
        rw [Function.update_self]
        exact ih.tail (.submitted result htx)
      · show Reaches LCX interpreters missingInputs (parts i) (Function.update t.parts j _ i)
        rw [Function.update_of_ne hij]
        exact ih
    | ask _ _ _ _ => exact ih
    | receive _ _ => exact ih
    | judge _ _ _ => exact ih
    | judgeGone _ _ _ => exact ih
    | fail _ => exact ih
    | track _ => exact ih
    | trackerGone _ => exact ih
    | drop _ => exact ih

/-- Several executors submit through one agent. Each handles what the node judged of its own
transactions, in order, and of all of them before it makes another, whatever the others, the agent and
the node do. -/
theorem hears_own_fates (interpreters : Interpreters CO SO P V B TC TX) (index : I → IX)
    (timeNow : I → Nat) (conf : I → ExecutionConfig U) (multiBacklog : I → MultiPair PR L)
    {log : List (SubmissionEvent I TX (TxValidationError V))}
    {s : Submission I (ExecutionPart IX L PR CO P V B SO TX (TxValidationError V)) TX
      (TxValidationError V)}
    (run : Submission.Run (submitter LCX interpreters TxValidationError.missingUtxos)
      (Submission.start fun i => start (index i) (timeNow i) (conf i) (multiBacklog i)) log s) :
    HearsFates log s ∧ ∀ i, (s.parts i).executor.pendingEffects = none →
      (ofPart i (log.flatMap SubmissionEvent.judgments)).map Prod.fst = log.flatMap (·.made i) ∧
        (ofPart i (log.flatMap SubmissionEvent.judgments)).map Prod.snd = log.flatMap (·.heard i) := by
  obtain ⟨rest, lost, h⟩ := exists_accounted (fun _ => rfl) (fun _ => rfl) run
  refine ⟨h.hearsFates (tracks_of_run run), fun i hpending => ?_⟩
  have hreaches := reaches_of_run (fun _ => rfl) (fun _ => rfl) run i
  have hphase := phase_of_reaches hreaches
    (phase_start (index i) (timeNow i) (conf i) (multiBacklog i))
  cases hphase with
  | quiet hexec hfeedback hsubmission => exact h.settled hsubmission hfeedback
  | submitting hexec hfeedback hsubmission =>
    obtain ⟨effects, hsome, -⟩ := hexec
    rw [hpending] at hsome
    cases hsome
  | answered hexec hfeedback hsubmission =>
    obtain ⟨effects, hsome, -⟩ := hexec
    rw [hpending] at hsome
    cases hsome

/-- One of two executors has a transaction accepted, and it is tracked. -/
theorem hears_own_fates_sample : ∃ log s,
    Submission.Run (submitter Unit sampleFunders TxValidationError.missingUtxos)
      (Submission.start fun _ : Bool => sampleMarket) log s ∧
      HearsFates log s ∧ log.flatMap (·.made true) = [()] ∧ log.flatMap (·.heard true) = [.ok ()] ∧
      s.tracked = [()] := by
  obtain ⟨listed, asked, bidden, traded, consumedVersions, hlisted, hasked, hbidden, hblocker, hmatch,
    hpending⟩ := exists_sampleTrade
  have run : Submission.Run (submitter Unit sampleFunders TxValidationError.missingUtxos)
    (Submission.start fun _ : Bool => sampleMarket) [] _ := .refl
  have run := run.tail (.turn true rfl
    ⟨rfl, (Hears.upstream () poolAppears ⟨rfl, .inl rfl⟩ hlisted).step⟩)
  have run := run.tail (.turn true rfl
    ⟨rfl, (Hears.upstream () askAppears ⟨rfl, .inr rfl⟩ hasked).step⟩)
  have run := run.tail (.turn true rfl
    ⟨rfl, (Hears.upstream () bidAppears ⟨rfl, .inr rfl⟩ hbidden).step⟩)
  have run := run.tail (.turn true rfl ⟨rfl, .funding (.produced 5) ⟨rfl, .inr rfl⟩⟩)
  have run := run.tail (.turn true rfl
    ⟨rfl, (Hears.matchmake ⟨rfl, .inr rfl⟩ hblocker hmatch).step⟩)
  have run := run.tail (.ask (i := true) rfl (fun hpanicked => by cases hpanicked) rfl rfl)
  have run := run.tail (.receive rfl rfl)
  have run := run.tail (.judge (.ok ()) rfl rfl)
  have run := run.tail (.track rfl)
  have run := run.tail (.deliver (i := true) rfl rfl)
  have run := run.tail (.turn true rfl
    ⟨rfl, (Hears.accepted rfl hpending rfl rfl).step⟩)
  exact ⟨_, _, run, (hears_own_fates sampleFunders (fun _ => .new) (fun _ => 0)
    (fun _ => sampleConf) (fun _ => .new fun _ => .new 10) run).1, rfl, rfl, rfl⟩

end ExecutionEngine.ExecutionPart

end UtxoMonitor
