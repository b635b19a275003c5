/-
  `DocumentPackageService` (`documents/package-service.ts`): its calls that write to the
  journal, step by step.

  A capture waits for the operator between its two halves.  A publication holds the
  ticket mutex from its entry to its end, and only a freeze, which does not take the
  mutex, can come between its calls of the registry.  What a call checks before it takes
  the mutex, it checks again under it.
-/
import PaPlatform.Documents.Journal
import PaPlatform.Lib.Run

namespace PaPlatform.Documents

open Js Guard

/-! ## Hosts -/

/-- The answers of the host at one moment: which checks on a package do not throw. -/
structure Host where
  /-- `this.caller(subject)`. -/
  caller : DocumentPackage → Bool
  /-- `assertEffectAvailable(subject)`. -/
  available : DocumentPackage → Bool
  /-- `readDocumentSources(subject)`. -/
  sources : DocumentPackage → Bool
  /-- The brief is within its bounds. -/
  brief : DocumentPackage → Bool
  /-- `publication.observe(subject, predecessor) === "complete"`. -/
  published : DocumentPackage → Bool
  /-- `publication.queued(subject, predecessor)`. -/
  queued : DocumentPackage → Bool

/-- The effect of an operation is observably complete. -/
def Host.proven (host : Host) (operation : DocumentOperation) (subject : DocumentPackage) : Bool :=
  match operation with
  | .publish => host.published subject
  | .queue => host.queued subject

/-- What a `capture` or a `revoke` asks of the operator. -/
inductive CaptureAction where
  | capture
  | revoke (decisionId : String)
  deriving DecidableEq

/-- A call that waits for the operator. -/
structure Capturing where
  subject : DocumentPackage
  sha256 : String
  expectedRevision : ℕ
  action : CaptureAction
  /-- `before.identitySha256`. -/
  callerIdentity : String
  deriving DecidableEq

/-- The answer of the operator, and what the host says after it. -/
structure Captured where
  outcome : DecisionOutcome
  principal : String
  evidenceSha256 : String
  nativeEvidence : Bytes
  uuid : String
  /-- The caller is the same as before. -/
  same : Bool
  sources : Bool

/-! ## States -/

/-- Where a publication is, between two of its calls of the registry. -/
inductive Phase where
  /-- The effect was observed; the result is to be appended to these events. -/
  | settling (events : List DocumentEvent)
  /-- The effect is to be authorized, after these events. -/
  | authorizing (events : List DocumentEvent)
  | performing
  | finishing (revision : ℕ)
  | failing (revision : ℕ) (code : DocumentErrorCode)

/-- A publication that holds the mutex. -/
structure Working where
  subject : DocumentPackage
  sha256 : String
  decisionId : String
  operation : DocumentOperation
  phase : Phase

structure State where
  registry : Registry
  waiting : List Capturing
  /-- The holder of the ticket mutex, if it is a publication. -/
  holder : Option Working

def State.empty : State := ⟨.empty, [], none⟩

/-- What a publication does first, of an operation that may be completed or begun, and whose
    effect may be proven; `none` is nothing, for a completed operation. -/
def Phase.first (completed begun proven : Bool) (events : List DocumentEvent) : Documented (Option Phase) :=
  if completed = true ∨ begun = true ∧ proven = true then do
    throwIf (proven = false) .conflict
    return if completed = true then none else some (settling events)
  else return some (authorizing events)

/-! ## Steps -/

section
variable (digests : Digests)

/-- The id of an operation. -/
def operationId (sha256 decisionId : String) (operation : DocumentOperation) : String :=
  "effect-" ++ (digests.operation sha256 decisionId operation).1

def Working.operationId (w : Working) : String := Documents.operationId digests w.sha256 w.decisionId w.operation

namespace Registry

variable (r : Registry)

/-- `revision(subject, expected)`, with the events. -/
def revision (subject : DocumentPackage) (expected : ℕ) : Documented (List DocumentEvent) := do
  throwIf (1023 < expected) .input
  let events ← r.events digests subject.key
  throwIf (events.length ≠ expected) .conflict
  return events

/-- `predecessor(subject)` does not throw. -/
def checkPredecessor (subject : DocumentPackage) (events : List DocumentEvent) : Documented Unit :=
  subject.predecessor.elim (.ok ()) fun sha => do
    let previous ← r.subject digests sha
    throwIf (previous.repository ≠ subject.repository ∨ previous.ticket ≠ subject.ticket ∨
      digests.package previous = digests.package subject) .authority
    throwIf (documentCompletedOperation events sha .publish = false) .authority

/-- `authorize()`. -/
def authorize (host : Host) (w : Working) : Documented Unit := do
  throwIf (host.caller w.subject = false) .authority
  throwIf (host.available w.subject = false) .uncertain
  let events ← r.events digests w.subject.key
  throwIf (approved events w.sha256 w.decisionId = false) .authority
  throwIf (host.sources w.subject = false) .source

end Registry

namespace State

variable (s : State)

/-- `freeze`, of a package with its sources. -/
def freeze (host : Host) (subject : DocumentPackage) (expectedRevision : ℕ) (bytes : List Bytes) :
    Documented State := do
  throwIf (host.caller subject = false) .authority
  throwIf (host.sources subject = false) .source
  let _ ← s.registry.revision digests subject expectedRevision
  let registry ← s.registry.freeze digests subject expectedRevision bytes
  return { s with registry }

/-- `capture` and `revoke`, up to the question to the operator. -/
def ask (host : Host) (sha256 : String) (expectedRevision : ℕ) (action : CaptureAction) (callerIdentity : String) :
    Documented State := do
  let subject ← s.registry.subject digests sha256
  throwIf (host.caller subject = false) .authority
  let events ← s.registry.revision digests subject expectedRevision
  throwIf (host.sources subject = false) .source
  throwIf (host.brief subject = false) .input
  match action with
  | .capture =>
    return { s with waiting := s.waiting ++ [⟨subject, sha256, expectedRevision, .capture, callerIdentity⟩] }
  | .revoke decisionId => do
    throwIf (textOk Workflow.isId decisionId = false) .input
    throwIf (approved events sha256 decisionId = false) .authority
    return { s with waiting := s.waiting ++ [⟨subject, sha256, expectedRevision, .revoke decisionId, callerIdentity⟩] }

/-- What a capture appends. -/
def captureEvent (c : Capturing) (a : Captured) : Option DocumentEventData :=
  match c.action with
  | .capture =>
    some (.decision ⟨c.sha256, "decision-" ++ a.uuid, a.outcome, a.principal, a.evidenceSha256, c.callerIdentity⟩)
  | .revoke decisionId =>
    if a.outcome = .approved then some (.revoked c.sha256 decisionId a.evidenceSha256) else none

/-- `capture` and `revoke`, after the answer of the operator: one transaction. -/
def commit (c : Capturing) (a : Captured) : Documented State := do
  throwIf (s.waiting.contains c = false) .input
  throwIf ((digests.bytes a.nativeEvidence).1 ≠ a.evidenceSha256) .authority
  throwIf (s.holder.isSome = true) .uncertain
  throwIf (a.same = false) .stale
  throwIf (a.sources = false) .source
  let _ ← s.registry.revision digests c.subject c.expectedRevision
  let registry ← (captureEvent c a).elim (.ok s.registry) fun data =>
    s.registry.append digests c.subject.key c.expectedRevision data [a.nativeEvidence]
  return { s with registry, waiting := s.waiting.erase c }

/-- The phase in which a publication enters. -/
def phaseOf (host : Host) (subject : DocumentPackage) (operation : DocumentOperation) (id : String)
    (events : List DocumentEvent) : Documented (Option Phase) := do
  let pending := documentPending events
  throwIf (pending.any (·.operationId != id) = true) .uncertain
  s.registry.checkPredecessor digests subject events
  Phase.first ((completedIds events).contains id) (pending.any (·.operationId == id)) (host.proven operation subject)
    events

/-- `publish` and `queue`: the mutex is taken and the journal is read. -/
def enter (host : Host) (operation : DocumentOperation) (sha256 decisionId : String) (expectedRevision : ℕ) :
    Documented State := do
  let subject ← s.registry.subject digests sha256
  throwIf (textOk Workflow.isId decisionId = false) .input
  throwIf (operation = .queue ∧ subject.queue = false) .authority
  throwIf (s.holder.isSome = true) .uncertain
  let events ← s.registry.revision digests subject expectedRevision
  throwIf (host.caller subject = false) .authority
  throwIf (host.available subject = false) .uncertain
  let phase ← s.phaseOf digests host subject operation (operationId digests sha256 decisionId operation) events
  return { s with holder := phase.map fun phase => ⟨subject, sha256, decisionId, operation, phase⟩ }

/-- A publication appends a result, under the revision `n`, and ends. -/
def append (w : Working) (n : ℕ) (outcome : ResultOutcome) (code : String) : Documented State := do
  let registry ← s.registry.append digests w.subject.key n (.result w.sha256 (w.operationId digests) outcome code) []
  return { s with registry, holder := none }

/-- The intent of a new operation. -/
def begin (w : Working) (events : List DocumentEvent) : Documented Registry :=
  if documentPending events = [] then
    s.registry.append digests w.subject.key events.length
      (.intent ⟨w.operationId digests, w.operation, w.sha256, w.decisionId⟩) []
  else .ok s.registry

/-- The first `authorize`, and the intent. -/
def authorize (host : Host) (w : Working) (events : List DocumentEvent) : Documented State := do
  s.registry.authorize digests host w
  throwIf (w.operation = .queue ∧
    (documentCompletedOperation events w.sha256 .publish = false ∨ host.published w.subject = false)) .authority
  let registry ← s.begin digests w events
  return { s with registry, holder := some { w with phase := .performing } }

end State

/-- What happens between two calls of the registry. -/
inductive Event where
  | freeze (host : Host) (subject : DocumentPackage) (expectedRevision : ℕ) (bytes : List Bytes)
  | ask (host : Host) (sha256 : String) (expectedRevision : ℕ) (action : CaptureAction) (callerIdentity : String)
  | commit (c : Capturing) (a : Captured)
  | enter (host : Host) (operation : DocumentOperation) (sha256 decisionId : String) (expectedRevision : ℕ)
  /-- The observed result is appended. -/
  | settle
  | authorize (host : Host)
  /-- An `authorize()` of the publication, and the part of the effect that comes after it. -/
  | perform (host : Host)
  /-- The effect is complete, and the journal is read again. -/
  | finish
  | complete
  /-- The effect or its result throws, and the journal is read again. -/
  | fail (code : DocumentErrorCode)
  | record
  /-- A publication throws or dies, and its mutex is released. -/
  | abandon

/-- The step of the holder of the mutex. -/
def State.work (s : State) (w : Working) : Event → Documented State
  | .settle =>
    match w.phase with
    | .settling events => s.append digests w events.length .completed "OBSERVED_COMPLETE"
    | _ => .error .input
  | .authorize host =>
    match w.phase with
    | .authorizing events => s.authorize digests host w events
    | _ => .error .input
  | .perform host =>
    match w.phase with
    | .performing => (s.registry.authorize digests host w).map fun _ => s
    | _ => .error .input
  | .finish =>
    match w.phase with
    | .performing => (s.registry.events digests w.subject.key).map fun events =>
        { s with holder := some { w with phase := .finishing events.length } }
    | _ => .error .input
  | .complete =>
    match w.phase with
    | .finishing n => s.append digests w n .completed "COMPLETED"
    | _ => .error .input
  | .fail code =>
    match w.phase with
    | .performing | .finishing _ => (s.registry.events digests w.subject.key).map fun events =>
        { s with holder := some { w with phase := .failing events.length code } }
    | _ => .error .input
  | .record =>
    match w.phase with
    | .failing n code => s.append digests w n .unknown code.text
    | _ => .error .input
  | .abandon => .ok { s with holder := none }
  | _ => .error .input

/-- One step of the service, by any of its callers. -/
def step (s : State) : Event → Documented State
  | .freeze host subject expectedRevision bytes => s.freeze digests host subject expectedRevision bytes
  | .ask host sha256 expectedRevision action callerIdentity =>
    s.ask digests host sha256 expectedRevision action callerIdentity
  | .commit c a => s.commit digests c a
  | .enter host operation sha256 decisionId expectedRevision =>
    s.enter digests host operation sha256 decisionId expectedRevision
  | e => s.holder.elim (.error .input) fun w => s.work digests w e

end

end PaPlatform.Documents
