/-
  The journal of document packages (`registry/documents.ts`).

  The rows of a ticket are numbered and chained by the digests of their bodies.  A
  package is stored once, under its digest and under its id and revision; its text and
  that of a row are read back as they were written.
-/
import PaPlatform.Workflow.Bundle
import Mathlib.Logic.Function.Basic

namespace PaPlatform.Documents

open Js Guard Workflow

inductive DocumentErrorCode where
  | input
  | source
  | stale
  | authority
  | conflict
  | uncertain
  | unavailable
  deriving DecidableEq

def DocumentErrorCode.text : DocumentErrorCode → String
  | input => "DOCUMENT_INPUT"
  | source => "DOCUMENT_SOURCE"
  | stale => "DOCUMENT_STALE"
  | authority => "DOCUMENT_AUTHORITY"
  | conflict => "DOCUMENT_CONFLICT"
  | uncertain => "DOCUMENT_UNCERTAIN"
  | unavailable => "DOCUMENT_UNAVAILABLE"

abbrev Documented := Except DocumentErrorCode

/-! ## Packages -/

structure DocumentMember where
  id : String
  bytes : ℕ
  sha256 : String
  deriving DecidableEq

/-- A parsed package, with the fields that the service reads. -/
structure DocumentPackage where
  packageId : String
  revision : ℕ
  repository : Repository
  ticket : String
  predecessor : Option String
  members : List DocumentMember
  /-- `effects.queue`. -/
  queue : Bool
  deriving DecidableEq

/-- A ticket of a repository. -/
structure TicketKey where
  repoKey : String
  ticket : String
  deriving DecidableEq

def DocumentPackage.key (subject : DocumentPackage) : TicketKey := ⟨subject.repository.key, subject.ticket⟩

/-- `DOCUMENT_LIMITS.memberBytes`. -/
def memberBytes : ℕ := 8388608

/-! ## Events -/

inductive DecisionOutcome where
  | approved
  | rejected
  | changesRequested
  | cancelled
  deriving DecidableEq

inductive DocumentOperation where
  | publish
  | queue
  deriving DecidableEq

inductive ResultOutcome where
  | completed
  | failed
  | unknown
  deriving DecidableEq

structure DocumentDecision where
  subjectSha256 : String
  decisionId : String
  outcome : DecisionOutcome
  principal : String
  evidenceSha256 : String
  callerIdentity : String
  deriving DecidableEq

structure DocumentIntent where
  operationId : String
  operation : DocumentOperation
  subjectSha256 : String
  decisionId : String
  deriving DecidableEq

inductive DocumentEventData where
  | frozen (subjectSha256 : String)
  | decision (d : DocumentDecision)
  | revoked (subjectSha256 decisionId evidenceSha256 : String)
  | intent (i : DocumentIntent)
  | result (subjectSha256 operationId : String) (outcome : ResultOutcome) (code : String)
  deriving DecidableEq

structure DocumentEvent where
  key : TicketKey
  revision : ℕ
  predecessor : Option String
  data : DocumentEventData
  deriving DecidableEq

namespace DocumentEventData

def subjectSha256 : DocumentEventData → String
  | frozen sha | decision ⟨sha, _, _, _, _, _⟩ | revoked sha _ _ | intent ⟨_, _, sha, _⟩ | result sha _ _ _ => sha

/-- The digest of the evidence of a decision or of a revocation. -/
def evidence? : DocumentEventData → Option String
  | decision d => some d.evidenceSha256
  | revoked _ _ sha => some sha
  | _ => none

end DocumentEventData

/-- `text(value, pattern)`, of a text. -/
def textOk (pattern : String → Bool) (s : String) : Bool := (Workflow.text pattern 4096 (.str s)).isSome

/-- `text(repoKey, ID)` and `workflowTicket(ticket)`. -/
def TicketKey.ok (key : TicketKey) : Bool := textOk isId key.repoKey && textOk isCanonicalTicketId key.ticket

/-- `/^[A-Z_]+$/`. -/
def isResultCode (s : String) : Bool := s != "" && s.toList.all fun c => isUpper c || c == '_'

/-- The checks of `eventData`. -/
def DocumentEventData.ok : DocumentEventData → Bool
  | frozen sha => textOk (hexOk 64) sha
  | decision d =>
    textOk (hexOk 64) d.subjectSha256 && textOk isId d.decisionId && textOk (fun _ => true) d.principal &&
      textOk (hexOk 64) d.evidenceSha256 && textOk (hexOk 64) d.callerIdentity
  | revoked sha decisionId evidence => textOk (hexOk 64) sha && textOk isId decisionId && textOk (hexOk 64) evidence
  | intent i => textOk (hexOk 64) i.subjectSha256 && textOk isId i.operationId && textOk isId i.decisionId
  | result sha operationId _ code => textOk (hexOk 64) sha && textOk isId operationId && textOk isResultCode code

/-- `eventData`. -/
def eventData (data : DocumentEventData) : Documented DocumentEventData := do
  throwIf (data.ok = false) .input
  return data

/-! ## The tables -/

/-- The digests of the platform. -/
structure Digests where
  /-- `documentPackageSha`. -/
  package : DocumentPackage → Sha256
  /-- `digest(JSON.stringify(event))`. -/
  event : DocumentEvent → Sha256
  /-- `digest`, of bytes. -/
  bytes : Bytes → Sha256
  /-- `digest(JSON.stringify([sha256, decisionId, action]))`. -/
  operation : String → String → DocumentOperation → Sha256

/-- A row of `document_events`. -/
structure EventRow where
  revision : ℕ
  predecessor : Option String
  sha256 : String
  body : DocumentEvent
  deriving DecidableEq

/-- A row of `document_subjects`. -/
structure SubjectRow where
  sha256 : String
  body : DocumentPackage
  deriving DecidableEq

structure Registry where
  /-- `document_events`, by ticket and in the order of their revisions. -/
  rows : TicketKey → List EventRow
  subjects : List SubjectRow
  /-- `document_snapshots`. -/
  snapshots : List (String × Bytes)

def Registry.empty : Registry := ⟨fun _ => [], [], []⟩

/-- The loop of `events`, after `n` rows of which the last has the digest
    `predecessor`. -/
def readRows (digests : Digests) (key : TicketKey) : ℕ → Option String → List EventRow → Documented (List DocumentEvent)
  | _, _, [] => .ok []
  | n, predecessor, row :: rows => do
    let e := row.body
    throwIf (e.key ≠ key ∨ e.revision ≠ n + 1 ∨ row.revision ≠ e.revision ∨ e.predecessor ≠ predecessor ∨
      row.predecessor ≠ predecessor ∨ (digests.event row.body).1 ≠ row.sha256) .uncertain
    let _ ← eventData e.data
    let rest ← readRows digests key (n + 1) (some row.sha256) rows
    return e :: rest

namespace Registry

variable (digests : Digests) (r : Registry)

/-- `events`. -/
def events (key : TicketKey) : Documented (List DocumentEvent) := do
  throwIf (key.ok = false) .input
  throwIf (1024 < (r.rows key).length) .uncertain
  readRows digests key 0 none (r.rows key)

/-- `subject`. -/
def subject (sha256 : String) : Documented DocumentPackage := do
  throwIf (textOk (hexOk 64) sha256 = false) .input
  let row ← require (r.subjects.find? (·.sha256 == sha256)) .source
  throwIf ((digests.package row.body).1 ≠ sha256) .uncertain
  return row.body

/-- `snapshot`. -/
def snapshot (sha256 : String) : Documented Bytes := do
  throwIf (textOk (hexOk 64) sha256 = false) .input
  let row ← require (r.snapshots.find? (·.1 == sha256)) .uncertain
  throwIf (memberBytes < row.2.length ∨ (digests.bytes row.2).1 ≠ sha256) .uncertain
  return row.2

/-- `INSERT OR IGNORE INTO document_snapshots`, and the row is read back. -/
def addSnapshot (raw : Bytes) : Documented Registry := do
  let sha256 := (digests.bytes raw).1
  let next := if r.snapshots.any (·.1 == sha256) then r else { r with snapshots := r.snapshots ++ [(sha256, raw)] }
  let _ ← next.snapshot digests sha256
  return next

/-- The snapshots of an `append`. -/
def addSnapshots : Registry → List Bytes → Documented Registry
  | r, [] => .ok r
  | r, raw :: raws => do
    throwIf (memberBytes < raw.length) .input
    let r ← r.addSnapshot digests raw
    addSnapshots r raws

/-- The snapshots of a `freeze`. -/
def addMembers : Registry → List (DocumentMember × Bytes) → Documented Registry
  | r, [] => .ok r
  | r, (member, raw) :: members => do
    throwIf (raw.length ≠ member.bytes ∨ (digests.bytes raw).1 ≠ member.sha256) .stale
    let r ← r.addSnapshot digests raw
    addMembers r members

/-- `INSERT INTO document_events`. -/
def insert (key : TicketKey) (row : EventRow) : Registry :=
  { r with rows := Function.update r.rows key (r.rows key ++ [row]) }

/-- The row that `append` inserts. -/
def nextRow (key : TicketKey) (expectedRevision : ℕ) (data : DocumentEventData) : EventRow :=
  let predecessor := (r.rows key).getLast?.map (·.sha256)
  let event : DocumentEvent := ⟨key, expectedRevision + 1, predecessor, data⟩
  ⟨expectedRevision + 1, predecessor, (digests.event event).1, event⟩

/-- The evidence of a decision or of a revocation is retained. -/
def checkEvidence (data : DocumentEventData) : Documented Unit :=
  data.evidence?.elim (.ok ()) fun sha => (r.snapshot digests sha).map fun _ => ()

/-- `append`. -/
def append (key : TicketKey) (expectedRevision : ℕ) (input : DocumentEventData) (snapshots : List Bytes) :
    Documented Registry := do
  throwIf (1023 < expectedRevision) .input
  let events ← r.events digests key
  let data ← eventData input
  throwIf (events.length ≠ expectedRevision) .conflict
  let subject ← r.subject digests data.subjectSha256
  throwIf (subject.key ≠ key) .authority
  let kept ← r.addSnapshots digests snapshots
  kept.checkEvidence digests data
  return kept.insert key (kept.nextRow digests key expectedRevision data)

/-- The row of `document_subjects` for the id and the revision of a package. -/
def existing? (subject : DocumentPackage) : Option SubjectRow :=
  r.subjects.find? fun row =>
    row.body.key == subject.key && row.body.packageId == subject.packageId && row.body.revision == subject.revision

/-- `freeze`, of a package that is not stored. -/
def freezeNew (subject : DocumentPackage) (expectedRevision : ℕ) (bytes : List Bytes) : Documented Registry := do
  throwIf (bytes.length ≠ subject.members.length) .input
  let kept ← r.addMembers digests (subject.members.zip bytes)
  let sha256 := (digests.package subject).1
  -- the digest is the primary key of the table
  throwIf (kept.subjects.any (·.sha256 == sha256) = true) .uncertain
  let stored : Registry := { kept with subjects := kept.subjects ++ [⟨sha256, subject⟩] }
  stored.append digests subject.key expectedRevision (.frozen sha256) []

/-- `freeze`: one transaction. -/
def freeze (subject : DocumentPackage) (expectedRevision : ℕ) (bytes : List Bytes) : Documented Registry := do
  let events ← r.events digests subject.key
  throwIf (events.length ≠ expectedRevision) .conflict
  match r.existing? subject with
  | some row => do
    throwIf (row.sha256 ≠ (digests.package subject).1) .conflict
    let _ ← r.subject digests row.sha256
    return r
  | none => r.freezeNew digests subject expectedRevision bytes

end Registry

/-! ## Readings of a journal -/

namespace DocumentEventData

def decision? : DocumentEventData → Option DocumentDecision
  | decision d => some d
  | _ => none

/-- The decision that an event revokes. -/
def revokes? : DocumentEventData → Option String
  | revoked _ decisionId _ => some decisionId
  | _ => none

def intent? : DocumentEventData → Option DocumentIntent
  | intent i => some i
  | _ => none

/-- The operation that an event completes. -/
def completes? : DocumentEventData → Option String
  | result _ operationId .completed _ => some operationId
  | _ => none

end DocumentEventData

/-- The intents of a journal. -/
def intents (events : List DocumentEvent) : List DocumentIntent := events.filterMap (·.data.intent?)

/-- The operations with a completed result. -/
def completedIds (events : List DocumentEvent) : List String := events.filterMap (·.data.completes?)

/-- `documentPending`. -/
def documentPending (events : List DocumentEvent) : List DocumentIntent :=
  (intents events).filter fun i => !(completedIds events).contains i.operationId

/-- `documentCompletedOperation`. -/
def documentCompletedOperation (events : List DocumentEvent) (sha256 : String) (operation : DocumentOperation) : Bool :=
  (intents events).any fun i =>
    i.subjectSha256 == sha256 && i.operation == operation && (completedIds events).contains i.operationId

/-- The latest decision on a package. -/
def latestDecision (events : List DocumentEvent) (sha256 : String) : Option DocumentDecision :=
  ((events.filterMap (·.data.decision?)).filter (·.subjectSha256 == sha256)).getLast?

/-- `approved`: the decision is the latest one on the package, it approves it, and it was not
    revoked. -/
def approved (events : List DocumentEvent) (sha256 decisionId : String) : Bool :=
  (latestDecision events sha256).any fun d =>
    d.decisionId == decisionId && !(events.filterMap (·.data.revokes?)).contains decisionId && d.outcome == .approved

end PaPlatform.Documents
