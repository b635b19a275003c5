/-
  Replay of the journal of a workflow run: `replayWorkflow` of `workflows/service.ts`
  and `subjectRevisionReason` of `workflows/revisions.ts`.

  The journal gives the bytes of its snapshots by their digests.  Whether evidence and
  resources agree with a review bundle is decided outside of these functions, from the
  snapshots alone.
-/
import Mathlib.Data.List.AList
import PaPlatform.Workflow.Bundle
import PaPlatform.Lib.Run
import PaPlatform.Workflow.Eligible

namespace PaPlatform.Workflow.Replay

open Js Guard

inductive WorkflowErrorCode where
  | contract | source | capability | conflict | authority | uncertain
  deriving DecidableEq

abbrev Replayed (α : Type) := Except WorkflowErrorCode α

/-- A reader, whose `reject()` has no code of its own. -/
def contract {α : Type} (read : Option α) : Replayed α := require read .contract

/-! ## Records -/

structure WorkflowCaller where
  deploymentId : String
  repoKey : String
  repoRoot : String
  ticket : String
  team : String
  mode : String
  identitySha256 : String
  deriving DecidableEq

structure WorkflowDecision where
  decisionId : String
  runId : String
  stepId : String
  subjectRef : String
  subjectSha256 : String
  outcome : StepOutcome
  permissions : Distinct PackagePermission
  captureEvidenceRef : EvidenceRef
  principal : String
  issuedAt : String
  deriving DecidableEq

structure EffectIntent where
  intentId : String
  runId : String
  stepId : String
  owner : String
  decisionId : String
  subjectSha256 : String
  deriving DecidableEq

inductive RevisionReason where
  | initial | changesRequested | materialAmendment | documentRevision
  deriving DecidableEq

def RevisionReason.text : RevisionReason → String
  | initial => "initial"
  | changesRequested => "changes-requested"
  | materialAmendment => "material-amendment"
  | documentRevision => "document-revision"

abbrev Outcomes := AList fun _ : String => StepOutcome

structure WorkflowAttempt where
  attemptId : String
  predecessor : Option String
  subjectRef : String
  subjectSha256 : String
  revision : ℕ
  reason : RevisionReason
  outcomes : Outcomes

inductive AdoptionPurpose where
  | cancelledReview | queueReconcile | documentContinuation
  deriving DecidableEq

def AdoptionPurpose.text : AdoptionPurpose → String
  | cancelledReview => "cancelled-review"
  | queueReconcile => "queue-reconcile"
  | documentContinuation => "document-continuation"

def parseCaller (value : Json) : Option WorkflowCaller := do
  let r ← object ["deploymentId", "repoKey", "repoRoot", "ticket", "team", "mode", "identitySha256"] [] value
  return ⟨← fieldOf r "deploymentId" (text deploymentIdOk 4096), ← fieldOf r "repoKey" idText,
    ← fieldOf r "repoRoot" anyText, ← fieldOf r "ticket" workflowTicket, ← fieldOf r "team" idText,
    ← fieldOf r "mode" idText, ← fieldOf r "identitySha256" shaText⟩

/-- A date with milliseconds, as `Date.parse` accepts it. -/
def isIssuedAt (s : String) : Bool :=
  match s.toList with
  | [y₁, y₂, y₃, y₄, '-', m₁, m₂, '-', d₁, d₂, 'T', h₁, h₂, ':', i₁, i₂, ':', s₁, s₂, '.', f₁, f₂, f₃, 'Z'] =>
    match digits [y₁, y₂, y₃, y₄], digits [m₁, m₂], digits [d₁, d₂], digits [h₁, h₂], digits [i₁, i₂], digits [s₁, s₂],
      digits [f₁, f₂, f₃] with
    | some _, some month, some day, some hour, some minute, some second, some milli =>
      1 ≤ month && month ≤ 12 && 1 ≤ day && day ≤ 31 && minute ≤ 59 && second ≤ 59 &&
        (hour ≤ 23 || (hour == 24 && minute == 0 && second == 0 && milli == 0))
    | _, _, _, _, _, _, _ => false
  | _ => false

def parseDecision (value : Json) : Option WorkflowDecision := do
  let r ← object ["schemaVersion", "decisionId", "kind", "runId", "stepId", "subjectRef", "subjectSha256", "outcome",
    "permissions", "captureEvidenceRef", "principal", "issuedAt"] [] value
  let issuedAt ← fieldOf r "issuedAt" (text isIssuedAt 4096)
  let _ ← fieldOf r "schemaVersion" (literal "pa-decision/v1")
  let decisionId ← fieldOf r "decisionId" idText
  let _ ← fieldOf r "kind" (literal "package")
  return ⟨decisionId, ← fieldOf r "runId" idText, ← fieldOf r "stepId" idText, ← fieldOf r "subjectRef" idText,
    ← fieldOf r "subjectSha256" shaText, ← fieldOf r "outcome" (oneOf StepOutcome.text (stepOutcomes .decision)),
    ← fieldOf r "permissions" (distinct (oneOf PackagePermission.text packagePermissions)),
    ← fieldOf r "captureEvidenceRef" evidenceRef, ← fieldOf r "principal" anyText, issuedAt⟩

def parseIntent (value : Json) : Option EffectIntent := do
  let r ← object ["intentId", "runId", "stepId", "owner", "decisionId", "subjectSha256"] [] value
  return ⟨← fieldOf r "intentId" idText, ← fieldOf r "runId" idText, ← fieldOf r "stepId" idText,
    ← fieldOf r "owner" idText, ← fieldOf r "decisionId" idText, ← fieldOf r "subjectSha256" shaText⟩

/-! ## States -/

/-- The state of a run.  The outcomes are those of the current attempt. -/
structure WorkflowRun where
  runId : String
  revision : ℕ
  definition : WorkflowDefinition
  subject : ReviewBundle
  subjectSha256 : String
  configRevision : String
  resources : Option WorkflowResources
  caller : WorkflowCaller
  coordinator : Option WorkflowCaller
  coordinatorQueueOnly : Bool
  coordinatorDocumentOnly : Bool
  coordinatorDocumentSubjectSha256 : Option String
  decisions : List WorkflowDecision
  revoked : List String
  pending : List EffectIntent
  /-- The attempts before the current one, oldest first. -/
  earlier : List WorkflowAttempt
  attempt : WorkflowAttempt

namespace WorkflowRun

def attempts (s : WorkflowRun) : List WorkflowAttempt := s.earlier ++ [s.attempt]

def outcomes (s : WorkflowRun) : Outcomes := s.attempt.outcomes

/-- `state.outcomes[stepId] = outcome`. -/
def record (s : WorkflowRun) (stepId : String) (outcome : StepOutcome) : WorkflowRun :=
  { s with attempt := { s.attempt with outcomes := s.attempt.outcomes.insert stepId outcome } }

/-- What the eligibility of steps depends on. -/
def view (s : WorkflowRun) : WorkflowState where
  definition := s.definition
  subject := ⟨s.subject.repository.key, s.subject.ticket, s.subject.route.team, s.subject.route.mode,
    s.subject.handoff.type.text⟩
  outcomes := s.outcomes.lookup
  pending := s.pending.map (·.stepId)

def step (s : WorkflowRun) (id : String) : Option WorkflowStep := s.definition.steps.find? (·.id == id)

def workflowCoordinator (s : WorkflowRun) : WorkflowCaller := s.coordinator.getD s.caller

/-- The decisions about the current subject. -/
def subjectDecisions (s : WorkflowRun) : List WorkflowDecision :=
  s.decisions.filter fun d => d.subjectSha256 == s.subjectSha256

/-- `["source.scoped", "check.scoped", "git.local"]`: the effects of an execution. -/
def executes (step : WorkflowStep) : Bool :=
  step.effects.any fun effect => [Effect.sourceScoped, .checkScoped, .gitLocal].contains effect

/-- A step that executes has an outcome. -/
def executed (s : WorkflowRun) : Bool :=
  s.definition.steps.any fun step => executes step && (s.outcomes.lookup step.id).isSome

/-- Only the current cancelled package decision before any effect can be retried. -/
def recoverableCancelledDecision (s : WorkflowRun) : Option WorkflowDecision := do
  let latest ← s.subjectDecisions.getLast?
  rejectIf (s.resources.isNone = true ∨ s.pending.isEmpty = false ∨ 16 ≤ s.subjectDecisions.length ∨
    latest.outcome ≠ .cancelled ∨ s.revoked.contains latest.decisionId = true ∨
    s.outcomes.lookup latest.stepId ≠ some .cancelled ∨ s.outcomes.keys.any (· != latest.stepId) = true)
  let step ← s.step latest.stepId
  rejectIf (step.kind ≠ .decision ∨ evaluatePredicate (context s.view.subject) step.when = false)
  return latest

/-! ## Revisions -/

/-- The `gateId` of `documentRevisionEligibility(state)`. -/
inductive RevisionGate where
  | retainedResourceClosure | pendingEffectReconciliation | adoptedQueueIntentOnly | subjectAttemptBound
  | revisionDecisionRequired
  deriving DecidableEq

def revisionGate (s : WorkflowRun) : Option RevisionGate :=
  if s.resources.isNone = true then some .retainedResourceClosure
  else if s.pending.isEmpty = false then some .pendingEffectReconciliation
  else if s.coordinatorQueueOnly = true then some .adoptedQueueIntentOnly
  else if 256 ≤ s.attempts.length then some .subjectAttemptBound
  else if (s.subjectDecisions.getLast?.all fun d => d.outcome != .approved && d.outcome != .changesRequested) = true
    then some .revisionDecisionRequired
  else none

/-- `documentRevisionEligibility(state).freshToFresh`. -/
def freshToFresh (s : WorkflowRun) : Bool :=
  s.revisionGate == none && s.subject.handoff.type.isFresh && !s.executed &&
    s.subjectDecisions.getLast?.any fun d => d.outcome == .changesRequested || !s.revoked.contains d.decisionId

/-- The next subject is of the same lineage. -/
def continues (s : WorkflowRun) (next : ReviewBundle) : Prop :=
  next.revision = s.subject.revision + 1 ∧ (s.attempts.all fun a => a.subjectRef != next.subjectId) = true ∧
    next.repository = s.subject.repository ∧ next.ticket = s.subject.ticket ∧ next.route = s.subject.route ∧
    next.handoff.baseSha = s.subject.handoff.baseSha ∧ next.handoff.branch = s.subject.handoff.branch ∧
    next.workflow = s.subject.workflow

instance (s : WorkflowRun) (next : ReviewBundle) : Decidable (s.continues next) := by
  unfold continues
  infer_instance

/-- A revision changes the review subject, never lineage, pins or execution counters. -/
def subjectRevisionReason (s : WorkflowRun) (next : ReviewBundle) : Replayed RevisionReason := do
  throwIf (s.pending.isEmpty = false) .conflict
  throwIf (256 ≤ s.attempts.length) .conflict
  throwIf (¬ s.continues next) .authority
  match s.subjectDecisions.getLast?.map WorkflowDecision.outcome with
  | some .changesRequested => do
    throwIf (s.subject.handoff.type.isFresh = false ∧ next.handoff.type.isFresh = true) .authority
    return .changesRequested
  | some .approved =>
    if next.handoff.type.isFresh = false then return .materialAmendment
    else if s.subject.handoff.type.isFresh = true ∧ s.freshToFresh = true then return .documentRevision
    else .error .authority
  | _ => .error .authority

/-! ## Coordinators -/

def legacyCoordinatorAdoptionPurpose (s : WorkflowRun) : Option AdoptionPurpose :=
  if s.coordinatorDocumentOnly = false ∧ s.recoverableCancelledDecision.isSome = true then some .cancelledReview
  else
    match s.pending with
    | [intent] =>
      if s.resources.isSome = true ∧ ((s.step intent.stepId).any fun step => step.operation == "ticket.queue") = true ∧
          (s.decisions.any fun d => d.decisionId == intent.decisionId && d.subjectSha256 == s.subjectSha256 &&
            d.outcome == .approved && !s.revoked.contains d.decisionId) = true then some .queueReconcile
      else none
    | _ => none

/-- Adoption cannot transfer execution custody or renew a package grant. -/
def coordinatorAdoptionPurpose (s : WorkflowRun) : Option AdoptionPurpose :=
  match s.legacyCoordinatorAdoptionPurpose with
  | some purpose => some purpose
  | none =>
    if (s.subjectDecisions.getLast?.any fun d => !s.revoked.contains d.decisionId) = true ∧
        s.coordinatorQueueOnly = false ∧ (s.revisionGate = none ∨
          s.coordinatorDocumentOnly = true ∧ s.recoverableCancelledDecision.isSome = true) ∧
        s.executed = false then some .documentContinuation
    else none

/-- A document successor cannot execute source or check work or queue the adopted package. -/
def coordinatorOperationAllowed (s : WorkflowRun) (operation : String) : Bool :=
  !s.coordinatorDocumentOnly || operation == "publication.pair" ||
    (operation == "ticket.queue" && s.coordinatorDocumentSubjectSha256 != some s.subjectSha256)

/-- `assertSubjectCaller(state, caller, false)`: the caller is of the subject. -/
def subjectCaller (s : WorkflowRun) (caller : WorkflowCaller) : Prop :=
  caller.repoKey = s.subject.repository.key ∧ caller.repoRoot = s.subject.repository.root ∧
    caller.ticket = s.subject.ticket

instance (s : WorkflowRun) (caller : WorkflowCaller) : Decidable (s.subjectCaller caller) := by
  unfold subjectCaller
  infer_instance

/-- The decision that authorizes some permissions. -/
def requireDecision (s : WorkflowRun) (id : String) (permissions : List PackagePermission) :
    Replayed WorkflowDecision := do
  let d ← require (s.decisions.find? (·.decisionId == id)) .authority
  throwIf (d.outcome ≠ .approved ∨ d.subjectSha256 ≠ s.subjectSha256 ∨ s.revoked.contains id = true ∨
    permissions.any (fun p => !d.permissions.1.contains p) = true) .authority
  return d

end WorkflowRun

/-! ## Journals -/

inductive EventType where
  | admitted | subjectRevised | decision | decisionRecovered | coordinatorAdopted | revocation | intent | reconcile
  | result
  deriving DecidableEq

/-- An entry as the journal reads it. -/
structure Entry where
  revision : ℕ
  type : EventType
  data : Json

structure Journal where
  /-- The rows of the snapshots, by their keys. -/
  raw : String → Option Bytes
  digest : Bytes → String
  double : String → Json
  /-- `readWorkflowEvidence` of a subject, on the snapshots, does not throw. -/
  evidence : ReviewBundle → Bool
  /-- `validateWorkflowResources`, on the snapshots, does not throw. -/
  validResources : WorkflowResources → ReviewBundle → Bool

namespace Journal

variable (j : Journal)

/-- `journal.snapshot(sha256)`. -/
def snapshot (sha256 : String) : Replayed Bytes := do
  let _ ← contract (shaText (.str sha256))
  let raw ← require (j.raw sha256) .uncertain
  throwIf (1048576 < raw.length ∨ j.digest raw ≠ sha256) .uncertain
  return raw

/-- `parseReviewBundle(journal.snapshot(sha256))`. -/
def subject (sha256 : String) : Replayed ReviewBundle := do
  let raw ← j.snapshot sha256
  contract (parseReviewBundle j.double raw)

/-- A field of a row is this text. -/
def isField (r : Row) (key value : String) : Bool :=
  match r.lookup key with
  | some (.str s) => s == value
  | _ => false

/-- `digest(JSON.stringify(resources))`. -/
def resourcesDigest (r : WorkflowResources) : String := j.digest (r.json.stringify).toUTF8.data.toList

def verifyRetainedProducer (s : WorkflowRun) (producerSha256 : Json) : Replayed Unit := do
  let sha ← contract (shaText producerSha256)
  let raw ← j.snapshot sha
  let value ← contract (strictJson j.double raw)
  let p ← contract (object ["schemaVersion", "unsigned", "requestSha256", "producer"] [] value)
  let _ ← contract (fieldOf p "schemaVersion" (literal "pa-workflow-producer-provenance/v1"))
  let _ ← contract (fieldOf p "requestSha256" shaText)
  let unsigned := match p.lookup "unsigned" with
    | some (.bool b) => b
    | _ => false
  let producer := (p.lookup "producer").elim [] Json.entries
  throwIf (unsigned = false ∨ isField producer "candidateSha256" s.subjectSha256 = false ∨
    isField producer "configRevision" s.configRevision = false ∨
    isField producer "consumerContract" "pa-review-bundle/v1" = false ∨
    s.resources.any (fun r => !isField producer "registrySha256" r.registrySha256) = true) .uncertain
  throwIf (j.evidence s.subject = false) .source

/-- The producer of an event, when it has one. -/
def verifyProducer (s : WorkflowRun) (r : Row) : Replayed Unit :=
  match r.lookup "producerSha256" with
  | none => return ()
  | some sha => j.verifyRetainedProducer s sha

/-! ## Events -/

/-- The resources that an admission retains, if it names some. -/
def retained (s : WorkflowRun) : Option Json → Replayed (Option WorkflowResources)
  | none => return none
  | some sha => do
    let sha ← contract (shaText sha)
    let raw ← j.snapshot sha
    let r ← require (parseWorkflowResources j.double raw) .source
    throwIf (r.configRevision ≠ s.configRevision ∨ r.routes.contains ⟨s.caller.team, s.caller.mode⟩ = false) .uncertain
    throwIf (j.validResources r s.subject = false) .source
    return some r

/-- The state after the `admitted` event. -/
def admitted (runId : String) (data : Json) : Replayed WorkflowRun := do
  let a ← contract (object ["definitionSha256", "subjectSha256", "configRevision", "caller"]
    ["producerSha256", "resourcesSha256"] data)
  let subjectSha256 ← contract (fieldOf a "subjectSha256" shaText)
  let definitionSha256 ← contract (fieldOf a "definitionSha256" shaText)
  let raw ← j.snapshot definitionSha256
  let definition ← contract (parseWorkflowDefinition j.double raw)
  let subject ← j.subject subjectSha256
  throwIf (subject.workflow ≠ ⟨definition.workflowId, definition.version, definitionSha256⟩) .uncertain
  let configRevision ← contract (fieldOf a "configRevision" gitShaText)
  let caller ← contract (fieldOf a "caller" parseCaller)
  let s : WorkflowRun := {
    runId, revision := 1, definition, subject, subjectSha256, configRevision, resources := none, caller
    coordinator := none, coordinatorQueueOnly := false, coordinatorDocumentOnly := false
    coordinatorDocumentSubjectSha256 := none, decisions := [], revoked := [], pending := [], earlier := []
    attempt := ⟨"attempt-" ++ runId, none, subject.subjectId, subjectSha256, 1, .initial, ∅⟩ }
  throwIf (¬ s.subjectCaller caller) .authority
  let resources ← j.retained s (a.lookup "resourcesSha256")
  let s := { s with resources }
  j.verifyProducer s a
  return s

def subjectRevised (s : WorkflowRun) (revision : ℕ) (data : Json) : Replayed WorkflowRun := do
  let r ← contract (object ["previousSubjectSha256", "subjectSha256", "previousAttemptId", "attemptId", "reason"]
    ["producerSha256"] data)
  let subjectSha256 ← contract (fieldOf r "subjectSha256" shaText)
  let next ← j.subject subjectSha256
  throwIf (isField r "previousSubjectSha256" s.subjectSha256 = false ∨
    isField r "previousAttemptId" s.attempt.attemptId = false) .uncertain
  let reason ← s.subjectRevisionReason next
  throwIf (isField r "reason" reason.text = false) .uncertain
  let attemptId ← contract (fieldOf r "attemptId" idText)
  throwIf ((s.attempts.any fun a => a.attemptId == attemptId) = true) .uncertain
  let s' := { s with
    subject := next, subjectSha256, earlier := s.attempts
    attempt := ⟨attemptId, some s.attempt.attemptId, next.subjectId, subjectSha256, revision, reason, ∅⟩ }
  throwIf (j.evidence next = false) .source
  j.verifyProducer s' r
  return s'

/-- The purpose of an adoption; an old event does not name it. -/
def adoptionPurpose (s : WorkflowRun) : Option Json → Replayed AdoptionPurpose
  | none => require s.legacyCoordinatorAdoptionPurpose .uncertain
  | some v => do
    let purpose ← contract (oneOf AdoptionPurpose.text [.documentContinuation] v)
    throwIf (s.coordinatorAdoptionPurpose ≠ some purpose) .uncertain
    return purpose

def coordinatorAdopted (s : WorkflowRun) (data : Json) : Replayed WorkflowRun := do
  let r ← contract (object ["previous", "current", "subjectSha256", "resourcesSha256", "captureEvidenceRef",
    "principal"] ["purpose"] data)
  let previous ← contract (fieldOf r "previous" parseCaller)
  let current ← contract (fieldOf r "current" parseCaller)
  let purpose ← adoptionPurpose s (r.lookup "purpose")
  throwIf (previous ≠ s.workflowCoordinator ∨ current.deploymentId = previous.deploymentId ∨
    current.team ≠ previous.team ∨ current.mode ≠ previous.mode ∨ isField r "subjectSha256" s.subjectSha256 = false)
    .uncertain
  let resources ← require s.resources .source
  throwIf (isField r "resourcesSha256" (j.resourcesDigest resources) = false) .uncertain
  throwIf (¬ s.subjectCaller current) .authority
  let _ ← contract (fieldOf r "captureEvidenceRef" evidenceRef)
  let _ ← contract (fieldOf r "principal" anyText)
  return { s with
    coordinatorQueueOnly := purpose = .queueReconcile
    coordinatorDocumentOnly := purpose = .documentContinuation
    coordinatorDocumentSubjectSha256 := if purpose = .documentContinuation then some s.subjectSha256 else none
    coordinator := some current }

/-- The permissions of a decision are all that its subject requests, or none. -/
def permissionsOk (s : WorkflowRun) (d : WorkflowDecision) : Prop :=
  if d.outcome = .approved then d.permissions.1.length = s.subject.requestedPermissions.1.length ∧
    s.subject.requestedPermissions.1.all d.permissions.1.contains = true
  else d.permissions.1.isEmpty = true

instance (s : WorkflowRun) (d : WorkflowDecision) : Decidable (permissionsOk s d) := by
  unfold permissionsOk
  infer_instance

/-- A recovery names the decision that it replaces. -/
def checkRecovery (s : WorkflowRun) (recovers : Bool) (r : Row) (d : WorkflowDecision) : Replayed Unit :=
  if recovers then do
    let cancelled ← require s.recoverableCancelledDecision .uncertain
    throwIf (isField r "cancelledDecisionId" cancelled.decisionId = false ∨ d.stepId ≠ cancelled.stepId) .uncertain
  else return ()

/-- A decision that is recorded; a recovered one replaces a cancelled one. -/
def decided (s : WorkflowRun) (recovers : Bool) (data : Json) : Replayed WorkflowRun := do
  let r ← contract (object (if recovers then ["record", "cancelledDecisionId"] else ["record"]) [] data)
  let d ← contract (fieldOf r "record" parseDecision)
  checkRecovery s recovers r d
  let step ← require (s.step d.stepId) .uncertain
  throwIf (d.runId ≠ s.runId ∨ d.subjectSha256 ≠ s.subjectSha256 ∨ d.subjectRef ≠ s.subject.subjectId ∨
    step.kind ≠ .decision ∨ recovers = false ∧ (eligibleSteps s.view).contains step.id = false ∨
    (s.decisions.any fun old => old.decisionId == d.decisionId ||
      old.captureEvidenceRef.ref == d.captureEvidenceRef.ref) = true ∨
    ¬ permissionsOk s d) .uncertain
  return { s with decisions := s.decisions ++ [d] }.record d.stepId d.outcome

def revocation (s : WorkflowRun) (data : Json) : Replayed WorkflowRun := do
  let r ← contract (object ["decisionId", "captureEvidenceRef", "principal"] [] data)
  let id ← contract (fieldOf r "decisionId" idText)
  let _ ← contract (fieldOf r "captureEvidenceRef" evidenceRef)
  let _ ← contract (fieldOf r "principal" anyText)
  throwIf ((s.decisions.any fun d => d.decisionId == id) = false ∨ s.revoked.contains id = true) .uncertain
  return { s with revoked := s.revoked ++ [id] }

def intended (s : WorkflowRun) (data : Json) : Replayed WorkflowRun := do
  let r ← contract (object ["intent"] [] data)
  let intent ← contract (fieldOf r "intent" parseIntent)
  let step ← require (s.step intent.stepId) .uncertain
  throwIf (step.kind = .decision ∨ intent.runId ≠ s.runId ∨ intent.subjectSha256 ≠ s.subjectSha256 ∨
    intent.owner ≠ step.owner ∨ (eligibleSteps s.view).contains step.id = false) .uncertain
  throwIf (s.coordinatorOperationAllowed step.operation = false) .uncertain
  let _ ← s.requireDecision intent.decisionId step.authorization
  return { s with pending := s.pending ++ [intent] }

def reconciled (s : WorkflowRun) (data : Json) : Replayed WorkflowRun := do
  let r ← contract (object ["intentId"] [] data)
  throwIf (s.pending.isEmpty = true) .uncertain
  let id ← contract (fieldOf r "intentId" idText)
  throwIf ((s.pending.any fun i => i.intentId == id) = false) .uncertain
  return s

def settled (s : WorkflowRun) (data : Json) : Replayed WorkflowRun := do
  let r ← contract (object ["intentId", "outcome", "evidence"] [] data)
  let id ← contract (fieldOf r "intentId" idText)
  let intent ← require (s.pending.find? (·.intentId == id)) .uncertain
  let step ← require (s.step intent.stepId) .uncertain
  let outcome ← contract (fieldOf r "outcome" (oneOf StepOutcome.text (stepOutcomes step.kind)))
  let refs ← contract (fieldOf r "evidence" (array evidenceRef 256))
  throwIf (refs.isEmpty = true) .uncertain
  return { s.record step.id outcome with pending := s.pending.filter (·.intentId != id) }

/-! ## Replay -/

/-- An event after the first one, by its type. -/
def event (s : WorkflowRun) (e : Entry) : Replayed WorkflowRun :=
  match e.type with
  | .admitted => .error .uncertain
  | .subjectRevised => j.subjectRevised s e.revision e.data
  | .decision => decided s false e.data
  | .decisionRecovered => decided s true e.data
  | .coordinatorAdopted => j.coordinatorAdopted s e.data
  | .revocation => revocation s e.data
  | .intent => intended s e.data
  | .reconcile => reconciled s e.data
  | .result => settled s e.data

/-- One round of the loop over the events. -/
def apply (s : WorkflowRun) (e : Entry) : Replayed WorkflowRun :=
  (j.event s e).map fun s => { s with revision := e.revision }

/-- Pure replay: it checks every event against the events before it. -/
def replayWorkflow (runId : String) : List Entry → Replayed WorkflowRun
  | [] => .error .uncertain
  | first :: rest => do
    throwIf (first.type ≠ .admitted) .uncertain
    let s ← j.admitted runId first.data
    Run.exec j.apply s rest

end Journal

end PaPlatform.Workflow.Replay
