/-
  The service of JSON workflows: the calls of `JsonWorkflowService` of `workflows/service.ts`
  that append an event to the journal of an admitted run.

  A call reads the state of its run and asks its host; then it appends one event under
  the revision that it has read.  The two halves of a call are functions of their own,
  since the journal can change between them.
-/
import PaPlatform.Workflow.Authority

namespace PaPlatform.Workflow

open Js

def EvidenceRef.json (e : EvidenceRef) : Json :=
  .obj [("schemaVersion", .str "pa-workflow-evidence-ref/v1"), ("ref", .str e.ref), ("version", .str e.version),
    ("sha256", .str e.sha256)]

end PaPlatform.Workflow

namespace PaPlatform.Workflow.Replay

open Js Guard

/-! ## Written records -/

def WorkflowCaller.json (c : WorkflowCaller) : Json :=
  .obj [("deploymentId", .str c.deploymentId), ("repoKey", .str c.repoKey), ("repoRoot", .str c.repoRoot),
    ("ticket", .str c.ticket), ("team", .str c.team), ("mode", .str c.mode), ("identitySha256", .str c.identitySha256)]

/-- The permissions of a list. -/
def permissionsJson (permissions : List PackagePermission) : Json := .arr (permissions.map fun p => .str p.text)

def WorkflowDecision.json (d : WorkflowDecision) : Json :=
  .obj [("schemaVersion", .str "pa-decision/v1"), ("decisionId", .str d.decisionId), ("kind", .str "package"),
    ("runId", .str d.runId), ("stepId", .str d.stepId), ("subjectRef", .str d.subjectRef),
    ("subjectSha256", .str d.subjectSha256), ("outcome", .str d.outcome.text),
    ("permissions", permissionsJson d.permissions.1), ("captureEvidenceRef", EvidenceRef.json d.captureEvidenceRef),
    ("principal", .str d.principal), ("issuedAt", .str d.issuedAt)]

def EffectIntent.json (i : EffectIntent) : Json :=
  .obj [("intentId", .str i.intentId), ("runId", .str i.runId), ("stepId", .str i.stepId), ("owner", .str i.owner),
    ("decisionId", .str i.decisionId), ("subjectSha256", .str i.subjectSha256)]

/-! ## Hosts -/

/-- What `randomUUID()` returns: lower case hexadecimal digits and hyphens. -/
abbrev Uuid := {s : String // s.toList.length ≤ 36 ∧ s.toList.all (fun c => isLower c || isDigit c || c == '-') = true}

/-- The ports of the host, as they answer at one moment. -/
structure Host where
  authenticate : Json
  /-- `continues(original, current)`; without this port nothing continues. -/
  continues : WorkflowCaller → WorkflowCaller → Bool
  /-- `readWorkflowEvidence(subject, observations().readEvidence)` does not throw. -/
  evidence : ReviewBundle → Bool
  /-- There is a port `assertInactive`, and it does not throw. -/
  inactive : WorkflowCaller → Bool
  /-- There is a port `assertDocumentContinuation`, and it does not throw. -/
  documents : WorkflowRun → Bool
  /-- `owners` has an owner of the operation. -/
  owner : String → Bool
  /-- `owner.admit(caller, subject, intent)` does not throw. -/
  admits : WorkflowCaller → EffectIntent → Bool
  /-- `projectExecutionPrerequisites(observations())` is empty. -/
  commands : Bool

structure Capture where
  outcome : Json
  principal : Json
  evidence : Json

/-- `capture.outcome === "approved"`. -/
def Capture.approved (c : Capture) : Bool :=
  match c.outcome with
  | .str s => s == "approved"
  | _ => false

/-- What the host answers after the first half of a call: before the transaction and in it. -/
structure Answer where
  before : Host
  within : Host
  capture : Capture
  now : Json
  uuid : Uuid
  /-- The proven result of an effect. -/
  outcome : Json
  evidence : List Json

/-- `assertSubjectCaller(state, caller, true, continues)`. -/
def WorkflowRun.exactCaller (s : WorkflowRun) (continues : WorkflowCaller → WorkflowCaller → Bool)
    (caller : WorkflowCaller) : Prop :=
  s.subjectCaller caller ∧ caller.team = s.workflowCoordinator.team ∧ caller.mode = s.workflowCoordinator.mode ∧
    (caller.deploymentId = s.workflowCoordinator.deploymentId ∧
      caller.identitySha256 = s.workflowCoordinator.identitySha256 ∨ continues s.workflowCoordinator caller = true)

instance (s : WorkflowRun) (continues : WorkflowCaller → WorkflowCaller → Bool) (caller : WorkflowCaller) :
    Decidable (s.exactCaller continues caller) := by
  unfold WorkflowRun.exactCaller
  infer_instance

namespace Host

variable (host : Host)

/-- `this.caller(state, queueSettlement)`. -/
def caller (s : WorkflowRun) (queueSettlement : Bool) : Replayed WorkflowCaller := do
  throwIf (s.coordinatorQueueOnly = true ∧ queueSettlement = false) .authority
  let caller ← contract (parseCaller host.authenticate)
  throwIf (¬ s.exactCaller host.continues caller) .authority
  return caller

/-- The checks of an adoption, of the state `s`. -/
def adoptionCheck (expectedRevision : ℕ) (subjectSha256 : String) (previous current : WorkflowCaller)
    (purpose : Option AdoptionPurpose) (s : WorkflowRun) : Replayed Unit := do
  throwIf (¬ s.subjectCaller current) .authority
  throwIf (s.revision ≠ expectedRevision ∨ s.subjectSha256 ≠ subjectSha256 ∨
    s.coordinatorAdoptionPurpose = none ∨ s.workflowCoordinator ≠ previous) .conflict
  let again ← contract (parseCaller host.authenticate)
  throwIf (current.team ≠ previous.team ∨ current.mode ≠ previous.mode ∨
    current.deploymentId = previous.deploymentId ∨ again ≠ current) .authority
  throwIf (host.inactive previous = false) .capability
  throwIf (purpose = some .documentContinuation ∧ host.documents s = false) .capability
  throwIf (host.evidence s.subject = false) .source

end Host

/-! ## First halves -/

inductive Call where
  | decide (stepId : String)
  | recoverCancelled (decisionId subjectSha256 : String)
  | revoke (decisionId : String)
  | adoptCoordinator (subjectSha256 : String)
  | requestStep (stepId decisionId : String)
  | reconcile (intentId : String)
  /-- The settlement of `perform`, of the pending intent with this id. -/
  | settle (intentId : String)

/-- A call that waits for its host, with the state that it has read. -/
structure Running where
  call : Call
  state : WorkflowRun
  expectedRevision : ℕ
  caller : WorkflowCaller

namespace WorkflowRun

variable (s : WorkflowRun)

/-- A step that may be captured. -/
def decidable (stepId : String) : Bool :=
  (s.step stepId).any (fun step => step.kind == .decision) && (eligibleSteps s.view).contains stepId

/-- The operation of the step is `ticket.queue`. -/
def queues (stepId : String) : Bool := (s.step stepId).any fun step => step.operation == "ticket.queue"

/-- `requiresProjectCommands(step)`: the step executes. -/
def requiresProjectCommands (step : WorkflowStep) : Bool := executes step

def decideStart (host : Host) (expectedRevision : ℕ) (stepId : String) : Replayed WorkflowCaller := do
  let caller ← host.caller s false
  throwIf (s.resources = none) .source
  throwIf (s.revision ≠ expectedRevision ∨ s.decidable stepId = false) .conflict
  throwIf (host.evidence s.subject = false) .source
  return caller

def recoverStart (host : Host) (expectedRevision : ℕ) (decisionId subjectSha256 : String) :
    Replayed WorkflowCaller := do
  let caller ← host.caller s false
  throwIf (s.resources = none) .source
  throwIf (s.revision ≠ expectedRevision ∨ subjectSha256 ≠ s.subjectSha256 ∨
    s.recoverableCancelledDecision.map (·.decisionId) ≠ some decisionId) .conflict
  throwIf (host.evidence s.subject = false) .source
  return caller

/-- The snapshot of a decision's subject. -/
def decisionSubject (j : Journal) (decisionId : String) : Replayed ReviewBundle := do
  let d ← require (s.decisions.find? (·.decisionId == decisionId)) .uncertain
  j.subject d.subjectSha256

def revokeStart (j : Journal) (host : Host) (expectedRevision : ℕ) (decisionId : String) :
    Replayed WorkflowCaller := do
  let caller ← host.caller s false
  throwIf (s.revision ≠ expectedRevision ∨ (s.decisions.any fun d => d.decisionId == decisionId) = false ∨
    s.revoked.contains decisionId = true) .conflict
  let _ ← s.decisionSubject j decisionId
  return caller

def adoptStart (host : Host) (expectedRevision : ℕ) (subjectSha256 : String) : Replayed WorkflowCaller := do
  let current ← contract (parseCaller host.authenticate)
  host.adoptionCheck expectedRevision subjectSha256 s.workflowCoordinator current s.coordinatorAdoptionPurpose s
  throwIf (s.resources = none) .source
  return current

def requestStart (host : Host) (expectedRevision : ℕ) (stepId decisionId : String) : Replayed WorkflowCaller := do
  let caller ← host.caller s false
  throwIf (s.revision ≠ expectedRevision ∨ (eligibleSteps s.view).contains stepId = false) .conflict
  let step ← require (s.step stepId) .uncertain
  throwIf (step.kind = .decision) .authority
  throwIf (s.coordinatorOperationAllowed step.operation = false) .authority
  let _ ← s.requireDecision decisionId step.authorization
  throwIf (s.resources = none) .source
  throwIf (requiresProjectCommands step = true ∧ host.commands = false) .capability
  throwIf (host.owner step.operation = false) .capability
  return caller

def reconcileStart (host : Host) (expectedRevision : ℕ) (intentId : String) : Replayed WorkflowCaller := do
  let intent := s.pending.find? (·.intentId == intentId)
  let caller ← host.caller s (intent.any fun i => s.queues i.stepId)
  let intent ← require intent .conflict
  throwIf (s.revision ≠ expectedRevision) .conflict
  let step ← require (s.step intent.stepId) .uncertain
  throwIf (s.coordinatorOperationAllowed step.operation = false) .authority
  throwIf (host.owner step.operation = false) .capability
  return caller

/-- The owner has verified the result; an intent that is settled already is not settled again. -/
def settleStart (host : Host) (intentId : String) : Replayed WorkflowCaller := do
  let intent ← require (s.pending.find? (·.intentId == intentId)) .conflict
  host.caller s (s.queues intent.stepId)

end WorkflowRun

/-- The first half of a call, on the state that it reads. -/
def Call.start (j : Journal) (host : Host) (call : Call) (expectedRevision : ℕ) (s : WorkflowRun) : Replayed Running :=
  match call with
  | .decide stepId =>
    (s.decideStart host expectedRevision stepId).map fun caller => ⟨call, s, expectedRevision, caller⟩
  | .recoverCancelled decisionId sha =>
    (s.recoverStart host expectedRevision decisionId sha).map fun caller => ⟨call, s, expectedRevision, caller⟩
  | .revoke decisionId =>
    (s.revokeStart j host expectedRevision decisionId).map fun caller => ⟨call, s, expectedRevision, caller⟩
  | .adoptCoordinator sha =>
    (s.adoptStart host expectedRevision sha).map fun caller => ⟨call, s, expectedRevision, caller⟩
  | .requestStep stepId decisionId =>
    (s.requestStart host expectedRevision stepId decisionId).map fun caller => ⟨call, s, expectedRevision, caller⟩
  | .reconcile intentId =>
    (s.reconcileStart host expectedRevision intentId).map fun caller => ⟨call, s, expectedRevision, caller⟩
  | .settle intentId => (s.settleStart host intentId).map fun caller => ⟨call, s, s.revision, caller⟩

/-! ## Second halves -/

abbrev Made := Replayed (EventType × Json)

/-- The journal of a run as its writers use it: whether a written body is read back is decided outside. -/
structure Store extends Journal where
  runId : String
  /-- `strictJson(body, MAX_WORKFLOW_RECORD_BYTES)` of the body of an event does not throw. -/
  fits : Entry → Bool

namespace Store

variable (store : Store)

/-- `replayWorkflow(journal, runId, entries)`. -/
def status (entries : List Entry) : Replayed WorkflowRun := store.replayWorkflow store.runId entries

/-- `journal.append(runId, expectedRevision, make)`, of the entries that the transaction reads. -/
def append (entries : List Entry) (expectedRevision : ℕ) (make : List Entry → Made) : Replayed (List Entry) := do
  throwIf (entries.length ≠ expectedRevision) .conflict
  let made ← make entries
  throwIf (store.fits ⟨expectedRevision + 1, made.1, made.2⟩ = false) .contract
  return entries ++ [⟨expectedRevision + 1, made.1, made.2⟩]

/-- The record of a captured decision. -/
def decision (s : WorkflowRun) (stepId : String) (a : Answer) : Option WorkflowDecision :=
  parseDecision (.obj [("schemaVersion", .str "pa-decision/v1"), ("decisionId", .str ("decision-" ++ a.uuid.1)),
    ("kind", .str "package"), ("runId", .str store.runId), ("stepId", .str stepId),
    ("subjectRef", .str s.subject.subjectId), ("subjectSha256", .str s.subjectSha256), ("outcome", a.capture.outcome),
    ("permissions", permissionsJson (if a.capture.approved then s.subject.requestedPermissions.1 else [])),
    ("captureEvidenceRef", a.capture.evidence), ("principal", a.capture.principal), ("issuedAt", a.now)])

def decideCommit (r : Running) (stepId : String) (a : Answer) (entries : List Entry) : Replayed (List Entry) := do
  let _ ← a.before.caller r.state false
  throwIf (a.before.evidence r.state.subject = false) .source
  let record ← contract (store.decision r.state stepId a)
  store.append entries r.expectedRevision fun entries => do
    let current ← store.status entries
    let _ ← a.within.caller current false
    throwIf (current.subjectSha256 ≠ r.state.subjectSha256 ∨ (eligibleSteps current.view).contains stepId = false)
      .conflict
    return (.decision, .obj [("record", record.json)])

def recoverCommit (r : Running) (decisionId subjectSha256 : String) (a : Answer) (entries : List Entry) :
    Replayed (List Entry) := do
  let caller ← a.before.caller r.state false
  throwIf (caller ≠ r.caller) .conflict
  throwIf (a.before.evidence r.state.subject = false) .source
  let cancelled ← require r.state.recoverableCancelledDecision .conflict
  let record ← contract (store.decision r.state cancelled.stepId a)
  store.append entries r.expectedRevision fun entries => do
    let current ← store.status entries
    let caller ← a.within.caller current false
    throwIf (current.subjectSha256 ≠ subjectSha256 ∨
      current.recoverableCancelledDecision.map (·.decisionId) ≠ some decisionId ∨ caller ≠ r.caller) .conflict
    throwIf (a.within.evidence current.subject = false) .source
    return (.decisionRecovered, .obj [("cancelledDecisionId", .str decisionId), ("record", record.json)])

/-- The operator's capture of a call: nothing is written unless it approves. -/
def approved (a : Answer) (entries : List Entry) (commit : Replayed (List Entry)) : Replayed (List Entry) :=
  if a.capture.approved then commit else return entries

def revokeCommit (r : Running) (decisionId : String) (a : Answer) (entries : List Entry) : Replayed (List Entry) :=
  approved a entries do
    let _ ← a.before.caller r.state false
    store.append entries r.expectedRevision fun entries => do
      let current ← store.status entries
      let _ ← a.within.caller current false
      let evidence ← contract (evidenceRef a.capture.evidence)
      let principal ← contract (anyText a.capture.principal)
      return (.revocation, .obj [("decisionId", .str decisionId), ("captureEvidenceRef", EvidenceRef.json evidence),
        ("principal", .str principal)])

/-- The purpose is written for documents only. -/
def purposeField (purpose : Option AdoptionPurpose) : Row :=
  if purpose = some .documentContinuation then [("purpose", .str AdoptionPurpose.documentContinuation.text)] else []

def adoptCommit (r : Running) (subjectSha256 : String) (a : Answer) (entries : List Entry) :
    Replayed (List Entry) := do
  let previous := r.state.workflowCoordinator
  let purpose := r.state.coordinatorAdoptionPurpose
  let current ← store.status entries
  a.before.adoptionCheck r.expectedRevision subjectSha256 previous r.caller purpose current
  approved a entries do
    store.append entries r.expectedRevision fun entries => do
      let s ← store.status entries
      a.within.adoptionCheck r.expectedRevision subjectSha256 previous r.caller purpose s
      let resources ← require s.resources .source
      let evidence ← contract (evidenceRef a.capture.evidence)
      let principal ← contract (anyText a.capture.principal)
      return (.coordinatorAdopted, .obj ([("previous", WorkflowCaller.json previous),
        ("current", WorkflowCaller.json r.caller), ("subjectSha256", .str subjectSha256),
        ("resourcesSha256", .str (store.resourcesDigest resources)), ("captureEvidenceRef", EvidenceRef.json evidence),
        ("principal", .str principal)] ++ purposeField purpose))

/-- The intent of a step that is requested. -/
def intent (s : WorkflowRun) (step : WorkflowStep) (decisionId : String) (uuid : Uuid) : EffectIntent where
  intentId := "intent-" ++ uuid.1
  runId := store.runId
  stepId := step.id
  owner := step.owner
  decisionId := decisionId
  subjectSha256 := s.subjectSha256

def requestCommit (r : Running) (stepId decisionId : String) (a : Answer) (entries : List Entry) :
    Replayed (List Entry) := do
  let step ← require (r.state.step stepId) .uncertain
  let intent := store.intent r.state step decisionId a.uuid
  throwIf (a.before.admits r.caller intent = false) .authority
  store.append entries r.expectedRevision fun entries => do
    let current ← store.status entries
    let _ ← a.within.caller current false
    let _ ← current.requireDecision decisionId step.authorization
    return (.intent, .obj [("intent", EffectIntent.json intent)])

def reconcileCommit (r : Running) (intentId : String) (a : Answer) (entries : List Entry) : Replayed (List Entry) := do
  let intent ← require (r.state.pending.find? (·.intentId == intentId)) .conflict
  store.append entries r.expectedRevision fun entries => do
    let current ← store.status entries
    let _ ← a.within.caller current (r.state.queues intent.stepId)
    return (.reconcile, .obj [("intentId", .str intentId)])

def settleCommit (r : Running) (intentId : String) (a : Answer) (entries : List Entry) : Replayed (List Entry) := do
  let intent ← require (r.state.pending.find? (·.intentId == intentId)) .conflict
  let step ← require (r.state.step intent.stepId) .uncertain
  let outcome ← contract (oneOf StepOutcome.text (stepOutcomes step.kind) a.outcome)
  throwIf (a.evidence.isEmpty = true) .uncertain
  store.append entries r.expectedRevision fun entries => do
    let current ← store.status entries
    throwIf ((current.pending.any fun i => i.intentId == intentId) = false) .conflict
    let evidence ← contract (a.evidence.mapM evidenceRef)
    return (.result, .obj [("intentId", .str intentId), ("outcome", .str outcome.text),
      ("evidence", .arr (evidence.map EvidenceRef.json))])

/-- The second half of a call, on the entries that its transaction reads. -/
def commit (r : Running) (a : Answer) (entries : List Entry) : Replayed (List Entry) :=
  match r.call with
  | .decide stepId => store.decideCommit r stepId a entries
  | .recoverCancelled decisionId sha => store.recoverCommit r decisionId sha a entries
  | .revoke decisionId => store.revokeCommit r decisionId a entries
  | .adoptCoordinator sha => store.adoptCommit r sha a entries
  | .requestStep stepId decisionId => store.requestCommit r stepId decisionId a entries
  | .reconcile intentId => store.reconcileCommit r intentId a entries
  | .settle intentId => store.settleCommit r intentId a entries

end Store

/-! ## Interleavings -/

/-- A run of the service: the journal, and the calls that wait for their host. -/
structure Service where
  entries : List Entry
  running : List Running

inductive Action where
  /-- A call begins. -/
  | begin (host : Host) (call : Call) (expectedRevision : ℕ)
  /-- The host answers the waiting call with this index. -/
  | finish (index : ℕ) (answer : Answer)
  /-- A revision of the subject, which replays. -/
  | revise (data : Json)

/-- One action of the service; a call that throws changes nothing. -/
def Store.act (store : Store) (σ : Service) : Action → Replayed Service
  | .begin host call expectedRevision => do
    let s ← store.status σ.entries
    let r ← call.start store.toJournal host expectedRevision s
    return { σ with running := σ.running ++ [r] }
  | .finish index answer => do
    let r ← require σ.running[index]? .contract
    let entries ← store.commit r answer σ.entries
    return ⟨entries, σ.running.eraseIdx index⟩
  | .revise data => do
    let entries := σ.entries ++ [⟨σ.entries.length + 1, .subjectRevised, data⟩]
    let _ ← store.status entries
    return { σ with entries }

end PaPlatform.Workflow.Replay
