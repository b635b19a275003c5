/-
  `ExecutionCustodyService` of `deploy/execution-custody.ts`.

  A call reads the journal, asks the host and publishes at most one record.
  The host is what it answers during the call, so "any host" is "any answers";
  its locks serialize the calls.  The directory gives back what was stored
  under a name.
-/
import PaPlatform.Custody.Journal

namespace PaPlatform.Custody

open Js Guard Effect

/-! ## The host -/

/-- The answers of `ExecutionHost` and of the directory during one call.  A
    check answers `false` where it throws or returns anything. -/
structure HostAnswers where
  lock : Bool
  unlock : Bool
  authorize : Bool
  assertLive : Bool
  assertLiveHolder : Bool
  now : Json
  verifyEvidence : ℕ → SourceVersion → Bool
  assertHandover : Bool
  assertRestart : Option Bool
  reaffirm : Bool
  projectCustody : Option (Bool × Bool)
  storage : Option StorageFault

/-- `sources`. -/
def sources : ExecutionCommand → List SourceVersion
  | .plan plan => plan.prerequisites.1
  | .advance plan evidence => evidence :: plan.prerequisites.1
  | .select _ _ handover => [handover]
  | .restart _ _ evidence => [evidence]
  | .begin operation => operation.intent.toList
  | .finish _ evidence failure _ => evidence :: (failure.map (·.output)).toList
  | .settle evidence inventory => [evidence, inventory.evidence]
  | .attempt recovery => recovery.originalFailure :: recovery.recheck.output ::
      (recovery.diagnostic.toList ++ recovery.remedy.toList)
  | .candidate _ mapping => [mapping]
  | .resolve evidence => [evidence]
  | .accept _ evidence => [evidence]

/-- A call on the directory. -/
abbrev Call := Eff RecordStore WorkflowFailure

/-- `nativeCheck`. -/
def nativeCheck (answer : Bool) : Call PUnit := failIf (answer = false) .workflow

/-- The caps on the number of events before an event, and before an intent. -/
def maxEvents : ℕ := 256

def maxEventsBeforeIntent : ℕ := 255

/-! ## Calls -/

section
variable (sha256 : Bytes → Sha256) (b : ExecutionBinding) (host : HostAnswers)

/-- `#locked`. -/
def locked {α : Type} (run : Call α) : Call α := do
  failIf (host.lock = false) .workflow
  let result ← run
  failIf (host.unlock = false) .workflow
  return result

/-- `#load`. -/
def load : Call Replayed := do
  let records ← get
  readExecutionJournal sha256 records b

/-- `initialize`. -/
def initializeCustody (actorInput : Json) : Call ExecutionState := do
  let actor ← demand (parseHolder actorInput) .workflow
  locked host do
    nativeCheck host.authorize
    nativeCheck host.assertLive
    let records ← get
    if lineageNames sha256 records b ≠ [] then
      let loaded ← load sha256 b
      failIf (actor ≠ loaded.state.activeOwner) .workflow
    else
      failIf (actor ≠ b.owner) .workflow
      let recordedAt ← demand (workflowTimestamp host.now) .workflow
      failIf (recordedAt.ms < b.bounds.startedAt.ms) .workflow
      publish host.storage (intentName sha256 b) (executionIntent b recordedAt)
    let loaded ← load sha256 b
    nativeCheck host.reaffirm
    return loaded.state

/-- The end of a call that adds an event: `projectCustody` on both sides of the
    publication. -/
def publishEvent (projectCustody : Option (Bool × Bool)) (loaded : Replayed)
    (actor : ExecutionHolder) (command : ExecutionCommand) (now : Timestamp)
    (next : ExecutionState) : Call ExecutionState := do
  let event : ExecutionEvent :=
    ⟨executionId sha256 b, next.sequence, digestOf sha256 loaded.previous, actor, command, now⟩
  nativeCheck host.reaffirm
  nativeCheck (projectCustody.all (·.1))
  publish host.storage (eventName sha256 b next.sequence) event.toJson
  nativeCheck (projectCustody.all (·.2))
  return next

/-- The recorded handoff that an intent would repeat. -/
def recordedHandoff (s : ExecutionState) : RestartAction → Option (ExecutionHolder × SourceVersion × ℕ)
  | .restartLaunch => s.restartLaunch.map fun launch => (launch.actor, launch.evidence, launch.sequence)
  | _ => s.pendingRestart.map fun pending => (pending.actor, pending.evidence, pending.sequence)

/-- `#recordRestartIntent`. -/
def recordRestartIntent (actorInput expectedSequence evidenceInput : Json) (action : RestartAction) :
    Call ExecutionState := do
  let actor ← demand (parseHolder actorInput) .workflow
  let evidence ← demand (parseSourceVersion evidenceInput) .workflow
  let expected ← demand (Json.natural 0 (2 ^ 53 - 1) expectedSequence) .workflow
  let assertRestart ← demand host.assertRestart .workflow
  locked host do
    let loaded ← load sha256 b
    let state := loaded.state
    let reuse := recordedHandoff state action = some (actor, evidence, expected + 1) ∧
      state.sequence = expected + 1
    failIf (¬ reuse ∧ state.sequence ≠ expected) .workflow
    failIf (¬ reuse ∧ maxEventsBeforeIntent ≤ state.sequence) .workflow
    let command ← demand (parseCommand sha256
      (ExecutionCommand.restart action state.activeOwner evidence).toJson) .workflow
    nativeCheck host.authorize
    nativeCheck host.assertLive
    let now ← demand (workflowTimestamp host.now) .workflow
    -- an identical retry publishes nothing and returns the recorded state
    if reuse then
      nativeCheck (host.verifyEvidence 0 evidence)
      nativeCheck assertRestart
      nativeCheck host.reaffirm
      return state
    else
      let next ← transition state actor command now
      nativeCheck (host.verifyEvidence 0 evidence)
      nativeCheck assertRestart
      publishEvent sha256 b host none loaded actor command now next

/-- `restart`. -/
def restart (actorInput expectedSequence evidenceInput : Json) : Call ExecutionState := do
  let actor ← demand (parseHolder actorInput) .workflow
  let evidence ← demand (parseSourceVersion evidenceInput) .workflow
  let expected ← demand (Json.natural 0 (2 ^ 53 - 1) expectedSequence) .workflow
  let assertRestart ← demand host.assertRestart .workflow
  locked host do
    let loaded ← load sha256 b
    let state := loaded.state
    failIf (state.sequence ≠ expected ∨ maxEvents ≤ state.sequence) .workflow
    let command ← demand (parseCommand sha256
      (ExecutionCommand.restart .restart state.activeOwner evidence).toJson) .workflow
    nativeCheck host.authorize
    nativeCheck host.assertLive
    let now ← demand (workflowTimestamp host.now) .workflow
    let next ← transition state actor command now
    nativeCheck (host.verifyEvidence 0 evidence)
    nativeCheck assertRestart
    publishEvent sha256 b host host.projectCustody loaded actor command now next

/-- The plan that a command would install. -/
def ExecutionCommand.newPlan : ExecutionCommand → Option PhaseExecutionPlan
  | .plan p => some p
  | .advance p _ => some p
  | _ => none

/-- The commands that are never a public surface. -/
def ExecutionCommand.isHandoff : ExecutionCommand → Bool
  | .restart _ _ _ => true
  | _ => false

def ExecutionCommand.isSelect : ExecutionCommand → Bool
  | .select _ _ _ => true
  | _ => false

def ExecutionCommand.isSettle : ExecutionCommand → Bool
  | .settle _ _ => true
  | _ => false

/-- `apply`. -/
def apply (actorInput input : Json) : Call ExecutionState := do
  let actor ← demand (parseHolder actorInput) .workflow
  let command ← demand (parseCommand sha256 input) .workflow
  failIf (command.isHandoff = true) .workflow
  locked host do
    nativeCheck host.authorize
    nativeCheck host.assertLive
    let loaded ← load sha256 b
    let state := loaded.state
    failIf (maxEvents ≤ state.sequence) .workflow
    -- stricter than `transition`: the journal may hold older records
    failIf (∃ plan ∈ command.newPlan, ∃ current ∈ state.plan, plan.checks ≠ current.checks) .workflow
    let now ← demand (workflowTimestamp host.now) .workflow
    let next ← transition state actor command now
    nativeCheck ((sources command).zipIdx.all fun (source, i) => host.verifyEvidence i source)
    nativeCheck (!command.isSelect || host.assertLiveHolder)
    nativeCheck (!(command.isSelect || command.isSettle) || host.assertHandover)
    publishEvent sha256 b host host.projectCustody loaded actor command now next

end

/-! ## Sequences of calls -/

/-- A call of the service, with its arguments. -/
inductive Request where
  | initialized (actor : Json)
  | apply (actor command : Json)
  | reserveRestartLaunch (actor expectedSequence evidence : Json)
  | prepareRestart (actor expectedSequence evidence : Json)
  | restart (actor expectedSequence evidence : Json)

section
variable (sha256 : Bytes → Sha256) (b : ExecutionBinding)

def Request.perform (host : HostAnswers) : Request → Call ExecutionState
  | .initialized actor => initializeCustody sha256 b host actor
  | .apply actor command => Custody.apply sha256 b host actor command
  | .reserveRestartLaunch actor expected evidence =>
    recordRestartIntent sha256 b host actor expected evidence .restartLaunch
  | .prepareRestart actor expected evidence =>
    recordRestartIntent sha256 b host actor expected evidence .restartIntent
  | .restart actor expected evidence => Custody.restart sha256 b host actor expected evidence

/-- The directory after a sequence of calls. -/
def records : RecordStore → List (Request × HostAnswers) → RecordStore
  | records₀, [] => records₀
  | records₀, (request, host) :: calls =>
    records (outcome (request.perform sha256 b host) records₀).2 calls

end

end PaPlatform.Custody
