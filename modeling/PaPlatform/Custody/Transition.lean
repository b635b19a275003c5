/-
  `transition` of `deploy/execution-custody.ts`, and the journal loop built on
  it.

  `transition` is one function per command behind the guards shared by all
  commands.  `Applied s actor command now s'` says what an accepted command
  requires of `s` and what it makes of it; every invariant is derived from it.
-/
import PaPlatform.Custody.Types
import PaPlatform.Lib.Run

namespace PaPlatform.Custody

open Js Guard

/-! ## Guards -/

/-- `runnable`. -/
def runnable (s : ExecutionState) (now : Timestamp) : Except WorkflowFailure PUnit :=
  throwIf (s.bounds.deadlineAt.ms ≤ now.ms ∨ 3 ≤ s.bounds.consecutiveNoProgress) .workflow

/-- `owner`. -/
def owner (s : ExecutionState) (actor : ExecutionHolder) : Except WorkflowFailure PUnit :=
  throwIf (s.activeOwner ≠ actor) .workflow

/-- The `idle` of `transition`. -/
def idle (s : ExecutionState) : Except WorkflowFailure PUnit :=
  throwIf (s.custody ≠ .idle ∨ s.operation.isSome) .workflow

/-- The holder of a writing custody. -/
def ExecutionCustody.writerOf : ExecutionCustody → Option (Executor × ExecutionHolder)
  | .held .orchestratorDirect h _ => some (.orchestratorDirect, h)
  | .held .implementChild h _ => some (.implementChild, h)
  | _ => none

/-- `writer`. -/
def writer (s : ExecutionState) (actor : ExecutionHolder) : Except WorkflowFailure PUnit := do
  let (executor, holder) ← require s.custody.writerOf .workflow
  throwIf (holder ≠ actor ∨ (executor = .orchestratorDirect ∧ s.activeOwner ≠ actor)) .workflow

/-- The state after an event at `now` that changes nothing else. -/
def ExecutionState.tick (s : ExecutionState) (now : Timestamp) : ExecutionState :=
  { s with sequence := s.sequence + 1, recordedAt := now }

/-! ## Restarts -/

/-- `DEFAULT_EXECUTION_BOUNDS.replacementLimit`. -/
def replacementLimit : ℕ := 3

/-- The custody states in which ownership can be transferred. -/
def ExecutionCustody.idleOrDirect : ExecutionCustody → Bool
  | .idle => true
  | .held .orchestratorDirect _ _ => true
  | _ => false

/-- A known quiescent direct holder transfers without an idle gap; an
    unresolved operation keeps its custody. -/
def custodyAfterRestart (s : ExecutionState) (actor : ExecutionHolder) : ExecutionCustody :=
  match s.custody, s.operation with
  | .held .orchestratorDirect _ none, none => .held .orchestratorDirect actor none
  | custody, _ => custody

/-- Completing a persisted handoff is settlement, not renewed runtime: only a
    new one needs a runnable state. -/
def runnableOrPending (s : ExecutionState) (actor : ExecutionHolder) (action : RestartAction)
    (previousOwner : ExecutionHolder) (evidence : SourceVersion) (now : Timestamp) :
    Except WorkflowFailure PUnit :=
  match s.pendingRestart with
  | some pending =>
    throwIf (action ≠ .restart ∨ pending.sequence ≠ s.sequence ∨ pending.actor ≠ actor ∨
      pending.previousOwner ≠ previousOwner ∨ pending.evidence ≠ evidence) .workflow
  | none => runnable s now

def applyRestart (s : ExecutionState) (actor : ExecutionHolder) (action : RestartAction)
    (previousOwner : ExecutionHolder) (evidence : SourceVersion) (now : Timestamp) :
    Except WorkflowFailure ExecutionState := do
  runnableOrPending s actor action previousOwner evidence now
  throwIf (∃ launch ∈ s.restartLaunch,
    actor.deploymentId ≠ launch.actor.deploymentId ∨ evidence ≠ launch.evidence) .workflow
  throwIf (previousOwner ≠ s.activeOwner ∨ actor = s.activeOwner ∨
    (∃ holder ∈ s.activeOwner :: s.retiredOwners, holder.process = actor.process ∨ holder = actor) ∨
    replacementLimit ≤ s.bounds.replacementsUsed ∨ s.custody.idleOrDirect = false ∨
    (s.custody.holder ≠ none ∧ s.custody.holder ≠ some s.activeOwner)) .workflow
  match action with
  | .restartLaunch =>
    throwIf (s.operation.isSome ∨ s.custody.inFlightOperation.isSome ∨ 254 ≤ s.sequence) .workflow
    return { s.tick now with restartLaunch := some ⟨actor, evidence, s.sequence + 1⟩ }
  | .restartIntent =>
    return { s.tick now with
      pendingRestart := some ⟨actor, s.activeOwner, evidence, s.sequence + 1⟩ }
  | .restart =>
    return { s.tick now with
      activeOwner := actor
      retiredOwners := s.retiredOwners ++ [s.activeOwner]
      pendingRestart := none
      restartLaunch := none
      bounds := { s.bounds with replacementsUsed := s.bounds.replacementsUsed + 1 }
      custody := custodyAfterRestart s actor }

/-! ## Plans -/

/-- A state whose results and acceptance are forgotten. -/
def ExecutionState.cleared (s : ExecutionState) : ExecutionState :=
  { s with passedChecks := ∅, actionPasses := ∅, acceptance := fun _ => none }

def applyPlan (s : ExecutionState) (actor : ExecutionHolder) (plan : PhaseExecutionPlan)
    (now : Timestamp) : Except WorkflowFailure ExecutionState := do
  owner s actor
  idle s
  runnable s now
  throwIf (∃ failure ∈ s.originalFailure, failure.check.1 ∉ plan.checkNames ∨
    some plan.phaseId ≠ s.plan.map (·.phaseId)) .workflow
  throwIf (∃ current ∈ s.plan, plan.phaseId ≠ current.phaseId) .workflow
  return { (s.tick now).cleared with plan := some plan }

/-- The entry of `usedOperationIds` that marks a completed phase. -/
def phaseMarker (plan : PhaseExecutionPlan) : String := "phase:" ++ plan.phaseId.1

def applyAdvance (s : ExecutionState) (actor : ExecutionHolder) (plan : PhaseExecutionPlan)
    (now : Timestamp) : Except WorkflowFailure ExecutionState := do
  owner s actor
  idle s
  runnable s now
  let current ← require s.plan (.execution .phasePrerequisite)
  throwIf (s.originalFailure.isSome ∨ s.recoveryPending ∨ s.bounds.unresolvedFailureRef.isSome ∨
    plan.phaseId = current.phaseId ∨ phaseMarker plan ∈ s.usedOperationIds)
    (.execution .phasePrerequisite)
  throwIf (plan.paths ≠ current.paths ∨ plan.checks ≠ current.checks) (.execution .scopeEscalation)
  return { (s.tick now).cleared with
    plan := some plan
    usedOperationIds := s.usedOperationIds ++ [phaseMarker current] }

/-! ## Custody -/

/-- The prefix of the entries of `usedOperationIds` that mark the selection of
    an implementing child. -/
def childPrefix : String := "custody-child:"

/-- The number of implementing children selected so far. -/
def priorChildren (ids : List String) : ℕ := (ids.filter (startsWith · childPrefix)).length

/-- Every check of the plan has passed. -/
def ExecutionState.checked (s : ExecutionState) (plan : PhaseExecutionPlan) : Prop :=
  ∀ check ∈ plan.checkNames, s.passedChecks.hasOwn check = true

instance (s : ExecutionState) (plan : PhaseExecutionPlan) : Decidable (s.checked plan) :=
  inferInstanceAs (Decidable (∀ _ ∈ _, _))

def applySelect (s : ExecutionState) (actor : ExecutionHolder) (executor : Executor)
    (holder : ExecutionHolder) (now : Timestamp) : Except WorkflowFailure ExecutionState := do
  owner s actor
  idle s
  runnable s now
  let plan ← require s.plan .workflow
  throwIf (s.recoveryPending ∨ (executor = .orchestratorDirect ∧ holder ≠ s.activeOwner) ∨
    (executor ≠ .orchestratorDirect ∧ (holder = s.activeOwner ∨ holder ∈ s.retiredOwners)))
    .workflow
  match executor with
  | .orchestratorDirect => return { s.tick now with custody := .held executor holder none }
  | .implementChild =>
    let usedOperationIds := s.usedOperationIds ++ [childPrefix ++ toString (s.sequence + 1)]
    if 0 < priorChildren s.usedOperationIds then
      throwIf (replacementLimit ≤ s.bounds.replacementsUsed) .workflow
      return { s.tick now with
        usedOperationIds
        bounds := { s.bounds with replacementsUsed := s.bounds.replacementsUsed + 1 }
        custody := .held executor holder none }
    else
      return { s.tick now with usedOperationIds, custody := .held executor holder none }
  | .reviewReserved =>
    throwIf (s.bounds.reviewCap ≤ s.bounds.reviewsUsed ∨ s.originalFailure.isSome ∨
      ¬ s.checked plan) .workflow
    return { s.tick now with
      bounds := { s.bounds with reviewsUsed := s.bounds.reviewsUsed + 1 }
      custody := .held executor holder none }

def applySettle (s : ExecutionState) (actor : ExecutionHolder)
    (inventory : ExecutionRecoveryInventory) (now : Timestamp) :
    Except WorkflowFailure ExecutionState := do
  owner s actor
  throwIf (s.custody = .idle ∨ s.operation.isSome ∨ s.custody.inFlightOperation.isSome ∨
    inventory.branch ≠ s.binding.branch ∨ inventory.headSha ≠ s.candidateSha) .workflow
  return { s.tick now with custody := .idle }

/-! ## Operations -/

/-- The state after `begin`. -/
def begun (s : ExecutionState) (operation : ExecutionOperation) (now : Timestamp) :
    ExecutionState :=
  { (if sourceMutation operation.kind then (s.tick now).cleared else s.tick now) with
    operation := some operation
    usedOperationIds := s.usedOperationIds ++ [operation.id.1]
    custody := s.custody.withOperation (some operation.id) }

def applyBegin (s : ExecutionState) (actor : ExecutionHolder) (operation : ExecutionOperation)
    (now : Timestamp) : Except WorkflowFailure ExecutionState := do
  writer s actor
  runnable s now
  let plan ← require s.plan .workflow
  throwIf (s.recoveryPending ∨ s.operation.isSome ∨ s.custody.inFlightOperation.isSome ∨
    operation.id.1 ∈ s.usedOperationIds ∨ startsWith operation.id.1 childPrefix = true ∨
    ∃ check ∈ operation.check, check.1 ∉ plan.checkNames) .workflow
  return begun s operation now

/-- The name under which the result of an operation is recorded. -/
def ExecutionOperation.resultName (o : ExecutionOperation) : String :=
  o.check.elim (operationPrefix ++ o.kind.text) (·.1)

/-- `delete` after a failure, an assignment after a success. -/
def recordResult (results : Record SourceVersion) (name : String) (evidence : SourceVersion) :
    Option ExecutionFailure → Record SourceVersion
  | some _ => results.delete name
  | none => results.set name evidence

/-- The state after `finish`.  Results never survive a source effect or a
    change of the candidate. -/
def finished (s : ExecutionState) (operation : ExecutionOperation) (evidence : SourceVersion)
    (failure : Option ExecutionFailure) (candidate : Option GitSha) (now : Timestamp) :
    ExecutionState :=
  let candidateSha := candidate.getD s.candidateSha
  let stale := sourceMutation operation.kind ∨ candidateSha ≠ s.candidateSha
  let passedChecks := if stale then ∅ else s.passedChecks.spread
  let actionPasses := if stale then ∅ else s.actionPasses.spread
  { s.tick now with
    candidateSha
    operation := none
    custody := s.custody.withOperation none
    originalFailure := s.originalFailure <|> failure
    recoveryPending := s.recoveryPending || failure.isSome
    passedChecks := if operation.check.isSome
      then recordResult passedChecks operation.resultName evidence failure else passedChecks
    actionPasses := if operation.check.isSome
      then actionPasses else recordResult actionPasses operation.resultName evidence failure
    acceptance := if failure.isSome ∨ stale then fun _ => none else s.acceptance
    bounds := match failure, s.originalFailure with
      | some f, none => { s.bounds with unresolvedFailureRef := some f.output.ref }
      | _, _ => s.bounds }

def applyFinish (s : ExecutionState) (actor : ExecutionHolder) (operationId : Text)
    (evidence : SourceVersion) (failure : Option ExecutionFailure) (candidate : Option GitSha)
    (now : Timestamp) : Except WorkflowFailure ExecutionState := do
  writer s actor
  let operation ← require s.operation .workflow
  throwIf (operation.id ≠ operationId ∨ s.custody.inFlightOperation ≠ some operationId) .workflow
  throwIf (∃ f ∈ failure, f.candidateSha ≠ s.candidateSha ∨ f.check.1 ≠ operation.resultName)
    .workflow
  return finished s operation evidence failure candidate now

/-! ## Recovery and acceptance -/

/-- Whether a recovery brings a new diagnostic or a new remedy. -/
def progress (s : ExecutionState) (failure : ExecutionFailure) (recovery : ExecutionRecovery) :
    Bool :=
  let newDiagnostic := recovery.diagnostic.any fun d =>
    d.sha256 ∉ s.diagnosticDigests ∧ d.sha256 ≠ failure.output.sha256
  let newRemedy := recovery.remedy.any fun r => r.sha256 ∉ s.remedyDigests
  (newDiagnostic || newRemedy) && recovery.rationale.isSome

def applyAttempt (s : ExecutionState) (actor : ExecutionHolder) (recovery : ExecutionRecovery)
    (now : Timestamp) : Except WorkflowFailure ExecutionState := do
  owner s actor
  idle s
  runnable s now
  let failure ← require s.originalFailure .workflow
  throwIf (recovery.originalFailure ≠ failure.output ∨ recovery.recheck.check ≠ failure.check ∨
    recovery.recheck.candidateSha ≠ s.candidateSha) .workflow
  return { s.tick now with
    recoveryPending := false
    bounds := { s.bounds with
      consecutiveNoProgress :=
        if progress s failure recovery then 0 else s.bounds.consecutiveNoProgress + 1 }
    diagnosticDigests := s.diagnosticDigests ++ (recovery.diagnostic.map (·.sha256)).toList
    remedyDigests := s.remedyDigests ++ (recovery.remedy.map (·.sha256)).toList }

/-- `state.passedChecks[check] ?? state.actionPasses[check]`.  A name that only
    `Object.prototype` defines reads as absent: what it holds is no evidence. -/
def ExecutionState.passOf (s : ExecutionState) (check : String) : Option SourceVersion :=
  s.passedChecks.get? check <|> s.actionPasses.get? check

def applyResolve (s : ExecutionState) (actor : ExecutionHolder) (evidence : SourceVersion)
    (now : Timestamp) : Except WorkflowFailure ExecutionState := do
  owner s actor
  idle s
  let failure ← require s.originalFailure .workflow
  throwIf (s.passOf failure.check.1 ≠ some evidence) .workflow
  return { s.tick now with
    originalFailure := none
    recoveryPending := false
    bounds := { s.bounds with consecutiveNoProgress := 0, unresolvedFailureRef := none } }

def applyCandidate (s : ExecutionState) (actor : ExecutionHolder) (candidateSha : GitSha)
    (now : Timestamp) : Except WorkflowFailure ExecutionState := do
  owner s actor
  idle s
  runnable s now
  throwIf (candidateSha = s.candidateSha) .workflow
  return { (s.tick now).cleared with candidateSha }

def applyAccept (s : ExecutionState) (actor : ExecutionHolder) (kind : AcceptanceKind)
    (evidence : SourceVersion) (now : Timestamp) : Except WorkflowFailure ExecutionState := do
  owner s actor
  idle s
  runnable s now
  let plan ← require s.plan .workflow
  throwIf (s.originalFailure.isSome ∨ ¬ s.checked plan ∨ (s.acceptance kind).isSome) .workflow
  throwIf ((kind = .uat ∨ kind = .integration) ∧
    (s.acceptance .review = none ∨ s.acceptance .ci = none)) .workflow
  throwIf (kind = .integration ∧ s.acceptance .uat = none) .workflow
  return { s.tick now with acceptance := Function.update s.acceptance kind (some evidence) }

/-! ## The transition -/

def ExecutionCommand.isRestart : ExecutionCommand → Bool
  | .restart .restart _ _ => true
  | _ => false

def ExecutionCommand.isRestartIntent : ExecutionCommand → Bool
  | .restart .restartIntent _ _ => true
  | _ => false

/-- `transition`. -/
def transition (s : ExecutionState) (actor : ExecutionHolder) (command : ExecutionCommand)
    (now : Timestamp) : Except WorkflowFailure ExecutionState := do
  throwIf (now.ms < s.recordedAt.ms) .workflow
  throwIf (s.pendingRestart.isSome ∧ ¬ command.isRestart) .workflow
  throwIf (s.restartLaunch.isSome ∧ s.pendingRestart = none ∧ ¬ command.isRestartIntent) .workflow
  match command with
  | .restart action previousOwner evidence => applyRestart s actor action previousOwner evidence now
  | .plan plan => applyPlan s actor plan now
  | .advance plan _ => applyAdvance s actor plan now
  | .select executor holder _ => applySelect s actor executor holder now
  | .begin operation => applyBegin s actor operation now
  | .finish operationId evidence failure candidate =>
    applyFinish s actor operationId evidence failure candidate now
  | .settle _ inventory => applySettle s actor inventory now
  | .attempt recovery => applyAttempt s actor recovery now
  | .resolve evidence => applyResolve s actor evidence now
  | .candidate candidateSha _ => applyCandidate s actor candidateSha now
  | .accept kind evidence => applyAccept s actor kind evidence now

/-! ## What `begin` leaves alone -/

section
variable {s : ExecutionState} {o : ExecutionOperation} {now : Timestamp}

@[simp] theorem begun_activeOwner : (begun s o now).activeOwner = s.activeOwner := by
  unfold begun; split <;> rfl

@[simp] theorem begun_retiredOwners : (begun s o now).retiredOwners = s.retiredOwners := by
  unfold begun; split <;> rfl

@[simp] theorem begun_pendingRestart : (begun s o now).pendingRestart = s.pendingRestart := by
  unfold begun; split <;> rfl

@[simp] theorem begun_restartLaunch : (begun s o now).restartLaunch = s.restartLaunch := by
  unfold begun; split <;> rfl

@[simp] theorem begun_sequence : (begun s o now).sequence = s.sequence + 1 := by
  unfold begun; split <;> rfl

@[simp] theorem begun_plan : (begun s o now).plan = s.plan := by
  unfold begun; split <;> rfl

@[simp] theorem begun_bounds : (begun s o now).bounds = s.bounds := by
  unfold begun; split <;> rfl

@[simp] theorem begun_candidateSha : (begun s o now).candidateSha = s.candidateSha := by
  unfold begun; split <;> rfl

@[simp] theorem begun_originalFailure : (begun s o now).originalFailure = s.originalFailure := by
  unfold begun; split <;> rfl

end

end PaPlatform.Custody
