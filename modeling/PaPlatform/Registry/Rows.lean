/-
  The rows of the registry: `registry_events`, `deployments` and
  `review_authorization_claims` of `registry/db.ts`, with the conversions of
  `registry/index.ts`.

  A NULL column and an undefined property are both `none`.  A column of JSON
  text whose contents nothing reads is a string; `review_checkout` is kept as
  the value of its text.
-/
import PaPlatform.Deploy.Correlation

namespace PaPlatform.Registry

open Js Guard

/-! ## Dates -/

/-- `parseTimestamp(value).toISOString()` and `parseTimestamp(value).getTime()`.
    A text that `toISOString` wrote is read as the date that it was. -/
structure DateReader where
  normalize : String → Option String
  time : String → ℤ
  normalize_normalize : ∀ {t u}, normalize t = some u → normalize u = some u

/-- The reader of the texts that `toISOString` writes. -/
def isoDates : DateReader where
  normalize t := (dateParse t).bind fun ms => if toISOString ms = t then some t else none
  time t := (dateParse t).getD 0
  normalize_normalize {t u} h := by
    obtain ⟨ms, hms, h⟩ := Option.bind_eq_some_iff.1 h
    split_ifs at h with ht
    cases h
    rw [hms, Option.bind_some, if_pos ht]

/-! ## Errors -/

inductive ReviewClaimErrorCode where
  | invalidBinding
  | deploymentNotRunning
  | launchIdentityMismatch
  | authorizationConsumed
  | deploymentAlreadyClaimed
  | activeReview
  deriving DecidableEq, Repr

inductive TicketAssociationErrorCode where
  | deploymentNotFound
  | deploymentNotRunning
  | repositoryIdentityMissing
  | repositoryUnregistered
  | invalidTicketId
  | ticketNotFound
  | ticketProjectMismatch
  | staleExpectation
  | protectedBuilderReplacement
  | invalidActor
  | invalidReason
  deriving DecidableEq, Repr

/-- What the operations throw: `Error(message)`, the `reason` of
    `correlationConflictDiagnostic`, of `startConflictDiagnostic` or of the
    correlation validator, a `RangeError` of a timestamp, or a coded error. -/
inductive RegistryError where
  | message (text : String)
  | correlationConflict (reason : String)
  | startConflict (reason : String)
  | correlation (reason : String)
  | timestamp (text : String)
  | claim (code : ReviewClaimErrorCode)
  | association (code : TicketAssociationErrorCode)
  deriving DecidableEq, Repr

abbrev Result := Except RegistryError

/-- `normalizeTimestamp`. -/
def normalizeTimestamp (dates : DateReader) (t : String) : Result String :=
  require (dates.normalize t) (.timestamp t)

/-! ## Events -/

inductive EventKind where
  | started
  | pid
  | completed
  | crashed
  | amended
  | updated
  | ticketAssociated
  deriving DecidableEq, Repr

/-- `event IN ('completed', 'crashed')`. -/
def EventKind.isTerminal : EventKind → Bool
  | completed | crashed => true
  | _ => false

/-- The status of a completed event. -/
inductive CompletionStatus where
  | success
  | partly
  | failed
  deriving DecidableEq, Repr

inductive RepositorySlot where
  | orchestrator
  | implement
  deriving DecidableEq, Repr

/-- The columns of a launch. -/
structure Launch where
  mode : Option String
  runtime : Option String
  binary : Option String
  objective : Option String
  repo : Option String
  repoRoot : Option String
  worktreeRoot : Option String
  ticketWorktreeSelection : Option String
  repositorySlot : Option RepositorySlot
  provider : Option String
  primer : Option String
  agents : Option String
  models : Option String
  resumedFromDeploymentId : Option String
  effectiveTimeoutSeconds : Option ℤ
  rogueOne : Bool
  invocationChannel : Option String
  deriving DecidableEq

def Launch.empty : Launch :=
  ⟨none, none, none, none, none, none, none, none, none, none, none, none, none, none, none, false,
    none⟩

/-- The columns of an outcome. -/
structure Outcome where
  summary : Option String
  logFile : Option String
  rating : Option String
  error : Option String
  exitCode : Option ℤ
  fallback : Bool
  deriving DecidableEq

def Outcome.empty : Outcome := ⟨none, none, none, none, none, false⟩

/-- `RegistryEvent`, and a row of `registry_events` without its id. -/
structure RegistryEvent where
  deploymentId : String
  team : String
  event : EventKind
  timestamp : String
  pid : Option ℤ
  status : Option CompletionStatus
  ticketId : Option String
  previousTicketId : Option String
  actor : Option String
  reason : Option String
  note : Option String
  launch : Launch
  outcome : Outcome
  correlation : Correlation

/-- An event with these four columns and no others. -/
def RegistryEvent.bare (deploymentId team : String) (event : EventKind) (timestamp : String) :
    RegistryEvent :=
  ⟨deploymentId, team, event, timestamp, none, none, none, none, none, none, none, .empty, .empty,
    .empty⟩

/-- `toRow`. -/
def toRow (dates : DateReader) (e : RegistryEvent) : Result RegistryEvent := do
  let timestamp ← normalizeTimestamp dates e.timestamp
  return { e with timestamp }

/-- `optionalString`. -/
def optionalString (s : Option String) : Option String := s.filter (· ≠ "")

def Launch.fromRow (l : Launch) : Launch where
  mode := optionalString l.mode
  runtime := l.runtime
  binary := optionalString l.binary
  objective := optionalString l.objective
  repo := optionalString l.repo
  repoRoot := optionalString l.repoRoot
  worktreeRoot := optionalString l.worktreeRoot
  ticketWorktreeSelection := l.ticketWorktreeSelection
  repositorySlot := l.repositorySlot
  provider := optionalString l.provider
  primer := optionalString l.primer
  agents := optionalString l.agents
  models := optionalString l.models
  resumedFromDeploymentId := optionalString l.resumedFromDeploymentId
  effectiveTimeoutSeconds := l.effectiveTimeoutSeconds
  rogueOne := l.rogueOne
  invocationChannel := l.invocationChannel

def Outcome.fromRow (o : Outcome) : Outcome where
  summary := optionalString o.summary
  logFile := optionalString o.logFile
  rating := optionalString o.rating
  error := optionalString o.error
  exitCode := o.exitCode
  fallback := o.fallback

/-- `correlationFromRow`: columns that the validator rejects are all dropped. -/
def correlationFromRow (c : Correlation) (ticketId worktreeRoot : Option String) : Correlation :=
  match validateCorrelation c
    ⟨ticketId, worktreeRoot, c.treehousePath.isSome && worktreeRoot.isSome⟩ with
  | .ok c' => c'
  | .error _ => .empty

/-- `fromRow`. -/
def fromRow (dates : DateReader) (r : RegistryEvent) : Result RegistryEvent := do
  let timestamp ← normalizeTimestamp dates r.timestamp
  let associated := r.event = .ticketAssociated
  return { r with
    timestamp
    ticketId := optionalString r.ticketId
    previousTicketId := if associated then optionalString r.previousTicketId else none
    actor := if associated then optionalString r.actor else none
    reason := if associated then optionalString r.reason else none
    note := optionalString r.note
    launch := r.launch.fromRow
    outcome := r.outcome.fromRow
    correlation := correlationFromRow r.correlation r.ticketId r.launch.worktreeRoot }

/-! ## Deployments -/

inductive DeploymentState where
  | running
  | success
  | partly
  | failed
  | crashed
  | unknown
  deriving DecidableEq, Repr

/-- The status of a completed deployment. -/
def CompletionStatus.state : CompletionStatus → DeploymentState
  | success => .success
  | partly => .partly
  | failed => .failed

/-- A row of `deployments`, without its key. -/
structure Deployment where
  team : String
  status : DeploymentState
  startedAt : Option String
  completedAt : Option String
  pid : Option ℤ
  ticketId : Option String
  launch : Launch
  outcome : Outcome
  correlation : Correlation

/-- A row with the defaults of the table. -/
def Deployment.fresh (team : String) : Deployment :=
  ⟨team, .unknown, none, none, none, none, .empty, .empty, .empty⟩

/-- `DeploymentStatus`, as `deploymentFromRow` returns it. -/
structure DeploymentStatus where
  deployId : String
  row : Deployment

/-- `deploymentFromRow`. -/
def deploymentFromRow (dates : DateReader) (deployId : String) (r : Deployment) :
    Result DeploymentStatus := do
  let startedAt ← normalizeTimestamp dates (r.startedAt.getD "")
  let completedAt ← (optionalString r.completedAt).elim (.ok none) fun t =>
    (normalizeTimestamp dates t).map some
  return ⟨deployId, { r with
    startedAt := some startedAt
    completedAt
    ticketId := optionalString r.ticketId
    launch := r.launch.fromRow
    outcome := r.outcome.fromRow
    correlation := correlationFromRow r.correlation r.ticketId r.launch.worktreeRoot }⟩

/-! ## Claims -/

/-- A row of `review_authorization_claims`. -/
structure ReviewAuthorizationClaim where
  deploymentId : String
  authorizationId : String
  ticketId : String
  branch : String
  featureSha : String
  matrixSource : String
  matrixAuthoritySha256 : String
  matrixApprovalEvidence : String
  claimedAt : String
  active : Bool
  deriving DecidableEq

/-! ## The database -/

/-- A row of `registry_events`. -/
structure StoredEvent where
  id : ℕ
  row : RegistryEvent

/-- The tables, with the next `AUTOINCREMENT` id.  Events are in the order of
    their ids. -/
structure Database where
  events : List StoredEvent
  nextId : ℕ
  deployments : String → Option Deployment
  claims : List ReviewAuthorizationClaim

/-- The tables after the migration of a new database. -/
def Database.empty : Database := ⟨[], 1, fun _ => none, []⟩

end PaPlatform.Registry
