/-
  `claimReviewAuthorization` of `registry/index.ts`: one review authorization and
  the active slot of a ticket and a branch are consumed in one transaction.
-/
import PaPlatform.Registry.Operations

namespace PaPlatform.Registry

open Js Guard

/-- What `parseReviewObjective` reads in a versioned objective. -/
structure ReviewObjective where
  ticket : String
  branch : String
  featureSha : String
  matrixSource : String
  matrixAuthoritySha256 : String
  matrixApprovalEvidence : String
  reviewAuthorizationId : String
  deriving DecidableEq

/-- `ReviewAuthorizationClaimInput`. -/
structure ReviewAuthorizationClaimInput where
  deploymentId : String
  authorizationId : String
  ticketId : String
  branch : String
  featureSha : String
  matrixSource : String
  matrixAuthoritySha256 : String
  matrixApprovalEvidence : String
  objective : String
  claimedAt : Option String

/-! ## Validation -/

/-- `isExactAuthorityValue`. -/
def isExactAuthorityValue (s : String) : Bool :=
  !s.isEmpty && utf16Length s ≤ 16384 && s.toList.head? != some ' ' && s.toList.getLast? != some ' ' &&
    s.toList.all fun c => (!isSpace c || c == ' ') && 0x20 ≤ c.toNat && c.toNat != 0x7f

/-- The groups of hexadecimal digits of a version 4 UUID. -/
def uuidOk (s : String) : Bool :=
  match split s '-' with
  | [a, b, c, d, e] =>
    hexOk 8 a && hexOk 4 b && hexOk 4 c && c.toList.head? == some '4' && hexOk 4 d &&
      d.toList.head?.any (fun x => x == '8' || x == '9' || x == 'a' || x == 'b') && hexOk 12 e
  | _ => false

/-- `/^review-auth:[0-9a-f]{8}-…$/`. -/
def authorizationIdOk (s : String) : Bool :=
  match split s ':' with
  | ["review-auth", uuid] => uuidOk uuid
  | _ => false

/-- `objective.trimStart().startsWith("{")`. -/
def isVersioned (objective : String) : Bool :=
  (objective.toList.dropWhile isSpace).head? == some (Char.ofNat 123)

section
variable (parseReviewObjective : String → Option ReviewObjective)

/-- `validateReviewClaimInput`. -/
def validateReviewClaimInput (input : ReviewAuthorizationClaimInput) : Result Unit := do
  throwIf (¬ (isExactAuthorityValue input.deploymentId = true ∧
      isExactAuthorityValue input.authorizationId = true ∧
      isExactAuthorityValue input.ticketId = true ∧ isExactAuthorityValue input.branch = true ∧
      isExactAuthorityValue input.featureSha = true ∧
      isExactAuthorityValue input.matrixSource = true ∧
      isExactAuthorityValue input.matrixAuthoritySha256 = true ∧
      isExactAuthorityValue input.matrixApprovalEvidence = true ∧
      authorizationIdOk input.authorizationId = true ∧ isCanonicalTicketId input.ticketId = true ∧
      hexOk 40 input.featureSha = true ∧ hexOk 64 input.matrixAuthoritySha256 = true ∧
      input.objective ≠ "" ∧ input.objective.utf8ByteSize ≤ 65536 ∧
      (input.objective.toList.contains '\r' = false ∨ isVersioned input.objective = true)))
    (.claim .invalidBinding)
  doIf (isVersioned input.objective = true) do
    let o ← require (parseReviewObjective input.objective) (.claim .invalidBinding)
    throwIf (o ≠ ⟨input.ticketId, input.branch, input.featureSha, input.matrixSource,
      input.matrixAuthoritySha256, input.matrixApprovalEvidence, input.authorizationId⟩)
      (.claim .invalidBinding)

/-- `exactObjectiveField(objective, "Branch")`. -/
def objectiveBranch (objective : Option String) : Option String := do
  let text ← objective
  if isVersioned text then return (← parseReviewObjective text).branch
  else if text.toList.contains '\r' then none
  else
    match (split text '\n').filter fun line => startsWith line "Branch: " with
    | [line] =>
      let value := String.ofList (line.toList.drop 8)
      if isExactAuthorityValue value then some value else none
    | _ => none

/-! ## The claim table -/

/-- Whether a status is `success`, `partial`, `failed` or `crashed`. -/
def DeploymentState.isOver : DeploymentState → Bool
  | .running | .unknown => false
  | _ => true

/-- Whether both the projection and the log of `d` are terminal. -/
def Database.durablyTerminal (db : Database) (d : String) : Bool :=
  (db.deployments d).any (fun row => row.status.isOver) && !(db.terminalRows d).isEmpty

/-- `reconcileDurablyTerminalReviewClaims`. -/
def Database.reconcileClaims (db : Database) (ticketId branch : String) : Database :=
  { db with
    claims := db.claims.map fun c =>
      if c.ticketId = ticketId ∧ c.branch = branch ∧ c.active = true ∧
        db.durablyTerminal c.deploymentId = true then { c with active := false } else c }

/-- The objectives of the other running reviews of a ticket. -/
def legacyRunningReviews (db : Database) (ticketId d : String) : List (Option String) :=
  (db.events.filter fun e =>
    e.row.event = .started && e.row.team = "requirements" &&
      e.row.launch.mode = some "review-auto" && e.row.ticketId = some ticketId &&
      e.row.deploymentId ≠ d &&
      (db.deployments e.row.deploymentId).any fun row => row.status = .running &&
        row.team = "requirements" && row.launch.mode = some "review-auto" &&
        row.ticketId = some ticketId).map (·.row.launch.objective)

/-- The claim that `input` makes. -/
def newClaim (input : ReviewAuthorizationClaimInput) (claimedAt : String) : ReviewAuthorizationClaim where
  deploymentId := input.deploymentId
  authorizationId := input.authorizationId
  ticketId := input.ticketId
  branch := input.branch
  featureSha := input.featureSha
  matrixSource := input.matrixSource
  matrixAuthoritySha256 := input.matrixAuthoritySha256
  matrixApprovalEvidence := input.matrixApprovalEvidence
  claimedAt := claimedAt
  active := true

/-- `claimReviewAuthorization`. -/
def claimReviewAuthorization (dates : DateReader) (db : Database) (env : Environment)
    (input : ReviewAuthorizationClaimInput) : Result (Database × ReviewAuthorizationClaim) := do
  validateReviewClaimInput parseReviewObjective input
  let projection ← require (db.deployments input.deploymentId) (.claim .deploymentNotRunning)
  let start ← require (db.startOf input.deploymentId) (.claim .deploymentNotRunning)
  throwIf (projection.status ≠ .running) (.claim .deploymentNotRunning)
  throwIf (start.team ≠ "requirements" ∨ start.launch.mode ≠ some "review-auto" ∨
      start.launch.runtime ≠ some "pi" ∨ start.launch.binary ≠ some "ppa" ∨
      start.ticketId ≠ some input.ticketId ∨ projection.ticketId ≠ some input.ticketId ∨
      start.launch.objective ≠ some input.objective ∨
      projection.launch.objective ≠ some input.objective) (.claim .launchIdentityMismatch)
  throwIf (∃ c ∈ db.claims, c.authorizationId = input.authorizationId)
    (.claim .authorizationConsumed)
  throwIf (∃ c ∈ db.claims, c.deploymentId = input.deploymentId) (.claim .deploymentAlreadyClaimed)
  let db := db.reconcileClaims input.ticketId input.branch
  throwIf (∃ c ∈ db.claims, c.ticketId = input.ticketId ∧ c.branch = input.branch ∧ c.active = true)
    (.claim .activeReview)
  throwIf (∃ o ∈ legacyRunningReviews db input.ticketId input.deploymentId,
      (objectiveBranch parseReviewObjective o).all (· == input.branch) = true)
    (.claim .activeReview)
  let claimedAt ← normalizeTimestamp dates (input.claimedAt.getD env.now)
  let claim := newClaim input claimedAt
  let db := { db with claims := db.claims ++ [claim] }
  throwIf (db.claims.find? (fun c => c.authorizationId = input.authorizationId) ≠ some claim)
    (.message "Review authorization claim persistence verification failed")
  return (db, claim)

end

/-! ## Calls -/

/-- The operations that write the registry. -/
inductive Operation where
  | claim (input : ReviewAuthorizationClaimInput)
  | append (event : RegistryEvent)
  | reconcileTerminal (event : RegistryEvent)
  | reconcileTerminalIfAbsent (event : RegistryEvent)
  | associate (input : AssociateDeploymentTicketInput)
  | advanceParent (options : AdvanceParentAuthoritySnapshotOptions)
  | advanceDirect (options : AdvanceDirectAuthoritySnapshotOptions)

/-- An operation, with what it reads outside the database. -/
structure Call where
  operation : Operation
  env : Environment

/-- A call, as one transaction. -/
def perform (dates : DateReader) (parseReviewObjective : String → Option ReviewObjective)
    (db : Database) (call : Call) : Result Database :=
  match call.operation with
  | .claim input =>
    (claimReviewAuthorization parseReviewObjective dates db call.env input).map (·.1)
  | .append e => appendRegistryEvent dates db e
  | .reconcileTerminal e => (reconcileTerminalRegistryEvent dates db e).map (·.1)
  | .reconcileTerminalIfAbsent e => (reconcileTerminalRegistryEventIfAbsent dates db e).map (·.1)
  | .associate input => (associateDeploymentTicket dates db call.env input).map (·.1)
  | .advanceParent options => advanceParentAuthoritySnapshot dates db call.env options
  | .advanceDirect options => advanceDirectAuthoritySnapshot dates db call.env options

end PaPlatform.Registry
