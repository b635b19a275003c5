/-
  The operations of `registry/index.ts` that write events, deployments and
  claims.

  An operation is a transaction: it returns the next database or throws, and
  then the database is what it was.  `insert`, `project` and `dropTerminals` are
  the statements that the transactions share.
-/
import PaPlatform.Registry.Rows

namespace PaPlatform.Registry

open Js Guard

/-! ## Statements -/

namespace Database

/-- `SELECT * FROM registry_events WHERE deployment_id = ? ORDER BY id`. -/
def eventsOf (db : Database) (d : String) : List StoredEvent :=
  db.events.filter fun e => e.row.deploymentId = d

/-- The first `started` row of `d`. -/
def startOf (db : Database) (d : String) : Option RegistryEvent :=
  ((db.eventsOf d).find? fun e => e.row.event = .started).map (·.row)

/-- `terminalRows`. -/
def terminalRows (db : Database) (d : String) : List StoredEvent :=
  (db.eventsOf d).filter fun e => e.row.event.isTerminal

/-- `INSERT INTO registry_events`. -/
def insert (db : Database) (row : RegistryEvent) : Database :=
  { db with events := db.events ++ [⟨db.nextId, row⟩], nextId := db.nextId + 1 }

/-- `DELETE FROM registry_events WHERE deployment_id = ? AND event IN ('completed', 'crashed')`. -/
def dropTerminals (db : Database) (d : String) : Database :=
  { db with events := db.events.filter fun e => ¬ (e.row.deploymentId = d ∧ e.row.event.isTerminal) }

/-- `deactivateReviewAuthorizationClaim`. -/
def release (db : Database) (d : String) : Database :=
  { db with claims := db.claims.map fun c => if c.deploymentId = d then { c with active := false } else c }

/-- An `UPDATE` or `INSERT` of the row of `d`. -/
def setDeployment (db : Database) (d : String) (row : Option Deployment) : Database :=
  { db with deployments := Function.update db.deployments d row }

end Database

/-- `branch_… = COALESCE(@branch_…, branch_…)`, for the three branch columns. -/
def Correlation.coalesceBranch (old new : Correlation) : Correlation :=
  { old with
    branchState := new.branchState.or old.branchState
    branchBaseSha := new.branchBaseSha.or old.branchBaseSha
    branchHeadSha := new.branchHeadSha.or old.branchHeadSha }

/-- The row of a deployment after a `started` event. -/
def Deployment.launched (old : Deployment) (row : RegistryEvent) : Deployment :=
  { old with
    status := .running
    startedAt := some row.timestamp
    pid := row.pid
    ticketId := row.ticketId
    launch := row.launch
    correlation := row.correlation }

/-- The row of a deployment after an event other than `started`. -/
def Deployment.observe (old : Deployment) (row : RegistryEvent) : Deployment :=
  match row.event with
  | .pid => { old with pid := row.pid }
  | .updated => { old with correlation := Correlation.coalesceBranch old.correlation row.correlation }
  | .completed =>
    { old with
      status := (row.status.getD .success).state
      completedAt := some row.timestamp
      outcome := { row.outcome with error := none }
      correlation := Correlation.coalesceBranch old.correlation row.correlation }
  | .crashed =>
    { old with
      status := .crashed
      completedAt := some row.timestamp
      outcome := ⟨none, none, none, row.outcome.error, row.outcome.exitCode, false⟩
      correlation := Correlation.coalesceBranch old.correlation row.correlation }
  | _ => old

/-- The statements of `upsertDeployment`. -/
def Database.project (db : Database) (row : RegistryEvent) : Database :=
  let d := row.deploymentId
  if row.event = .started then
    db.setDeployment d (some (((db.deployments d).getD (.fresh row.team)).launched row))
  else
    let db' := db.setDeployment d ((db.deployments d).map (·.observe row))
    if row.event.isTerminal then db'.release d else db'

section
variable (dates : DateReader)

/-- `insertRegistryEvent`. -/
def insertRegistryEvent (db : Database) (e : RegistryEvent) : Result Database := do
  let row ← toRow dates e
  return db.insert row

/-- `upsertDeployment`. -/
def upsertDeployment (db : Database) (e : RegistryEvent) : Result Database := do
  let row ← toRow dates e
  return db.project row

/-! ## Validation and identity -/

/-- `validateRegistryEvent`. -/
def validateRegistryEvent (e : RegistryEvent) : Result Unit := do
  throwIf (e.deploymentId = "") (.message "Registry event missing required field: deployment_id")
  throwIf (e.team = "") (.message "Registry event missing required field: team")
  throwIf (e.timestamp = "") (.message "Registry event missing required field: timestamp")
  doIf (e.correlation.reviewCheckout.isSome = true ∧ e.event = .started) do
    let entries := (e.correlation.reviewCheckout.getD .null).entries
    let matches_ (key : String) (column : Option String) : Bool :=
      match entries.lookup key, column with
      | some (.str s), some t => s == t
      | none, none => true
      | _, _ => false
    throwIf (e.team ≠ "requirements" ∨ e.launch.mode ≠ some "review-auto" ∨
        e.launch.runtime ≠ some "pi" ∨ matches_ "worktreeRoot" e.launch.repo = false ∨
        matches_ "worktreeRoot" e.launch.worktreeRoot = false ∨
        matches_ "repoRoot" e.launch.repoRoot = false ∨ matches_ "ticket" e.ticketId = false)
      (.correlationConflict "review candidate must match the exact Pi review start roots and ticket")
  let _ ← (validateCorrelation e.correlation
    ⟨e.ticketId, e.launch.worktreeRoot, e.event = .started && e.correlation.hasBinding⟩).mapError
      .correlation
  return

/-- The text of a `review_checkout` column. -/
def checkoutText (c : Correlation) : Option String := c.reviewCheckout.map Json.stringify

/-- Whether two rows agree in the correlation columns. -/
def Correlation.sameColumns (c c' : Correlation) : Prop :=
  checkoutText c = checkoutText c' ∧ c.parentDeploymentId = c'.parentDeploymentId ∧
    c.builderAuthority = c'.builderAuthority ∧ c.treehousePath = c'.treehousePath ∧
    c.treehouseLeaseId = c'.treehouseLeaseId ∧ c.treehouseLeaseHolder = c'.treehouseLeaseHolder ∧
    c.branchState = c'.branchState ∧ c.branchBaseSha = c'.branchBaseSha ∧
    c.branchHeadSha = c'.branchHeadSha ∧ c.ticketSlotId = c'.ticketSlotId ∧
    c.repositoryPermit = c'.repositoryPermit

instance (c c' : Correlation) : Decidable (Correlation.sameColumns c c') := by
  unfold Correlation.sameColumns; infer_instance

/-- `START_IDENTITY_COLUMNS` agree. -/
def sameStart (r r' : RegistryEvent) : Prop :=
  r.team = r'.team ∧ r.pid = r'.pid ∧ r.status = r'.status ∧ r.ticketId = r'.ticketId ∧
    r.note = r'.note ∧ r.launch = r'.launch ∧ r.outcome = r'.outcome ∧
    Correlation.sameColumns r.correlation r'.correlation

instance (r r' : RegistryEvent) : Decidable (sameStart r r') := by
  unfold sameStart; infer_instance

/-- `assertExactStartedReplay`. -/
def assertExactStartedReplay (existing requested : RegistryEvent) : Result Unit := do
  let row ← toRow dates requested
  throwIf (¬ sameStart existing row) (.startConflict
    "the deployment ID already has different immutable start identity or correlation bindings")

/-- A column is absent, or as in the immutable start. -/
def unchanged {α : Type} [DecidableEq α] (requested existing : Option α) : Bool :=
  requested = none || requested = existing

/-- `IMMUTABLE_CORRELATION_FIELDS`, each with whether it is absent or as in the
    immutable start. -/
def immutableCorrelationFields (requested existing : RegistryEvent) : List (String × Bool) :=
  let r := requested.correlation
  let e := existing.correlation
  [("review_checkout", unchanged (checkoutText r) (checkoutText e)),
    ("parent_deployment_id", unchanged r.parentDeploymentId e.parentDeploymentId),
    ("builder_authority", unchanged r.builderAuthority e.builderAuthority),
    ("treehouse_path", unchanged r.treehousePath e.treehousePath),
    ("treehouse_lease_id", unchanged r.treehouseLeaseId e.treehouseLeaseId),
    ("treehouse_lease_holder", unchanged r.treehouseLeaseHolder e.treehouseLeaseHolder),
    ("branch_state", unchanged r.branchState e.branchState),
    ("branch_base_sha", unchanged r.branchBaseSha e.branchBaseSha),
    ("ticket_slot_id", unchanged r.ticketSlotId e.ticketSlotId),
    ("repository_permit", unchanged r.repositoryPermit e.repositoryPermit),
    ("ticket_worktree_selection",
      unchanged requested.launch.ticketWorktreeSelection existing.launch.ticketWorktreeSelection)]

/-- The first field that is not as in the immutable start is an error. -/
def assertKeepsCorrelation (requested existing : RegistryEvent) : Result Unit :=
  ((immutableCorrelationFields requested existing).find? fun f => !f.2).elim (.ok ()) fun f =>
    .error (.correlationConflict ("terminal " ++ f.1 ++ " does not match immutable start evidence"))

/-- `assertEventMatchesStartedIdentity`. -/
def assertEventMatchesStartedIdentity (db : Database) (requested : RegistryEvent) : Result Unit :=
  match db.startOf requested.deploymentId with
  | none =>
    throwIf (requested.correlation.hasAny = true) (.correlationConflict
      "correlation evidence cannot be added without immutable start evidence")
  | some existing => do
    throwIf (existing.team ≠ requested.team)
      (.correlationConflict "the lifecycle event team does not match immutable start identity")
    let row ← toRow dates requested
    assertKeepsCorrelation row existing
    throwIf (requested.correlation.branchHeadSha.isSome = true ∧ existing.correlation.branchState = none)
      (.correlationConflict "terminal branch head cannot invent correlation absent from start evidence")

/-! ## Appending -/

/-- `appendRegistryEvent`. -/
def appendRegistryEvent (db : Database) (e : RegistryEvent) : Result Database := do
  throwIf (e.event = .ticketAssociated)
    (.message "Use associateDeploymentTicket for ticket-associated events")
  validateRegistryEvent e
  if e.event = .started then
    match db.startOf e.deploymentId with
    | some existing => do
      assertExactStartedReplay dates existing e
      return db
    | none => do
      throwIf ((db.deployments e.deploymentId).isSome = true) (.startConflict
        "a deployment projection exists without matching immutable start evidence")
      let db ← insertRegistryEvent dates db e
      upsertDeployment dates db e
  else do
    assertEventMatchesStartedIdentity dates db e
    let db ← insertRegistryEvent dates db e
    upsertDeployment dates db e

/-! ## Terminal events -/

/-- `isFailedTerminal`. -/
def isFailedTerminal (e : RegistryEvent) : Bool :=
  e.event = .crashed || e.status ≠ some .success || e.outcome.exitCode.getD 0 ≠ 0

/-- A value of `requested` that is present and not that of `existing`. -/
def differs {α : Type} [DecidableEq α] (requested existing : Option α) : Bool :=
  requested.isSome && requested ≠ existing

/-- Whether a correlation field of `requested` is not that of `existing`.  Review
    checkouts are compared as objects, and that of `existing` has just been parsed:
    they are never identical. -/
def changesCorrelation (existing requested : Correlation) : Bool :=
  requested.reviewCheckout.isSome ||
    differs requested.parentDeploymentId existing.parentDeploymentId ||
    differs requested.builderAuthority existing.builderAuthority ||
    differs requested.treehousePath existing.treehousePath ||
    differs requested.treehouseLeaseId existing.treehouseLeaseId ||
    differs requested.treehouseLeaseHolder existing.treehouseLeaseHolder ||
    differs requested.branchState existing.branchState ||
    differs requested.branchBaseSha existing.branchBaseSha ||
    differs requested.branchHeadSha existing.branchHeadSha ||
    differs requested.ticketSlotId existing.ticketSlotId ||
    differs requested.repositoryPermit existing.repositoryPermit

/-- The fields of `requested` over those of `existing`. -/
def mergeCorrelation (existing requested : Correlation) : Correlation where
  reviewCheckout := requested.reviewCheckout.or existing.reviewCheckout
  parentDeploymentId := requested.parentDeploymentId.or existing.parentDeploymentId
  builderAuthority := requested.builderAuthority.or existing.builderAuthority
  treehousePath := requested.treehousePath.or existing.treehousePath
  treehouseLeaseId := requested.treehouseLeaseId.or existing.treehouseLeaseId
  treehouseLeaseHolder := requested.treehouseLeaseHolder.or existing.treehouseLeaseHolder
  branchState := requested.branchState.or existing.branchState
  branchBaseSha := requested.branchBaseSha.or existing.branchBaseSha
  branchHeadSha := requested.branchHeadSha.or existing.branchHeadSha
  ticketSlotId := requested.ticketSlotId.or existing.ticketSlotId
  repositoryPermit := requested.repositoryPermit.or existing.repositoryPermit

/-- `withTerminalCorrelation`. -/
def withTerminalCorrelation (existing requested : RegistryEvent) : RegistryEvent :=
  if changesCorrelation existing.correlation requested.correlation then
    { existing with correlation := mergeCorrelation existing.correlation requested.correlation }
  else existing

/-- `terminalRows(db, d).map(fromRow)`. -/
def storedTerminals (db : Database) (d : String) : Result (List RegistryEvent) :=
  (db.terminalRows d).mapM fun e => fromRow dates e.row

/-- `existingRows.find(isFailedTerminal) ?? existingRows[0]`. -/
def existingTerminal (rows : List RegistryEvent) : Option RegistryEvent :=
  (rows.find? fun e => isFailedTerminal e).or rows.head?

/-- `DELETE` the terminal rows, then insert and project `e`. -/
def replaceTerminals (db : Database) (d : String) (e : RegistryEvent) : Result Database := do
  let db ← insertRegistryEvent dates (db.dropTerminals d) e
  upsertDeployment dates db e

def checkTerminal (requested : RegistryEvent) : Result Unit := do
  validateRegistryEvent requested
  throwIf (requested.event.isTerminal = false)
    (.message "Terminal reconciliation requires a completed or crashed event")

/-- `ReconcileTerminalRegistryEventResult`. -/
structure Reconciled where
  event : RegistryEvent
  retainedExisting : Bool

/-- `reconcileTerminalRegistryEvent`. -/
def reconcileTerminalRegistryEvent (db : Database) (requested : RegistryEvent) :
    Result (Database × Reconciled) := do
  checkTerminal requested
  assertEventMatchesStartedIdentity dates db requested
  let d := requested.deploymentId
  let rows ← storedTerminals dates db d
  match existingTerminal rows with
  | none => do
    let db ← replaceTerminals dates db d requested
    return (db, ⟨requested, false⟩)
  | some existing =>
    if isFailedTerminal existing || !isFailedTerminal requested then do
      let changed := changesCorrelation existing.correlation requested.correlation
      let retained := withTerminalCorrelation existing requested
      let db ← if 1 < rows.length ∨ changed = true then replaceTerminals dates db d retained else .ok db
      return (db.release d, ⟨retained, true⟩)
    else do
      let db ← replaceTerminals dates db d requested
      return (db, ⟨requested, false⟩)

/-- `reconcileTerminalRegistryEventIfAbsent`. -/
def reconcileTerminalRegistryEventIfAbsent (db : Database) (requested : RegistryEvent) :
    Result (Database × Reconciled) := do
  checkTerminal requested
  assertEventMatchesStartedIdentity dates db requested
  let rows ← storedTerminals dates db requested.deploymentId
  match rows with
  | existing :: _ => return (db.release requested.deploymentId, ⟨existing, true⟩)
  | [] => do
    let db ← insertRegistryEvent dates db requested
    let db ← upsertDeployment dates db requested
    return (db, ⟨requested, false⟩)

/-! ## Ticket association -/

/-- What an operation reads outside the database: `new Date().toISOString()`, the
    entries of `loadReposYaml()` and the project of a ticket; a read that throws is
    `none`. -/
structure Environment where
  now : String
  repositories : Option (List (String × String))
  ticketProject : String → Option (Option String)

/-- `AssociateDeploymentTicketInput`. -/
structure AssociateDeploymentTicketInput where
  deploymentId : String
  ticketId : String
  expectedTicketId : Option String
  actor : String
  reason : String
  timestamp : Option String

structure AssociateDeploymentTicketResult where
  previousTicketId : Option String
  requestedTicketId : String
  currentTicketId : Option String
  actor : String
  reason : String
  writeOccurred : Bool

/-- `value.trim()`. -/
def trim (s : String) : String :=
  String.ofList ((s.toList.dropWhile isSpace).reverse.dropWhile isSpace).reverse

/-- A text without blanks around it is not trimmed further. -/
theorem trim_trim (t : String) : trim (trim t) = trim t := by
  unfold trim
  rw [String.toList_ofList]
  set l := t.toList.dropWhile isSpace with hl
  have hhead : (l.reverse.dropWhile isSpace).reverse.dropWhile isSpace =
      (l.reverse.dropWhile isSpace).reverse := by
    rw [List.dropWhile_eq_self_iff]
    intro hlen
    have hpre : (l.reverse.dropWhile isSpace).reverse <+: l := List.rdropWhile_prefix isSpace l
    have hl0 : 0 < l.length := lt_of_lt_of_le hlen hpre.length_le
    have hself : l.dropWhile isSpace = l := by rw [hl, List.dropWhile_idempotent]
    rw [hpre.getElem hlen]
    exact List.dropWhile_eq_self_iff.1 hself hl0
  rw [hhead, List.reverse_reverse, List.dropWhile_idempotent]

/-- `validatedAssociationText`. -/
def validatedAssociationText (value : String) (maxChars : ℕ) (code : TicketAssociationErrorCode) :
    Result String := do
  throwIf (utf16Length (trim value) < 1 ∨ maxChars < utf16Length (trim value)) (.association code)
  return trim value

/-- `hasProtectedBuilderLaunchEvidence`. -/
def hasProtectedBuilderLaunchEvidence (start : RegistryEvent) : Bool :=
  (start.team = "builder" && (start.launch.mode = some "orchestrator" || start.launch.mode = some "implement")) ||
    start.launch.repositorySlot.isSome || start.correlation.builderAuthority.isSome ||
    start.correlation.parentDeploymentId.isSome || start.correlation.treehousePath.isSome ||
    start.correlation.treehouseLeaseId.isSome || start.correlation.treehouseLeaseHolder.isSome ||
    start.correlation.ticketSlotId.isSome || start.correlation.repositoryPermit.isSome

/-- The one project that is registered at `repoRoot`, and the ticket's. -/
def checkAssociationProject (env : Environment) (repoRoot ticketId : String) : Result Unit := do
  match (env.repositories.getD []).filter fun r => r.2 = repoRoot with
  | [(projectKey, _)] => do
    match env.ticketProject ticketId with
    | some (some project) => throwIf (project ≠ projectKey) (.association .ticketProjectMismatch)
    | _ => .error (.association .ticketNotFound)
  | _ => .error (.association .repositoryUnregistered)

/-- `UPDATE deployments SET ticket_id = ?`, for a running deployment with the
    expected ticket: it must change one row. -/
def updateTicket (db : Database) (d : String) (expected : Option String) (ticketId : String) :
    Result Database := do
  match db.deployments d with
  | some row => do
    throwIf (row.status ≠ .running ∨ row.ticketId ≠ expected) (.association .staleExpectation)
    return db.setDeployment d (some { row with ticketId := some ticketId })
  | none => .error (.association .staleExpectation)

/-- The event of an association. -/
def associationEvent (input : AssociateDeploymentTicketInput) (env : Environment)
    (start : RegistryEvent) (previous : Option String) (actor reason : String) : RegistryEvent :=
  { RegistryEvent.bare input.deploymentId start.team .ticketAssociated
      (input.timestamp.getD env.now) with
    previousTicketId := previous
    ticketId := some input.ticketId
    actor := some actor
    reason := some reason }

/-- `associateDeploymentTicket`. -/
def associateDeploymentTicket (db : Database) (env : Environment)
    (input : AssociateDeploymentTicketInput) : Result (Database × AssociateDeploymentTicketResult) := do
  let actor ← validatedAssociationText input.actor 128 .invalidActor
  let reason ← validatedAssociationText input.reason 1000 .invalidReason
  throwIf (isCanonicalTicketId input.ticketId = false) (.association .invalidTicketId)
  throwIf (input.expectedTicketId.any (fun t => !isCanonicalTicketId t) = true)
    (.association .invalidTicketId)
  let projection ← require (db.deployments input.deploymentId) (.association .deploymentNotFound)
  let start ← require (db.startOf input.deploymentId) (.association .deploymentNotFound)
  throwIf (projection.status ≠ .running) (.association .deploymentNotRunning)
  let repoRoot ← require (optionalString start.launch.repoRoot) (.association .repositoryIdentityMissing)
  throwIf (projection.launch.repoRoot ≠ some repoRoot) (.association .repositoryIdentityMissing)
  checkAssociationProject env repoRoot input.ticketId
  let previous := optionalString projection.ticketId
  throwIf (input.expectedTicketId ≠ previous) (.association .staleExpectation)
  if previous = some input.ticketId then
    return (db, ⟨previous, input.ticketId, previous, actor, reason, false⟩)
  else do
    throwIf (previous.isSome = true ∧ hasProtectedBuilderLaunchEvidence start = true)
      (.association .protectedBuilderReplacement)
    let event := associationEvent input env start previous actor reason
    validateRegistryEvent event
    assertEventMatchesStartedIdentity dates db event
    let db ← insertRegistryEvent dates db event
    let db ← updateTicket db input.deploymentId previous input.ticketId
    return (db, ⟨previous, input.ticketId, some input.ticketId, actor, reason, true⟩)

/-! ## Authority snapshots -/

structure Settlement where
  digest : String
  expectedAuthorityEventId : Option ℕ

/-- `AdvanceParentAuthoritySnapshotOptions`. -/
structure AdvanceParentAuthoritySnapshotOptions where
  parentDeploymentId : String
  childDeploymentId : String
  expectedBranchHeadSha : String
  branchHeadSha : String
  timestamp : Option String
  settlement : Option Settlement

/-- `AdvanceDirectAuthoritySnapshotOptions`. -/
structure AdvanceDirectAuthoritySnapshotOptions where
  deploymentId : String
  repoRoot : String
  worktreeRoot : String
  ticket : String
  expectedBranchHeadSha : String
  branchHeadSha : String
  timestamp : Option String

/-- `value LIKE 'prefix%'`: SQLite ignores the case of ASCII letters. -/
def like (prefix_ value : String) : Bool :=
  (prefix_.toList.map Char.toLower).isPrefixOf (value.toList.map Char.toLower)

/-- The `updated` events of `d` whose note satisfies `p`. -/
def Database.notes (db : Database) (d : String) (p : String → Bool) : List StoredEvent :=
  (db.eventsOf d).filter fun e => e.row.event = .updated && e.row.note.any p

/-- The notes of a child's and of the owner's authority events. -/
def isChildAuthority (note : String) : Bool := like "direct-child-authority:" note

def isOwnerAuthority (note : String) : Bool := like "direct-owner-authority:" note

def isAuthority (note : String) : Bool := isChildAuthority note || isOwnerAuthority note

/-- The columns that a child's start has in common with its parent. -/
def matchesParent (child : RegistryEvent) (parent : Deployment) : Prop :=
  child.ticketId = parent.ticketId ∧ child.launch.repo = parent.launch.repo ∧
    child.launch.repoRoot = parent.launch.repoRoot ∧
    child.launch.worktreeRoot = parent.launch.worktreeRoot ∧
    child.correlation.treehousePath = parent.correlation.treehousePath ∧
    child.correlation.treehouseLeaseId = parent.correlation.treehouseLeaseId ∧
    child.correlation.treehouseLeaseHolder = parent.correlation.treehouseLeaseHolder ∧
    child.correlation.branchState = parent.correlation.branchState ∧
    child.correlation.branchBaseSha = parent.correlation.branchBaseSha ∧
    child.correlation.ticketSlotId = parent.correlation.ticketSlotId ∧
    child.correlation.repositoryPermit = parent.correlation.repositoryPermit

instance (child : RegistryEvent) (parent : Deployment) : Decidable (matchesParent child parent) := by
  unfold matchesParent; infer_instance

/-- A running deployment that was launched as the PPA builder/orchestrator. -/
def isOrchestrator (row : Deployment) (start : RegistryEvent) : Prop :=
  row.status = .running ∧ start.team = "builder" ∧ start.launch.mode = some "orchestrator" ∧
    start.launch.runtime = some "pi" ∧ start.launch.binary = some "ppa" ∧
    start.correlation.builderAuthority = some .orchestrator

instance (row : Deployment) (start : RegistryEvent) : Decidable (isOrchestrator row start) := by
  unfold isOrchestrator; infer_instance

/-- `fail(reason)` of `advanceParentAuthoritySnapshot`. -/
def parentConflict (reason : String) : RegistryError :=
  .correlationConflict ("parent authority snapshot advance rejected: " ++ reason)

/-- The note of a child's authority event. -/
def childNote (options : AdvanceParentAuthoritySnapshotOptions) : String :=
  options.settlement.elim ("direct-child-authority:" ++ options.childDeploymentId) fun s =>
    "direct-child-authority:" ++ options.childDeploymentId ++ ":" ++ s.digest

/-- The `updated` event of an authority snapshot. -/
def authorityEvent (d timestamp note : String) (base : Option String) (head : String) : RegistryEvent :=
  { RegistryEvent.bare d "builder" .updated timestamp with
    note := some note
    correlation := { Correlation.empty with
      branchState := some .materialized
      branchBaseSha := base
      branchHeadSha := some head } }

/-- Validate, insert and project an authority event. -/
def commitAuthority (db : Database) (event : RegistryEvent) : Result Database := do
  validateRegistryEvent event
  assertEventMatchesStartedIdentity dates db event
  let db ← insertRegistryEvent dates db event
  upsertDeployment dates db event

/-- The child's start is that of the direct child of the current parent snapshot. -/
def isDirectChild (options : AdvanceParentAuthoritySnapshotOptions) (child : RegistryEvent)
    (parent : Deployment) : Prop :=
  child.team = "builder" ∧ child.launch.mode = some "implement" ∧ child.launch.runtime = some "pi" ∧
    child.launch.binary = some "ppa" ∧
    child.correlation.parentDeploymentId = some options.parentDeploymentId ∧
    child.correlation.builderAuthority = some .parentedImplement ∧
    child.correlation.branchHeadSha = some options.expectedBranchHeadSha ∧ matchesParent child parent

instance (options : AdvanceParentAuthoritySnapshotOptions) (child : RegistryEvent)
    (parent : Deployment) : Decidable (isDirectChild options child parent) := by
  unfold isDirectChild; infer_instance

/-- The current snapshot is the expected one. -/
def atExpected (parent : Deployment) (expected : String) : Prop :=
  parent.correlation.branchState = some .materialized ∧
    parent.correlation.branchHeadSha = some expected

instance (parent : Deployment) (expected : String) : Decidable (atExpected parent expected) := by
  unfold atExpected; infer_instance

/-- `advanceParentAuthoritySnapshot`. -/
def advanceParentAuthoritySnapshot (db : Database) (env : Environment)
    (options : AdvanceParentAuthoritySnapshotOptions) : Result Database := do
  let p := options.parentDeploymentId
  let absent := parentConflict
    "parent projection, immutable parent start, or immutable child start is absent"
  let parent ← require (db.deployments p) absent
  let parentStart ← require (db.startOf p) absent
  let childStart ← require (db.startOf options.childDeploymentId) absent
  throwIf (¬ isOrchestrator parent parentStart)
    (parentConflict "the parent is not the exact live PPA builder/orchestrator authority")
  throwIf (¬ isDirectChild options childStart parent) (parentConflict
    "the child immutable start is not the exact direct child of the current parent authority snapshot")
  let note := childNote options
  let latestAuthority := (db.notes p isAuthority).getLast?
  match (db.notes p (· == note)).head? with
  | some replay => do
    throwIf (replay.row.correlation.branchHeadSha ≠ some options.branchHeadSha ∨
        parent.correlation.branchHeadSha ≠ some options.branchHeadSha ∨
        latestAuthority.map (·.id) ≠ some replay.id)
      (parentConflict "settlement replay conflicts with a successor or final projection")
    return db
  | none => do
    doIf (options.settlement.isSome = true) do
      throwIf (options.settlement.all (fun s => hexOk 64 s.digest) = false ∨
          hexOk 40 options.expectedBranchHeadSha = false ∨ hexOk 40 options.branchHeadSha = false ∨
          latestAuthority.map (·.id) ≠ options.settlement.bind (·.expectedAuthorityEventId) ∨
          ¬ atExpected parent options.expectedBranchHeadSha)
        (parentConflict "durable settlement requires the exact authority event and HEAD predecessor")
    let event := authorityEvent p (options.timestamp.getD env.now) note
      parent.correlation.branchBaseSha options.branchHeadSha
    if atExpected parent options.expectedBranchHeadSha then commitAuthority dates db event
    else
      let existing := (db.notes p (· == "direct-child-authority:" ++ options.childDeploymentId)).filter
        fun e => e.row.correlation.branchHeadSha = some options.branchHeadSha
      if atExpected parent options.branchHeadSha ∧ existing ≠ [] then return db
      else do
        let reconcilesInitialBranchTransition :=
          parent.correlation.branchState = some .materialized ∧
            parent.correlation.branchHeadSha = parentStart.correlation.branchHeadSha ∧
            (db.notes p isChildAuthority).isEmpty = true
        throwIf (¬ reconcilesInitialBranchTransition) (parentConflict
          "the parent's current projected branch snapshot does not match the mutex-protected expected predecessor")
        commitAuthority dates db event

/-- The columns in which the projection of a direct owner is as in its start. -/
def sameBindings (row : Deployment) (start : RegistryEvent) : Prop :=
  row.team = start.team ∧ row.launch.mode = start.launch.mode ∧
    row.launch.runtime = start.launch.runtime ∧ row.launch.binary = start.launch.binary ∧
    row.correlation.builderAuthority = start.correlation.builderAuthority ∧
    row.correlation.parentDeploymentId = start.correlation.parentDeploymentId ∧
    row.launch.repo = start.launch.repo ∧ row.launch.repoRoot = start.launch.repoRoot ∧
    row.launch.worktreeRoot = start.launch.worktreeRoot ∧ row.ticketId = start.ticketId ∧
    row.correlation.treehousePath = start.correlation.treehousePath ∧
    row.correlation.treehouseLeaseId = start.correlation.treehouseLeaseId ∧
    row.correlation.treehouseLeaseHolder = start.correlation.treehouseLeaseHolder ∧
    row.correlation.branchBaseSha = start.correlation.branchBaseSha ∧
    row.correlation.ticketSlotId = start.correlation.ticketSlotId ∧
    row.correlation.repositoryPermit = start.correlation.repositoryPermit

instance (row : Deployment) (start : RegistryEvent) : Decidable (sameBindings row start) := by
  unfold sameBindings; infer_instance

/-- `fail()` of `advanceDirectAuthoritySnapshot`. -/
def directConflict : RegistryError := .correlationConflict
  "direct owner projection conflicts with the running role, physical binding or expected predecessor; preserve custody"

/-- The note of an owner's authority event. -/
def ownerNote (options : AdvanceDirectAuthoritySnapshotOptions) : String :=
  "direct-owner-authority:" ++ options.expectedBranchHeadSha ++ ":" ++ options.branchHeadSha

/-- `advanceDirectAuthoritySnapshot`. -/
def advanceDirectAuthoritySnapshot (db : Database) (env : Environment)
    (options : AdvanceDirectAuthoritySnapshotOptions) : Result Database := do
  let d := options.deploymentId
  let current ← require (db.deployments d) directConflict
  let started ← require (db.startOf d) directConflict
  throwIf (¬ (isOrchestrator current started ∧ started.correlation.parentDeploymentId = none ∧
      sameBindings current started ∧ current.launch.repoRoot = some options.repoRoot ∧
      current.launch.worktreeRoot = some options.worktreeRoot ∧
      current.launch.repo = some options.worktreeRoot ∧ current.ticketId = some options.ticket ∧
      current.correlation.branchState = some .materialized ∧
      hexOk 40 options.expectedBranchHeadSha = true ∧ hexOk 40 options.branchHeadSha = true))
    directConflict
  let note := ownerNote options
  if current.correlation.branchHeadSha ≠ some options.expectedBranchHeadSha then do
    let replays := (db.notes d (· == note)).filter fun e =>
      e.row.correlation.branchHeadSha = some options.branchHeadSha
    throwIf (current.correlation.branchHeadSha ≠ some options.branchHeadSha ∨ replays = [])
      directConflict
    return db
  else
    commitAuthority dates db (authorityEvent d (options.timestamp.getD env.now) note
      (some (current.correlation.branchBaseSha.getD "null")) options.branchHeadSha)

end

end PaPlatform.Registry
