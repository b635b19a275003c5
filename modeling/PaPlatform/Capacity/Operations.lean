/-
  The calls of `deploy/ticket-concurrency.ts` on a slot directory.

  An `Environment` is what one call sees outside the directory: processes, the
  clock, fresh tokens, the registry and the worktrees.  Each call runs under the
  mutex of the repository.
-/
import PaPlatform.Capacity.Directory

namespace PaPlatform.Capacity

open Js Guard Effect
open Custody (ExecutionHolder IdlePreparationReservation ReservationOccupancy
  parseIdlePreparationReservation)

/-! ## The environment -/

inductive DirectExecutionCustody where
  | idle
  | active
  deriving DecidableEq

/-- The fields of an orchestrator lease that a handoff compares. -/
structure RepositoryOwner where
  deploymentId : String
  ticket : String
  canonicalRepoRoot : String
  worktreeRoot : String
  directExecutionCustody : Option DirectExecutionCustody
  processFingerprint : ProcessFingerprint
  deriving DecidableEq

/-- `observeReadonlyRepositoryAuthority`: the leases and the presence of the
    other evidence of a worktree. -/
structure RepositoryAuthority where
  owner : Option RepositoryOwner
  implement : Bool
  borrower : Bool
  review : Bool

structure Environment where
  /-- The directories of the repository that are their own `realpath`. -/
  physicalDirectory : String → Bool
  /-- The dependency of that name. -/
  getProcessFingerprint : ℤ → Option ProcessFingerprint
  readProcessFingerprint : ℤ → Option ProcessFingerprint
  /-- `process.pid`. -/
  pid : ℤ
  slotToken : String
  publicationToken : String
  now : ℤ
  dates : Registry.DateReader
  registry : Registry.Database
  /-- `git rev-parse --git-common-dir` and `--git-dir`. -/
  gitCommonDir : String → Option String
  gitDir : String → Option String
  authority : String → Option RepositoryAuthority
  /-- `assertNativeRestartProcessDead` does not throw. -/
  processDead : ProcessFingerprint → Bool

/-- `physicalRoot`. -/
def physicalRoot (env : Environment) (value : String) : Except CapacityFailure Unit :=
  throwIf (normalizedAbsolute value = false ∨ env.physicalDirectory value = false) .physicalRoot

/-- What a call returns. -/
inductive Response where
  | acquired (slot : RepositoryTicketSlot)
  | duplicateTicket
  | repositoryCapacity
  | invalidEvidence
  | absent
  | tokenMismatch
  | transferred (slot : RepositoryTicketSlot)
  | released
  | intent (intent : OrdinaryMaterializationIntent)
  | reserved (reservation : IdlePreparationReservation)
  | capacity
  | updated (reservation : IdlePreparationReservation)
  | handedOff (slot : RepositoryTicketSlot)

/-- A call, or one of the helpers below. -/
abbrev Operation := Eff Directory CapacityFailure

section
variable (digest : String → String) (env : Environment)

/-! ## Writing records -/

/-- `publishExclusive`. -/
def publishExclusive (name : String) (slot : RepositoryTicketSlot) : Operation PUnit := do
  let _ ← liftM (required env.publicationToken)
  failIf (slotFits slot = false) .invalidSlot
  failIf (((← get).slots.lookup name).isSome) .alreadyExists
  modify (·.putSlot name slot)

/-- `replaceAtomic`. -/
def replaceAtomic (name : String) (slot : RepositoryTicketSlot) : Operation PUnit := do
  let _ ← liftM (required env.publicationToken)
  failIf (slotFits slot = false) .invalidSlot
  modify (·.putSlot name slot)

/-- The link or the rename of `publishPreparedCapacity`. -/
def placeReservation (boundary : Option PreparedCapacityBoundary) (name : String)
    (r : IdlePreparationReservation) (replace : Bool) : Operation PUnit :=
  if replace then modify (·.putReservation name ⟨r, false⟩)
  else do
    failIf (((← get).reservations.lookup name).isSome) .alreadyExists
    modify (·.putReservation name ⟨r, true⟩)
    failIf (boundary = some .linked) (.boundary .linked)
    modify (·.putReservation name ⟨r, false⟩)

/-- `publishPreparedCapacity`. -/
def publishPreparedCapacity (boundary : Option PreparedCapacityBoundary) (name : String)
    (r : IdlePreparationReservation) (replace : Bool) : Operation PUnit := do
  let r ← demand (parseIdlePreparationReservation r.toJson) .workflow
  failIf (maxRepositoryTicketSlotBytes < reservationBytes r) .oversized
  failIf (boundary = some .fileSynced) (.boundary .fileSynced)
  placeReservation boundary name r replace
  failIf (boundary = some .published) (.boundary .published)
  failIf (boundary = some .directorySynced) (.boundary .directorySynced)
  failIf ((← get).reservations.lookup name ≠ some ⟨r, false⟩) .readback

/-! ## Acquisition -/

/-- `[1, 2, 3, 4]`. -/
def permits : List Permit := [⟨1, by omega⟩, ⟨2, by omega⟩, ⟨3, by omega⟩, ⟨4, by omega⟩]

/-- `MAX_REPOSITORY_TICKET_SLOTS`. -/
def maxRepositoryTicketSlots : ℕ := permits.length

/-- The first permit that no row has. -/
def freePermit (rows : List CapacityRow) : Option Permit :=
  permits.find? fun p => decide (∀ row ∈ rows, row.repositoryPermit ≠ p)

structure AcquireOptions where
  canonicalRepoKey : String
  canonicalRepoRoot : String
  ticket : String
  deploymentId : String
  deploymentDirectory : String
  pid : Option ℤ
  processFingerprint : Option ProcessFingerprint

/-- The slot that an acquisition publishes. -/
def newSlot (o : AcquireOptions) (permit : Permit) : Except CapacityFailure RepositoryTicketSlot := do
  let pid := o.pid.getD env.pid
  let observed := env.getProcessFingerprint pid
  let fingerprint ← require (o.processFingerprint.or observed) .fingerprint
  throwIf (fingerprintsEqual fingerprint observed = false ∨ fingerprint.pid ≠ pid) .fingerprint
  let slotToken ← required env.slotToken
  let key ← required o.canonicalRepoKey
  let ticket ← required o.ticket
  let deploymentId ← required o.deploymentId
  throwIf (normalizedAbsolute o.deploymentDirectory = false) .exactPath
  return {
    slotToken
    slotId := "pa:" ++ key ++ ":" ++ ticket
    canonicalRepoKey := key
    canonicalRepoRoot := o.canonicalRepoRoot
    ticket
    deploymentId
    deploymentDirectory := o.deploymentDirectory
    repositoryPermit := permit
    processFingerprint := fingerprint
    acquiredAt := toISOString env.now
    materializationIntent := none }

/-- The part of `acquireRepositoryTicketSlot` after the inventory. -/
def takePermit (o : AcquireOptions) (name : String) (rows : List CapacityRow) : Operation Response :=
  if ∃ row ∈ rows, row.ticket = o.ticket then return .duplicateTicket
  else if maxRepositoryTicketSlots ≤ rows.length then return .repositoryCapacity
  else do
    let permit ← demand (freePermit rows) .noCapacity
    let slot ← liftM (newSlot env o permit)
    publishExclusive env name slot
    return .acquired slot

def acquireRepositoryTicketSlot (o : AcquireOptions) : Operation Response := do
  liftM (physicalRoot env o.canonicalRepoRoot)
  let name ← liftM (fileName digest o.ticket)
  match readInventory digest env.getProcessFingerprint false o.canonicalRepoRoot o.canonicalRepoKey
      (← get) with
  | .error .required => throw .required
  | .error _ => return .invalidEvidence
  | .ok rows => takePermit env o name rows

/-! ## Transfer and release -/

/-- What stands at the path of `executionSlotPath`. -/
inductive Located where
  | absent
  | slot (slot : RepositoryTicketSlot)
  | reservation (file : PreparedFile)

/-- `executionSlotPath`. -/
def executionSlot (d : Directory) (name : String) : Except CapacityFailure Located :=
  match d.slots.lookup name, d.reservations.lookup name with
  | some _, some _ => .error .conflictingEvidence
  | _, some f => .ok (.reservation f)
  | some s, none => .ok (.slot s)
  | none, none => .ok .absent

/-- `readSlot`. -/
def readSlot : Located → SlotRead
  | .absent => .absent
  | .slot s => if isSlot s then .found s else .invalid
  | .reservation f => if f.linked then .invalid else preparedSlotView f.reservation.toJson

/-- The checks that a transfer and a release share. -/
def authenticateHandoff (located : Located) (h : RepositoryTicketSlotHandoff) :
    Except Response RepositoryTicketSlot :=
  match readSlot located with
  | .absent => .error .absent
  | .invalid => .error .invalidEvidence
  | .found slot => do
    throwIf (slotMatchesHandoff slot h = false) .invalidEvidence
    throwIf (slot.slotToken ≠ h.slotToken) .tokenMismatch
    return slot

/-- `{ ...holder, process }`, as the parser of reservations reads it. -/
def withProcess (holder : ExecutionHolder) (process : ProcessFingerprint) : Option ExecutionHolder :=
  Custody.parseHolder (.obj [("deploymentId", .ofChecked holder.deploymentId),
    ("process", process.toJson)])

/-- The reservation that a transfer to `process` writes. -/
def transferredReservation (r : IdlePreparationReservation) (process : ProcessFingerprint) :
    Option IdlePreparationReservation :=
  match r.custody with
  | .held e holder operation => (withProcess holder process).bind fun next =>
    parseIdlePreparationReservation { r with custody := .held e next operation : IdlePreparationReservation }.toJson
  | _ => none

/-- The write of a transfer. -/
def writeTransfer (located : Located) (name : String) (next : RepositoryTicketSlot) :
    Operation Response :=
  match located with
  | .reservation f => do
    let r ← demand (parseIdlePreparationReservation f.reservation.toJson) .workflow
    if r.occupancy ≠ .active ∨ r.custody.holder = none ∨ r.custody.inFlightOperation ≠ none then
      return .invalidEvidence
    else
      let r' ← demand (transferredReservation r next.processFingerprint) .workflow
      publishPreparedCapacity none name r' true
      return .transferred next
  | _ => do
    replaceAtomic env name next
    return .transferred next

def transferRepositoryTicketSlot (h : RepositoryTicketSlotHandoff) (next : ProcessFingerprint) :
    Operation Response := do
  liftM (physicalRoot env h.canonicalRepoRoot)
  let name ← liftM (fileName digest h.ticket)
  let located ← liftM (executionSlot (← get) name)
  match authenticateHandoff located h with
  | .error response => return response
  | .ok slot =>
    if fingerprintsEqual next (env.getProcessFingerprint next.pid) = false then return .invalidEvidence
    else writeTransfer env located name { slot with processFingerprint := next }

/-- `queryReadonlyHelperRegistry(deploymentId).status`. -/
def queryReadonlyHelperRegistry (deploymentId : String) : Option Registry.DeploymentStatus := do
  let starts := (env.registry.eventsOf deploymentId).filter fun e => e.row.event = .started
  Json.check (starts.length = 1)
  let row ← env.registry.deployments deploymentId
  (Registry.deploymentFromRow env.dates deploymentId row).toOption

/-- The evidence that a release asks of a deployment that has events: its
    status names the slot, and nobody has custody of its worktree. -/
def settledCustody (slot : RepositoryTicketSlot) : Option Unit := do
  let status ← queryReadonlyHelperRegistry env slot.deploymentId
  Json.check (status.row.launch.repoRoot = some slot.canonicalRepoRoot ∧
    status.row.ticketId = some slot.ticket ∧
    (∀ id, status.row.correlation.ticketSlotId = some id → id = slot.slotId) ∧
    (∀ p, status.row.correlation.repositoryPermit = some p → p = slot.repositoryPermit))
  let worktree ← status.row.launch.worktreeRoot
  Json.check ((physicalRoot env worktree).isOk = true)
  let common ← env.gitCommonDir worktree
  Json.check (env.gitCommonDir slot.canonicalRepoRoot = some common)
  let gitDir ← env.gitDir worktree
  let custody ← env.authority gitDir
  Json.check (custody.owner = none ∧ custody.borrower = false ∧ custody.implement = false ∧
    custody.review = false)

/-- The `try` block of `releaseRepositoryTicketSlot`. -/
def releaseAllowed (slot : RepositoryTicketSlot) : Bool :=
  match (env.registry.eventsOf slot.deploymentId).mapM fun e => Registry.fromRow env.dates e.row with
  | .error _ => false
  | .ok [] => slot.materializationIntent.isNone &&
      env.readProcessFingerprint env.pid = some slot.processFingerprint
  | .ok _ => (settledCustody env slot).isSome

/-- The reservation that a release writes. -/
def settledReservation (r : IdlePreparationReservation) : IdlePreparationReservation :=
  { r with occupancy := .settledRetained, custody := .idle }

/-- The write of a release. -/
def writeRelease (located : Located) (name : String) : Operation Response :=
  match located with
  | .reservation f => do
    let r ← demand (parseIdlePreparationReservation f.reservation.toJson) .workflow
    if r.occupancy ≠ .active ∨ r.custody.inFlightOperation ≠ none then return .invalidEvidence
    else
      let r' ← demand (parseIdlePreparationReservation (settledReservation r).toJson) .workflow
      publishPreparedCapacity none name r' true
      return .released
  | _ => do
    modify (·.removeSlot name)
    return .released

def releaseRepositoryTicketSlot (h : RepositoryTicketSlotHandoff) : Operation Response := do
  liftM (physicalRoot env h.canonicalRepoRoot)
  let name ← liftM (fileName digest h.ticket)
  let located ← liftM (executionSlot (← get) name)
  match authenticateHandoff located h with
  | .error response => return response
  | .ok slot =>
    if releaseAllowed env slot = false then return .invalidEvidence
    else writeRelease located name

/-! ## Intents of ordinary builders -/

structure IntentInput where
  baselineSha256 : String
  worktreeRoot : String
  branch : String
  baseSha : String

def IntentInput.toJson (i : IntentInput) : Json :=
  .obj [("baselineSha256", .str i.baselineSha256), ("worktreeRoot", .str i.worktreeRoot),
    ("branch", .str i.branch), ("baseSha", .str i.baseSha)]

/-- The intent of `slotToken` for an input. -/
def intentFor (slotToken : String) (i : IntentInput) : OrdinaryMaterializationIntent where
  baselineSha256 := i.baselineSha256
  worktreeRoot := i.worktreeRoot
  branch := i.branch
  baseSha := i.baseSha
  operationId := digest (Json.arr [.str slotToken, i.toJson]).stringify

/-- `observeReadonlyRepositoryTicketSlot`. -/
def observeReadonlyRepositoryTicketSlot (root ticket : String) (d : Directory) :
    Except CapacityFailure RepositoryTicketSlot := do
  physicalRoot env root
  let name ← fileName digest ticket
  match readSlot (← executionSlot d name) with
  | .found slot => do
    throwIf (isSlot slot = false ∨ fingerprintsEqual slot.processFingerprint
      (env.readProcessFingerprint slot.processFingerprint.pid) = false) .uncertainEvidence
    return slot
  | _ => .error .uncertainEvidence

/-- `ordinaryIntent`, for the observed slot. -/
def recordIntent (root : String) (slot : RepositoryTicketSlot)
    (intent : OrdinaryMaterializationIntent) (existingOnly : Bool) : Operation Response :=
  match slot.materializationIntent with
  | some stored => do
    failIf (stored ≠ intent) .intent
    return .intent stored
  | none => do
    failIf (existingOnly = true) .intent
    let name ← liftM (fileName digest slot.ticket)
    replaceAtomic env name { slot with materializationIntent := some intent }
    let retained ← liftM (observeReadonlyRepositoryTicketSlot digest env root slot.ticket (← get))
    failIf (retained.materializationIntent ≠ some intent) .intent
    return .intent intent

/-- `withRepositoryTicketTransaction(root, ...)`, with one `ordinaryIntent`. -/
def ordinaryIntent (root : String) (owner : RepositoryTicketSlotHandoff) (deploymentId : String)
    (input : IntentInput) (existingOnly : Bool) : Operation Response := do
  liftM (physicalRoot env root)
  failIf (owner.canonicalRepoRoot ≠ root) .notAuthenticated
  let slot ← liftM (observeReadonlyRepositoryTicketSlot digest env root owner.ticket (← get))
  failIf (slotMatchesHandoff slot owner = false ∨ slot.slotToken ≠ owner.slotToken ∨
    slot.deploymentId ≠ deploymentId ∨
    fingerprintsEqual slot.processFingerprint (env.readProcessFingerprint env.pid) = false)
    .notAuthenticated
  failIf (isOrdinaryIntent (intentFor digest slot.slotToken input) = false) .intent
  recordIntent digest env root slot (intentFor digest slot.slotToken input) existingOnly

/-! ## Prepared capacity -/

/-- The options of `withPreparedTicketCapacity`. -/
structure CapacityOptions where
  canonicalRepoKey : String
  canonicalRepoRoot : String
  boundary : Option PreparedCapacityBoundary

/-- The key of the transaction that the options open. -/
def openCapacity (o : CapacityOptions) : Except CapacityFailure String := do
  physicalRoot env o.canonicalRepoRoot
  required o.canonicalRepoKey

/-- `inventory`. -/
def inventory (o : CapacityOptions) (key : String) (d : Directory) :
    Except CapacityFailure (List CapacityRow) := do
  let rows ← readInventory digest env.getProcessFingerprint true o.canonicalRepoRoot key d
  throwIf (maxRepositoryTicketSlots < rows.length) .inventoryExceedsLimit
  return rows

structure ReserveInput where
  ticket : String
  operationId : String
  reservationId : String
  retainedAt : String

/-- The value that `reserve` parses. -/
def preparingRow (key root : String) (permit : Permit) (i : ReserveInput) : Json :=
  .obj (IdlePreparationReservation.keys.zip [.str "prepared-reservation/v1", .str key, .str root,
    .str i.ticket, .str i.operationId, .str i.reservationId, .num permit.1,
    .str ReservationOccupancy.preparing.text, .null, Custody.ExecutionCustody.idle.toJson, .null,
    .str i.retainedAt])

/-- The part of `reserve` for a ticket without a record. -/
def reserveNew (o : CapacityOptions) (key : String) (i : ReserveInput) (rows : List CapacityRow) :
    Operation Response :=
  match freePermit rows with
  | none => return .capacity
  | some permit => do
    let r ← demand (parseIdlePreparationReservation (preparingRow key o.canonicalRepoRoot permit i))
      .workflow
    failIf (∃ row ∈ rows, capacityRowsConflict row (.reservation r)) .inventoryConflicts
    let name ← liftM (fileName digest r.ticket.1)
    publishPreparedCapacity o.boundary name r false
    return .reserved r

def reserve (o : CapacityOptions) (i : ReserveInput) : Operation Response := do
  let key ← liftM (openCapacity env o)
  let rows ← liftM (inventory digest env o key (← get))
  match rows.find? fun row => row.ticket = i.ticket with
  | some (.reservation r) => do
    failIf (r.operationId.1 ≠ i.operationId ∨ r.reservationId.1 ≠ i.reservationId) .differentCustody
    return .reserved r
  | some (.slot _) => throw .differentCustody
  | none => reserveNew digest o key i rows

/-- The fields that an update may not change. -/
def SameIdentity (r r' : IdlePreparationReservation) : Prop :=
  r'.repoKey = r.repoKey ∧ r'.repoRoot = r.repoRoot ∧ r'.ticket = r.ticket ∧
    r'.operationId = r.operationId ∧ r'.reservationId = r.reservationId ∧
    r'.repositoryPermit = r.repositoryPermit ∧ r'.retainedAt = r.retainedAt

instance (r r' : IdlePreparationReservation) : Decidable (SameIdentity r r') := by
  unfold SameIdentity
  infer_instance

/-- The occupancies that `update` lets follow. -/
def allowed : ReservationOccupancy → List ReservationOccupancy
  | .preparing => [.idleReady, .uncertainRetained]
  | .idleReady => [.active, .uncertainRetained]
  | .active => [.uncertainRetained]
  | _ => []

/-- The holder of a reservation that becomes active. -/
def holderIsLive (r : IdlePreparationReservation) : Bool :=
  match r.custody with
  | .held .orchestratorDirect holder none =>
    fingerprintsEqual (fingerprintOf holder.process) (env.getProcessFingerprint holder.process.pid.1)
  | _ => false

/-- The part of `update` for the stored record. -/
def replaceReservation (o : CapacityOptions) (rows : List CapacityRow)
    (expected next : IdlePreparationReservation) : Operation Response := do
  failIf (¬ SameIdentity expected next) .identityChanged
  if next = expected then return .updated expected
  else
    failIf (∃ row ∈ rows, row.ticket ≠ expected.ticket.1 ∧
      capacityRowsConflict row (.reservation next)) .inventoryConflicts
    failIf (next.occupancy ∉ allowed expected.occupancy ∨
      (expected.receiptId ≠ none ∧ next.receiptId ≠ expected.receiptId) ∨
      (expected.lineageId ≠ none ∧ next.lineageId ≠ expected.lineageId)) .transitionDenied
    failIf (next.occupancy = .active ∧ holderIsLive env next = false) .holderNotLive
    let name ← liftM (fileName digest next.ticket.1)
    publishPreparedCapacity o.boundary name next true
    return .updated next

def update (o : CapacityOptions) (expectedInput nextInput : Json) : Operation Response := do
  let key ← liftM (openCapacity env o)
  let expected ← demand (parseIdlePreparationReservation expectedInput) .workflow
  let next ← demand (parseIdlePreparationReservation nextInput) .workflow
  let rows ← liftM (inventory digest env o key (← get))
  if rows.find? (fun row => row.ticket = expected.ticket.1) = some (.reservation expected) then
    replaceReservation digest env o rows expected next
  else throw .compareAndSwap

/-- The authenticated source of a native restart, and what the handoff reads of
    it: the directory of `assertExecutionWorktreeOwner` and the result of
    `authenticateNativeExecutionRestart`. -/
structure NativeRestart where
  repoKey : String
  repoRoot : String
  worktreeRoot : String
  ticket : String
  gitDir : Option String
  actorDeploymentId : String
  actorProcess : ProcessFingerprint
  previousDeploymentId : String
  deploymentDirectory : String
  custody : DirectExecutionCustody
  authenticated : Bool

/-- The orchestrator lease has moved to the restarted deployment, and nobody
    else has custody of the worktree. -/
def restartProven (root : String) (source : NativeRestart) (custody : RepositoryAuthority) : Prop :=
  custody.owner = some ⟨source.actorDeploymentId, source.ticket, root, source.worktreeRoot,
    some source.custody, source.actorProcess⟩ ∧ custody.borrower = false ∧
    custody.implement = false ∧ custody.review = false

instance (root : String) (source : NativeRestart) (custody : RepositoryAuthority) :
    Decidable (restartProven root source custody) := by
  unfold restartProven
  infer_instance

/-- The compare-and-swap of `handoffExecution`. -/
def swapSlot (o : CapacityOptions) (ticket : String) (current expected next : RepositoryTicketSlot) :
    Operation Response := do
  failIf (current ≠ expected ∧ current ≠ next) .compareAndSwap
  if current = next then
    failIf (o.boundary = some .directorySynced) (.boundary .directorySynced)
    return .handedOff next
  else
    let name ← liftM (fileName digest ticket)
    replaceAtomic env name next
    failIf (o.boundary = some .published) (.boundary .published)
    failIf (o.boundary = some .directorySynced) (.boundary .directorySynced)
    return .handedOff next

/-- The slot that a restart writes. -/
def restartedSlot (expected : RepositoryTicketSlot) (source : NativeRestart) : RepositoryTicketSlot :=
  { expected with
    deploymentId := source.actorDeploymentId
    deploymentDirectory := source.deploymentDirectory
    processFingerprint := source.actorProcess }

def handoffExecution (o : CapacityOptions) (expected : RepositoryTicketSlot) (source : NativeRestart) :
    Operation Response := do
  let key ← liftM (openCapacity env o)
  let gitDir ← demand source.gitDir .restart
  failIf (source.authenticated = false) .restart
  let custody ← demand (env.authority gitDir) .restart
  failIf (¬ restartProven o.canonicalRepoRoot source custody) .restart
  failIf (source.repoKey ≠ key ∨ source.repoRoot ≠ o.canonicalRepoRoot ∨
    expected.canonicalRepoKey ≠ key ∨ expected.canonicalRepoRoot ≠ o.canonicalRepoRoot ∨
    expected.ticket ≠ source.ticket ∨ expected.deploymentId ≠ source.previousDeploymentId) .restart
  failIf (env.processDead expected.processFingerprint = false) .restart
  failIf (slotFits (restartedSlot expected source) = false) .invalidSlot
  let rows ← liftM (inventory digest env o key (← get))
  match rows.find? fun row => row.ticket = source.ticket with
  | some (.slot current) =>
    swapSlot digest env o source.ticket current expected (restartedSlot expected source)
  | _ => throw .compareAndSwap

end

/-! ## Calls -/

inductive Call where
  | acquire (env : Environment) (options : AcquireOptions)
  | transfer (env : Environment) (handoff : RepositoryTicketSlotHandoff) (next : ProcessFingerprint)
  | release (env : Environment) (handoff : RepositoryTicketSlotHandoff)
  | ordinaryIntent (env : Environment) (root : String) (owner : RepositoryTicketSlotHandoff)
      (deploymentId : String) (input : IntentInput) (existingOnly : Bool)
  | reserve (env : Environment) (options : CapacityOptions) (input : ReserveInput)
  | update (env : Environment) (options : CapacityOptions) (expected next : Json)
  | handoffExecution (env : Environment) (options : CapacityOptions)
      (expected : RepositoryTicketSlot) (source : NativeRestart)

variable (digest : String → String)

def perform : Call → Operation Response
  | .acquire env o => acquireRepositoryTicketSlot digest env o
  | .transfer env h next => transferRepositoryTicketSlot digest env h next
  | .release env h => releaseRepositoryTicketSlot digest env h
  | .ordinaryIntent env root owner id input existingOnly =>
    ordinaryIntent digest env root owner id input existingOnly
  | .reserve env o i => reserve digest env o i
  | .update env o expected next => update digest env o expected next
  | .handoffExecution env o expected source => handoffExecution digest env o expected source

/-- The directory after a call. -/
def after (c : Call) (d : Directory) : Directory := (outcome (perform digest c) d).2

end PaPlatform.Capacity
