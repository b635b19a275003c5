/-
  The operations on leases of `deploy/repository-admission.ts`.

  Each runs under the mutex of the worktree, so it is one step.  A call that is
  made for another worktree does not touch this one.
-/
import PaPlatform.Admission.Evidence

namespace PaPlatform.Admission

open Js Guard Effect
open Capacity (ProcessFingerprint bounded isFingerprint fingerprintsEqual)

/-- A step on the evidence of a worktree.  What a failed step wrote stays. -/
abbrev Op := Eff State Refusal

/-- `RuntimeName`: `assertSupportedRuntime` refuses every other one. -/
inductive RuntimeName where
  | opencode
  | pi
  deriving DecidableEq, Repr

def RuntimeName.text : RuntimeName → String
  | opencode => "opencode"
  | pi => "pi"

section
variable (c : Checkout) (host : Host)

/-- `assertExpectedGitIdentity`. -/
def assertExpectedGitIdentity (expectedGitDir expectedGitCommonDir : Option String) :
    Except Refusal Unit := do
  doIf (expectedGitDir.isSome = true) do
    let actual ← require host.physicalGitDir
      (.thrown "repository-admission: cannot resolve the physical Git directory")
    throwIf (expectedGitDir ≠ some actual) (.thrown
      "repository-admission: execution worktree Git directory changed after planning; no runtime was started")
  doIf (expectedGitCommonDir.isSome = true) do
    let actual ← require host.physicalGitCommonDir
      (.thrown "repository-admission: cannot resolve the physical Git common directory")
    throwIf (expectedGitCommonDir ≠ some actual) (.thrown
      "repository-admission: execution worktree Git common directory changed after planning; no runtime was started")

/-- `options.gitSnapshot ?? captureRepositoryGitSnapshot(worktree)`. -/
def snapshotOr (given : Option RepositoryGitSnapshot) : Except Refusal RepositoryGitSnapshot :=
  given.elim (captureRepositoryGitSnapshot c.sha256 host.git) .ok

/-- The fingerprint of the process `pid ?? process.pid`, when the operating system
    reports the given one. -/
def verifiedFingerprint (pid : Option ℤ) (given : Option ProcessFingerprint) :
    Option ProcessFingerprint :=
  let observed := host.getProcessFingerprint (pid.getD host.pid)
  (given.or observed).filter fun f =>
    decide (f.pid = pid.getD host.pid) && fingerprintsEqual f observed

/-! ## Writing leases -/

def writtenLease (l : RepositoryMutationLease) : Evidence RepositoryMutationLease :=
  .written host.identity (prettyBytes l.toJson) l

/-- `replaceLeaseAtomic`. -/
def replaceLeaseAtomic (file : LeaseFile) (l : RepositoryMutationLease) : Op PUnit := do
  liftM (assertLease c.sha256 l)
  modify (·.putLease file (some (writtenLease host l)))

/-- `publishLeaseExclusive`: the link does not replace a file. -/
def publishLeaseExclusive (file : LeaseFile) (l : RepositoryMutationLease) : Op PUnit := do
  let s ← get
  failIf ((s.leaseAt file).isSome = true) (.thrown "EEXIST")
  modify (·.putLease file (some (writtenLease host l)))

/-! ## Acquisition -/

structure AcquireRepositoryMutationLeaseOptions where
  canonicalRepoKey : String
  expectedGitDir : Option String
  expectedGitCommonDir : Option String
  deploymentId : String
  deploymentDirectory : String
  runtime : RuntimeName
  mode : String
  launchMode : Option RepositoryAdmissionLaunchMode
  team : Option String
  ticket : Option String
  force : Bool
  pid : Option ℤ
  ownershipToken : Option String
  processFingerprint : Option ProcessFingerprint
  gitSnapshot : Option RepositoryGitSnapshot
  branchTransitionPolicy : Option RepositoryBranchTransitionPolicy

/-- The lease of the other slot of a linked worktree. -/
def otherLease : RepositoryMutationSlot → LeaseFile
  | .orchestrator => .implement
  | .implement => .lease

/-- `initialDevelopRemoteHead`: the remote head of the develop branch, when the
    snapshot is on it. -/
def initialDevelopRemoteHead (policy : Option RepositoryBranchTransitionPolicy)
    (snapshot : RepositoryGitSnapshot) : Option String := do
  let policy ← policy.filter isBranchTransitionPolicy
  let observed ← if snapshot.branch = policy.developBranch then host.git.remoteHead policy.developBranch
    else none
  (some (Registry.trim observed)).filter (hexOk 40)

/-- A field that is required when it is not empty. -/
def optionalRequired (value : Option String) (label : String) : Except Refusal (Option String) :=
  (Registry.optionalString value).elim (.ok none) fun v => (boundedRequired v label).map some

/-- The lease that an acquisition publishes. -/
def acquiredLease (o : AcquireRepositoryMutationLeaseOptions) (slot : RepositoryMutationSlot)
    (fingerprint : ProcessFingerprint) (snapshot : RepositoryGitSnapshot) :
    Except Refusal RepositoryMutationLease := do
  let ownershipToken ← boundedRequired (o.ownershipToken.getD host.createToken) "ownership token"
  let canonicalRepoKey ← boundedRequired o.canonicalRepoKey "canonical repository key"
  let deploymentId ← boundedRequired o.deploymentId "deployment ID"
  let deploymentDirectory ← boundedRequired o.deploymentDirectory "deployment directory"
  let mode ← boundedRequired o.mode "mode"
  let team ← optionalRequired o.team "team"
  let ticket ← optionalRequired o.ticket "ticket"
  let dirs := (Registry.optionalString o.expectedGitDir).bind fun d =>
    (Registry.optionalString o.expectedGitCommonDir).map fun common => (d, common)
  let identity ← dirs.elim (.ok none) fun dirs =>
    (require (host.metadataIdentity dirs.1 dirs.2)
      (.thrown "symlinked repository metadata")).map some
  return {
    ownershipToken, canonicalRepoKey
    canonicalRepoRoot := c.root
    worktreeRoot := if c.linked then some c.worktree else none
    slot := if c.linked then some slot else none
    deploymentId, deploymentDirectory
    runtime := o.runtime.text
    mode, team
    directExecutionCustody := none
    advisoryOperation := none
    launchMode := o.launchMode
    processFingerprint := fingerprint
    acquiredAt := host.now
    preLaunchGitSnapshot := snapshot
    authorityGitSnapshot := none
    authorityUpdatedAt := none
    authorityChildDeploymentId := none
    ticket
    repositoryGitDir := dirs.map (·.1)
    repositoryGitCommonDir := dirs.map (·.2)
    repositoryMetadataIdentity := identity
    branchTransitionPolicy := o.branchTransitionPolicy
    initialDevelopRemoteHead := initialDevelopRemoteHead host o.branchTransitionPolicy snapshot
    branchTransitioned := false }

/-- The borrower inspection of an acquisition. -/
def acquisitionBorrower (o : AcquireRepositoryMutationLeaseOptions) (s : State) :
    Inspection RepositoryMutationBorrower :=
  if o.runtime = .pi ∨ classifyRepositoryMutationSlot o.mode = .implement ∨ c.linked = false then
    inspectBorrowerUnlocked c host s.borrower
  else ⟨.absent, "orchestrator slot is independent", none, none⟩

/-- The refusals of an acquisition that finds `s`. -/
def acquisitionRefusals (o : AcquireRepositoryMutationLeaseOptions) (s : State) :
    Except Refusal Unit := do
  let slot := classifyRepositoryMutationSlot o.mode
  let inspection := inspectLeaseUnlocked c host (s.leaseAt (c.leaseFile slot))
  throwIf (o.runtime = .pi ∧ inspection.state ≠ .absent) (.rejected inspection.state.text
    "live or unreconciled legacy ownership blocks takeover; PID death and force are not settlement")
  throwIf (inspection.state = .live) (.rejected "live" inspection.reason)
  -- Pi has one source/check holder, not independent simultaneous slot owners.
  throwIf (o.runtime = .pi ∧ c.linked = true ∧ (s.leaseAt (otherLease slot)).isSome = true)
    (.rejected "malformed" "retained legacy owner evidence blocks a second source/check holder")
  let borrower := acquisitionBorrower c host o s
  throwIf (borrower.state = .live)
    (.rejected "live" "a process-verified live borrower retains repository authority")
  throwIf (inspection.state ≠ .absent ∧ (o.runtime = .pi ∨ o.force = false))
    (.rejected inspection.state.text inspection.reason)
  throwIf (borrower.state ≠ .absent ∧ (o.runtime = .pi ∨ o.force = false))
    (.rejected borrower.state.text ("borrower evidence is " ++ borrower.state.text))

/-- Quarantine: the evidence leaves its path and keeps its bytes elsewhere. -/
def quarantineEvidence (o : AcquireRepositoryMutationLeaseOptions) (s : State) : State :=
  let s' := if (acquisitionBorrower c host o s).state ≠ .absent then { s with borrower := none } else s
  s'.putLease (c.leaseFile (classifyRepositoryMutationSlot o.mode)) none

/-- `acquireRepositoryMutationLease`. -/
def acquireRepositoryMutationLease (o : AcquireRepositoryMutationLeaseOptions) :
    Op RepositoryMutationLease := do
  liftM (assertExpectedGitIdentity host o.expectedGitDir o.expectedGitCommonDir)
  let s ← get
  failIf (settlementPending s = true) (.rejected "malformed"
    "unresolved terminal settlement blocks new ownership, including force")
  failIf (s.review.isSome = true) (.rejected "live"
    "read-only review reservation blocks new builder ownership, including force requests")
  let snapshot ← liftM (snapshotOr c host o.gitSnapshot)
  failIf (o.launchMode = some .background ∧ snapshot.dirty = true ∧ c.linked = false)
    (.rejected "dirty-background" snapshot.statusSummary)
  liftM (acquisitionRefusals c host o s)
  set (quarantineEvidence c host o s)
  let fingerprint ← demand (verifiedFingerprint host o.pid o.processFingerprint)
    (.thrown "repository-admission: cannot verify process start fingerprint")
  let slot := classifyRepositoryMutationSlot o.mode
  let lease ← liftM (acquiredLease c host o slot fingerprint snapshot)
  liftM (assertLease c.sha256 lease)
  publishLeaseExclusive host (c.leaseFile slot) lease
  return lease

/-! ## Holders of a lease -/

structure LeaseHolderOptions where
  slot : Option RepositoryMutationSlot
  ownershipToken : String

/-- The file that a holder names. -/
def holderFile (slot : Option RepositoryMutationSlot) : LeaseFile :=
  c.leaseFile (slot.getD .orchestrator)

/-- The lease of this checkout in the file that a holder names. -/
def ownLease (s : State) (o : LeaseHolderOptions) : Except Refusal RepositoryMutationLease :=
  match readValidLeaseUnlocked s (holderFile c o.slot) with
  | .absent => .error (.status "absent")
  | .invalid => .error (.status "invalid-evidence")
  | .found l =>
    if l.canonicalRepoRoot ≠ c.root ∨ l.worktree c.root ≠ c.worktree then
      .error (.status "invalid-evidence")
    else .ok l

/-- The lease of a holder that presents its token. -/
def heldLease (s : State) (o : LeaseHolderOptions) : Except Refusal RepositoryMutationLease := do
  let l ← ownLease c s o
  throwIf (l.ownershipToken ≠ o.ownershipToken) (.status "token-mismatch")
  return l

/-- `updateRepositoryMutationLeaseGitSnapshot`. -/
def updateRepositoryMutationLeaseGitSnapshot (o : LeaseHolderOptions)
    (gitSnapshot : RepositoryGitSnapshot) : Op PUnit := do
  let s ← get
  let lease ← liftM (ownLease c s o)
  failIf (isGitSnapshot c.sha256 gitSnapshot = false) (.status "invalid-evidence")
  failIf (lease.ownershipToken ≠ o.ownershipToken) (.status "token-mismatch")
  replaceLeaseAtomic c host (holderFile c o.slot)
    { lease with authorityGitSnapshot := some gitSnapshot, authorityUpdatedAt := some host.now }

/-- `transferRepositoryMutationLease`. -/
def transferRepositoryMutationLease (o : LeaseHolderOptions) (gitDir gitCommonDir : Option String)
    (next : ProcessFingerprint) : Op PUnit := do
  tryCatch (liftM (assertExpectedGitIdentity host gitDir gitCommonDir))
    fun _ => throw (.status "invalid-evidence")
  let s ← get
  let lease ← liftM (heldLease c s o)
  failIf (¬ (isFingerprint next = true ∧
    fingerprintsEqual next (host.getProcessFingerprint next.pid) = true)) (.status "invalid-evidence")
  replaceLeaseAtomic c host (holderFile c o.slot) { lease with processFingerprint := next }

/-- `REPOSITORY_DIRTY_BORROW_APPROVAL_FILE` in a deployment directory. -/
def repositoryDirtyBorrowApprovalPath (directory : String) : Except Refusal String :=
  (assertCanonicalRoot directory).map fun d =>
    if d = "/" then "/repository-dirty-borrow.approval.json"
    else d ++ "/repository-dirty-borrow.approval.json"

/-- `existsSync` and `unlinkSync` of an approval. -/
def consumeApproval (path : String) : Op PUnit := do
  let s ← get
  match readValidApprovalUnlocked s path with
  | .absent => pure ⟨⟩
  | _ => set (s.putApproval path none)

/-- `releaseRepositoryMutationLease`. -/
def releaseRepositoryMutationLease (o : LeaseHolderOptions) : Op PUnit := do
  let s ← get
  let lease ← liftM (heldLease c s o)
  failIf (lease.directExecutionCustody = some .active ∨ lease.advisoryOperation.isSome = true)
    (.status "invalid-evidence")
  let borrower := if holderFile c o.slot = .implement then .absent
    else (inspectBorrowerUnlocked c host s.borrower).state
  failIf (borrower = .live) (.status "borrower-live")
  -- Only matching borrower finalization may close child custody. Parent exit,
  -- force and PID death are not permission to erase unresolved child evidence.
  failIf (borrower ≠ .absent) (.status "borrower-invalid")
  let path ← liftM (repositoryDirtyBorrowApprovalPath lease.deploymentDirectory)
  consumeApproval path
  modify (·.putLease (holderFile c o.slot) none)

/-- `REPOSITORY_BORROWER_CLEANUP_MS`. -/
def repositoryBorrowerCleanupMs : ℤ := 5000

/-- The time that a parent still waits for a live borrower. -/
def remainingWait (b : RepositoryMutationBorrower) (startedAt : ℤ) : Option ℤ :=
  (dateParse b.registeredAt).map fun admittedAt =>
    let maximumWait := b.timeoutSeconds * 1000 + repositoryBorrowerCleanupMs
    min (admittedAt + maximumWait) (startedAt + maximumWait) - host.nowMs

end

section
variable (c : Checkout)

/-- The loop of `finalizeRepositoryMutationLease`: one look at the borrower for
    each moment that it wakes up in. -/
def awaitBorrower (o : LeaseHolderOptions) (parentDeploymentId : String) (startedAt : ℤ) :
    List Host → Op PUnit
  | [] => throw (.status "waiting")
  | host :: hosts => do
    let s ← get
    let inspection := inspectBorrowerUnlocked c host s.borrower
    if o.slot = some .implement ∨ inspection.state ≠ .live then
      releaseRepositoryMutationLease c host o
    else
      failIf (inspection.record.all (fun b => b.parentDeploymentId != parentDeploymentId) = true)
        (.status "borrower-live")
      failIf ((inspection.record.bind fun b => remainingWait host b startedAt).all (· ≤ 0) = true)
        (.status "borrower-live")
      awaitBorrower o parentDeploymentId startedAt hosts

/-- `finalizeRepositoryMutationLease`, which wakes up in the moments `hosts` after
    it starts in `host`. -/
def finalizeRepositoryMutationLease (host : Host) (hosts : List Host) (o : LeaseHolderOptions) :
    Op PUnit := do
  let s ← get
  let owner := inspectLeaseUnlocked c host (s.leaseAt (holderFile c o.slot))
  failIf (owner.state = .absent) (.status "absent")
  let lease ← demand (owner.record.filter fun l => l.canonicalRepoRoot = c.root)
    (.status "invalid-evidence")
  failIf (secureStringsEqual lease.ownershipToken o.ownershipToken = false) (.status "token-mismatch")
  awaitBorrower c o lease.deploymentId host.nowMs (host :: hosts)

end

section
variable (c : Checkout) (host : Host)

/-- `quarantineRepositoryMutationLease`: it acts on the primary worktree. -/
def quarantineRepositoryMutationLease (expectedEvidenceIdentity : String) : Op PUnit := do
  failIf (c.linked = true) (.thrown "another worktree")
  let s ← get
  failIf (settlementPending s = true) (.rejected "malformed" "unresolved settlement blocks quarantine")
  let inspection := inspectLeaseUnlocked c host s.lease
  failIf (inspection.state = .absent) (.rejected "absent" "ownership evidence no longer exists.")
  failIf (inspection.state = .live) (.rejected "live" inspection.reason)
  failIf (inspection.record.map (·.runtime) ≠ some "opencode") (.rejected inspection.state.text
    "legacy or uncertain ownership requires matching terminal proof, not quarantine")
  failIf (inspection.evidenceIdentity ≠ some expectedEvidenceIdentity) (.rejected "identity-mismatch"
    "ownership evidence changed after inspection. Re-inspect before retrying; replacement evidence was preserved.")
  modify fun s => { s with lease := none }

/-! ## Advisory operations -/

/-- What a native deployment start says. -/
structure AdvisoryStart where
  team : String
  mode : Option String
  runtime : String
  repoRoot : String
  worktreeRoot : String
  ticketId : Option String
  ticketSlotId : Option String
  repositoryPermit : Option Permit

/-- What the registry projects of a deployment. -/
structure AdvisoryStatus where
  running : Bool
  pid : Option ℤ
  team : String
  runtime : String
  repoRoot : String
  worktreeRoot : String

/-- The ticket slot that is observed under capacity. -/
structure AdvisorySlot where
  deploymentId : String
  slotId : String
  repositoryPermit : Permit
  processFingerprint : ProcessFingerprint

/-- An `AdvisoryRepositoryContext` of this worktree, with what is read for it:
    `readAdvisoryStart`, the registry status and the ticket slot. -/
structure AdvisoryContext where
  deploymentId : String
  start : Option AdvisoryStart
  status : Option AdvisoryStatus
  capacity : Option AdvisorySlot

/-- The start of a caller that may be the advisory owner. -/
def advisoryStart (context : AdvisoryContext) : Except Refusal AdvisoryStart :=
  require (context.start.filter fun start => decide (start.team = "builder" ∧
    start.repoRoot = c.root ∧ start.worktreeRoot = c.worktree)) (.thrown "ADVISORY_CALLER_UNPROVEN")

/-- The process that calls descends from `ancestor`. -/
def descends (ancestor : ProcessFingerprint) : Bool := host.isProcessInLineage host.pid ancestor

/-- The registry projects the caller as running. -/
def advisoryProven (start : AdvisoryStart) (status : AdvisoryStatus) : Bool :=
  status.running && ((status.pid.bind host.getProcessFingerprint).any (descends host)) &&
    status.repoRoot == c.root && status.worktreeRoot == c.worktree && status.team == start.team &&
    status.runtime == start.runtime

/-- The lease that `withAdvisoryRepositoryOwner` authenticates. -/
def withAdvisoryRepositoryOwner (context : AdvisoryContext) : Op RepositoryMutationLease := do
  let start ← liftM (advisoryStart c context)
  let slot := classifyRepositoryMutationSlot (start.mode.getD "")
  failIf (context.status.all (fun status => !advisoryProven c host start status) = true)
    (.thrown "ADVISORY_CALLER_UNPROVEN")
  let s ← get
  let inspection := inspectLeaseUnlocked c host (s.leaseAt (c.leaseFile slot))
  failIf (inspection.state ≠ .live) (.thrown "ADVISORY_WRITER_CONFLICT")
  let lease ← demand inspection.record (.thrown "ADVISORY_WRITER_CONFLICT")
  failIf (¬ (lease.deploymentId = context.deploymentId ∧ lease.runtime = start.runtime ∧
      lease.team = some "builder" ∧ some lease.mode = start.mode ∧
      lease.worktreeRoot.getD lease.canonicalRepoRoot = c.worktree ∧
      descends host lease.processFingerprint = true ∧ settlementPending s = false))
    (.thrown "ADVISORY_WRITER_CONFLICT")
  liftM (assertExpectedGitIdentity host lease.repositoryGitDir lease.repositoryGitCommonDir)
  failIf (lease.repositoryMetadataIdentity.isSome = true ∧ lease.repositoryMetadataIdentity ≠
      host.physicalGitCommonDir.bind (host.metadataIdentity c.gitDir)) (.thrown "ADVISORY_IDENTITY_CHANGED")
  failIf (s.borrower.isSome = true ∨ s.review.isSome = true ∨
      (c.linked = true ∧ (s.leaseAt (otherLease slot)).isSome = true))
    (.thrown "ADVISORY_WRITER_CONFLICT")
  failIf (start.runtime = "pi" ∧ (Registry.optionalString start.ticketId).isSome = true ∧
      ¬ context.capacity.any (fun slot => decide (slot.deploymentId = context.deploymentId ∧
        some slot.slotId = start.ticketSlotId ∧ some slot.repositoryPermit = start.repositoryPermit ∧
        descends host slot.processFingerprint = true)) = true) (.thrown "ADVISORY_CAPACITY_UNPROVEN")
  return lease

/-- `beginAdvisoryRepositoryOperation`. -/
def beginAdvisoryRepositoryOperation (context : AdvisoryContext) (id inputSha256 intentRef : String) :
    Op PUnit := do
  let lease ← withAdvisoryRepositoryOwner c host context
  let caller ← demand (host.getProcessFingerprint host.pid) (.thrown "ADVISORY_OPERATION_CONFLICT")
  let next : AdvisoryOperation := ⟨id, caller, inputSha256, intentRef⟩
  failIf (isAdvisoryOperation next = false ∨ lease.advisoryOperation.isSome = true ∨
    lease.directExecutionCustody = some .active) (.thrown "ADVISORY_OPERATION_CONFLICT")
  let current ← liftM (captureRepositoryGitSnapshot c.sha256 host.git)
  failIf (current.branch ≠ lease.preLaunchGitSnapshot.branch) (.thrown "ADVISORY_CHECKOUT_CHANGED")
  -- The file is that of the mode in the lease.
  replaceLeaseAtomic c host (c.leaseFile (classifyRepositoryMutationSlot lease.mode))
    { lease with directExecutionCustody := some .active, advisoryOperation := some next }

/-- `finishAdvisoryRepositoryOperation`. -/
def finishAdvisoryRepositoryOperation (context : AdvisoryContext) (operationId : String)
    (settled : Bool) : Op PUnit := do
  let lease ← withAdvisoryRepositoryOwner c host context
  failIf (lease.advisoryOperation.all (fun a => decide (a.id ≠ operationId) ||
      !fingerprintsEqual a.caller (host.getProcessFingerprint host.pid)) = true)
    (.thrown "ADVISORY_OPERATION_CONFLICT")
  -- Uncertain effects retain the conflicting writer barrier.
  if settled = false then pure ⟨⟩ else
  let next ← liftM (captureRepositoryGitSnapshot c.sha256 host.git)
  failIf (next.branch ≠ lease.preLaunchGitSnapshot.branch) (.thrown "ADVISORY_CHECKOUT_CHANGED")
  replaceLeaseAtomic c host (c.leaseFile (classifyRepositoryMutationSlot lease.mode))
    { lease with
      advisoryOperation := none
      directExecutionCustody := some .idle
      authorityGitSnapshot := some next
      authorityUpdatedAt := some host.now }

/-! ## Direct execution -/

/-- `[borrower, implement lease, review reservation]`: one of them is present. -/
def overlappingCustody (s : State) : Bool :=
  s.borrower.isSome || s.implement.isSome || s.review.isSome

structure DirectCustodyInput where
  deploymentId : String
  ownershipToken : String

/-- The live Pi orchestrator lease of a direct owner. -/
def directLease (s : State) (input : DirectCustodyInput) : Option RepositoryMutationLease :=
  let inspection := inspectLeaseUnlocked c host s.lease
  (inspection.record.filter fun _ => inspection.state == .live).filter fun l =>
    decide (l.deploymentId = input.deploymentId ∧ l.runtime = "pi" ∧ l.mode = "orchestrator" ∧
      secureStringsEqual l.ownershipToken input.ownershipToken = true ∧
      host.isDeploymentRunning input.deploymentId = true)

/-- `withExecutionWorktreeAdmission` is for linked worktrees. -/
def executionWorktree : Except Refusal Unit :=
  throwIf (c.linked = false) (.thrown "native execution requires the exact linked repository")

/-- `setDirectCustody`. -/
def setDirectCustody (input : DirectCustodyInput) (custody : DirectExecutionCustody) : Op PUnit := do
  liftM (executionWorktree c)
  let s ← get
  failIf (settlementPending s = true) (.thrown "native custody transaction is unavailable")
  liftM (assertExpectedGitIdentity host (some c.gitDir) host.physicalGitCommonDir)
  let lease ← demand (directLease c host s input) (.thrown "native custody identity conflicts")
  failIf (overlappingCustody s = true) (.thrown "native custody overlaps retained evidence")
  if lease.directExecutionCustody = some custody then pure ⟨⟩
  else replaceLeaseAtomic c host .lease { lease with directExecutionCustody := some custody }

/-- What `authenticateNativeExecutionRestart` returns for a source, with its
    binding. -/
structure NativeRestart where
  repoKey : String
  repoRoot : String
  worktreeRoot : String
  ticket : String
  branch : String
  previousDeploymentId : String
  actorDeploymentId : String
  actorProcess : ProcessFingerprint
  deploymentDirectory : String
  candidateSha : String
  custody : DirectExecutionCustody

/-- `assertNativeRestartProcessDead`. -/
def nativeRestartProcessDead (previous : ProcessFingerprint) : Bool :=
  match host.getProcessFingerprint previous.pid with
  | some current => current != previous
  | none => !host.isProcessAlive previous.pid

/-- The physical owner identity that a restart expects. -/
def restartIdentity (expected : RepositoryMutationLease) (native : NativeRestart) : Prop :=
  native.repoRoot = c.root ∧ native.worktreeRoot = c.worktree ∧
    expected.canonicalRepoRoot = c.root ∧ expected.canonicalRepoKey = native.repoKey ∧
    expected.worktreeRoot = some c.worktree ∧ expected.ticket = some native.ticket ∧
    expected.deploymentId = native.previousDeploymentId ∧ expected.runtime = "pi" ∧
    expected.team = some "builder" ∧ expected.mode = "orchestrator" ∧
    expected.slot = some .orchestrator ∧ expected.directExecutionCustody = some native.custody ∧
    expected.repositoryGitDir = some c.gitDir ∧
    expected.repositoryGitCommonDir = host.physicalGitCommonDir ∧
    expected.repositoryMetadataIdentity.isSome = true ∧
    expected.repositoryMetadataIdentity =
      host.physicalGitCommonDir.bind (host.metadataIdentity c.gitDir)

instance (expected : RepositoryMutationLease) (native : NativeRestart) :
    Decidable (restartIdentity c host expected native) := by
  unfold restartIdentity; infer_instance

/-- `handoffDirectOwner`. -/
def handoffDirectOwner (expected : RepositoryMutationLease) (source : Option NativeRestart) :
    Op PUnit := do
  liftM (executionWorktree c)
  let s ← get
  failIf (settlementPending s = true) (.thrown "native restart worktree transaction unavailable")
  let native ← demand source (.thrown "workflow")
  liftM (assertExpectedGitIdentity host (some c.gitDir) host.physicalGitCommonDir)
  failIf (¬ restartIdentity c host expected native)
    (.thrown "native restart physical owner identity conflicts")
  failIf (nativeRestartProcessDead host expected.processFingerprint = false) (.thrown "workflow")
  failIf (overlappingCustody s = true) (.thrown "native restart overlaps retained custody")
  let snapshot ← liftM (captureRepositoryGitSnapshot c.sha256 host.git)
  failIf (snapshot.dirty = true ∨ snapshot.branch ≠ native.branch ∨ snapshot.head ≠ native.candidateSha ∨
    snapshot ≠ expected.authority) (.thrown "native restart snapshot is unknown or changed")
  let next := { expected with
    deploymentId := native.actorDeploymentId
    deploymentDirectory := native.deploymentDirectory
    processFingerprint := native.actorProcess }
  match readValidLeaseUnlocked s .lease with
  | .found current =>
    failIf (current ≠ expected ∧ current ≠ next)
      (.thrown "native restart owner compare-and-swap failed")
    if current = next then pure ⟨⟩ else replaceLeaseAtomic c host .lease next
  | _ => throw (.thrown "native restart owner compare-and-swap failed")

/-- A transaction of the registry; a failed one changes nothing. -/
def publishToRegistry
    (transaction : Registry.Database → Registry.Result Registry.Database) : Op PUnit := do
  failIf (host.registryFault = true) (.thrown "registry")
  let s ← get
  match transaction s.registry with
  | .error _ => throw (.thrown "registry")
  | .ok db => set { s with registry := db }

/-- `advanceDirectSnapshot`: the lease is replaced before the registry advances. -/
def advanceDirectSnapshot (input : DirectCustodyInput) (expected next : RepositoryGitSnapshot) :
    Op PUnit := do
  liftM (executionWorktree c)
  let s ← get
  failIf (settlementPending s = true)
    (.thrown "unresolved settlement blocks direct authority advancement")
  liftM (assertExpectedGitIdentity host (some c.gitDir) host.physicalGitCommonDir)
  let lease ← demand (directLease c host s input) (.thrown "native direct settlement identity conflicts")
  failIf (isCompleteGitSnapshot c.sha256 next = false ∨ lease.authority ≠ expected ∨
    next.branch ≠ expected.branch) (.thrown "native direct settlement identity conflicts")
  failIf (overlappingCustody s = true) (.thrown "native direct settlement has overlapping custody")
  let current ← liftM (captureRepositoryGitSnapshot c.sha256 host.git)
  failIf (current ≠ next) (.thrown "native direct settlement Git drift")
  failIf (host.git.isAncestor expected.head next.head = false) (.thrown "git merge-base")
  replaceLeaseAtomic c host .lease { lease with
    authorityGitSnapshot := some next
    authorityUpdatedAt := some host.now
    authorityChildDeploymentId := none }
  publishToRegistry host fun db => do
    let ticket ← require lease.ticket Registry.directConflict
    Registry.advanceDirectAuthoritySnapshot c.dates db host.environment {
      deploymentId := input.deploymentId
      repoRoot := c.root
      worktreeRoot := c.worktree
      ticket
      expectedBranchHeadSha := expected.head
      branchHeadSha := next.head
      timestamp := some host.now }

end

end PaPlatform.Admission
