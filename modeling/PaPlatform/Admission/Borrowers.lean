/-
  The operations on borrowers and dirty approvals of
  `deploy/repository-admission.ts`.
-/
import PaPlatform.Admission.Owners

namespace PaPlatform.Admission

open Js Guard Effect
open Capacity (ProcessFingerprint bounded isFingerprint fingerprintsEqual)

section
variable (c : Checkout) (host : Host)

/-! ## Writing borrowers -/

def writtenBorrower (b : RepositoryMutationBorrower) : Evidence RepositoryMutationBorrower :=
  .written host.identity (prettyBytes b.toJson) b

/-- `replaceBorrowerAtomic`. -/
def replaceBorrowerAtomic (b : RepositoryMutationBorrower) : Op PUnit := do
  liftM (assertBorrower c.sha256 b)
  modify fun s => { s with borrower := some (writtenBorrower host b) }

/-- `publishBorrowerExclusive`. -/
def publishBorrowerExclusive (b : RepositoryMutationBorrower) : Op PUnit := do
  let s ← get
  failIf (s.borrower.isSome = true) (.thrown "EEXIST")
  set { s with borrower := some (writtenBorrower host b) }

/-- `replaceEvidenceBytesAtomic`: the same bytes in a new file. -/
def rewritten {α : Type} (e : Evidence α) : Evidence α :=
  { e with regular := true, links := 1, guarded := true, owned := true, identity := host.identity }

/-! ## Approvals -/

/-- `validateRepositoryDirtyBorrowScope`: the paths that a dirty borrow may
    change. -/
def validateRepositoryDirtyBorrowScope (snapshot : RepositoryGitSnapshot)
    (classifications : List RepositoryDirtyBorrowClassification) (plannedNewPaths : List String) :
    Except Refusal (List String) := do
  throwIf (isCompleteGitSnapshot c.sha256 snapshot = false ∨ snapshot.dirty = false)
    (.thrown "dirty-borrow-approval: a complete dirty porcelain-v2 snapshot is required")
  let entries := snapshot.statusEntries.getD []
  throwIf (classifications.length ≠ entries.length)
    (.thrown "dirty-borrow-approval: exactly one classification is required for every status record")
  let classified ← classifications.foldlM (fun classified item => do
    throwIf (validRepositoryRelativePath item.path = false ∨ host.hasSymlinkTraversal item.path = true)
      (.thrown "dirty-borrow-approval: every classification must name one exact repository-relative active-ticket path")
    throwIf (item.path ∈ classified)
      (.thrown "dirty-borrow-approval: duplicate classifications are forbidden")
    return classified ++ [item.path]) []
  let current ← entries.foldlM (fun current e => do
    throwIf (e.path ∉ classified)
      (.thrown "dirty-borrow-approval: classification path set does not exactly match the status records")
    throwIf (host.hasSymlinkTraversal e.path = true ∨
        e.source.any (fun source => host.hasSymlinkTraversal source.1) = true)
      (.thrown "dirty-borrow-approval: symlinked current paths cannot receive mutation authority")
    return current ++ e.path :: (e.source.map (·.1)).toList) []
  throwIf (classified.length ≠ entries.length)
    (.thrown "dirty-borrow-approval: unrelated classifications are forbidden")
  let planned ← plannedNewPaths.foldlM (fun planned path => do
    throwIf (validRepositoryRelativePath path = false ∨ containsGlobSyntax path = true ∨
        path ∈ current ∨ host.pathEntryExists path = true ∨ host.hasSymlinkTraversal path = true)
      (.thrown "dirty-borrow-approval: planned new paths must be unique, nonexistent, exact repository-relative paths without glob syntax")
    throwIf (path ∈ planned)
      (.thrown "dirty-borrow-approval: duplicate planned new paths are forbidden")
    return planned ++ [path]) []
  return sortStrings (current ++ planned).eraseDups

/-- The owner that an approval names is the live lease. -/
def approvalOwner (a : RepositoryDirtyBorrowApproval) (s : State) : Prop :=
  let inspection := inspectLeaseUnlocked c host s.lease
  inspection.state = .live ∧
    inspection.record.any (fun l => decide (l.deploymentId = a.parentDeploymentId ∧
      l.deploymentDirectory = a.parentDeploymentDirectory ∧ l.runtime = "pi" ∧
      l.mode = "orchestrator" ∧ normalizedTeam (l.team.getD "") = "builder" ∧
      l.launchMode = some .foreground ∧ l.canonicalRepoKey = a.canonicalRepoKey ∧
      l.worktree c.root = c.worktree ∧ l.processFingerprint = a.parentProcessFingerprint)) = true ∧
    inspection.evidenceIdentity = some a.parentLeaseEvidenceIdentity ∧
    host.isDeploymentRunning a.parentDeploymentId = true

instance (a : RepositoryDirtyBorrowApproval) (s : State) : Decidable (approvalOwner c host a s) := by
  unfold approvalOwner; infer_instance

/-- `publishRepositoryDirtyBorrowApproval`. -/
def publishRepositoryDirtyBorrowApproval (a : RepositoryDirtyBorrowApproval) : Op PUnit := do
  failIf (a.canonicalRepoRoot ≠ c.root ∨ a.worktreeRoot.getD c.root ≠ c.worktree)
    (.thrown "another worktree")
  let path ← liftM (repositoryDirtyBorrowApprovalPath a.parentDeploymentDirectory)
  let s ← get
  failIf (settlementPending s = true) (.thrown "unresolved settlement blocks fresh dirty approval")
  failIf (isRepositoryDirtyBorrowApproval c.sha256 a = false)
    (.thrown "dirty-borrow-approval: generated receipt is invalid or incomplete")
  let _ ← liftM (validateRepositoryDirtyBorrowScope c host a.snapshot a.classifications a.plannedNewPaths)
  failIf (¬ approvalOwner c host a s) (.thrown
    "dirty-borrow-approval: parent owner identity is not process-verified and registry-running")
  failIf (maxRepositoryLeaseBytes < prettyBytes a.toJson)
    (.thrown "dirty-borrow-approval: receipt exceeds 65536 bytes")
  failIf ((s.approval path).isSome = true) (.thrown "EEXIST")
  set (s.putApproval path (some (.written host.identity (prettyBytes a.toJson) a)))

/-- `removeRepositoryDirtyBorrowApproval`. -/
def removeRepositoryDirtyBorrowApproval (path receiptId : String) : Op PUnit := do
  let s ← get
  failIf (settlementPending s = true) (.status "replacement-preserved")
  match readValidApprovalUnlocked s path with
  | .absent => throw (.status "absent")
  | .invalid => throw (.status "replacement-preserved")
  | .found a =>
    failIf (a.canonicalRepoRoot ≠ c.root ∨ a.worktreeRoot.getD c.root ≠ c.worktree ∨
      secureStringsEqual a.receiptId receiptId = false) (.status "replacement-preserved")
    set (s.putApproval path none)

/-! ## Registration -/

structure RegisterRepositoryMutationBorrowerOptions where
  capability : Option String
  canonicalRepoKey : String
  expectedGitDir : Option String
  expectedGitCommonDir : Option String
  parentDeploymentId : String
  deploymentId : String
  deploymentDirectory : String
  runtime : RuntimeName
  team : String
  mode : String
  launchMode : RepositoryAdmissionLaunchMode
  ticket : String
  branch : String
  timeoutSeconds : ℤ
  pid : Option ℤ
  processFingerprint : Option ProcessFingerprint
  expectedGitSnapshot : Option RepositoryGitSnapshot
  gitSnapshot : Option RepositoryGitSnapshot
  settlementMutationPaths : Option (List String)
  dirtyApprovalPath : Option String
  branchTransitionPolicy : Option RepositoryBranchTransitionPolicy
  /-- `afterParentSnapshotReplacement` throws. -/
  faultAfterParentSnapshotReplacement : Bool

/-- `validateBranchTransition`: why the transition is refused. -/
def validateBranchTransition (lease : RepositoryMutationLease)
    (o : RegisterRepositoryMutationBorrowerOptions) (snapshot : RepositoryGitSnapshot) :
    Except String Unit := do
  throwIf (c.linked = true)
    "branch reconciliation is allowed only in the registered primary repository root"
  throwIf (lease.launchMode ≠ some .foreground)
    "branch reconciliation requires the foreground Pi builder/orchestrator parent"
  throwIf (lease.branchTransitioned = true)
    "the parent has already consumed its one-way branch transition"
  throwIf ((Registry.optionalString lease.ticket).isNone = true ∨ lease.ticket ≠ some o.ticket)
    "parent and child must be bound to the same exact ticket"
  throwIf ((Registry.optionalString lease.repositoryGitDir).isNone = true ∨
      (Registry.optionalString lease.repositoryGitCommonDir).isNone = true ∨
      lease.repositoryGitDir ≠ o.expectedGitDir ∨ lease.repositoryGitCommonDir ≠ o.expectedGitCommonDir)
    "the parent launch Git directory or common-directory identity is absent or changed"
  let stale :=
    "execution-repository and ticket-project branch policy evidence is absent, stale, or inconsistent"
  let policy ← require (lease.branchTransitionPolicy.filter isBranchTransitionPolicy) stale
  throwIf (o.branchTransitionPolicy ≠ some policy) stale
  throwIf (isCompleteGitSnapshot c.sha256 lease.preLaunchGitSnapshot = false ∨
      lease.preLaunchGitSnapshot.dirty = true ∨
      lease.preLaunchGitSnapshot.branch ≠ policy.developBranch)
    "the parent did not launch from a complete clean configured develop snapshot"
  throwIf (lease.initialDevelopRemoteHead.any (hexOk 40) = false ∨
      lease.initialDevelopRemoteHead ≠ some lease.preLaunchGitSnapshot.head)
    "the immutable launch-time origin develop HEAD is absent, malformed, or not synchronized with the initial develop HEAD"
  throwIf (isCompleteGitSnapshot c.sha256 snapshot = false ∨ snapshot.dirty = true)
    "the current ticket branch is not a complete clean Git snapshot"
  throwIf (o.expectedGitSnapshot.any (isCompleteGitSnapshot c.sha256) = false ∨
      o.expectedGitSnapshot ≠ some snapshot)
    "the immediate child-plan snapshot is absent, malformed, or stale"
  throwIf (hexOk 40 lease.preLaunchGitSnapshot.head = false ∨ hexOk 40 snapshot.head = false)
    "the initial or current HEAD is not an exact 40-lowercase-hex commit"
  throwIf (branchMatchesTicketPolicy snapshot.branch o.ticket (some policy) = false)
    "the current branch does not satisfy the exact ticket under both configured feature-branch patterns"
  let remote ← require (host.git.remoteHead policy.developBranch)
    "the local origin develop reference is absent or unreadable; admission performs no network access"
  throwIf (hexOk 40 (Registry.trim remote) = false ∨
      some (Registry.trim remote) ≠ lease.initialDevelopRemoteHead)
    "the local origin develop reference changed after the synchronized parent launch"

/-- The parent lease of a registration, and the identity of its file. -/
def parentOf (s : State) (o : RegisterRepositoryMutationBorrowerOptions) :
    Except Refusal (RepositoryMutationLease × Option String) := do
  let inspection := inspectLeaseUnlocked c host s.lease
  let lease ← require (inspection.record.filter fun _ => inspection.state == .live)
    (.rejected "parent-state" "the claimed parent lease is not process-verified live version 1 evidence")
  throwIf (host.isDeploymentRunning lease.deploymentId = false)
    (.rejected "parent-registry" "the claimed parent deployment is not registry-running")
  throwIf (lease.runtime ≠ "pi" ∨ lease.mode ≠ "orchestrator" ∨
      lease.team.any (fun team => normalizedTeam team != "builder") = true)
    (.rejected "parent-identity" "the live owner is not a Pi builder/orchestrator parent")
  throwIf (lease.deploymentId ≠ o.parentDeploymentId)
    (.rejected "parent-identity" "the claimed parent deployment does not own the live lease")
  throwIf (lease.canonicalRepoKey ≠ o.canonicalRepoKey ∨ lease.canonicalRepoRoot ≠ c.root ∨
      lease.worktree c.root ≠ c.worktree)
    (.rejected "repository-identity"
      "the claimed canonical repository or execution worktree does not match the parent lease")
  return (lease, inspection.evidenceIdentity)

/-- The process of a child that is authenticated for the parent lease. -/
def authenticatedChild (lease : RepositoryMutationLease)
    (o : RegisterRepositoryMutationBorrowerOptions) : Except Refusal ProcessFingerprint := do
  let fingerprint ← require (verifiedFingerprint host o.pid o.processFingerprint)
    (.rejected "child-process"
      "the registering child launch process fingerprint could not be verified")
  match o.capability with
  | some capability =>
    throwIf (¬ (capability.utf8ByteSize ≤ maxRepositoryLeaseBytes ∧
        secureStringsEqual lease.ownershipToken capability = true))
      (.rejected "capability" "the private parent capability is malformed or did not authenticate")
  | none =>
    throwIf (host.isProcessInLineage (o.pid.getD host.pid) lease.processFingerprint = false)
      (.rejected "parent-lineage"
        "the registering process is not within the process-verified parent launcher lineage")
  return fingerprint

/-- The child changes the branch of its parent. -/
def branchChanged (lease : RepositoryMutationLease) (o : RegisterRepositoryMutationBorrowerOptions) :
    Bool :=
  o.branch != lease.authority.branch

/-- The identity of the child, its ticket, branch and timeout. -/
def checkChild (lease : RepositoryMutationLease) (o : RegisterRepositoryMutationBorrowerOptions) :
    Except Refusal Unit := do
  throwIf (o.deploymentId = lease.deploymentId)
    (.rejected "child-identity" "a parent cannot borrow its own lease")
  throwIf (o.runtime ≠ .pi ∨ normalizedTeam o.team ≠ "builder" ∨ o.mode ≠ "implement" ∨
      o.launchMode ≠ .background)
    (.rejected "launch-mode"
      "only a background Pi builder/implement direct child may borrow authority")
  throwIf (blank o.ticket = true ∨ lease.ticket.any (fun ticket => ticket != o.ticket) = true)
    (.rejected "child-context" "the child ticket must exactly match the parent ticket authority")
  throwIf (lease.branchTransitionPolicy.any (fun policy => o.branchTransitionPolicy != some policy) =
      true)
    (.rejected "child-context"
      "the current ticket and repository branch policy does not match the immutable parent policy")
  throwIf (branchChanged lease o = false ∧ branchMatchesTicketPolicy o.branch o.ticket
      (o.branchTransitionPolicy.or lease.branchTransitionPolicy) = false)
    (.rejected "child-context"
      "ticket and exact linked feature branch must match the parent launch snapshot and configured branch policy")
  throwIf (¬ (minBorrowerTimeoutSeconds ≤ o.timeoutSeconds ∧ o.timeoutSeconds ≤ maxBorrowerTimeoutSeconds))
    (.rejected "child-timeout"
      "the child timeout must be an integer from 60 through 7200 seconds")

/-- The expected snapshot of the plan is the one that is read. -/
def matchesExpected (o : RegisterRepositoryMutationBorrowerOptions) (snapshot : RepositoryGitSnapshot) :
    Bool :=
  o.expectedGitSnapshot.all fun expected => isGitSnapshot c.sha256 expected && expected == snapshot

/-- The launch snapshot of the child. -/
def launchSnapshot (lease : RepositoryMutationLease) (o : RegisterRepositoryMutationBorrowerOptions) :
    Except Refusal RepositoryGitSnapshot := do
  let snapshot ← snapshotOr c host o.gitSnapshot
  throwIf (isGitSnapshot c.sha256 snapshot = false)
    (.rejected "git-state" "the mutex-held Git snapshot is malformed")
  throwIf (snapshot.dirty = false ∧ matchesExpected c o snapshot = false)
    (.rejected "launch-snapshot"
      "the mutex-held child launch Git snapshot does not exactly match its immediate immutable reread")
  throwIf (snapshot.dirty = false ∧ snapshot.branch ≠ o.branch)
    (.rejected "launch-snapshot"
      "the child launch Git branch does not exactly match the requested branch")
  if branchChanged lease o = true then
    (validateBranchTransition c host lease o snapshot).mapError (.rejected "branch-transition")
  else
    throwIf (snapshot.dirty = false ∧ lease.authority ≠ snapshot)
      (.rejected "parent-authority-snapshot"
        "the child launch snapshot does not match the live parent's current authority snapshot")
  return snapshot

/-- The consumed approval matches the parent, the child and the snapshot. -/
def approvalMatches (a : RepositoryDirtyBorrowApproval) (lease : RepositoryMutationLease)
    (identity : Option String) (o : RegisterRepositoryMutationBorrowerOptions)
    (snapshot : RepositoryGitSnapshot) : Prop :=
  a.parentDeploymentId = lease.deploymentId ∧ a.parentDeploymentDirectory = lease.deploymentDirectory ∧
    some a.parentLeaseEvidenceIdentity = identity ∧
    a.parentProcessFingerprint = lease.processFingerprint ∧ a.canonicalRepoKey = o.canonicalRepoKey ∧
    a.canonicalRepoRoot = c.root ∧ a.worktreeRoot.getD c.root = c.worktree ∧ a.ticket = o.ticket ∧
    a.branch = o.branch ∧ a.snapshot = snapshot

instance (a : RepositoryDirtyBorrowApproval) (lease : RepositoryMutationLease)
    (identity : Option String) (o : RegisterRepositoryMutationBorrowerOptions)
    (snapshot : RepositoryGitSnapshot) : Decidable (approvalMatches c a lease identity o snapshot) := by
  unfold approvalMatches; infer_instance

/-- The scope and the receipt of a dirty child, once its approval is consumed. -/
def approvedScope (approval : Reading RepositoryDirtyBorrowApproval) (lease : RepositoryMutationLease)
    (identity : Option String) (o : RegisterRepositoryMutationBorrowerOptions)
    (snapshot : RepositoryGitSnapshot) : Except Refusal (List String × String) :=
  match approval with
  | .found a => do
    let scope ← (validateRepositoryDirtyBorrowScope c host a.snapshot a.classifications
      a.plannedNewPaths).mapError fun _ => .rejected "dirty-approval"
        "the approval receipt classifications or planned new paths are incomplete or invalid"
    throwIf (¬ approvalMatches c a lease identity o snapshot) (.rejected "dirty-approval"
      "the consumed approval receipt does not exactly match parent, child, repository, ticket, branch, lineage, or complete Git state")
    throwIf (matchesExpected c o snapshot = false) (.rejected "launch-snapshot"
      "the consumed receipt attempt changed between immediate and mutex-held complete Git rereads")
    throwIf (branchChanged lease o = false ∧ snapshot.head ≠ lease.authority.head)
      (.rejected "parent-authority-snapshot"
        "the consumed dirty child snapshot does not descend from the live parent's current authority snapshot")
    return (scope, a.receiptId)
  | _ => .error (.rejected "dirty-approval"
      "the parent-owned approval receipt is missing, malformed, oversized, insecure, or already consumed")

/-- The dirty approval of a registration: it is consumed before it is checked. -/
def dirtyApproval (lease : RepositoryMutationLease) (identity : Option String)
    (o : RegisterRepositoryMutationBorrowerOptions) (snapshot : RepositoryGitSnapshot) :
    Op (Option (List String × String)) :=
  if snapshot.dirty = false then pure none
  else do
    failIf (lease.launchMode ≠ some .foreground ∨ normalizedTeam (lease.team.getD "") ≠ "builder")
      (.rejected "dirty-approval"
        "dirty borrowing requires the exact foreground Pi builder/orchestrator parent")
    let path ← liftM (repositoryDirtyBorrowApprovalPath lease.deploymentDirectory)
    failIf (o.dirtyApprovalPath ≠ some path) (.rejected "dirty-approval"
      "dirty inherited admission requires the exact parent-owned one-use approval receipt; force does not bypass this condition")
    let s ← get
    consumeApproval path
    let approved ← liftM
      (approvedScope c host (readValidApprovalUnlocked s path) lease identity o snapshot)
    return some approved

/-- The trusted launch scope conflicts with the approved one. -/
def scopeConflict (o : RegisterRepositoryMutationBorrowerOptions) (approved : Option (List String)) :
    Bool :=
  o.settlementMutationPaths.any fun paths =>
    paths.isEmpty || !isExactPathArray paths ||
      approved.any fun approved =>
        paths.length != approved.length || paths.any fun path => !approved.contains path

/-- The borrower that a registration publishes. -/
def registeredBorrower (lease : RepositoryMutationLease)
    (o : RegisterRepositoryMutationBorrowerOptions) (fingerprint : ProcessFingerprint)
    (snapshot : RepositoryGitSnapshot) (approved : Option (List String × String)) :
    Except Refusal RepositoryMutationBorrower := do
  let borrowerToken ← boundedRequired host.createToken "borrower token"
  let canonicalRepoKey ← boundedRequired o.canonicalRepoKey "canonical repository key"
  let deploymentId ← boundedRequired o.deploymentId "child deployment ID"
  let deploymentDirectory ← assertCanonicalRoot o.deploymentDirectory
  let ticket ← boundedRequired o.ticket "ticket"
  let branch ← boundedRequired o.branch "branch"
  return {
    borrowerToken, canonicalRepoKey
    canonicalRepoRoot := c.root
    worktreeRoot := if c.linked then some c.worktree else none
    parentDeploymentId := lease.deploymentId
    parentProcessFingerprint := lease.processFingerprint
    deploymentId, deploymentDirectory, ticket, branch
    processFingerprint := fingerprint
    registeredAt := host.now
    timeoutSeconds := o.timeoutSeconds.toNat
    launchGitSnapshot := snapshot
    settlementMutationScope := some
      (((approved.map (·.1)).or o.settlementMutationPaths).elim .repository .paths)
    repositoryMetadataIdentity := lease.repositoryMetadataIdentity
    approvedMutationPaths := approved.map (·.1)
    dirtyApprovalReceiptId := approved.map (·.2)
    finalizationAttemptedAt := none
    finalizedAt := none
    finalGitSnapshot := none }

/-- The slots that a borrower needs free. -/
def freeSlots (s : State) : Except Refusal Unit := do
  let implement := inspectLeaseUnlocked c host s.implement
  throwIf (c.linked = true ∧ implement.state = .live) (.rejected "borrower-state"
    "a process-verified live implement owner already occupies the worktree implement slot")
  throwIf (c.linked = true ∧ implement.state ≠ .absent) (.rejected "borrower-state"
    ("recoverable implement-slot evidence is " ++ implement.state.text))
  let borrower := inspectBorrowerUnlocked c host s.borrower
  throwIf (borrower.state = .live) (.rejected "borrower-state"
    "a process-verified live sibling already occupies the parent execution slot")
  throwIf (borrower.state ≠ .absent) (.rejected "borrower-state"
    ("unreconciled borrower evidence is " ++ borrower.state.text))

/-- Undo a transition whose borrower was not published. -/
def rollBackTransition (before : State) (b : RepositoryMutationBorrower) : Op PUnit := do
  let s ← get
  match readValidBorrowerUnlocked s with
  | .found published =>
    if published.borrowerToken = b.borrowerToken then
      set { s with borrower := none, lease := before.lease.map (rewritten host) }
    else set { s with lease := before.lease.map (rewritten host) }
  | _ => set { s with lease := before.lease.map (rewritten host) }

/-- Publish a borrower, after the transition of its parent to the new branch. -/
def publishTransition (lease : RepositoryMutationLease)
    (o : RegisterRepositoryMutationBorrowerOptions) (snapshot : RepositoryGitSnapshot)
    (b : RepositoryMutationBorrower) : Op PUnit :=
  let rejected : Refusal := .rejected "transition-transaction"
    "parent reconciliation and borrower publication did not complete atomically"
  if branchChanged lease o = true then do
    let before ← get
    tryCatch (replaceLeaseAtomic c host .lease { lease with
      authorityGitSnapshot := some snapshot
      authorityUpdatedAt := some host.now
      branchTransitioned := true }) fun _ => throw rejected
    tryCatch (do
      failIf (o.faultAfterParentSnapshotReplacement = true) (.thrown "fault")
      publishBorrowerExclusive host b) fun _ => do
        rollBackTransition host before b
        throw rejected
  else tryCatch (publishBorrowerExclusive host b) fun _ => throw rejected

/-- `registerRepositoryMutationBorrower`. -/
def registerRepositoryMutationBorrower (o : RegisterRepositoryMutationBorrowerOptions) :
    Op RepositoryMutationBorrower := do
  let s ← get
  failIf (settlementPending s = true) (.rejected "settlement-pending"
    "unresolved terminal settlement blocks every borrower, including force, without consuming approval")
  tryCatch (liftM (assertExpectedGitIdentity host o.expectedGitDir o.expectedGitCommonDir)) fun _ =>
    throw (.rejected "repository-identity" "the execution worktree changed after planning")
  failIf (s.review.isSome = true) (.rejected "review-reservation"
    "read-only review reservation blocks every new implement borrower, including force requests")
  let (lease, identity) ← liftM (parentOf c host s o)
  let fingerprint ← liftM (authenticatedChild host lease o)
  liftM (checkChild lease o)
  let snapshot ← liftM (launchSnapshot c host lease o)
  let approved ← dirtyApproval c host lease identity o snapshot
  failIf (scopeConflict o (approved.map (·.1)) = true) (.rejected "approved-path-containment"
    "trusted launch scope conflicts with the admitted exact path authority")
  liftM (freeSlots c host s)
  let borrower ← liftM (registeredBorrower c host lease o fingerprint snapshot approved)
  liftM (assertBorrower c.sha256 borrower)
  publishTransition c host lease o snapshot borrower
  return borrower

/-! ## Holders of a borrower -/

/-- The borrower of this checkout that presents its token. -/
def heldBorrower (s : State) (borrowerToken : String) : Except Refusal RepositoryMutationBorrower :=
  match readValidBorrowerUnlocked s with
  | .absent => .error (.status "absent")
  | .invalid => .error (.status "invalid-evidence")
  | .found b => do
    throwIf (b.canonicalRepoRoot ≠ c.root ∨ b.worktree c.root ≠ c.worktree)
      (.status "invalid-evidence")
    throwIf (secureStringsEqual b.borrowerToken borrowerToken = false) (.status "token-mismatch")
    return b

/-- `transferRepositoryMutationBorrower`. -/
def transferRepositoryMutationBorrower (borrowerToken : String) (gitDir gitCommonDir : Option String)
    (next : ProcessFingerprint) : Op PUnit := do
  tryCatch (liftM (assertExpectedGitIdentity host gitDir gitCommonDir))
    fun _ => throw (.status "invalid-evidence")
  let s ← get
  let b ← liftM (heldBorrower c s borrowerToken)
  failIf (¬ (isFingerprint next = true ∧
    fingerprintsEqual next (host.getProcessFingerprint next.pid) = true)) (.status "invalid-evidence")
  replaceBorrowerAtomic c host { b with processFingerprint := next }

/-- `releaseRepositoryMutationBorrower`. -/
def releaseRepositoryMutationBorrower (borrowerToken : String)
    (expectedProcessFingerprint : Option ProcessFingerprint) : Op PUnit := do
  let s ← get
  let b ← liftM (heldBorrower c s borrowerToken)
  failIf (expectedProcessFingerprint.any (fun expected => b.processFingerprint != expected ||
    !fingerprintsEqual expected (host.getProcessFingerprint host.pid)) = true)
    (.status "invalid-evidence")
  set { s with borrower := none }

/-! ## Finalization -/

structure FinalizeRepositoryMutationBorrowerOptions where
  borrowerToken : String
  deploymentId : String
  finalGitSnapshot : Option RepositoryGitSnapshot
  advanceParentAuthority : Option Bool
  /-- `publishParentAuthoritySnapshot` is supplied. -/
  publishParentAuthoritySnapshot : Bool

inductive ParentLease where
  | retained
  | released
  | absent
  | replacementPreserved
  deriving DecidableEq, Repr

inductive RepositoryBorrowerFinalizationResult where
  | finalized (scopeCompliant : Bool) (parentLease : ParentLease)
      (finalGitSnapshot : RepositoryGitSnapshot)
  | uncertainLive (borrower : RepositoryMutationBorrower)

/-- The caller is the terminal process of the borrower. -/
def matchingTerminalProcess (b : RepositoryMutationBorrower) : Bool :=
  host.getCurrentProcessFingerprint.any fun terminal =>
    b.processFingerprint == terminal &&
      fingerprintsEqual terminal (host.getProcessFingerprint terminal.pid)

/-- The runner of the borrower is live, or its liveness is not known. -/
def runnerUncertain (b : RepositoryMutationBorrower) : Bool :=
  let observed := host.getProcessFingerprint b.processFingerprint.pid
  fingerprintsEqual b.processFingerprint observed ||
    (observed.isNone && host.isProcessAlive b.processFingerprint.pid)

/-- `scopeCompliant`: a child without an approval is not checked. -/
def scopeCompliant (b : RepositoryMutationBorrower) (final : RepositoryGitSnapshot) : Bool :=
  b.dirtyApprovalReceiptId.isNone ||
    (final.statusEntries.getD []).all fun e =>
      (b.approvedMutationPaths.getD []).contains e.path &&
        e.source.all fun source => (b.approvedMutationPaths.getD []).contains source.1

/-- The lease is that of the borrower's parent. -/
def isParentOf (b : RepositoryMutationBorrower) (l : RepositoryMutationLease) : Bool :=
  l.deploymentId == b.parentDeploymentId && l.canonicalRepoRoot == c.root &&
    l.worktree c.root == c.worktree && l.processFingerprint == b.parentProcessFingerprint

/-- Advance the parent to the final snapshot; a failure restores its bytes. -/
def advanceParent (b : RepositoryMutationBorrower) (parent : RepositoryMutationLease)
    (publish : Bool) (final : RepositoryGitSnapshot) : Op PUnit := do
  failIf (parent.authority.branch ≠ final.branch) (.status "invalid-evidence")
  let before ← get
  tryCatch (do
    replaceLeaseAtomic c host .lease { parent with
      authorityGitSnapshot := some final
      authorityUpdatedAt := some host.now
      authorityChildDeploymentId := some b.deploymentId }
    if publish = true then
      publishToRegistry host fun db =>
        Registry.advanceParentAuthoritySnapshot c.dates db host.environment {
          parentDeploymentId := parent.deploymentId
          childDeploymentId := b.deploymentId
          expectedBranchHeadSha := parent.authority.head
          branchHeadSha := final.head
          timestamp := some host.now
          settlement := none }
    else pure ⟨⟩) fun _ => do
      modify fun s => { s with lease := before.lease.map (rewritten host) }
      throw (.status "invalid-evidence")

/-- What finalization does with the parent lease. -/
def settleParent (b : RepositoryMutationBorrower) (o : FinalizeRepositoryMutationBorrowerOptions)
    (final : RepositoryGitSnapshot) : Op ParentLease := do
  let s ← get
  let inspection := inspectLeaseUnlocked c host s.lease
  match inspection.record with
  | none => return if inspection.state = .absent then .absent else .replacementPreserved
  | some parent =>
    if isParentOf c b parent = false then return .replacementPreserved
    else if inspection.state = .live ∧ host.isDeploymentRunning parent.deploymentId = true then
      if scopeCompliant b final = true ∧ o.advanceParentAuthority ≠ some false then
        advanceParent c host b parent o.publishParentAuthoritySnapshot final
      else pure ⟨⟩
      return .retained
    else
      set { s with lease := none }
      return .released

/-- Remove the approval that the child consumed, if its parent still has it. -/
def removeMatchingApproval (b : RepositoryMutationBorrower) (parent : Option RepositoryMutationLease) :
    Op PUnit :=
  match b.dirtyApprovalReceiptId, parent with
  | some receiptId, some parent => do
    let path ← liftM (repositoryDirtyBorrowApprovalPath parent.deploymentDirectory)
    let s ← get
    match readValidApprovalUnlocked s path with
    | .found a => if a.receiptId = receiptId then set (s.putApproval path none) else pure ⟨⟩
    | _ => pure ⟨⟩
  | _, _ => pure ⟨⟩

/-- `finalizeRepositoryMutationBorrower`. -/
def finalizeRepositoryMutationBorrower (o : FinalizeRepositoryMutationBorrowerOptions) :
    Op RepositoryBorrowerFinalizationResult := do
  let s ← get
  let b ← liftM (heldBorrower c s o.borrowerToken)
  failIf (b.deploymentId ≠ o.deploymentId) (.status "token-mismatch")
  if matchingTerminalProcess host b = false ∧ runnerUncertain host b = true then do
    let finalizing := { b with finalizationAttemptedAt := some host.now }
    replaceBorrowerAtomic c host finalizing
    return .uncertainLive finalizing
  else do
    -- A dead PID is not terminal execution proof.
    failIf (matchingTerminalProcess host b = false) (.status "invalid-evidence")
    let final ← liftM (snapshotOr c host o.finalGitSnapshot)
    failIf (isCompleteGitSnapshot c.sha256 b.launchGitSnapshot = false ∨
      isCompleteGitSnapshot c.sha256 final = false ∨ final.branch ≠ b.branch)
      (.status "invalid-evidence")
    replaceBorrowerAtomic c host
      { b with finalizedAt := some host.now, finalGitSnapshot := some final }
    let parent := (inspectLeaseUnlocked c host s.lease).record
    let parentLease ← settleParent c host b o final
    removeMatchingApproval b parent
    modify fun s => { s with borrower := none }
    return .finalized (scopeCompliant b final) parentLease final

end

end PaPlatform.Admission
