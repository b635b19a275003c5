/-
  The evidence records of `deploy/repository-admission.ts`: the lease of an
  owner, the borrower of a child, the approval of a dirty borrow and the
  reservation of a review.

  `none` stands for `undefined`.
-/
import PaPlatform.Admission.Snapshots

namespace PaPlatform.Admission

open Js Guard
open Capacity (ProcessFingerprint bounded stringLimit isAbsolute isFingerprint fingerprintsEqual)

inductive RepositoryAdmissionLaunchMode where
  | foreground
  | background
  | dryRun
  deriving DecidableEq, Repr

def RepositoryAdmissionLaunchMode.text : RepositoryAdmissionLaunchMode → String
  | foreground => "foreground"
  | background => "background"
  | dryRun => "dry-run"

inductive RepositoryMutationSlot where
  | orchestrator
  | implement
  deriving DecidableEq, Repr

def RepositoryMutationSlot.text : RepositoryMutationSlot → String
  | orchestrator => "orchestrator"
  | implement => "implement"

/-- `classifyRepositoryMutationSlot`. -/
def classifyRepositoryMutationSlot (mode : String) : RepositoryMutationSlot :=
  if (Registry.trim mode).toLower = "orchestrator" then .orchestrator else .implement

inductive DirectExecutionCustody where
  | active
  | idle
  deriving DecidableEq, Repr

def DirectExecutionCustody.text : DirectExecutionCustody → String
  | active => "active"
  | idle => "idle"

/-! ## Branch policies -/

structure RepositoryBranchTransitionPolicy where
  developBranch : String
  executionFeatureBranchPattern : String
  ticketProject : String
  ticketFeatureBranchPattern : String
  deriving DecidableEq

/-- `branchTransitionPoliciesEqual`. -/
def branchTransitionPoliciesEqual (left right : RepositoryBranchTransitionPolicy) : Bool :=
  left == right

/-- `safeGitRefComponent`. -/
def safeGitRefComponent (value : String) : Bool :=
  (value.toList.head?.any isAlnum) &&
    value.toList.all (fun c => isAlnum c || "._/-".toList.contains c) &&
    !includes value ".." && !includes value "@\x7b" && !endsWith value "/" && !endsWith value ".lock"

/-- `isBranchTransitionPolicy`. -/
def isBranchTransitionPolicy (p : RepositoryBranchTransitionPolicy) : Bool :=
  bounded p.developBranch && safeGitRefComponent p.developBranch &&
    bounded p.executionFeatureBranchPattern &&
    includes p.executionFeatureBranchPattern "<ticket>" &&
    includes p.executionFeatureBranchPattern "<topic>" && bounded p.ticketProject &&
    bounded p.ticketFeatureBranchPattern && includes p.ticketFeatureBranchPattern "<ticket>" &&
    includes p.ticketFeatureBranchPattern "<topic>"

/-- A part of a branch pattern. -/
inductive PatternPart where
  | char (c : Char)
  | ticket
  | topic
  deriving DecidableEq

/-- The parts of a pattern: its characters and the two placeholders. -/
def patternParts : List Char → List PatternPart
  | '<' :: 't' :: 'i' :: 'c' :: 'k' :: 'e' :: 't' :: '>' :: cs => .ticket :: patternParts cs
  | '<' :: 't' :: 'o' :: 'p' :: 'i' :: 'c' :: '>' :: cs => .topic :: patternParts cs
  | c :: cs => .char c :: patternParts cs
  | [] => []

/-- `/[a-z0-9-]/`. -/
def isTopicChar (c : Char) : Bool := isLower c || isDigit c || c == '-'

/-- The branch matches the parts from its start to its end. -/
def matchesParts (ticket : List Char) : List PatternPart → List Char → Bool
  | [], branch => branch.isEmpty
  | .char c :: parts, branch => branch.head? == some c && matchesParts ticket parts branch.tail
  | .ticket :: parts, branch =>
    ticket.isPrefixOf branch && matchesParts ticket parts (branch.drop ticket.length)
  | .topic :: parts, branch =>
    (List.range branch.length).any fun n =>
      (branch.take (n + 1)).all isTopicChar && matchesParts ticket parts (branch.drop (n + 1))

/-- `/^[A-Z]+-\d+$/`. -/
def isSimpleTicket (ticket : String) : Bool :=
  match split ticket '-' with
  | [project, number] => allOf isUpper project.toList && allOf isDigit number.toList
  | _ => false

/-- `validateBranchNameForTicket` of `tickets/git-validation.ts`. -/
def validateBranchNameForTicket (branch ticket pattern : String) : Bool :=
  isSimpleTicket ticket && matchesParts ticket.toList (patternParts pattern.toList) branch.toList

/-- `branchMatchesTicketPolicy`. -/
def branchMatchesTicketPolicy (branch ticket : String) :
    Option RepositoryBranchTransitionPolicy → Bool
  | none => startsWith branch ("feature/" ++ ticket ++ "-")
  | some policy =>
    isBranchTransitionPolicy policy &&
      validateBranchNameForTicket branch ticket policy.executionFeatureBranchPattern &&
      validateBranchNameForTicket branch ticket policy.ticketFeatureBranchPattern

/-! ## Leases -/

structure AdvisoryOperation where
  id : String
  caller : ProcessFingerprint
  inputSha256 : String
  intentRef : String
  deriving DecidableEq

/-- `isAdvisoryOperation`. -/
def isAdvisoryOperation (a : AdvisoryOperation) : Bool :=
  bounded a.id && bounded a.intentRef && hexOk 64 a.inputSha256 && isFingerprint a.caller

structure RepositoryMutationLease where
  ownershipToken : String
  canonicalRepoKey : String
  canonicalRepoRoot : String
  worktreeRoot : Option String
  slot : Option RepositoryMutationSlot
  deploymentId : String
  deploymentDirectory : String
  runtime : String
  mode : String
  team : Option String
  directExecutionCustody : Option DirectExecutionCustody
  advisoryOperation : Option AdvisoryOperation
  launchMode : Option RepositoryAdmissionLaunchMode
  processFingerprint : ProcessFingerprint
  acquiredAt : String
  preLaunchGitSnapshot : RepositoryGitSnapshot
  authorityGitSnapshot : Option RepositoryGitSnapshot
  authorityUpdatedAt : Option String
  authorityChildDeploymentId : Option String
  ticket : Option String
  repositoryGitDir : Option String
  repositoryGitCommonDir : Option String
  repositoryMetadataIdentity : Option String
  branchTransitionPolicy : Option RepositoryBranchTransitionPolicy
  initialDevelopRemoteHead : Option String
  branchTransitioned : Bool
  deriving DecidableEq

namespace RepositoryMutationLease

/-- `lease.authorityGitSnapshot ?? lease.preLaunchGitSnapshot`. -/
def authority (l : RepositoryMutationLease) : RepositoryGitSnapshot :=
  l.authorityGitSnapshot.getD l.preLaunchGitSnapshot

/-- `lease.worktreeRoot ?? root`. -/
def worktree (l : RepositoryMutationLease) (root : String) : String := l.worktreeRoot.getD root

end RepositoryMutationLease

/-! ## Borrowers -/

inductive RepositoryChildMutationScope where
  | repository
  | paths (paths : List String)
  deriving DecidableEq

/-- `isChildMutationScope`. -/
def isChildMutationScope : RepositoryChildMutationScope → Bool
  | .repository => true
  | .paths paths => isExactPathArray paths

/-- The scope permits mutation of `path`. -/
def RepositoryChildMutationScope.allows (scope : RepositoryChildMutationScope) (path : String) :
    Bool :=
  match scope with
  | .repository => true
  | .paths approved => approved.contains path

/-- Without the constants `runtime`, `team`, `mode` and `launchMode`. -/
structure RepositoryMutationBorrower where
  borrowerToken : String
  canonicalRepoKey : String
  canonicalRepoRoot : String
  worktreeRoot : Option String
  parentDeploymentId : String
  parentProcessFingerprint : ProcessFingerprint
  deploymentId : String
  deploymentDirectory : String
  ticket : String
  branch : String
  processFingerprint : ProcessFingerprint
  registeredAt : String
  timeoutSeconds : ℕ
  launchGitSnapshot : RepositoryGitSnapshot
  settlementMutationScope : Option RepositoryChildMutationScope
  repositoryMetadataIdentity : Option String
  approvedMutationPaths : Option (List String)
  dirtyApprovalReceiptId : Option String
  /-- `finalizationAttemptedAt`, present with the state `finalizing`. -/
  finalizationAttemptedAt : Option String
  finalizedAt : Option String
  finalGitSnapshot : Option RepositoryGitSnapshot
  deriving DecidableEq

def RepositoryMutationBorrower.worktree (b : RepositoryMutationBorrower) (root : String) : String :=
  b.worktreeRoot.getD root

/-! ## Approvals and reservations -/

inductive RepositoryDirtyBorrowClassificationKind where
  | produced
  | preserved
  deriving DecidableEq

structure RepositoryDirtyBorrowClassification where
  path : String
  classification : RepositoryDirtyBorrowClassificationKind
  deriving DecidableEq

/-- Without the constant `action`. -/
structure RepositoryDirtyBorrowApproval where
  receiptId : String
  approvalReference : String
  approvedAt : String
  parentDeploymentId : String
  parentDeploymentDirectory : String
  parentProcessFingerprint : ProcessFingerprint
  parentLeaseEvidenceIdentity : String
  canonicalRepoKey : String
  canonicalRepoRoot : String
  worktreeRoot : Option String
  ticket : String
  branch : String
  snapshot : RepositoryGitSnapshot
  classifications : List RepositoryDirtyBorrowClassification
  plannedNewPaths : List String
  deriving DecidableEq

structure ReviewCheckoutEvidence where
  correlation : ReviewCheckout
  repositoryGitDir : String
  repositoryGitCommonDir : String
  gitSnapshot : RepositoryGitSnapshot
  deriving DecidableEq

structure RepositoryReviewReservation where
  reservationToken : String
  deploymentId : String
  authorizationId : String
  reservedAt : String
  checkout : ReviewCheckoutEvidence
  deriving DecidableEq

/-! ## The texts that are written -/

def RepositoryBranchTransitionPolicy.toJson (p : RepositoryBranchTransitionPolicy) : Json :=
  .obj [("developBranch", .str p.developBranch),
    ("executionFeatureBranchPattern", .str p.executionFeatureBranchPattern),
    ("ticketProject", .str p.ticketProject),
    ("ticketFeatureBranchPattern", .str p.ticketFeatureBranchPattern)]

def AdvisoryOperation.toJson (a : AdvisoryOperation) : Json :=
  .obj [("id", .str a.id), ("inputSha256", .str a.inputSha256), ("intentRef", .str a.intentRef),
    ("caller", a.caller.toJson)]

/-- A field that is written when it is defined. -/
def field {α : Type} (key : String) (f : α → Json) (value : Option α) : List (String × Json) :=
  value.toList.map fun v => (key, f v)

def kindText : RepositoryGitStatusKind → String
  | .ordinary => "ordinary"
  | .renameOrCopy => "rename-or-copy"
  | .unmerged => "unmerged"
  | .untracked => "untracked"
  | .ignored => "ignored"

def entryJson (e : RepositoryGitStatusEntry) : Json :=
  .obj ([("recordIndex", .num e.recordIndex), ("kind", .str (kindText e.kind)), ("xy", .str e.xy),
    ("path", .str e.path), ("pathBase64", .str e.pathBase64)] ++
    e.source.elim [] fun source => [("sourcePath", .str source.1), ("sourcePathBase64", .str source.2)])

def RepositoryGitSnapshot.toJson (s : RepositoryGitSnapshot) : Json :=
  .obj ([("branch", .str s.branch), ("head", .str s.head), ("stagedCount", .num s.stagedCount),
    ("unstagedCount", .num s.unstagedCount), ("untrackedCount", .num s.untrackedCount),
    ("dirty", .bool s.dirty), ("statusSummary", .str s.statusSummary)] ++
    field "statusPorcelainV2Base64" .str s.statusPorcelainV2Base64 ++
    field "statusRecordCount" (.num ·) s.statusRecordCount ++
    field "statusEntries" (fun entries => .arr (entries.map entryJson)) s.statusEntries ++
    field "digestSha256" .str s.digestSha256)

def RepositoryMutationLease.toJson (l : RepositoryMutationLease) : Json :=
  .obj ([("schemaVersion", .num 1), ("ownershipToken", .str l.ownershipToken),
    ("canonicalRepoKey", .str l.canonicalRepoKey), ("canonicalRepoRoot", .str l.canonicalRepoRoot)] ++
    field "worktreeRoot" .str l.worktreeRoot ++ field "slot" (.str ·.text) l.slot ++
    [("deploymentId", .str l.deploymentId), ("deploymentDirectory", .str l.deploymentDirectory),
      ("runtime", .str l.runtime), ("mode", .str l.mode)] ++
    field "team" .str l.team ++ field "launchMode" (.str ·.text) l.launchMode ++
    [("processFingerprint", l.processFingerprint.toJson), ("acquiredAt", .str l.acquiredAt),
      ("preLaunchGitSnapshot", l.preLaunchGitSnapshot.toJson)] ++
    field "ticket" .str l.ticket ++ field "repositoryGitDir" .str l.repositoryGitDir ++
    field "repositoryGitCommonDir" .str l.repositoryGitCommonDir ++
    field "repositoryMetadataIdentity" .str l.repositoryMetadataIdentity ++
    field "branchTransitionPolicy" (·.toJson) l.branchTransitionPolicy ++
    field "initialDevelopRemoteHead" .str l.initialDevelopRemoteHead ++
    field "directExecutionCustody" (.str ·.text) l.directExecutionCustody ++
    field "advisoryOperation" (·.toJson) l.advisoryOperation ++
    field "authorityGitSnapshot" (·.toJson) l.authorityGitSnapshot ++
    field "authorityUpdatedAt" .str l.authorityUpdatedAt ++
    field "authorityChildDeploymentId" .str l.authorityChildDeploymentId ++
    (if l.branchTransitioned then [("branchTransitioned", .bool true)] else []))

def RepositoryChildMutationScope.toJson : RepositoryChildMutationScope → Json
  | repository => .obj [("kind", .str "repository")]
  | paths approved => .obj [("kind", .str "paths"), ("paths", .arr (approved.map .str))]

def RepositoryMutationBorrower.toJson (b : RepositoryMutationBorrower) : Json :=
  .obj ([("schemaVersion", .num 1), ("borrowerToken", .str b.borrowerToken),
    ("canonicalRepoKey", .str b.canonicalRepoKey), ("canonicalRepoRoot", .str b.canonicalRepoRoot)] ++
    field "worktreeRoot" .str b.worktreeRoot ++
    [("parentDeploymentId", .str b.parentDeploymentId),
      ("parentProcessFingerprint", b.parentProcessFingerprint.toJson),
      ("deploymentId", .str b.deploymentId), ("deploymentDirectory", .str b.deploymentDirectory),
      ("runtime", .str "pi"), ("team", .str "builder"), ("mode", .str "implement"),
      ("launchMode", .str "background"), ("ticket", .str b.ticket), ("branch", .str b.branch),
      ("processFingerprint", b.processFingerprint.toJson), ("registeredAt", .str b.registeredAt),
      ("timeoutSeconds", .num b.timeoutSeconds), ("launchGitSnapshot", b.launchGitSnapshot.toJson)] ++
    field "settlementMutationScope" (·.toJson) b.settlementMutationScope ++
    field "repositoryMetadataIdentity" .str b.repositoryMetadataIdentity ++
    field "approvedMutationPaths" (fun paths => .arr (paths.map .str)) b.approvedMutationPaths ++
    field "dirtyApprovalReceiptId" .str b.dirtyApprovalReceiptId ++
    b.finalizationAttemptedAt.elim [] (fun at_ =>
      [("finalizationState", .str "finalizing"), ("finalizationAttemptedAt", .str at_)]) ++
    field "finalizedAt" .str b.finalizedAt ++ field "finalGitSnapshot" (·.toJson) b.finalGitSnapshot)

def RepositoryDirtyBorrowClassificationKind.text : RepositoryDirtyBorrowClassificationKind → String
  | produced => "active-ticket-produced"
  | preserved => "active-ticket-preserved"

def RepositoryDirtyBorrowApproval.toJson (a : RepositoryDirtyBorrowApproval) : Json :=
  .obj ([("schemaVersion", .num 1), ("receiptId", .str a.receiptId),
    ("approvalReference", .str a.approvalReference), ("approvedAt", .str a.approvedAt),
    ("action", .str "preserve-and-continue"), ("parentDeploymentId", .str a.parentDeploymentId),
    ("parentDeploymentDirectory", .str a.parentDeploymentDirectory),
    ("parentProcessFingerprint", a.parentProcessFingerprint.toJson),
    ("parentLeaseEvidenceIdentity", .str a.parentLeaseEvidenceIdentity),
    ("canonicalRepoKey", .str a.canonicalRepoKey), ("canonicalRepoRoot", .str a.canonicalRepoRoot)] ++
    field "worktreeRoot" .str a.worktreeRoot ++
    [("ticket", .str a.ticket), ("branch", .str a.branch), ("snapshot", a.snapshot.toJson),
      ("classifications", .arr (a.classifications.map fun c =>
        .obj [("path", .str c.path), ("classification", .str c.classification.text)])),
      ("plannedNewPaths", .arr (a.plannedNewPaths.map .str))])

def RepositoryReviewReservation.toJson (r : RepositoryReviewReservation) : Json :=
  .obj [("schemaVersion", .num 1), ("reservationToken", .str r.reservationToken),
    ("deploymentId", .str r.deploymentId), ("authorizationId", .str r.authorizationId),
    ("reservedAt", .str r.reservedAt),
    ("checkout", .obj (r.checkout.correlation.toJson.entries ++
      [("repositoryGitDir", .str r.checkout.repositoryGitDir),
        ("repositoryGitCommonDir", .str r.checkout.repositoryGitCommonDir),
        ("gitSnapshot", r.checkout.gitSnapshot.toJson)]))]

/-- The size of an indented record with its line feed. -/
def prettyBytes (value : Json) : ℕ := (Json.pretty 0 value).utf8ByteSize + 1

/-- `MAX_REPOSITORY_LEASE_BYTES`, `MAX_REPOSITORY_BORROWER_BYTES` and
    `MAX_REPOSITORY_DIRTY_APPROVAL_BYTES`. -/
def maxRepositoryLeaseBytes : ℕ := 64 * 1024

/-! ## Checks -/

section
variable (sha256 : Bytes → Sha256)

/-- `isRepositoryMutationLease`. -/
def isRepositoryMutationLease (l : RepositoryMutationLease) : Bool :=
  bounded l.ownershipToken && bounded l.canonicalRepoKey && bounded l.canonicalRepoRoot &&
    isAbsolute l.canonicalRepoRoot && l.worktreeRoot.all (fun w => bounded w && isAbsolute w) &&
    bounded l.deploymentId && bounded l.deploymentDirectory && isAbsolute l.deploymentDirectory &&
    bounded l.runtime && l.advisoryOperation.all isAdvisoryOperation && bounded l.mode &&
    l.team.all bounded && isFingerprint l.processFingerprint && validTimestamp l.acquiredAt &&
    isGitSnapshot sha256 l.preLaunchGitSnapshot && l.authorityGitSnapshot.all (isGitSnapshot sha256) &&
    l.authorityUpdatedAt.all validTimestamp &&
    l.authorityGitSnapshot.isNone == l.authorityUpdatedAt.isNone &&
    l.authorityChildDeploymentId.all (fun id => l.authorityGitSnapshot.isSome && bounded id) &&
    l.ticket.all bounded &&
    (l.repositoryGitDir.isNone && l.repositoryGitCommonDir.isNone ||
      l.repositoryGitDir.any (fun d => bounded d && isAbsolute d) &&
        l.repositoryGitCommonDir.any (fun d => bounded d && isAbsolute d)) &&
    l.repositoryMetadataIdentity.all (hexOk 64) &&
    l.branchTransitionPolicy.all isBranchTransitionPolicy && l.initialDevelopRemoteHead.all (hexOk 40)

/-- `MIN_BORROWER_TIMEOUT_SECONDS`. -/
def minBorrowerTimeoutSeconds : ℕ := 60

/-- `MAX_BORROWER_TIMEOUT_SECONDS`. -/
def maxBorrowerTimeoutSeconds : ℕ := 7200

/-- `isRepositoryMutationBorrower`. -/
def isRepositoryMutationBorrower (b : RepositoryMutationBorrower) : Bool :=
  bounded b.borrowerToken && bounded b.canonicalRepoKey && bounded b.canonicalRepoRoot &&
    isAbsolute b.canonicalRepoRoot && b.worktreeRoot.all (fun w => bounded w && isAbsolute w) &&
    bounded b.parentDeploymentId && isFingerprint b.parentProcessFingerprint &&
    bounded b.deploymentId && bounded b.deploymentDirectory && isAbsolute b.deploymentDirectory &&
    bounded b.ticket && bounded b.branch && isFingerprint b.processFingerprint &&
    validTimestamp b.registeredAt && minBorrowerTimeoutSeconds ≤ b.timeoutSeconds &&
    b.timeoutSeconds ≤ maxBorrowerTimeoutSeconds && isGitSnapshot sha256 b.launchGitSnapshot &&
    b.settlementMutationScope.all isChildMutationScope && b.repositoryMetadataIdentity.all (hexOk 64) &&
    b.approvedMutationPaths.all isExactPathArray && b.dirtyApprovalReceiptId.all bounded &&
    b.dirtyApprovalReceiptId.isNone == b.approvedMutationPaths.isNone &&
    b.finalizationAttemptedAt.all validTimestamp && b.finalizedAt.all validTimestamp &&
    b.finalGitSnapshot.all (isGitSnapshot sha256)

/-- `isRepositoryDirtyBorrowApproval`. -/
def isRepositoryDirtyBorrowApproval (a : RepositoryDirtyBorrowApproval) : Bool :=
  bounded a.receiptId && bounded a.approvalReference && validTimestamp a.approvedAt &&
    bounded a.parentDeploymentId && bounded a.parentDeploymentDirectory &&
    isAbsolute a.parentDeploymentDirectory && isFingerprint a.parentProcessFingerprint &&
    bounded a.parentLeaseEvidenceIdentity && bounded a.canonicalRepoKey &&
    bounded a.canonicalRepoRoot && isAbsolute a.canonicalRepoRoot &&
    a.worktreeRoot.all (fun w => bounded w && isAbsolute w) && bounded a.ticket && bounded a.branch &&
    isCompleteGitSnapshot sha256 a.snapshot && a.snapshot.branch == a.branch

/-- `assertLease`. -/
def assertLease (l : RepositoryMutationLease) : Except Refusal Unit := do
  throwIf (isRepositoryMutationLease sha256 l = false)
    (.thrown "repository-admission: generated ownership evidence is invalid")
  throwIf (maxRepositoryLeaseBytes < prettyBytes l.toJson)
    (.thrown "repository-admission: generated ownership evidence exceeds 65536 bytes")

/-- `assertBorrower`. -/
def assertBorrower (b : RepositoryMutationBorrower) : Except Refusal Unit := do
  throwIf (isRepositoryMutationBorrower sha256 b = false)
    (.thrown "repository-admission: generated borrower evidence is invalid")
  throwIf (maxRepositoryLeaseBytes < prettyBytes b.toJson)
    (.thrown "repository-admission: generated borrower evidence exceeds 65536 bytes")

/-- `reviewReservationError`. -/
def reviewReservationError (reason : String) : Refusal := .rejected "review" reason

/-- `validateReviewCheckout`. -/
def validateReviewCheckout (c : ReviewCheckoutEvidence) : Except Refusal ReviewCheckoutEvidence := do
  let correlation ← (PaPlatform.validateReviewCheckout c.correlation.toJson).mapError .thrown
  throwIf (¬ (bounded c.repositoryGitDir = true ∧ isAbsolute c.repositoryGitDir = true ∧
      bounded c.repositoryGitCommonDir = true ∧ isAbsolute c.repositoryGitCommonDir = true ∧
      isGitSnapshot sha256 c.gitSnapshot = true ∧ isCompleteGitSnapshot sha256 c.gitSnapshot = true ∧
      c.gitSnapshot.branch = correlation.branch ∧ c.gitSnapshot.head = correlation.featureSha ∧
      c.gitSnapshot.dirty = false ∧ c.gitSnapshot.statusPorcelainV2Base64 = some "" ∧
      c.gitSnapshot.statusRecordCount = some 0))
    (reviewReservationError "candidate requires exact physical Git identity and complete clean snapshot")
  return { c with correlation, gitSnapshot := { c.gitSnapshot with statusEntries := some [] } }

end

/-- `reviewCheckoutsEqual`. -/
def reviewCheckoutsEqual (left right : ReviewCheckoutEvidence) : Bool := left == right

/-- `reviewReservationMatches`. -/
def reviewReservationMatches (actual expected : RepositoryReviewReservation) : Bool :=
  actual == expected

/-- `/^review-auth:<a version 4 UUID>$/`. -/
def isReviewAuthorization (value : String) : Bool :=
  match split value ':' with
  | ["review-auth", uuid] =>
    match (split uuid '-').map String.toList with
    | [a, b, c, d, e] =>
      a.length == 8 && a.all isHex && b.length == 4 && b.all isHex && c.length == 4 && c.all isHex &&
        c.head? == some '4' && d.length == 4 && d.all isHex &&
        (d.head?.any fun x => ['8', '9', 'a', 'b'].contains x) && e.length == 12 && e.all isHex
    | _ => false
  | _ => false

end PaPlatform.Admission
