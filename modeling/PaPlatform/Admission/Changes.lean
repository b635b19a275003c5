/-
  What a call can do to the evidence of a worktree.

  `Change` lists, for each call, the states that it leaves, with what the call
  had found.  It holds of every call in every state (`change_run`); a call that
  is refused may have changed something before (`Change.quarantined`,
  `Change.consumed` and others).
-/
import PaPlatform.Admission.Reviews

namespace PaPlatform.Admission

open Guard Effect
open Capacity (ProcessFingerprint fingerprintsEqual)

/-- A call on the worktree.  `finalizeLease` wakes up in the moments `hosts`. -/
inductive Call where
  | acquire (o : AcquireRepositoryMutationLeaseOptions)
  | updateLease (o : LeaseHolderOptions) (snapshot : RepositoryGitSnapshot)
  | transferLease (o : LeaseHolderOptions) (gitDir gitCommonDir : Option String)
      (next : ProcessFingerprint)
  | releaseLease (o : LeaseHolderOptions)
  | finalizeLease (hosts : List Host) (o : LeaseHolderOptions)
  | quarantine (expectedEvidenceIdentity : String)
  | register (o : RegisterRepositoryMutationBorrowerOptions)
  | transferBorrower (borrowerToken : String) (gitDir gitCommonDir : Option String)
      (next : ProcessFingerprint)
  | releaseBorrower (borrowerToken : String) (expected : Option ProcessFingerprint)
  | finalizeBorrower (o : FinalizeRepositoryMutationBorrowerOptions)
  | publishApproval (a : RepositoryDirtyBorrowApproval)
  | removeApproval (path receiptId : String)
  | reserve (o : ReserveRepositoryReviewOptions)
  | withReservation (reservation : RepositoryReviewReservation)
      (reread : Option ReviewCheckoutEvidence) (action : Option Refusal)
  | finalizeReview (reservation : RepositoryReviewReservation) (verifyTerminal : String → Bool)
      (publishFinalEvidence : Bool)
  | beginAdvisory (context : AdvisoryContext) (id inputSha256 intentRef : String)
  | finishAdvisory (context : AdvisoryContext) (operationId : String) (settled : Bool)
  | setDirectCustody (input : DirectCustodyInput) (custody : DirectExecutionCustody)
  | handoffDirectOwner (expected : RepositoryMutationLease) (source : Option NativeRestart)
  | advanceDirectSnapshot (input : DirectCustodyInput) (expected next : RepositoryGitSnapshot)

/-- Run a call; only its effect counts. -/
def Call.run (c : Checkout) (host : Host) : Call → Op PUnit
  | acquire o => do let _ ← acquireRepositoryMutationLease c host o
  | updateLease o snapshot => updateRepositoryMutationLeaseGitSnapshot c host o snapshot
  | transferLease o gitDir gitCommonDir next =>
    transferRepositoryMutationLease c host o gitDir gitCommonDir next
  | releaseLease o => releaseRepositoryMutationLease c host o
  | finalizeLease hosts o => finalizeRepositoryMutationLease c host hosts o
  | quarantine identity => quarantineRepositoryMutationLease c host identity
  | register o => do let _ ← registerRepositoryMutationBorrower c host o
  | transferBorrower token gitDir gitCommonDir next =>
    transferRepositoryMutationBorrower c host token gitDir gitCommonDir next
  | releaseBorrower token expected => releaseRepositoryMutationBorrower c host token expected
  | finalizeBorrower o => do let _ ← finalizeRepositoryMutationBorrower c host o
  | publishApproval a => publishRepositoryDirtyBorrowApproval c host a
  | removeApproval path receiptId => removeRepositoryDirtyBorrowApproval c path receiptId
  | reserve o => do let _ ← reserveRepositoryReview c host o
  | withReservation r reread action => withRepositoryReviewReservation c host r reread action
  | finalizeReview r verifyTerminal publish => do
    let _ ← finalizeRepositoryReview c host r verifyTerminal publish
  | beginAdvisory context id sha ref => beginAdvisoryRepositoryOperation c host context id sha ref
  | finishAdvisory context id settled => finishAdvisoryRepositoryOperation c host context id settled
  | setDirectCustody input custody => Admission.setDirectCustody c host input custody
  | handoffDirectOwner expected source => Admission.handoffDirectOwner c host expected source
  | advanceDirectSnapshot input expected next =>
    Admission.advanceDirectSnapshot c host input expected next

/-- The state that a call leaves. -/
def after (c : Checkout) (host : Host) (call : Call) (s : State) : State :=
  (outcome (call.run c host) s).2

variable {c : Checkout} {host : Host} {s s' : State}

/-! ## Changes -/

/-- A state that differs in its approvals. -/
def State.withApprovals (s : State)
    (f : String → Option (Evidence RepositoryDirtyBorrowApproval)) : State := { s with approval := f }

/-- What a successful acquisition found. -/
structure Acquires (c : Checkout) (host : Host) (o : AcquireRepositoryMutationLeaseOptions) (s : State)
    (l : RepositoryMutationLease) : Prop where
  lease : ∃ fingerprint snapshot, verifiedFingerprint host o.pid o.processFingerprint = some fingerprint ∧
    acquiredLease c host o (classifyRepositoryMutationSlot o.mode) fingerprint snapshot = .ok l
  valid : assertLease c.sha256 l = .ok ()

/-- What a successful registration found. -/
structure Registers (c : Checkout) (host : Host) (o : RegisterRepositoryMutationBorrowerOptions)
    (s : State) (l : RepositoryMutationLease) (b : RepositoryMutationBorrower) : Prop where
  parent : ∃ identity, parentOf c host s o = .ok (l, identity)
  child : checkChild l o = .ok ()
  free : freeSlots c host s = .ok ()
  borrower : ∃ fingerprint snapshot approved, launchSnapshot c host l o = .ok snapshot ∧
    (∀ a, approved = some a → (repositoryDirtyBorrowApprovalPath l.deploymentDirectory).toOption.isSome ∧
      snapshot.dirty = true ∧ (branchChanged l o = false → snapshot.head = l.authority.head)) ∧
    (approved = none → snapshot.dirty = false) ∧
    registeredBorrower c host l o fingerprint snapshot approved = .ok b
  valid : assertBorrower c.sha256 b = .ok ()

/-- The parent lease after its transition to a new branch. -/
def transitioned (host : Host) (l : RepositoryMutationLease) (snapshot : RepositoryGitSnapshot) :
    RepositoryMutationLease :=
  { l with
    authorityGitSnapshot := some snapshot
    authorityUpdatedAt := some host.now
    branchTransitioned := true }

/-- The parent lease after a child ended. -/
def advanced (host : Host) (b : RepositoryMutationBorrower) (l : RepositoryMutationLease)
    (final : RepositoryGitSnapshot) : RepositoryMutationLease :=
  { l with
    authorityGitSnapshot := some final
    authorityUpdatedAt := some host.now
    authorityChildDeploymentId := some b.deploymentId }

/-- The registry after `publishParentAuthoritySnapshot`. -/
def Published (c : Checkout) (host : Host) (b : RepositoryMutationBorrower)
    (l : RepositoryMutationLease) (final : RepositoryGitSnapshot) (db db' : Registry.Database) : Prop :=
  Registry.advanceParentAuthoritySnapshot c.dates db host.environment {
    parentDeploymentId := l.deploymentId
    childDeploymentId := b.deploymentId
    expectedBranchHeadSha := l.authority.head
    branchHeadSha := final.head
    timestamp := some host.now
    settlement := none } = .ok db'

/-- What the finalization of `b` does to the parent lease. -/
inductive Settles (c : Checkout) (host : Host) (b : RepositoryMutationBorrower)
    (o : FinalizeRepositoryMutationBorrowerOptions) (final : RepositoryGitSnapshot) (s : State) :
    State → Prop
  | kept : Settles c host b o final s s
  | restored : Settles c host b o final s { s with lease := s.lease.map (rewritten host) }
  | advanced {l : RepositoryMutationLease} {db' : Registry.Database} :
      recordOf s.lease = some l → isParentOf c b l = true → scopeCompliant b final = true →
      l.authority.branch = final.branch → assertLease c.sha256 (advanced host b l final) = .ok () →
      (o.publishParentAuthoritySnapshot = true → Published c host b l final s.registry db') →
      (o.publishParentAuthoritySnapshot = false → db' = s.registry) →
      Settles c host b o final s
        { s with lease := some (writtenLease host (Admission.advanced host b l final)), registry := db' }
  | released {l : RepositoryMutationLease} : recordOf s.lease = some l → isParentOf c b l = true →
      Settles c host b o final s { s with lease := none }

/-- What an advisory owner finds. -/
structure AdvisoryOwner (c : Checkout) (host : Host) (s : State) (l : RepositoryMutationLease) : Prop where
  lease : recordOf (s.leaseAt (c.leaseFile (classifyRepositoryMutationSlot l.mode))) = some l
  settlement : s.settlement = none
  borrower : s.borrower = none
  review : s.review = none
  other : c.linked = true →
    s.leaseAt (otherLease (classifyRepositoryMutationSlot l.mode)) = none

/-- What a direct owner finds. -/
structure DirectOwner (c : Checkout) (s : State) (l : RepositoryMutationLease) : Prop where
  linked : c.linked = true
  lease : recordOf s.lease = some l
  settlement : s.settlement = none
  borrower : s.borrower = none
  implement : s.implement = none
  review : s.review = none

/-- The states that a call leaves, with what it found in `s`. -/
inductive Change (c : Checkout) (host : Host) (s : State) : Call → State → Prop
  | unchanged {call : Call} : Change c host s call s
  | quarantined {o : AcquireRepositoryMutationLeaseOptions} : s.settlement = none → s.review = none →
      acquisitionRefusals c host o s = .ok () →
      Change c host s (.acquire o) (quarantineEvidence c host o s)
  | acquired {o : AcquireRepositoryMutationLeaseOptions} {l : RepositoryMutationLease} :
      s.settlement = none → s.review = none → acquisitionRefusals c host o s = .ok () →
      Acquires c host o s l →
      Change c host s (.acquire o) ((quarantineEvidence c host o s).putLease
        (c.leaseFile (classifyRepositoryMutationSlot o.mode)) (some (writtenLease host l)))
  | updatedLease {o : LeaseHolderOptions} {snapshot : RepositoryGitSnapshot}
      {l l' : RepositoryMutationLease} : heldLease c s o = .ok l →
      l' = { l with authorityGitSnapshot := some snapshot, authorityUpdatedAt := some host.now } →
      assertLease c.sha256 l' = .ok () →
      Change c host s (.updateLease o snapshot)
        (s.putLease (holderFile c o.slot) (some (writtenLease host l')))
  | transferredLease {o : LeaseHolderOptions} {gitDir gitCommonDir : Option String}
      {next : ProcessFingerprint} {l l' : RepositoryMutationLease} : heldLease c s o = .ok l →
      l' = { l with processFingerprint := next } → assertLease c.sha256 l' = .ok () →
      Change c host s (.transferLease o gitDir gitCommonDir next)
        (s.putLease (holderFile c o.slot) (some (writtenLease host l')))
  | releasedLease {call : Call} {o : LeaseHolderOptions} {l : RepositoryMutationLease}
      {f : String → Option (Evidence RepositoryDirtyBorrowApproval)} :
      call = .releaseLease o ∨ (∃ hosts, call = .finalizeLease hosts o) → heldLease c s o = .ok l →
      l.directExecutionCustody ≠ some .active → l.advisoryOperation = none →
      (holderFile c o.slot ≠ .implement → s.borrower = none) →
      Change c host s call ((s.withApprovals f).putLease (holderFile c o.slot) none)
  | quarantinedLease {identity : String} {l : RepositoryMutationLease} : s.settlement = none →
      recordOf s.lease = some l → l.runtime = "opencode" →
      Change c host s (.quarantine identity) { s with lease := none }
  | consumed {o : RegisterRepositoryMutationBorrowerOptions}
      {f : String → Option (Evidence RepositoryDirtyBorrowApproval)} : s.settlement = none →
      s.review = none → Change c host s (.register o) (s.withApprovals f)
  | rolledBack {o : RegisterRepositoryMutationBorrowerOptions}
      {f : String → Option (Evidence RepositoryDirtyBorrowApproval)} : s.settlement = none →
      s.review = none → s.borrower = none →
      Change c host s (.register o) { s.withApprovals f with lease := s.lease.map (rewritten host) }
  | registered {o : RegisterRepositoryMutationBorrowerOptions} {l : RepositoryMutationLease}
      {b : RepositoryMutationBorrower}
      {f : String → Option (Evidence RepositoryDirtyBorrowApproval)} : s.settlement = none →
      s.review = none → Registers c host o s l b → branchChanged l o = false →
      Change c host s (.register o) { s.withApprovals f with borrower := some (writtenBorrower host b) }
  | transitioned {o : RegisterRepositoryMutationBorrowerOptions} {l : RepositoryMutationLease}
      {b : RepositoryMutationBorrower}
      {f : String → Option (Evidence RepositoryDirtyBorrowApproval)} : s.settlement = none →
      s.review = none → Registers c host o s l b → branchChanged l o = true →
      assertLease c.sha256 (transitioned host l b.launchGitSnapshot) = .ok () →
      Change c host s (.register o) { s.withApprovals f with
        lease := some (writtenLease host (transitioned host l b.launchGitSnapshot))
        borrower := some (writtenBorrower host b) }
  | transferredBorrower {token : String} {gitDir gitCommonDir : Option String}
      {next : ProcessFingerprint} {b b' : RepositoryMutationBorrower} : heldBorrower c s token = .ok b →
      b' = { b with processFingerprint := next } → assertBorrower c.sha256 b' = .ok () →
      Change c host s (.transferBorrower token gitDir gitCommonDir next)
        { s with borrower := some (writtenBorrower host b') }
  | releasedBorrower {token : String} {expected : Option ProcessFingerprint}
      {b : RepositoryMutationBorrower} : heldBorrower c s token = .ok b →
      Change c host s (.releaseBorrower token expected) { s with borrower := none }
  | finalizing {o : FinalizeRepositoryMutationBorrowerOptions} {b b' : RepositoryMutationBorrower} :
      heldBorrower c s o.borrowerToken = .ok b →
      b' = { b with finalizationAttemptedAt := some host.now } →
      assertBorrower c.sha256 b' = .ok () →
      Change c host s (.finalizeBorrower o) { s with borrower := some (writtenBorrower host b') }
  | settling {o : FinalizeRepositoryMutationBorrowerOptions} {b b' : RepositoryMutationBorrower}
      {final : RepositoryGitSnapshot} {s₁ : State} : heldBorrower c s o.borrowerToken = .ok b →
      final.branch = b.branch →
      b' = { b with finalizedAt := some host.now, finalGitSnapshot := some final } →
      assertBorrower c.sha256 b' = .ok () →
      Settles c host b o final { s with borrower := some (writtenBorrower host b') } s₁ →
      (s₁.lease = none → s.lease ≠ none → b.dirtyApprovalReceiptId.isSome = true ∧
        ∃ l, recordOf s.lease = some l ∧ isParentOf c b l = true ∧
          (repositoryDirtyBorrowApprovalPath l.deploymentDirectory).toOption = none) →
      Change c host s (.finalizeBorrower o) s₁
  | finalized {o : FinalizeRepositoryMutationBorrowerOptions} {b b' : RepositoryMutationBorrower}
      {final : RepositoryGitSnapshot} {s₁ : State}
      {f : String → Option (Evidence RepositoryDirtyBorrowApproval)} :
      heldBorrower c s o.borrowerToken = .ok b → final.branch = b.branch →
      b' = { b with finalizedAt := some host.now, finalGitSnapshot := some final } →
      Settles c host b o final { s with borrower := some (writtenBorrower host b') } s₁ →
      Change c host s (.finalizeBorrower o) { s₁.withApprovals f with borrower := none }
  | approval {call : Call} {f : String → Option (Evidence RepositoryDirtyBorrowApproval)} :
      (∃ a, call = .publishApproval a) ∨ (∃ path receiptId, call = .removeApproval path receiptId) →
      s.settlement = none → Change c host s call (s.withApprovals f)
  | reserved {o : ReserveRepositoryReviewOptions} {e : Evidence RepositoryReviewReservation} :
      s.review = none → s.settlement = none → s.implement = none → s.borrower = none →
      (s.lease ≠ none → ∃ l checkout, recordOf s.lease = some l ∧ idleOrchestrator c host checkout l) →
      Change c host s (.reserve o) { s with review := some e }
  | finalizedReview {r found : RepositoryReviewReservation} {verifyTerminal : String → Bool}
      {publish : Bool} : readReviewReservation c s = .ok found →
      reviewReservationMatches found r = true → verifyTerminal r.deploymentId = true →
      Change c host s (.finalizeReview r verifyTerminal publish) { s with review := none }
  | begunAdvisory {context : AdvisoryContext} {id sha ref : String} {l l' : RepositoryMutationLease}
      {next : AdvisoryOperation} : AdvisoryOwner c host s l → l.advisoryOperation = none →
      l.directExecutionCustody ≠ some .active →
      l' = { l with directExecutionCustody := some .active, advisoryOperation := some next } →
      assertLease c.sha256 l' = .ok () →
      Change c host s (.beginAdvisory context id sha ref) (s.putLease
        (c.leaseFile (classifyRepositoryMutationSlot l.mode)) (some (writtenLease host l')))
  | finishedAdvisory {context : AdvisoryContext} {id : String} {settled : Bool}
      {l l' : RepositoryMutationLease} {next : RepositoryGitSnapshot} : AdvisoryOwner c host s l →
      l' = { l with
        advisoryOperation := none
        directExecutionCustody := some .idle
        authorityGitSnapshot := some next
        authorityUpdatedAt := some host.now } → assertLease c.sha256 l' = .ok () →
      Change c host s (.finishAdvisory context id settled) (s.putLease
        (c.leaseFile (classifyRepositoryMutationSlot l.mode)) (some (writtenLease host l')))
  | custody {input : DirectCustodyInput} {custody : DirectExecutionCustody}
      {l l' : RepositoryMutationLease} : DirectOwner c s l →
      l' = { l with directExecutionCustody := some custody } → assertLease c.sha256 l' = .ok () →
      Change c host s (.setDirectCustody input custody) { s with lease := some (writtenLease host l') }
  | handedOff {expected l' : RepositoryMutationLease} {source : Option NativeRestart}
      {native : NativeRestart} : DirectOwner c s expected →
      l' = { expected with
        deploymentId := native.actorDeploymentId
        deploymentDirectory := native.deploymentDirectory
        processFingerprint := native.actorProcess } → assertLease c.sha256 l' = .ok () →
      Change c host s (.handoffDirectOwner expected source) { s with lease := some (writtenLease host l') }
  | advancedDirect {input : DirectCustodyInput} {expected next : RepositoryGitSnapshot}
      {l l' : RepositoryMutationLease} {db' : Registry.Database} : DirectOwner c s l →
      l.authority = expected → l' = { l with
        authorityGitSnapshot := some next
        authorityUpdatedAt := some host.now
        authorityChildDeploymentId := none } → assertLease c.sha256 l' = .ok () →
      Change c host s (.advanceDirectSnapshot input expected next)
        { s with lease := some (writtenLease host l'), registry := db' }

end PaPlatform.Admission
