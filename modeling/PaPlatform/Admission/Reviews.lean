/-
  The review reservations of `deploy/repository-admission.ts`, and the calls on
  one worktree.
-/
import PaPlatform.Admission.Borrowers

namespace PaPlatform.Admission

open Js Guard Effect
open Capacity (ProcessFingerprint bounded isFingerprint fingerprintsEqual)

section
variable (c : Checkout) (host : Host)

/-- The checkout names this worktree. -/
def namesCheckout (checkout : ReviewCheckoutEvidence) : Prop :=
  checkout.correlation.repoRoot = c.root ∧ checkout.correlation.worktreeRoot = c.worktree ∧
    checkout.repositoryGitDir = c.gitDir

instance (checkout : ReviewCheckoutEvidence) : Decidable (namesCheckout c checkout) := by
  unfold namesCheckout; infer_instance

/-- `parseRepositoryReviewReservation`. -/
def parseRepositoryReviewReservation (r : RepositoryReviewReservation) :
    Except Refusal RepositoryReviewReservation := do
  throwIf (¬ (bounded r.reservationToken = true ∧ validTimestamp r.reservedAt = true ∧
    isReviewAuthorization r.authorizationId = true)) (reviewReservationError "malformed reservation binding")
  throwIf (deploymentIdOk r.deploymentId = false) (.thrown (deploymentIdReason "deployment ID"))
  let checkout ← validateReviewCheckout c.sha256 r.checkout
  return { r with checkout }

/-- `readReviewReservation`. -/
def readReviewReservation (s : State) : Except Refusal RepositoryReviewReservation := do
  let e ← require s.review (.thrown "ENOENT")
  throwIf (¬ (e.regular = true ∧ e.links = 1 ∧ e.guarded = true ∧ e.size ≠ 0 ∧
    e.size ≤ maxRepositoryLeaseBytes))
    (reviewReservationError "reservation is missing, insecure, or oversized")
  let r ← require e.content.value (reviewReservationError "malformed reservation")
  parseRepositoryReviewReservation c r

/-- The lease may keep custody beside a review of `checkout`. -/
def idleOrchestrator (checkout : ReviewCheckoutEvidence) (l : RepositoryMutationLease) : Prop :=
  host.isDeploymentRunning l.deploymentId = true ∧ l.runtime = "pi" ∧ l.mode = "orchestrator" ∧
    normalizedTeam (l.team.getD "") = "builder" ∧ l.directExecutionCustody ≠ some .active ∧
    l.canonicalRepoKey = checkout.correlation.repoKey ∧ l.canonicalRepoRoot = c.root ∧
    l.worktreeRoot = some checkout.correlation.worktreeRoot ∧
    l.ticket = some checkout.correlation.ticket ∧ l.slot = some .orchestrator ∧
    l.repositoryGitDir = some c.gitDir ∧
    l.repositoryGitCommonDir = some checkout.repositoryGitCommonDir ∧
    l.authority = checkout.gitSnapshot

instance (checkout : ReviewCheckoutEvidence) (l : RepositoryMutationLease) :
    Decidable (idleOrchestrator c host checkout l) := by
  unfold idleOrchestrator; infer_instance

/-- `assertIdleReviewCustody`. -/
def assertIdleReviewCustody (checkout : ReviewCheckoutEvidence) (s : State) :
    Except Refusal Unit := do
  -- Even stale or malformed implement evidence is blocking; review never repairs builder state.
  throwIf (s.settlement.isSome = true ∨ s.implement.isSome = true ∨ s.borrower.isSome = true)
    (reviewReservationError
      "active or unresolved implement ownership/borrower evidence blocks review")
  match s.lease with
  | none => return ⟨⟩
  | some e =>
    throwIf (¬ (e.regular = true ∧ e.links = 1 ∧ e.guarded = true))
      (reviewReservationError "idle orchestrator ownership evidence is not a protected regular file")
    let inspection := inspectLeaseUnlocked c host (some e)
    throwIf (inspection.state ≠ .live ∨
        inspection.record.all (fun l => !decide (idleOrchestrator c host checkout l)) = true)
      (reviewReservationError
        "only one process-verified registry-running idle orchestrator for the exact ticket/check-out snapshot may retain custody")

/-- The trusted selector reads the same checkout again. -/
def assertReread (checkout : ReviewCheckoutEvidence) (reread : Option ReviewCheckoutEvidence) :
    Except Refusal Unit := do
  let reread ← require reread (.thrown "reread")
  let reread ← validateReviewCheckout c.sha256 reread
  throwIf (reviewCheckoutsEqual checkout reread = false)
    (reviewReservationError "candidate binding changed before reservation publication")

/-- Any failure of `op` becomes one error. -/
def reviewStopped {α : Type} (reason : String) (op : Op α) : Op α :=
  tryCatch op fun _ => throw (reviewReservationError reason)

structure ReserveRepositoryReviewOptions where
  checkout : ReviewCheckoutEvidence
  deploymentId : String
  authorizationId : String
  rereadCheckout : Option ReviewCheckoutEvidence

/-- `reserveRepositoryReview`. -/
def reserveRepositoryReview (o : ReserveRepositoryReviewOptions) : Op RepositoryReviewReservation :=
  reviewStopped
    "reservation admission failed: candidate, idle custody, or durable reservation evidence did not agree"
    do
      let checkout ← liftM (validateReviewCheckout c.sha256 o.checkout)
      failIf (deploymentIdOk o.deploymentId = false) (.thrown (deploymentIdReason "deployment ID"))
      failIf (isReviewAuthorization o.authorizationId = false) (.thrown "invalid authorization")
      failIf (¬ namesCheckout c checkout) (.thrown "another worktree")
      liftM (assertExpectedGitIdentity host (some checkout.repositoryGitDir)
        (some checkout.repositoryGitCommonDir))
      let s ← get
      failIf (s.review.isSome = true) (reviewReservationError
        "an existing reservation blocks duplicate or replacement review")
      liftM (assertIdleReviewCustody c host checkout s)
      liftM (assertReread c checkout o.rereadCheckout)
      let reservation : RepositoryReviewReservation :=
        ⟨host.createToken, o.deploymentId, o.authorizationId, host.now, checkout⟩
      let size := reservation.toJson.stringify.utf8ByteSize + 1
      failIf (maxRepositoryLeaseBytes < size)
        (reviewReservationError "reservation exceeds its durable size bound")
      let published := { s with review := some (.written host.identity size reservation) }
      set published
      let persisted ← liftM (readReviewReservation c published)
      failIf (reviewReservationMatches persisted reservation = false)
        (reviewReservationError "reservation durable readback mismatch")
      return reservation

/-- `withRepositoryReviewReservation`: `action` runs under the mutex and does not
    write evidence; its failure is `some`. -/
def withRepositoryReviewReservation (reservation : RepositoryReviewReservation)
    (rereadCheckout : Option ReviewCheckoutEvidence) (action : Option Refusal) : Op PUnit := do
  reviewStopped
    "protected reread rejected candidate, reservation, or idle builder custody drift" do
      let checkout := reservation.checkout
      failIf (¬ namesCheckout c checkout) (.thrown "another worktree")
      liftM (assertExpectedGitIdentity host (some checkout.repositoryGitDir)
        (some checkout.repositoryGitCommonDir))
      let s ← get
      let found ← liftM (readReviewReservation c s)
      failIf (reviewReservationMatches found reservation = false) (.thrown "reservation mismatch")
      liftM (assertIdleReviewCustody c host checkout s)
      liftM (assertReread c checkout rereadCheckout)
  failIf (action.isSome = true) (action.getD (.thrown ""))

/-- `finalizeRepositoryReview`: `publishFinalEvidence` succeeds or throws. -/
def finalizeRepositoryReview (reservation : RepositoryReviewReservation)
    (verifyTerminal : String → Bool) (publishFinalEvidence : Bool) : Op RepositoryGitSnapshot := do
  let s ← get
  failIf (¬ namesCheckout c reservation.checkout) (reviewReservationError "another worktree")
  failIf (s.review.isNone = true) (.status "absent")
  let reason :=
    "terminal evidence publication or matching-only reservation finalization failed; preserve checkout custody"
  let found ← reviewStopped reason (liftM (readReviewReservation c s))
  failIf (reviewReservationMatches found reservation = false) (.status "mismatch")
  failIf (verifyTerminal reservation.deploymentId = false) (.status "not-terminal")
  let final ← reviewStopped reason do
    liftM (assertExpectedGitIdentity host (some reservation.checkout.repositoryGitDir)
      (some reservation.checkout.repositoryGitCommonDir))
    let final ← liftM (captureRepositoryGitSnapshot c.sha256 host.git)
    failIf (publishFinalEvidence = false) (.thrown "publication")
    return final
  set { s with review := none }
  return final

end

end PaPlatform.Admission
