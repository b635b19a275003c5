/-
  Who owns a worktree: runs of calls from a Git directory without evidence.

  A review reservation excludes every builder (`review_excludes_builders`), and a
  pending settlement stops every call that could change an owner
  (`pending_settlement_freezes`).
-/
import PaPlatform.Admission.Specs
import PaPlatform.Lib.Run

namespace PaPlatform.Admission

open Js Guard Effect
open Capacity (ProcessFingerprint fingerprintsEqual)

/-! ## Runs -/

/-- A call, made in a moment of the host. -/
structure Event where
  host : Host
  call : Call

/-- Every call is one step: it holds the mutex of the worktree. -/
def step (c : Checkout) (s : State) (e : Event) : Except Refusal State := .ok (after c e.host e.call s)

/-- The runs from a Git directory without evidence. -/
abbrev Reaches (c : Checkout) (registry : Registry.Database) (ticket : TicketBranch) :=
  Run.Reaches (step c) (State.empty registry ticket)

variable {c : Checkout} {host : Host} {s s' : State} {call : Call} {registry : Registry.Database}
  {ticket : TicketBranch} {h : List (Run.Step State Event)}

theorem step_change {e : Event} (hs : step c s e = .ok s') : Change c e.host s e.call s' := by
  cases hs
  exact change_after e.call

@[simp] theorem quarantineEvidence_review {o : AcquireRepositoryMutationLeaseOptions} :
    (quarantineEvidence c host o s).review = s.review := by
  unfold quarantineEvidence
  dsimp only
  split_ifs <;> simp

/-- The record of a rewritten file is that of the file. -/
@[simp] theorem recordOf_rewritten {α : Type} {file : Option (Evidence α)} :
    recordOf (file.map (rewritten host)) = recordOf file := by
  cases file <;> rfl

@[simp] theorem recordOf_writtenLease {l : RepositoryMutationLease} :
    recordOf (some (writtenLease host l)) = some l := rfl

@[simp] theorem recordOf_writtenBorrower {b : RepositoryMutationBorrower} :
    recordOf (some (writtenBorrower host b)) = some b := rfl

theorem recordOf_ne_none {α : Type} {file : Option (Evidence α)} {value : α}
    (h : recordOf file = some value) : file ≠ none := by
  rintro rfl
  cases h

/-! ## Reviews -/

/-- The only custody beside a review is that of an idle orchestrator. -/
structure OnlyIdle (s : State) : Prop where
  implement : s.implement = none
  borrower : s.borrower = none
  settlement : s.settlement = none
  lease : s.lease ≠ none → ∃ l, recordOf s.lease = some l ∧ l.mode = "orchestrator" ∧
    l.directExecutionCustody ≠ some .active

/-- A review excludes builders. -/
def ReviewExcludes (s : State) : Prop := s.review ≠ none → OnlyIdle s

/-- A lease that keeps its mode and custody keeps the exclusion. -/
theorem OnlyIdle.putLease (hi : OnlyIdle s) {file : LeaseFile} {l l' : RepositoryMutationLease}
    (hl : recordOf (s.leaseAt file) = some l) (hm : l'.mode = l.mode)
    (hc : l'.directExecutionCustody = l.directExecutionCustody) :
    OnlyIdle (s.putLease file (some (writtenLease host l'))) := by
  cases file with
  | implement => exact absurd hi.implement (recordOf_ne_none hl)
  | lease =>
    obtain ⟨l₀, h₀, hmode, hcust⟩ := hi.lease (recordOf_ne_none hl)
    obtain rfl := Option.some.inj (h₀.symm.trans hl)
    exact ⟨hi.implement, hi.borrower, hi.settlement, fun _ => ⟨l', rfl, hm.trans hmode, hc ▸ hcust⟩⟩

/-- What the finalization of a borrower does to the reservation of a review. -/
theorem Settles.review {b : RepositoryMutationBorrower} {o : FinalizeRepositoryMutationBorrowerOptions}
    {final : RepositoryGitSnapshot} (h : Settles c host b o final s s') : s'.review = s.review := by
  cases h <;> rfl

/-- What a call leaves beside a review. -/
theorem Change.reviewExcludes (h : Change c host s call s') (hi : ReviewExcludes s) :
    ReviewExcludes s' := by
  intro hr
  cases h with
  | unchanged => exact hi hr
  | quarantined _ hn => exact absurd hn (by simpa using hr)
  | acquired _ hn => exact absurd hn (by simpa using hr)
  | updatedLease hl hl' =>
    subst hl'
    exact (hi (by simpa using hr)).putLease (heldLease_record hl) rfl rfl
  | transferredLease hl hl' =>
    subst hl'
    exact (hi (by simpa using hr)).putLease (heldLease_record hl) rfl rfl
  | @releasedLease call o l f hcall hl =>
    have hi' := hi (by simpa [State.withApprovals] using hr)
    generalize holderFile c o.slot = file
    cases file with
    | lease => exact ⟨hi'.implement, hi'.borrower, hi'.settlement, fun h => absurd rfl h⟩
    | implement => exact ⟨rfl, hi'.borrower, hi'.settlement, hi'.lease⟩
  | quarantinedLease =>
    have hi' := hi hr
    exact ⟨hi'.implement, hi'.borrower, hi'.settlement, fun h => absurd rfl h⟩
  | consumed _ hn => exact absurd hn hr
  | rolledBack _ hn => exact absurd hn hr
  | registered _ hn => exact absurd hn hr
  | transitioned _ hn => exact absurd hn hr
  | transferredBorrower hb | releasedBorrower hb | finalizing hb =>
    exact absurd (hi hr).borrower (recordOf_ne_none (heldBorrower_ok hb).2)
  | settling hb _ _ _ hs =>
    exact absurd (hi (hs.review ▸ hr)).borrower (recordOf_ne_none (heldBorrower_ok hb).2)
  | finalized hb _ _ hs =>
    exact absurd (hi (hs.review ▸ hr)).borrower (recordOf_ne_none (heldBorrower_ok hb).2)
  | approval =>
    have hi' := hi hr
    exact ⟨hi'.implement, hi'.borrower, hi'.settlement, hi'.lease⟩
  | reserved _ hs himp hb hl =>
    refine ⟨himp, hb, hs, fun hne => ?_⟩
    obtain ⟨l, checkout, hrec, -, -, hmode, -, hcust, -⟩ := hl hne
    exact ⟨l, hrec, hmode, hcust⟩
  | finalizedReview => exact absurd rfl hr
  | begunAdvisory ho => exact absurd ho.review (by simpa using hr)
  | finishedAdvisory ho => exact absurd ho.review (by simpa using hr)
  | custody ho | handedOff ho | advancedDirect ho => exact absurd ho.review hr

/-- A review ends with the finalization that presents it, after its deployment. -/
theorem Change.review_kept (h : Change c host s call s') (hr : s.review ≠ none) :
    s'.review = s.review ∨ s'.review = none ∧ ∃ r verifyTerminal publish,
      call = .finalizeReview r verifyTerminal publish ∧ readReviewReservation c s = .ok r ∧
        verifyTerminal r.deploymentId = true := by
  cases h with
  | unchanged | quarantinedLease | transferredBorrower | releasedBorrower | finalizing | approval =>
    exact Or.inl rfl
  | quarantined _ hn | acquired _ hn | consumed _ hn | rolledBack _ hn | registered _ hn
  | transitioned _ hn => exact absurd hn hr
  | updatedLease | transferredLease => exact Or.inl (by simp)
  | releasedLease => exact Or.inl (by simp [State.withApprovals])
  | settling _ _ _ _ hs => exact Or.inl hs.review
  | finalized _ _ _ hs => exact Or.inl hs.review
  | reserved hn => exact absurd hn hr
  | @finalizedReview r found verifyTerminal publish hf hm hv =>
    obtain rfl : found = r := by simpa [reviewReservationMatches] using hm
    exact Or.inr ⟨rfl, found, verifyTerminal, publish, rfl, hf, hv⟩
  | begunAdvisory ho | finishedAdvisory ho | custody ho | handedOff ho | advancedDirect ho =>
    exact absurd ho.review hr

theorem reviewExcludes_empty : ReviewExcludes (State.empty registry ticket) := fun h => absurd rfl h

/-- **A review reservation excludes builders.**  In every run from a Git directory
    without evidence:
    - beside a reservation there is no implement lease, no borrower and no pending
      settlement, and the lease, if any, is that of an orchestrator that does not
      hold direct custody;
    - a reservation stays as it is, unless a finalization presents it and its
      deployment is terminal. -/
theorem review_excludes_builders (c : Checkout) (registry : Registry.Database) (ticket : TicketBranch)
    (h : List (Run.Step State Event)) (s : State) (hr : Reaches c registry ticket h s) :
    ReviewExcludes s ∧ ∀ st ∈ h, st.before.review ≠ none →
      st.after.review = st.before.review ∨
        st.after.review = none ∧ ∃ r verifyTerminal publish,
          st.event.call = .finalizeReview r verifyTerminal publish ∧
            readReviewReservation c st.before = .ok r ∧ verifyTerminal r.deploymentId = true := by
  constructor
  · exact hr.invariant (P := fun _ s => ReviewExcludes s) reviewExcludes_empty
      fun _ _ _ _ _ hi hs => (step_change hs).reviewExcludes hi
  · intro st hst hpresent
    obtain ⟨pre, post, rfl⟩ := List.append_of_mem hst
    exact (step_change hr.split.2.1).review_kept hpresent

/-! ## A pending settlement -/

/-- A change of a frozen worktree changes nothing. -/
theorem Change.frozen {call : Call} (h : Change c host s call s') (hf : call.frozen = true)
    (hs : s.settlement ≠ none) : s' = s := by
  cases h with
  | unchanged => rfl
  | quarantined h | acquired h | quarantinedLease h | consumed h | rolledBack h | registered h
  | transitioned h => exact absurd h hs
  | updatedLease h | transferredLease h => exact absurd (heldLease_settlement h) hs
  | releasedLease _ h => exact absurd (heldLease_settlement h) hs
  | transferredBorrower h | releasedBorrower h | finalizing h | settling h | finalized h =>
    exact absurd (heldBorrower_ok h).1 hs
  | approval _ h => exact absurd h hs
  | reserved _ h => exact absurd h hs
  | finalizedReview => cases hf
  | begunAdvisory h | finishedAdvisory h => exact absurd h.settlement hs
  | custody h | handedOff h | advancedDirect h => exact absurd h.settlement hs

/-- **An unresolved settlement freezes the worktree**: every call that could change
    ownership is refused and leaves every file as it was. -/
theorem pending_settlement_freezes (c : Checkout) (host : Host) (s : State) (call : Call)
    (hs : s.settlement ≠ none) (hf : call.frozen = true) :
    ∃ e, outcome (call.run c host) s = (.error e, s) := by
  have h := @change_run c host s call
  rcases hr : outcome (call.run c host) s with ⟨e | u, s'⟩
  · rw [wp_of_error hr] at h
    exact ⟨e, by rw [h.frozen hf hs]⟩
  · rw [wp_of_ok hr] at h
    exact absurd (h.1 hf) hs

/-! ## A run -/

namespace Sample

def time : String := "2026-03-02T00:00:00.000Z"

def branch : String := "feature/PA-4-work"

def sha : String := String.ofList (List.replicate 40 'a')

def zeros : String := String.ofList (List.replicate 64 '0')

theorem zeros_ok : shaOk 64 zeros = true := by decide +kernel

/-- The digest of a clean checkout of `branch` at `sha`. -/
def cleanDigest : String := "465c3b35c0543ecf88fd8df80fadfee39da1412995b645b618ea1380a89b9dbb"

theorem cleanDigest_ok : shaOk 64 cleanDigest = true := by decide +kernel

/-- `sha256` on the clean checkout. -/
def sha256 (bytes : Bytes) : Sha256 :=
  if bytes = snapshotBytes branch sha [] then ⟨cleanDigest, cleanDigest_ok⟩ else ⟨zeros, zeros_ok⟩

/-- A linked worktree. -/
def checkout : Checkout := ⟨"/pa/repo", "/pa/trees/4", "/pa/repo/.git/worktrees/4", sha256, Registry.isoDates⟩

/-- The process with this number. -/
def process (pid : ℤ) : ProcessFingerprint := ⟨pid, "100", "boot"⟩

def git : GitReads := ⟨some branch, some sha, some [], fun _ => none, fun _ _ => none, fun _ _ => true⟩

/-- A moment in which these processes run. -/
def moment (pid : ℤ) (alive : ℤ → Bool) (token : String) : Host where
  getProcessFingerprint p := if alive p then some (process p) else none
  isProcessAlive := alive
  isDeploymentRunning _ := true
  isProcessInLineage _ _ := true
  getCurrentProcessFingerprint := some (process pid)
  pid := pid
  now := time
  nowMs := 0
  createToken := token
  git := git
  physicalGitDir := some "/pa/repo/.git/worktrees/4"
  physicalGitCommonDir := some "/pa/repo/.git"
  metadataIdentity _ _ := some zeros
  pathEntryExists _ := false
  hasSymlinkTraversal _ := false
  identity := "identity-" ++ token
  environment := ⟨time, none, fun _ => none⟩
  registryFault := false

/-- The clean checkout. -/
def clean : RepositoryGitSnapshot :=
  ⟨branch, sha, 0, 0, 0, false, "", some "", some 0, some [], some cleanDigest⟩

/-- An acquisition by the deployment `d` that process 10 runs. -/
def acquisition (runtime : RuntimeName) (d mode : String) (force : Bool) :
    AcquireRepositoryMutationLeaseOptions where
  canonicalRepoKey := "pa"
  expectedGitDir := some "/pa/repo/.git/worktrees/4"
  expectedGitCommonDir := some "/pa/repo/.git"
  deploymentId := d
  deploymentDirectory := "/pa/deployments/" ++ d
  runtime := runtime
  mode := mode
  launchMode := some .foreground
  team := some "builder"
  ticket := some "PA-4"
  force := force
  pid := none
  ownershipToken := none
  processFingerprint := none
  gitSnapshot := some clean
  branchTransitionPolicy := none

def reviewCheckout : ReviewCheckoutEvidence where
  correlation := ⟨"pa", "/pa/repo", "/pa/trees/4", "PA-4", "lease-4", "pa:pa:PA-4", branch, sha, none, sha, sha⟩
  repositoryGitDir := "/pa/repo/.git/worktrees/4"
  repositoryGitCommonDir := "/pa/repo/.git"
  gitSnapshot := clean

def review : ReserveRepositoryReviewOptions where
  checkout := reviewCheckout
  deploymentId := "d-000002"
  authorizationId := "review-auth:00000000-0000-4000-8000-000000000000"
  rereadCheckout := some reviewCheckout

/-- The state after these events. -/
def run (es : List Event) : State :=
  es.foldl (fun s e => after checkout e.host e.call s) (State.empty Registry.Database.empty ⟨branch, sha, sha⟩)

/-- The sample events are a run. -/
theorem run_reaches (es : List Event) :
    ∃ h, Reaches checkout Registry.Database.empty ⟨branch, sha, sha⟩ h (run es) ∧ h.map (·.event) = es := by
  refine @Run.reaches_of_exec _ _ _ (step checkout) _ _ _ ?_
  unfold run
  generalize State.empty Registry.Database.empty ⟨branch, sha, sha⟩ = s
  induction es generalizing s with
  | nil => rfl
  | cons e es ih => exact ih _

/-- An orchestrator owns the worktree, and a review reserves it. -/
def reviewed : List Event :=
  [⟨moment 10 (fun _ => true) "t1", .acquire (acquisition .pi "d-000001" "orchestrator" false)⟩,
    ⟨moment 20 (fun _ => true) "t2", .reserve review⟩]

end Sample

theorem review_excludes_builders_reviewed :
    ∃ s : State, s.review.isSome = true ∧ s.lease.isSome = true ∧ ReviewExcludes s := by
  have hrun : (Sample.run Sample.reviewed).review.isSome = true ∧
      (Sample.run Sample.reviewed).lease.isSome = true := by decide +kernel
  obtain ⟨h, hr, -⟩ := Sample.run_reaches Sample.reviewed
  exact ⟨_, hrun.1, hrun.2, (review_excludes_builders _ _ _ h _ hr).1⟩

namespace Sample

/-- An unreadable settlement record. -/
def settling : State :=
  { State.empty Registry.Database.empty ⟨branch, sha, sha⟩ with
    settlement := some ⟨true, 1, true, true, "identity-1", 2, .unparsable⟩ }

end Sample

theorem pending_settlement_freezes_acquisition :
    ∃ e, outcome ((Call.acquire (Sample.acquisition .opencode "d-1" "orchestrator" true)).run
      Sample.checkout (Sample.moment 10 (fun _ => true) "t1")) Sample.settling = (.error e, Sample.settling) :=
  pending_settlement_freezes _ _ _ _ (Option.some_ne_none _) rfl

end PaPlatform.Admission
