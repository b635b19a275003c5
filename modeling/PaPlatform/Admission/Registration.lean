/-
  The registration of a borrower when its file operations fail.

  A registration consumes an approval, may replace the lease of the parent, and
  publishes the borrower; the operating system can refuse each of these, and the
  bytes that are written back after a failure.  A temporary file that is not
  removed is left out: no reader opens it.
-/
import PaPlatform.Admission.Writers

namespace PaPlatform.Admission

open Js Guard Effect
open Capacity (ProcessFingerprint)

/-- The file operations of a registration that fail. -/
structure FileFaults where
  /-- `unlinkSync` of the approval. -/
  consume : Bool
  /-- `readFileSync` of the parent lease. -/
  read : Bool
  /-- `replaceLeaseAtomic`, before it renames. -/
  replace : Bool
  /-- `publishBorrowerExclusive`, before it links. -/
  publish : Bool
  /-- `unlinkSync` of the borrower. -/
  unlink : Bool
  /-- `replaceEvidenceBytesAtomic`, before it renames. -/
  restore : Bool

namespace FileFaults

/-- Every file operation succeeds. -/
def none : FileFaults := ⟨false, false, false, false, false, false⟩

section
variable (faults : FileFaults) (c : Checkout) (host : Host)

/-- `existsSync` and `unlinkSync` of an approval. -/
def consumeApproval (path : String) : Op PUnit := do
  let s ← get
  match readValidApprovalUnlocked s path with
  | .absent => pure ⟨⟩
  | _ => do
    failIf (faults.consume = true)
      (.rejected "dirty-approval" "the parent-owned approval receipt could not be safely consumed")
    set (s.putApproval path Option.none)

/-- The dirty approval of a registration: it is consumed before it is checked. -/
def dirtyApproval (lease : RepositoryMutationLease) (identity : Option String)
    (o : RegisterRepositoryMutationBorrowerOptions) (snapshot : RepositoryGitSnapshot) :
    Op (Option (List String × String)) :=
  if snapshot.dirty = false then pure Option.none
  else do
    failIf (lease.launchMode ≠ some .foreground ∨ normalizedTeam (lease.team.getD "") ≠ "builder")
      (.rejected "dirty-approval"
        "dirty borrowing requires the exact foreground Pi builder/orchestrator parent")
    let path ← liftM (repositoryDirtyBorrowApprovalPath lease.deploymentDirectory)
    failIf (o.dirtyApprovalPath ≠ some path) (.rejected "dirty-approval"
      "dirty inherited admission requires the exact parent-owned one-use approval receipt; force does not bypass this condition")
    let s ← get
    faults.consumeApproval path
    let approved ← liftM
      (approvedScope c host (readValidApprovalUnlocked s path) lease identity o snapshot)
    return some approved

/-- Remove the borrower of this registration, if it stands in `s`. -/
def removePublished (s : State) (b : RepositoryMutationBorrower) : Op PUnit :=
  match readValidBorrowerUnlocked s with
  | .found published =>
    if published.borrowerToken = b.borrowerToken then do
      failIf (faults.unlink = true) (.thrown "EIO")
      set { s with borrower := Option.none }
    else pure ⟨⟩
  | _ => pure ⟨⟩

/-- Undo a transition whose borrower was not published. -/
def rollBackTransition (before : State) (b : RepositoryMutationBorrower) : Op PUnit := do
  let s ← get
  faults.removePublished s b
  failIf (faults.restore = true) (.thrown "EIO")
  modify fun s => { s with lease := before.lease.map (rewritten host) }

/-- `publishBorrowerExclusive`. -/
def publishBorrowerExclusive (b : RepositoryMutationBorrower) : Op PUnit := do
  failIf (faults.publish = true) (.thrown "EIO")
  Admission.publishBorrowerExclusive host b

/-- Publish a borrower, after the transition of its parent to the new branch. -/
def publishTransition (lease : RepositoryMutationLease)
    (o : RegisterRepositoryMutationBorrowerOptions) (snapshot : RepositoryGitSnapshot)
    (b : RepositoryMutationBorrower) : Op PUnit :=
  let rejected : Refusal := .rejected "transition-transaction"
    "parent reconciliation and borrower publication did not complete atomically"
  if branchChanged lease o = true then do
    failIf (faults.read = true) (.thrown "EIO")
    let before ← get
    tryCatch (do
      failIf (faults.replace = true) (.thrown "EIO")
      replaceLeaseAtomic c host .lease { lease with
        authorityGitSnapshot := some snapshot
        authorityUpdatedAt := some host.now
        branchTransitioned := true }) fun _ => throw rejected
    tryCatch (do
      failIf (o.faultAfterParentSnapshotReplacement = true) (.thrown "fault")
      faults.publishBorrowerExclusive host b) fun _ => do
        faults.rollBackTransition host before b
        throw rejected
  else tryCatch (faults.publishBorrowerExclusive host b) fun _ => throw rejected

/-- `registerRepositoryMutationBorrower`. -/
def registerRepositoryMutationBorrower (o : RegisterRepositoryMutationBorrowerOptions) :
    Op RepositoryMutationBorrower := do
  let s ← get
  failIf (settlementPending s = true) (.rejected "settlement-pending"
    "unresolved terminal settlement blocks every borrower, including force, without consuming approval")
  tryCatch (liftM (assertExpectedGitIdentity host o.expectedGitDir o.expectedGitCommonDir)) fun _ =>
    throw (.rejected "repository-identity" "the execution worktree changed after planning")
  failIf (s.review.isSome = true) (.rejected "review-reservation"
    "read-only review reservation blocks every new implement borrower, including force requests")
  let (lease, identity) ← liftM (parentOf c host s o)
  let fingerprint ← liftM (authenticatedChild host lease o)
  liftM (checkChild lease o)
  let snapshot ← liftM (launchSnapshot c host lease o)
  let approved ← faults.dirtyApproval c host lease identity o snapshot
  failIf (scopeConflict o (approved.map (·.1)) = true) (.rejected "approved-path-containment"
    "trusted launch scope conflicts with the admitted exact path authority")
  liftM (freeSlots c host s)
  let borrower ← liftM (registeredBorrower c host lease o fingerprint snapshot approved)
  liftM (assertBorrower c.sha256 borrower)
  faults.publishTransition c host lease o snapshot borrower
  return borrower

end

/-! ## Without faults -/

variable {faults : FileFaults} {c : Checkout} {host : Host} {s s' : State}
  {o : RegisterRepositoryMutationBorrowerOptions} {l : RepositoryMutationLease}
  {b : RepositoryMutationBorrower} {snapshot : RepositoryGitSnapshot} {identity : Option String}

theorem failIf_neg {p : Prop} [Decidable p] {e : Refusal} (h : ¬ p) : failIf p e = (pure ⟨⟩ : Op PUnit) := if_neg h

theorem none_consumeApproval {path : String} : none.consumeApproval path = Admission.consumeApproval path := by
  unfold consumeApproval Admission.consumeApproval
  have hconsume : ¬ none.consume = true := Bool.false_ne_true
  simp only [failIf_neg hconsume, pure_bind] <;> rfl

theorem none_dirtyApproval : none.dirtyApproval c host l identity o snapshot =
    Admission.dirtyApproval c host l identity o snapshot := by
  unfold dirtyApproval Admission.dirtyApproval
  simp only [none_consumeApproval]

theorem none_rollBackTransition : none.rollBackTransition host s b = Admission.rollBackTransition host s b := by
  have hunlink : ¬ none.unlink = true := Bool.false_ne_true
  have hrestore : ¬ none.restore = true := Bool.false_ne_true
  funext t
  unfold rollBackTransition removePublished Admission.rollBackTransition
  simp only [failIf_neg hunlink, failIf_neg hrestore, pure_bind]
  show outcome _ t = outcome _ t
  rw [outcome_bind, outcome_bind]
  show outcome _ t = outcome _ t
  rcases h : readValidBorrowerUnlocked t with _ | _ | published
  · rfl
  · rfl
  · by_cases ht : published.borrowerToken = b.borrowerToken
    · simp only [if_pos ht]
      rfl
    · simp only [if_neg ht]
      rfl

theorem none_publishTransition : none.publishTransition c host l o snapshot b =
    Admission.publishTransition c host l o snapshot b := by
  have hread : ¬ none.read = true := Bool.false_ne_true
  have hreplace : ¬ none.replace = true := Bool.false_ne_true
  have hpublish : ¬ none.publish = true := Bool.false_ne_true
  unfold publishTransition publishBorrowerExclusive Admission.publishTransition
  simp only [none_rollBackTransition, failIf_neg hread, failIf_neg hreplace, failIf_neg hpublish, pure_bind]

/-- **Without faults** a registration is the one of the model. -/
theorem none_register : none.registerRepositoryMutationBorrower c host o =
    Admission.registerRepositoryMutationBorrower c host o := by
  unfold registerRepositoryMutationBorrower Admission.registerRepositoryMutationBorrower
  simp only [none_dirtyApproval, none_publishTransition]

/-! ## What a registration leaves -/

/-- A registration that presents the approval of its parent at this path. -/
structure Presents (s : State) (o : RegisterRepositoryMutationBorrowerOptions) (path : String) : Prop where
  given : o.dirtyApprovalPath = some path
  parent : ∃ l, recordOf s.lease = some l ∧ repositoryDirtyBorrowApprovalPath l.deploymentDirectory = .ok path

/-- What a refused registration leaves. -/
structure Refused (host : Host) (o : RegisterRepositoryMutationBorrowerOptions) (s : State) (e : Refusal)
    (s' : State) : Prop where
  borrower : s'.borrower = s.borrower
  approval : s'.approval = s.approval ∨
    ∃ path, Presents s o path ∧ s'.approval = Function.update s.approval path Option.none
  rest : ∀ category reason, e = .rejected category reason → s' = { s with approval := s'.approval } ∨
    s' = { s with approval := s'.approval, lease := s.lease.map (rewritten host) }

/-- What a registration of `b` leaves. -/
structure Registered (c : Checkout) (host : Host) (o : RegisterRepositoryMutationBorrowerOptions) (s : State)
    (b : RepositoryMutationBorrower) (s' : State) : Prop where
  snapshot : snapshotOr c host o.gitSnapshot = .ok b.launchGitSnapshot
  vacant : s.borrower = Option.none
  stored : s'.borrower = some (writtenBorrower host b)
  parent : ∃ l, recordOf s'.lease = some l ∧ (b.launchGitSnapshot = l.authority ∨
    b.launchGitSnapshot.dirty = true ∧ b.launchGitSnapshot.head = l.authority.head)
  receipt : b.dirtyApprovalReceiptId = Option.none ∧ s'.approval = s.approval ∨
    ∃ path a, Presents s o path ∧ readValidApprovalUnlocked s path = .found a ∧
      b.dirtyApprovalReceiptId = some a.receiptId ∧ s'.approval = Function.update s.approval path Option.none

theorem Refused.unchanged {e : Refusal} : Refused host o s e s :=
  ⟨rfl, Or.inl rfl, fun _ _ _ => Or.inl rfl⟩

theorem Refused.consumed {e : Refusal} {path : String} (h : Presents s o path) :
    Refused host o s e (s.putApproval path Option.none) :=
  ⟨rfl, Or.inr ⟨path, h, rfl⟩, fun _ _ _ => Or.inl rfl⟩

@[simp] theorem wp_consumeApproval {path : String} {Q : PUnit → State → Prop} {E : Refusal → State → Prop} :
    wp (faults.consumeApproval path) Q E s ↔
      Q ⟨⟩ s ∧ readValidApprovalUnlocked s path = .absent ∨
        ((faults.consume = true → E (.rejected "dirty-approval"
          "the parent-owned approval receipt could not be safely consumed") s) ∧
          (¬ faults.consume = true → Q ⟨⟩ (s.putApproval path Option.none))) ∧
        readValidApprovalUnlocked s path ≠ .absent := by
  simp only [consumeApproval, wp_bind, wp_get]
  cases readValidApprovalUnlocked s path <;> simp

/-- What the consumption of an approval returns and leaves. -/
theorem wp_dirtyApproval (hl : recordOf s.lease = some l) :
    wp (faults.dirtyApproval c host l identity o snapshot)
      (fun approved s' => approved = Option.none ∧ snapshot.dirty = false ∧ s' = s ∨
        ∃ path a scope, approved = some (scope, a.receiptId) ∧ snapshot.dirty = true ∧
          (branchChanged l o = false → snapshot.head = l.authority.head) ∧ Presents s o path ∧
          readValidApprovalUnlocked s path = .found a ∧ s' = s.putApproval path Option.none)
      (fun e s' => Refused host o s e s') s := by
  unfold dirtyApproval
  by_cases hd : snapshot.dirty = false
  · rw [if_pos hd, wp_pure]
    exact Or.inl ⟨rfl, hd, rfl⟩
  · rw [if_neg hd]
    simp only [wp_bind, wp_failIf, wp_liftM, wp_get, wp_consumeApproval, wp_pure]
    refine ⟨fun _ => .unchanged, fun _ => ⟨fun path hpath => ⟨fun _ => .unchanged, fun hgiven => ?_⟩,
      fun _ _ => .unchanged⟩⟩
    have hpres : Presents s o path := ⟨not_not.1 hgiven, l, hl, hpath⟩
    rcases hr : readValidApprovalUnlocked s path with _ | _ | a
    · refine Or.inl ⟨⟨fun approved h => ?_, fun _ _ => .unchanged⟩, rfl⟩
      cases h
    · refine Or.inr ⟨⟨fun _ => .unchanged, fun _ => ⟨fun approved h => ?_, fun _ _ => .consumed hpres⟩⟩,
        by simp⟩
      cases h
    · refine Or.inr ⟨⟨fun _ => .unchanged, fun _ => ⟨fun approved h => Or.inr ?_, fun _ _ => .consumed hpres⟩⟩,
        by simp⟩
      simp only [approvedScope, bind_eq_ok, throwIf_eq_ok, pure_eq_ok] at h
      obtain ⟨scope, -, _, -, _, -, _, hhead, rfl⟩ := h
      refine ⟨path, a, scope, rfl, by simpa using hd, fun hbr => ?_, hpres, hr, rfl⟩
      by_contra hne
      exact hhead ⟨hbr, hne⟩

theorem wp_rollBackTransition {before : State} {Q : PUnit → State → Prop} {E : Refusal → State → Prop}
    (hb : s.borrower = Option.none) : wp (faults.rollBackTransition host before b) Q E s ↔
      (faults.restore = true → E (.thrown "EIO") s) ∧
        (¬ faults.restore = true → Q ⟨⟩ { s with lease := before.lease.map (rewritten host) }) := by
  have hread : faults.removePublished s b = pure ⟨⟩ := by
    unfold removePublished readValidBorrowerUnlocked
    rw [hb]
    cases settlementPending s <;> rfl
  simp only [rollBackTransition, wp_bind, wp_get, hread, wp_pure, wp_failIf, wp_modify]

/-- What a publication that fails leaves. -/
structure Unpublished (host : Host) (s : State) (e : Refusal) (s' : State) : Prop where
  borrower : s'.borrower = s.borrower
  approval : s'.approval = s.approval
  rest : ∀ category reason, e = .rejected category reason →
    s' = s ∨ s' = { s with lease := s.lease.map (rewritten host) }

/-- What a publication leaves. -/
inductive Publishes (host : Host) (l : RepositoryMutationLease)
    (o : RegisterRepositoryMutationBorrowerOptions) (snapshot : RepositoryGitSnapshot)
    (b : RepositoryMutationBorrower) (s : State) : State → Prop
  | kept : branchChanged l o = false →
      Publishes host l o snapshot b s { s with borrower := some (writtenBorrower host b) }
  | transitioned : Publishes host l o snapshot b s { s with
      lease := some (writtenLease host (transitioned host l snapshot))
      borrower := some (writtenBorrower host b) }

theorem Unpublished.same {e : Refusal} : Unpublished host s e s := ⟨rfl, rfl, fun _ _ _ => Or.inl rfl⟩

/-- What publishing a borrower leaves in a state without one. -/
theorem wp_publishTransition (hb : s.borrower = Option.none) :
    wp (faults.publishTransition c host l o snapshot b) (fun _ s' => Publishes host l o snapshot b s s')
      (fun e s' => Unpublished host s e s') s := by
  unfold publishTransition
  dsimp only
  by_cases hbr : branchChanged l o = true
  · rw [if_pos hbr]
    simp only [publishBorrowerExclusive, Admission.publishBorrowerExclusive, wp_bind, wp_get, wp_tryCatch,
      wp_replaceLeaseAtomic, wp_failIf, wp_throw, wp_set, State.putLease_lease]
    refine ⟨fun _ => .same, fun _ => ⟨fun _ => .same, fun _ => ⟨fun hv => ?_, fun _ _ => .same⟩⟩⟩
    have hroll : ∀ rejected, wp (faults.rollBackTransition host s b)
        (fun _ s' => Unpublished host s rejected s') (fun e s' => Unpublished host s e s')
        { s with lease := some (writtenLease host (Admission.transitioned host l snapshot)) } := by
      intro rejected
      rw [wp_rollBackTransition (by exact hb)]
      exact ⟨fun _ => ⟨rfl, rfl, fun _ _ h => by cases h⟩, fun _ => ⟨rfl, rfl, fun _ _ _ => Or.inr rfl⟩⟩
    refine ⟨fun _ => hroll _, fun _ => ⟨fun _ => hroll _, fun _ => ⟨fun _ => hroll _, fun _ => ?_⟩⟩⟩
    exact .transitioned
  · rw [if_neg hbr]
    simp only [publishBorrowerExclusive, Admission.publishBorrowerExclusive, wp_bind, wp_get, wp_tryCatch,
      wp_failIf, wp_throw, wp_set]
    have hbr' : branchChanged l o = false := by simpa using hbr
    exact ⟨fun _ => .same, fun _ => ⟨fun _ => .same, fun _ => .kept hbr'⟩⟩

theorem launchSnapshot_ok (h : launchSnapshot c host l o = .ok snapshot) :
    snapshotOr c host o.gitSnapshot = .ok snapshot ∧
      (branchChanged l o = false → snapshot.dirty = false → snapshot = l.authority) := by
  simp only [launchSnapshot, bind_eq_ok, throwIf_eq_ok] at h
  obtain ⟨found, hs, _, -, _, -, _, -, h⟩ := h
  by_cases hbr : branchChanged l o = true
  · rw [if_pos hbr] at h
    simp only [bind_eq_ok, pure_eq_ok] at h
    obtain ⟨_, -, rfl⟩ := h
    exact ⟨hs, fun hn => absurd hbr (by simp [hn])⟩
  · rw [if_neg hbr] at h
    simp only [bind_eq_ok, throwIf_eq_ok, pure_eq_ok] at h
    obtain ⟨_, hauth, rfl⟩ := h
    exact ⟨hs, fun _ hd => by_contra fun hne => hauth ⟨hd, Ne.symm hne⟩⟩

theorem registeredBorrower_launch {fingerprint : ProcessFingerprint} {approved : Option (List String × String)}
    (h : registeredBorrower c host l o fingerprint snapshot approved = .ok b) :
    b.launchGitSnapshot = snapshot ∧ b.dirtyApprovalReceiptId = approved.map (·.2) := by
  simp only [registeredBorrower, bind_eq_ok, pure_eq_ok] at h
  obtain ⟨_, -, _, -, _, -, _, -, _, -, _, -, rfl⟩ := h
  exact ⟨rfl, rfl⟩

/-- A publication that fails leaves no more than the check before it. -/
theorem Refused.unpublished {s₁ : State} {e : Refusal} (h : ∀ e, Refused host o s e s₁)
    (hs : s₁ = { s with approval := s₁.approval }) (hu : Unpublished host s₁ e s') : Refused host o s e s' := by
  have he := h e
  refine ⟨hu.borrower.trans he.borrower, ?_, fun category reason hr => ?_⟩
  · rw [hu.approval]
    exact he.approval
  · rw [hu.approval]
    rcases hu.rest category reason hr with rfl | rfl
    · exact Or.inl hs
    · rw [hs]
      exact Or.inr rfl

/-- The parent of a published borrower has its launch snapshot, or the head of it. -/
theorem Publishes.parent {s₁ : State} (h : Publishes host l o snapshot b s₁ s') (hl : recordOf s₁.lease = some l)
    (hkept : branchChanged l o = false →
      snapshot = l.authority ∨ snapshot.dirty = true ∧ snapshot.head = l.authority.head) :
    s'.borrower = some (writtenBorrower host b) ∧ s'.approval = s₁.approval ∧
      ∃ l', recordOf s'.lease = some l' ∧ (snapshot = l'.authority ∨
        snapshot.dirty = true ∧ snapshot.head = l'.authority.head) := by
  cases h with
  | kept hbr => exact ⟨rfl, rfl, l, hl, hkept hbr⟩
  | transitioned => exact ⟨rfl, rfl, Admission.transitioned host l snapshot, rfl, Or.inl rfl⟩

/-- **What a registration leaves**, in every state and under all faults. -/
theorem wp_register : wp (faults.registerRepositoryMutationBorrower c host o)
    (fun b s' => Registered c host o s b s') (fun e s' => Refused host o s e s') s := by
  simp only [registerRepositoryMutationBorrower, wp_bind, wp_get, wp_liftM, wp_failIf, wp_tryCatch,
    wp_throw, wp_pure]
  refine ⟨fun _ => .unchanged, fun hset => ⟨fun _ _ => ⟨fun _ => .unchanged, fun hrev =>
    ⟨fun found hp => ⟨fun fingerprint hfp => ⟨fun _ hch => ⟨fun snapshot hsn => ?_,
      fun _ _ => .unchanged⟩, fun _ _ => .unchanged⟩, fun _ _ => .unchanged⟩, fun _ _ => .unchanged⟩⟩,
    fun _ _ => .unchanged⟩⟩
  obtain ⟨l, identity⟩ := found
  have hl := (parentOf_ok hp).1
  obtain ⟨hread, hclean⟩ := launchSnapshot_ok hsn
  refine wp_mono (wp_dirtyApproval hl) ?_ (fun _ _ h => h)
  rintro approved s₁ happ
  obtain ⟨hrefused, hs₁⟩ : (∀ e, Refused host o s e s₁) ∧ s₁ = { s with approval := s₁.approval } := by
    rcases happ with ⟨-, -, rfl⟩ | ⟨path, a, scope, -, -, -, hpres, -, rfl⟩
    · exact ⟨fun _ => .unchanged, rfl⟩
    · exact ⟨fun _ => .consumed hpres, rfl⟩
  refine ⟨fun _ => hrefused _, fun _ => ⟨fun _ hfree => ⟨fun b hb => ⟨fun _ hv => ?_, fun _ _ => hrefused _⟩,
    fun _ _ => hrefused _⟩, fun _ _ => hrefused _⟩⟩
  have hvacant := (freeSlots_ok hfree).1
  obtain ⟨rfl, hreceipt⟩ := registeredBorrower_launch hb
  refine wp_mono (wp_publishTransition (by rw [hs₁]; exact hvacant)) ?_ fun _ _ h => .unpublished hrefused hs₁ h
  rintro _ s' hpub
  have hkept : branchChanged l o = false → b.launchGitSnapshot = l.authority ∨
      b.launchGitSnapshot.dirty = true ∧ b.launchGitSnapshot.head = l.authority.head := by
    intro hbr
    rcases happ with ⟨-, hd, -⟩ | ⟨-, -, -, -, hd, hhead, -⟩
    · exact Or.inl (hclean hbr hd)
    · exact Or.inr ⟨hd, hhead hbr⟩
  obtain ⟨hstored, happroval, hparent⟩ := hpub.parent (by rw [hs₁]; exact hl) hkept
  refine ⟨hread, hvacant, hstored, hparent, ?_⟩
  rw [happroval, hreceipt]
  rcases happ with ⟨rfl, -, rfl⟩ | ⟨path, a, scope, rfl, -, -, hpres, hfound, rfl⟩
  · exact Or.inl ⟨rfl, rfl⟩
  · exact Or.inr ⟨path, a, hpres, hfound, rfl, rfl⟩

end FileFaults

end PaPlatform.Admission
