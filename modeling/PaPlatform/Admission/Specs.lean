/-
  One specification for each call on a worktree.

  A call that fails leaves one of its changes; a call that succeeds leaves one
  and, unless it ends a review, has found no pending settlement.
-/
import PaPlatform.Admission.Changes

namespace PaPlatform.Admission

open Guard Effect
open Capacity (ProcessFingerprint fingerprintsEqual)

variable {c : Checkout} {host : Host} {s s' : State}

/-! ## Rules for the writers -/

section
variable {Q : PUnit → State → Prop} {E : Refusal → State → Prop} {file : LeaseFile}
  {l : RepositoryMutationLease} {b : RepositoryMutationBorrower}

@[simp] theorem wp_replaceLeaseAtomic : wp (replaceLeaseAtomic c host file l) Q E s ↔
    (assertLease c.sha256 l = .ok () → Q ⟨⟩ (s.putLease file (some (writtenLease host l)))) ∧
      ∀ e, assertLease c.sha256 l = .error e → E e s := by
  simp only [replaceLeaseAtomic, wp_bind, wp_liftM, wp_modify]
  exact and_congr_left fun _ => ⟨fun h => h (), fun h _ => h⟩

@[simp] theorem wp_replaceBorrowerAtomic : wp (replaceBorrowerAtomic c host b) Q E s ↔
    (assertBorrower c.sha256 b = .ok () → Q ⟨⟩ { s with borrower := some (writtenBorrower host b) }) ∧
      ∀ e, assertBorrower c.sha256 b = .error e → E e s := by
  simp only [replaceBorrowerAtomic, wp_bind, wp_liftM, wp_modify]
  exact and_congr_left fun _ => ⟨fun h => h (), fun h _ => h⟩

@[simp] theorem wp_consumeApproval {path : String} : wp (consumeApproval path) Q E s ↔
    Q ⟨⟩ s ∧ readValidApprovalUnlocked s path = .absent ∨
      Q ⟨⟩ (s.putApproval path none) ∧ readValidApprovalUnlocked s path ≠ .absent := by
  simp only [consumeApproval, wp_bind, wp_get]
  cases readValidApprovalUnlocked s path <;> simp

end

theorem settlement_none (h : ¬ settlementPending s = true) : s.settlement = none := by
  simpa [settlementPending] using h

theorem isSome_false {α : Type} {o : Option α} (h : ¬ o.isSome = true) : o = none := by
  simpa using h

theorem wp_acquire (o : AcquireRepositoryMutationLeaseOptions) :
    wp (acquireRepositoryMutationLease c host o)
      (fun l s' => s.settlement = none ∧ s.review = none ∧ acquisitionRefusals c host o s = .ok () ∧
        Acquires c host o s l ∧ s' = (quarantineEvidence c host o s).putLease
          (c.leaseFile (classifyRepositoryMutationSlot o.mode)) (some (writtenLease host l)))
      (fun _ s' => Change c host s (.acquire o) s') s := by
  simp only [acquireRepositoryMutationLease, publishLeaseExclusive, wp_bind, wp_liftM, wp_get,
    wp_failIf, wp_set, wp_demand, wp_modify, wp_pure]
  refine ⟨fun _ _ => ⟨fun _ => .unchanged, fun hset => ⟨fun _ => .unchanged, fun hrev =>
    ⟨fun snapshot _ => ⟨fun _ => .unchanged, fun _ => ⟨fun _ href => ?_, fun _ _ => .unchanged⟩⟩,
      fun _ _ => .unchanged⟩⟩⟩, fun _ _ => .unchanged⟩
  have hq : Change c host s (.acquire o) (quarantineEvidence c host o s) :=
    .quarantined (settlement_none hset) (isSome_false hrev) href
  refine ⟨fun _ => hq, fun fingerprint hf => ⟨fun l hl => ⟨fun _ hv => ⟨fun _ => hq, fun _ => ?_⟩,
    fun _ _ => hq⟩, fun _ _ => hq⟩⟩
  exact ⟨settlement_none hset, isSome_false hrev, href, ⟨⟨_, _, hf, hl⟩, hv⟩, trivial⟩

theorem ownLease_ok {o : LeaseHolderOptions} {l : RepositoryMutationLease} :
    ownLease c s o = .ok l ↔ readValidLeaseUnlocked s (holderFile c o.slot) = .found l ∧
      l.canonicalRepoRoot = c.root ∧ l.worktree c.root = c.worktree := by
  unfold ownLease
  rcases readValidLeaseUnlocked s (holderFile c o.slot) with _ | _ | l'
  · simp
  · simp
  · by_cases h : l'.canonicalRepoRoot ≠ c.root ∨ l'.worktree c.root ≠ c.worktree
    · simp only [if_pos h, reduceCtorEq, false_iff]
      rintro ⟨h', h₁, h₂⟩
      cases h'
      exact h.elim (· h₁) (· h₂)
    · simp only [if_neg h, Except.ok.injEq, Reading.found.injEq]
      constructor
      · rintro rfl
        exact ⟨rfl, by_contra fun hn => h (.inl hn), by_contra fun hn => h (.inr hn)⟩
      · exact And.left

theorem heldLease_ok {o : LeaseHolderOptions} {l : RepositoryMutationLease} :
    heldLease c s o = .ok l ↔ ownLease c s o = .ok l ∧ l.ownershipToken = o.ownershipToken := by
  simp only [heldLease, bind_eq_ok, throwIf_eq_ok, pure_eq_ok, not_not]
  constructor
  · rintro ⟨l', hl, _, ht, rfl⟩
    exact ⟨hl, ht⟩
  · rintro ⟨hl, ht⟩
    exact ⟨l, hl, (), ht, rfl⟩

theorem readValidLease_found {file : LeaseFile} {l : RepositoryMutationLease}
    (h : readValidLeaseUnlocked s file = .found l) :
    s.settlement = none ∧ recordOf (s.leaseAt file) = some l := by
  obtain ⟨hp, hr⟩ := readValid_found h
  exact ⟨settlement_none (by simp [hp]), hr⟩

theorem heldLease_settlement {o : LeaseHolderOptions} {l : RepositoryMutationLease}
    (h : heldLease c s o = .ok l) : s.settlement = none :=
  (readValidLease_found (ownLease_ok.1 (heldLease_ok.1 h).1).1).1

theorem heldLease_record {o : LeaseHolderOptions} {l : RepositoryMutationLease}
    (h : heldLease c s o = .ok l) : recordOf (s.leaseAt (holderFile c o.slot)) = some l :=
  (readValidLease_found (ownLease_ok.1 (heldLease_ok.1 h).1).1).2

theorem wp_updateLease (o : LeaseHolderOptions) (snapshot : RepositoryGitSnapshot) :
    wp (updateRepositoryMutationLeaseGitSnapshot c host o snapshot)
      (fun _ s' => s.settlement = none ∧ Change c host s (.updateLease o snapshot) s')
      (fun _ s' => Change c host s (.updateLease o snapshot) s') s := by
  simp only [updateRepositoryMutationLeaseGitSnapshot, wp_bind, wp_get, wp_liftM, wp_failIf,
    wp_replaceLeaseAtomic]
  refine ⟨fun l hl => ⟨fun _ => .unchanged, fun _ => ⟨fun _ => .unchanged, fun ht =>
    ⟨fun hv => ?_, fun _ _ => .unchanged⟩⟩⟩, fun _ _ => .unchanged⟩
  have hh : heldLease c s o = .ok l := heldLease_ok.2 ⟨hl, not_not.1 ht⟩
  exact ⟨heldLease_settlement hh, .updatedLease hh rfl hv⟩

theorem wp_transferLease (o : LeaseHolderOptions) (gitDir gitCommonDir : Option String)
    (next : ProcessFingerprint) :
    wp (transferRepositoryMutationLease c host o gitDir gitCommonDir next)
      (fun _ s' => s.settlement = none ∧ Change c host s (.transferLease o gitDir gitCommonDir next) s')
      (fun _ s' => Change c host s (.transferLease o gitDir gitCommonDir next) s') s := by
  simp only [transferRepositoryMutationLease, wp_bind, wp_tryCatch, wp_get, wp_liftM, wp_failIf,
    wp_throw, wp_replaceLeaseAtomic]
  refine ⟨fun _ _ => ⟨fun l hl => ⟨fun _ => .unchanged, fun _ => ⟨fun hv => ?_, fun _ _ => .unchanged⟩⟩,
    fun _ _ => .unchanged⟩, fun _ _ => .unchanged⟩
  exact ⟨heldLease_settlement hl, .transferredLease hl rfl hv⟩

theorem wp_releaseLease (o : LeaseHolderOptions) (call : Call)
    (hcall : call = .releaseLease o ∨ ∃ hosts, call = .finalizeLease hosts o) (host' : Host) :
    wp (releaseRepositoryMutationLease c host' o)
      (fun _ s' => s.settlement = none ∧ Change c host s call s')
      (fun _ s' => Change c host s call s') s := by
  simp only [releaseRepositoryMutationLease, wp_bind, wp_get, wp_liftM, wp_failIf, wp_consumeApproval,
    wp_modify]
  refine ⟨fun l hl => ⟨fun _ => .unchanged, fun hcust => ⟨fun _ => .unchanged, fun _ =>
    ⟨fun _ => .unchanged, fun hb => ⟨fun path _ => ?_, fun _ _ => .unchanged⟩⟩⟩⟩, fun _ _ => .unchanged⟩
  obtain ⟨hc₁, hc₂⟩ := not_or.1 hcust
  have hfree : holderFile c o.slot ≠ .implement → s.borrower = none := by
    intro hf
    rw [if_neg hf] at hb
    exact inspectEvidence_absent.1 (not_not.1 hb)
  have hs := heldLease_settlement hl
  have hrel : ∀ f, Change c host s call ((s.withApprovals f).putLease (holderFile c o.slot) none) :=
    fun f => .releasedLease hcall hl hc₁ (isSome_false hc₂) hfree
  cases hr : readValidApprovalUnlocked s path with
  | absent => exact .inl ⟨⟨hs, hrel s.approval⟩, rfl⟩
  | invalid => exact .inr ⟨⟨hs, hrel _⟩, by simp⟩
  | found a => exact .inr ⟨⟨hs, hrel _⟩, by simp⟩

theorem wp_awaitBorrower (o : LeaseHolderOptions) (call : Call)
    (hcall : call = .releaseLease o ∨ ∃ hosts, call = .finalizeLease hosts o) (parent : String)
    (startedAt : ℤ) (hosts : List Host) :
    wp (awaitBorrower c o parent startedAt hosts)
      (fun _ s' => s.settlement = none ∧ Change c host s call s')
      (fun _ s' => Change c host s call s') s := by
  induction hosts with
  | nil => exact wp_throw.2 .unchanged
  | cons host' hosts ih =>
    simp only [awaitBorrower, wp_bind, wp_get, wp_ite, wp_failIf]
    exact ⟨fun _ => wp_releaseLease o call hcall host', fun _ => ⟨fun _ => .unchanged, fun _ =>
      ⟨fun _ => .unchanged, fun _ => ih⟩⟩⟩

theorem wp_finalizeLease (hosts : List Host) (o : LeaseHolderOptions) :
    wp (finalizeRepositoryMutationLease c host hosts o)
      (fun _ s' => s.settlement = none ∧ Change c host s (.finalizeLease hosts o) s')
      (fun _ s' => Change c host s (.finalizeLease hosts o) s') s := by
  simp only [finalizeRepositoryMutationLease, wp_bind, wp_get, wp_failIf, wp_demand]
  exact ⟨fun _ => .unchanged, fun _ => ⟨fun _ => .unchanged, fun _ _ => ⟨fun _ => .unchanged, fun _ =>
    wp_awaitBorrower o _ (.inr ⟨_, rfl⟩) _ _ _⟩⟩⟩

theorem wp_quarantine (identity : String) :
    wp (quarantineRepositoryMutationLease c host identity)
      (fun _ s' => s.settlement = none ∧ Change c host s (.quarantine identity) s')
      (fun _ s' => Change c host s (.quarantine identity) s') s := by
  simp only [quarantineRepositoryMutationLease, wp_bind, wp_get, wp_failIf, wp_modify]
  refine ⟨fun _ => .unchanged, fun _ => ⟨fun _ => .unchanged, fun hset => ⟨fun _ => .unchanged, fun _ =>
    ⟨fun _ => .unchanged, fun _ => ⟨fun _ => .unchanged, fun hrt => ⟨fun _ => .unchanged, fun _ => ?_⟩⟩⟩⟩⟩⟩
  obtain ⟨l, hl, hrun⟩ := Option.map_eq_some_iff.1 (not_not.1 hrt)
  exact ⟨settlement_none hset,
    .quarantinedLease (settlement_none hset) (inspectEvidence_record hl) hrun⟩

theorem heldBorrower_ok {token : String} {b : RepositoryMutationBorrower}
    (h : heldBorrower c s token = .ok b) : s.settlement = none ∧ recordOf s.borrower = some b := by
  unfold heldBorrower at h
  rcases hr : readValidBorrowerUnlocked s with _ | _ | b'
  · rw [hr] at h
    cases h
  · rw [hr] at h
    cases h
  · simp only [hr, bind_eq_ok, pure_eq_ok] at h
    obtain ⟨_, -, _, -, rfl⟩ := h
    obtain ⟨hp, hrec⟩ := readValid_found hr
    exact ⟨settlement_none (by simp [hp]), hrec⟩

theorem wp_transferBorrower (token : String) (gitDir gitCommonDir : Option String)
    (next : ProcessFingerprint) :
    wp (transferRepositoryMutationBorrower c host token gitDir gitCommonDir next)
      (fun _ s' => s.settlement = none ∧ Change c host s (.transferBorrower token gitDir gitCommonDir next) s')
      (fun _ s' => Change c host s (.transferBorrower token gitDir gitCommonDir next) s') s := by
  simp only [transferRepositoryMutationBorrower, wp_bind, wp_tryCatch, wp_get, wp_liftM, wp_failIf,
    wp_throw, wp_replaceBorrowerAtomic]
  refine ⟨fun _ _ => ⟨fun b hb => ⟨fun _ => .unchanged, fun _ => ⟨fun hv => ?_, fun _ _ => .unchanged⟩⟩,
    fun _ _ => .unchanged⟩, fun _ _ => .unchanged⟩
  exact ⟨(heldBorrower_ok hb).1, .transferredBorrower hb rfl hv⟩

theorem wp_releaseBorrower (token : String) (expected : Option ProcessFingerprint) :
    wp (releaseRepositoryMutationBorrower c host token expected)
      (fun _ s' => s.settlement = none ∧ Change c host s (.releaseBorrower token expected) s')
      (fun _ s' => Change c host s (.releaseBorrower token expected) s') s := by
  simp only [releaseRepositoryMutationBorrower, wp_bind, wp_get, wp_liftM, wp_failIf, wp_set]
  exact ⟨fun b hb => ⟨fun _ => .unchanged, fun _ => ⟨(heldBorrower_ok hb).1, .releasedBorrower hb⟩⟩,
    fun _ _ => .unchanged⟩

/-! ## Registration -/

/-- What the consumption of an approval leaves, and what it returns. -/
theorem wp_dirtyApproval {l : RepositoryMutationLease} {identity : Option String}
    {o : RegisterRepositoryMutationBorrowerOptions} {snapshot : RepositoryGitSnapshot} :
    wp (dirtyApproval c host l identity o snapshot)
      (fun approved s' => (∃ f, s' = s.withApprovals f) ∧
        (∀ a, approved = some a → (repositoryDirtyBorrowApprovalPath l.deploymentDirectory).toOption.isSome ∧
          snapshot.dirty = true ∧ (branchChanged l o = false → snapshot.head = l.authority.head)) ∧
        (approved = none → snapshot.dirty = false))
      (fun _ s' => ∃ f, s' = s.withApprovals f) s := by
  have hs : ∃ f, s = s.withApprovals f := ⟨s.approval, rfl⟩
  unfold dirtyApproval
  by_cases hd : snapshot.dirty = false
  · rw [if_pos hd, wp_pure]
    exact ⟨hs, (fun a ha => by cases ha), fun _ => hd⟩
  · rw [if_neg hd]
    simp only [wp_bind, wp_failIf, wp_liftM, wp_get, wp_consumeApproval, wp_pure]
    refine ⟨fun _ => hs, fun _ => ⟨fun path hpath => ⟨fun _ => hs, fun _ => ?_⟩, fun _ _ => hs⟩⟩
    have hok : ∀ {approval s' a}, (∃ f, s' = s.withApprovals f) →
        approvedScope c host approval l identity o snapshot = .ok a →
        (∃ f, s' = s.withApprovals f) ∧
        (∀ b, some a = some b → (repositoryDirtyBorrowApprovalPath l.deploymentDirectory).toOption.isSome ∧
          snapshot.dirty = true ∧ (branchChanged l o = false → snapshot.head = l.authority.head)) ∧
        (some a = none → snapshot.dirty = false) := by
      intro approval s' a hs' ha
      refine ⟨hs', fun b hb => ⟨?_, by simpa using hd, fun hbranch => ?_⟩, fun h => by cases h⟩
      · rw [hpath]
        rfl
      · unfold approvedScope at ha
        cases approval with
        | absent => cases ha
        | invalid => cases ha
        | found receipt =>
          simp only [bind_eq_ok, throwIf_eq_ok] at ha
          obtain ⟨_, -, _, -, _, -, _, hhead, -⟩ := ha
          by_contra hne
          exact hhead ⟨hbranch, hne⟩
    cases hr : readValidApprovalUnlocked s path with
    | absent => exact .inl ⟨⟨fun a ha => hok hs ha, fun _ _ => hs⟩, rfl⟩
    | invalid => exact .inr ⟨⟨fun a ha => hok ⟨_, rfl⟩ ha, fun _ _ => ⟨_, rfl⟩⟩, by simp⟩
    | found a' => exact .inr ⟨⟨fun a ha => hok ⟨_, rfl⟩ ha, fun _ _ => ⟨_, rfl⟩⟩, by simp⟩

/-- What publishing a borrower leaves in a state without one. -/
theorem wp_publishTransition {l : RepositoryMutationLease}
    {o : RegisterRepositoryMutationBorrowerOptions} {snapshot : RepositoryGitSnapshot}
    {b : RepositoryMutationBorrower} (hb : s.borrower = none) :
    wp (publishTransition c host l o snapshot b)
      (fun _ s' => branchChanged l o = false ∧ s' = { s with borrower := some (writtenBorrower host b) } ∨
        branchChanged l o = true ∧ assertLease c.sha256 (transitioned host l snapshot) = .ok () ∧
          s' = { s with
            lease := some (writtenLease host (transitioned host l snapshot))
            borrower := some (writtenBorrower host b) })
      (fun _ s' => s' = s ∨ s' = { s with lease := s.lease.map (rewritten host) }) s := by
  unfold publishTransition
  dsimp only
  by_cases hbr : branchChanged l o = true
  · rw [if_pos hbr]
    simp only [publishBorrowerExclusive, wp_bind, wp_get, wp_tryCatch, wp_replaceLeaseAtomic, wp_failIf,
      wp_throw, wp_set, State.putLease_lease]
    refine ⟨fun hv => ?_, fun _ _ => .inl trivial⟩
    have hroll : wp (rollBackTransition host s b) (fun _ s' => s' = s ∨
        s' = { s with lease := s.lease.map (rewritten host) }) (fun _ s' => s' = s ∨
        s' = { s with lease := s.lease.map (rewritten host) })
        { s with lease := some (writtenLease host (transitioned host l snapshot)) } := by
      have hread : readValidBorrowerUnlocked
          { s with lease := some (writtenLease host (transitioned host l snapshot)) } =
          readValid (settlementPending s) none := by
        simp only [readValidBorrowerUnlocked, hb, settlementPending]
      simp only [rollBackTransition, wp_bind, wp_get, hread]
      cases hp : settlementPending s with
      | true => simp [readValid]
      | false => simp [readValid]
    refine ⟨fun _ => wp_mono hroll (fun _ _ h => h) fun _ _ h => h, fun _ => ⟨fun hsome => ?_, fun _ => ?_⟩⟩
    · simp [hb] at hsome
    · exact .inr ⟨hbr, hv, rfl⟩
  · rw [if_neg hbr]
    simp only [publishBorrowerExclusive, wp_bind, wp_get, wp_tryCatch, wp_failIf, wp_throw, wp_set]
    exact ⟨fun _ => .inl trivial, fun _ => .inl ⟨by simpa using hbr, trivial⟩⟩

theorem freeSlots_ok (h : freeSlots c host s = .ok ()) :
    s.borrower = none ∧ (c.linked = true → s.implement = none) := by
  simp only [freeSlots, bind_eq_ok, throwIf_eq_ok] at h
  obtain ⟨_, -, _, him, _, -, hb⟩ := h
  refine ⟨inspectEvidence_absent.1 (not_not.1 hb), fun hl => ?_⟩
  by_contra hne
  exact him ⟨hl, fun habs => hne (inspectEvidence_absent.1 habs)⟩

theorem wp_register (o : RegisterRepositoryMutationBorrowerOptions) :
    wp (registerRepositoryMutationBorrower c host o)
      (fun _ s' => s.settlement = none ∧ Change c host s (.register o) s')
      (fun _ s' => Change c host s (.register o) s') s := by
  simp only [registerRepositoryMutationBorrower, wp_bind, wp_get, wp_liftM, wp_failIf, wp_tryCatch,
    wp_throw, wp_pure]
  refine ⟨fun _ => .unchanged, fun hset => ⟨fun _ _ => ⟨fun _ => .unchanged, fun hrev =>
    ⟨fun found hp => ⟨fun fingerprint hfp => ⟨fun _ hch => ⟨fun snapshot hsn => ?_,
      fun _ _ => .unchanged⟩, fun _ _ => .unchanged⟩, fun _ _ => .unchanged⟩, fun _ _ => .unchanged⟩⟩,
    fun _ _ => .unchanged⟩⟩
  obtain ⟨l, identity⟩ := found
  have hs := settlement_none hset
  have hr := isSome_false hrev
  refine wp_mono wp_dirtyApproval ?_ ?_
  · rintro approved s₁ ⟨⟨f, rfl⟩, happ, hclean⟩
    have hcons : Change c host s (.register o) (s.withApprovals f) := .consumed hs hr
    refine ⟨fun _ => hcons, fun _ => ⟨fun _ hfree => ⟨fun b hb => ⟨fun _ hv => ?_, fun _ _ => hcons⟩,
      fun _ _ => hcons⟩, fun _ _ => hcons⟩⟩
    have hreg : Registers c host o s l b :=
      ⟨⟨identity, hp⟩, hch, hfree, ⟨_, _, _, hsn, happ, hclean, hb⟩, hv⟩
    have hbn := (freeSlots_ok hfree).1
    have hlaunch : b.launchGitSnapshot = snapshot := by
      simp only [registeredBorrower, bind_eq_ok, pure_eq_ok] at hb
      obtain ⟨_, -, _, -, _, -, _, -, _, -, _, -, rfl⟩ := hb
      rfl
    refine wp_mono (@wp_publishTransition c host (s.withApprovals f) _ _ _ _ hbn) ?_ ?_
    · rintro _ s' (⟨hbr, rfl⟩ | ⟨hbr, hv', rfl⟩)
      · exact ⟨hs, .registered hs hr hreg hbr⟩
      · subst hlaunch
        exact ⟨hs, .transitioned hs hr hreg hbr hv'⟩
    · rintro _ s' (rfl | rfl)
      · exact hcons
      · exact .rolledBack hs hr hbn
  · rintro _ s' ⟨f, rfl⟩
    exact .consumed hs hr

/-! ## Finalization -/

section
variable {b : RepositoryMutationBorrower} {o : FinalizeRepositoryMutationBorrowerOptions}
  {final : RepositoryGitSnapshot} {l : RepositoryMutationLease}

/-- A transaction of the registry advances it or changes nothing. -/
theorem wp_publishToRegistry {f : Registry.Database → Registry.Result Registry.Database} :
    wp (publishToRegistry host f)
      (fun _ s' => ∃ db', host.registryFault = false ∧ f s.registry = .ok db' ∧
        s' = { s with registry := db' })
      (fun _ s' => s' = s ∧ (host.registryFault = true ∨ ∃ e, f s.registry = .error e)) s := by
  simp only [publishToRegistry, wp_bind, wp_failIf, wp_get]
  refine ⟨fun hf => ⟨trivial, .inl hf⟩, fun hf => ?_⟩
  cases hd : f s.registry with
  | error e => exact wp_throw.2 ⟨rfl, .inr ⟨e, rfl⟩⟩
  | ok db => exact wp_set.2 ⟨db, by simpa using hf, rfl, rfl⟩

theorem wp_advanceParent (hl : recordOf s.lease = some l) (hp : isParentOf c b l = true)
    (hsc : scopeCompliant b final = true) :
    wp (advanceParent c host b l o.publishParentAuthoritySnapshot final)
      (fun _ s' => Settles c host b o final s s')
      (fun _ s' => s' = s ∨ s' = { s with lease := s.lease.map (rewritten host) }) s := by
  simp only [advanceParent, wp_bind, wp_failIf, wp_get, wp_tryCatch, wp_replaceLeaseAtomic, wp_modify,
    wp_throw, wp_ite, wp_pure]
  refine ⟨fun _ => .inl trivial, fun hbr => ⟨fun hv => ⟨fun hpub => ?_, fun hpub => ?_⟩,
    fun _ _ => .inr trivial⟩⟩
  · refine wp_mono wp_publishToRegistry ?_ ?_
    · rintro _ s' ⟨db', -, hdb, rfl⟩
      exact .advanced hl hp hsc (not_not.1 hbr) hv (fun _ => hdb) fun hn => by simp [hpub] at hn
    · rintro _ s' ⟨rfl, -⟩
      exact .inr rfl
  · exact .advanced hl hp hsc (not_not.1 hbr) hv (fun h => absurd h hpub) fun _ => rfl

theorem wp_settleParent :
    wp (settleParent c host b o final) (fun _ s' => Settles c host b o final s s')
      (fun _ s' => s' = s ∨ s' = { s with lease := s.lease.map (rewritten host) }) s := by
  simp only [settleParent, wp_bind, wp_get]
  cases hr : (inspectLeaseUnlocked c host s.lease).record with
  | none => exact wp_pure.2 .kept
  | some l =>
    have hl := inspectEvidence_record hr
    simp only [wp_ite, wp_pure, wp_bind, wp_set]
    refine ⟨fun _ => .kept, fun hp => ⟨fun _ => ⟨fun hadv => ?_, fun _ => .kept⟩, fun _ => ?_⟩⟩
    · exact wp_advanceParent hl (by simpa using hp) hadv.1
    · exact .released hl (by simpa using hp)

/-- Removing an approval fails only on an improper directory of the parent. -/
theorem wp_removeMatchingApproval {parent : Option RepositoryMutationLease} :
    wp (removeMatchingApproval b parent) (fun _ s' => ∃ f, s' = s.withApprovals f)
      (fun _ s' => s' = s ∧ b.dirtyApprovalReceiptId.isSome = true ∧ ∃ l, parent = some l ∧
        (repositoryDirtyBorrowApprovalPath l.deploymentDirectory).toOption = none) s := by
  have hs : ∃ f, s = s.withApprovals f := ⟨s.approval, rfl⟩
  unfold removeMatchingApproval
  rcases hb : b.dirtyApprovalReceiptId with _ | receiptId
  · exact wp_pure.2 hs
  · rcases parent with _ | l
    · exact wp_pure.2 hs
    · dsimp only
      simp only [wp_bind, wp_liftM, wp_get]
      refine ⟨fun path _ => ?_, fun e he => ⟨trivial, rfl, l, rfl, ?_⟩⟩
      · cases readValidApprovalUnlocked s path with
        | absent => exact wp_pure.2 hs
        | invalid => exact wp_pure.2 hs
        | found a =>
          simp only [wp_ite, wp_set, wp_pure]
          exact ⟨fun _ => ⟨_, rfl⟩, fun _ => hs⟩
      · rw [he]
        rfl

end

theorem wp_finalizeBorrower (o : FinalizeRepositoryMutationBorrowerOptions) :
    wp (finalizeRepositoryMutationBorrower c host o)
      (fun _ s' => s.settlement = none ∧ Change c host s (.finalizeBorrower o) s')
      (fun _ s' => Change c host s (.finalizeBorrower o) s') s := by
  simp only [finalizeRepositoryMutationBorrower, wp_bind, wp_get, wp_liftM, wp_failIf, wp_ite,
    wp_replaceBorrowerAtomic, wp_pure, wp_modify]
  refine ⟨fun b hb => ⟨fun _ => .unchanged, fun _ => ⟨fun _ => ⟨fun hv => ?_, fun _ _ => .unchanged⟩,
    fun _ => ⟨fun _ => .unchanged, fun _ => ⟨fun final _ => ⟨fun _ => .unchanged, fun hfin =>
      ⟨fun hv => ?_, fun _ _ => .unchanged⟩⟩, fun _ _ => .unchanged⟩⟩⟩⟩, fun _ _ => .unchanged⟩
  · exact ⟨(heldBorrower_ok hb).1, .finalizing hb rfl hv⟩
  · have hbr : final.branch = b.branch := by
      by_contra hne
      exact hfin (.inr (.inr hne))
    refine wp_mono wp_settleParent ?_ ?_
    · rintro _ s₁ h₁
      refine wp_mono wp_removeMatchingApproval ?_ ?_
      · rintro _ s₂ ⟨f, rfl⟩
        exact ⟨(heldBorrower_ok hb).1, .finalized hb hbr rfl h₁⟩
      · rintro _ s₂ ⟨rfl, hrec, l, hl, hpath⟩
        refine .settling hb hbr rfl hv h₁ fun hnone hsome => ⟨hrec, l, inspectEvidence_record hl, ?_, hpath⟩
        have hrl := inspectEvidence_record hl
        cases h₁ with
        | kept => exact absurd hnone hsome
        | restored => exact absurd (Option.map_eq_none_iff.1 hnone) hsome
        | advanced => cases hnone
        | released hl' hp =>
          obtain rfl := Option.some.inj (hl'.symm.trans hrl)
          exact hp
    · rintro _ s₁ (rfl | rfl)
      · exact .settling hb hbr rfl hv .kept fun hnone hsome => absurd hnone hsome
      · exact .settling hb hbr rfl hv .restored fun hnone hsome =>
          absurd (Option.map_eq_none_iff.1 hnone) hsome

/-! ## Approvals and reviews -/

theorem wp_publishApproval (a : RepositoryDirtyBorrowApproval) :
    wp (publishRepositoryDirtyBorrowApproval c host a)
      (fun _ s' => s.settlement = none ∧ Change c host s (.publishApproval a) s')
      (fun _ s' => Change c host s (.publishApproval a) s') s := by
  simp only [publishRepositoryDirtyBorrowApproval, wp_bind, wp_get, wp_liftM, wp_failIf, wp_set]
  refine ⟨fun _ => .unchanged, fun _ => ⟨fun path _ => ⟨fun _ => .unchanged, fun hset =>
    ⟨fun _ => .unchanged, fun _ => ⟨fun _ _ => ⟨fun _ => .unchanged, fun _ => ⟨fun _ => .unchanged,
      fun _ => ⟨fun _ => .unchanged, fun _ => ?_⟩⟩⟩, fun _ _ => .unchanged⟩⟩⟩, fun _ _ => .unchanged⟩⟩
  exact ⟨settlement_none hset, .approval (.inl ⟨a, rfl⟩) (settlement_none hset)⟩

theorem wp_removeApproval (path receiptId : String) :
    wp (removeRepositoryDirtyBorrowApproval c path receiptId)
      (fun _ s' => s.settlement = none ∧ Change c host s (.removeApproval path receiptId) s')
      (fun _ s' => Change c host s (.removeApproval path receiptId) s') s := by
  simp only [removeRepositoryDirtyBorrowApproval, wp_bind, wp_get, wp_failIf]
  refine ⟨fun _ => .unchanged, fun hset => ?_⟩
  cases readValidApprovalUnlocked s path with
  | absent => exact wp_throw.2 .unchanged
  | invalid => exact wp_throw.2 .unchanged
  | found a =>
    simp only [wp_bind, wp_failIf, wp_set]
    exact ⟨fun _ => .unchanged, fun _ => ⟨settlement_none hset,
      .approval (.inr ⟨_, _, rfl⟩) (settlement_none hset)⟩⟩

/-- What a review needs of the custody. -/
theorem assertIdleReviewCustody_ok {checkout : ReviewCheckoutEvidence}
    (h : assertIdleReviewCustody c host checkout s = .ok ()) :
    s.settlement = none ∧ s.implement = none ∧ s.borrower = none ∧
      (s.lease ≠ none → ∃ l, recordOf s.lease = some l ∧ idleOrchestrator c host checkout l) := by
  unfold assertIdleReviewCustody at h
  rw [bind_eq_ok] at h
  obtain ⟨_, hfree, h⟩ := h
  rw [throwIf_eq_ok] at hfree
  obtain ⟨hs, hib⟩ := not_or.1 hfree
  obtain ⟨hi, hb⟩ := not_or.1 hib
  refine ⟨isSome_false hs, isSome_false hi, isSome_false hb, fun hne => ?_⟩
  cases hl : s.lease with
  | none => exact absurd hl hne
  | some e =>
    simp only [hl, bind_eq_ok, throwIf_eq_ok] at h
    obtain ⟨_, -, hlive⟩ := h
    have hall := (not_or.1 hlive).2
    cases hr : (inspectLeaseUnlocked c host (some e)).record with
    | none => simp [hr] at hall
    | some l => exact ⟨l, inspectEvidence_record hr, by simpa [hr] using hall⟩

theorem wp_reviewStopped {α : Type} {reason : String} {op : Op α} {Q : α → State → Prop}
    {E : Refusal → State → Prop} : wp (reviewStopped reason op) Q E s ↔
      wp op Q (fun _ s' => E (reviewReservationError reason) s') s := by
  simp only [reviewStopped, wp_tryCatch, wp_throw]

theorem wp_reserve (o : ReserveRepositoryReviewOptions) :
    wp (reserveRepositoryReview c host o)
      (fun _ s' => s.settlement = none ∧ Change c host s (.reserve o) s')
      (fun _ s' => Change c host s (.reserve o) s') s := by
  unfold reserveRepositoryReview
  rw [wp_reviewStopped]
  simp only [wp_bind, wp_get, wp_liftM, wp_failIf, wp_set, wp_pure]
  refine ⟨fun checkout _ => ⟨fun _ => .unchanged, fun _ => ⟨fun _ => .unchanged, fun _ =>
    ⟨fun _ => .unchanged, fun _ => ⟨fun _ _ => ⟨fun _ => .unchanged, fun hrev => ⟨fun _ hidle =>
      ⟨fun _ _ => ⟨fun _ => .unchanged, fun _ => ?_⟩, fun _ _ => .unchanged⟩, fun _ _ => .unchanged⟩⟩,
      fun _ _ => .unchanged⟩⟩⟩⟩, fun _ _ => .unchanged⟩
  obtain ⟨hs, hi, hb, hl⟩ := assertIdleReviewCustody_ok hidle
  have hres : ∀ e, Change c host s (.reserve o) { s with review := some e } := fun e =>
    .reserved (isSome_false hrev) hs hi hb fun hne => by
      obtain ⟨l, hl, hidle⟩ := hl hne
      exact ⟨l, checkout, hl, hidle⟩
  exact ⟨fun _ _ => ⟨fun _ => hres _, fun _ => ⟨hs, hres _⟩⟩, fun _ _ => hres _⟩

theorem wp_withReservation (r : RepositoryReviewReservation) (reread : Option ReviewCheckoutEvidence)
    (action : Option Refusal) :
    wp (withRepositoryReviewReservation c host r reread action)
      (fun _ s' => Change c host s (.withReservation r reread action) s')
      (fun _ s' => Change c host s (.withReservation r reread action) s') s := by
  unfold withRepositoryReviewReservation
  rw [wp_bind, wp_reviewStopped]
  simp only [wp_bind, wp_get, wp_liftM, wp_failIf]
  exact ⟨fun _ => .unchanged, fun _ => ⟨fun _ _ => ⟨fun _ _ => ⟨fun _ => .unchanged, fun _ =>
    ⟨fun _ _ => ⟨fun _ _ => ⟨fun _ => .unchanged, fun _ => .unchanged⟩, fun _ _ => .unchanged⟩,
      fun _ _ => .unchanged⟩⟩, fun _ _ => .unchanged⟩, fun _ _ => .unchanged⟩⟩

theorem wp_finalizeReview (r : RepositoryReviewReservation) (verifyTerminal : String → Bool)
    (publish : Bool) :
    wp (finalizeRepositoryReview c host r verifyTerminal publish)
      (fun _ s' => Change c host s (.finalizeReview r verifyTerminal publish) s')
      (fun _ s' => Change c host s (.finalizeReview r verifyTerminal publish) s') s := by
  unfold finalizeRepositoryReview
  simp only [wp_bind, wp_get, wp_liftM, wp_failIf, wp_reviewStopped, wp_set, wp_pure]
  refine ⟨fun _ => .unchanged, fun _ => ⟨fun _ => .unchanged, fun _ => ⟨fun found hfound =>
    ⟨fun _ => .unchanged, fun hm => ⟨fun _ => .unchanged, fun hv => ⟨fun _ _ => ⟨fun _ _ =>
      ⟨fun _ => .unchanged, fun _ => ?_⟩, fun _ _ => .unchanged⟩, fun _ _ => .unchanged⟩⟩⟩,
    fun _ _ => .unchanged⟩⟩⟩
  exact .finalizedReview hfound (by simpa using hm) (by simpa using hv)

/-! ## Advisory and direct owners -/

theorem wp_advisoryOwner (context : AdvisoryContext) :
    wp (withAdvisoryRepositoryOwner c host context)
      (fun l s' => s' = s ∧ AdvisoryOwner c host s l) (fun _ s' => s' = s) s := by
  unfold withAdvisoryRepositoryOwner
  simp only [wp_bind, wp_get, wp_liftM, wp_failIf, wp_demand, wp_pure]
  refine ⟨fun start _ => ⟨fun _ => trivial, fun _ => ⟨fun _ => trivial, fun _ => ⟨fun _ => trivial,
    fun l hl => ⟨fun _ => trivial, fun hown => ⟨fun _ _ => ⟨fun _ => trivial, fun _ => ⟨fun _ => trivial,
      fun hfree => ⟨fun _ => trivial, fun _ => ⟨trivial, ?_⟩⟩⟩⟩, fun _ _ => trivial⟩⟩⟩⟩⟩, fun _ _ => trivial⟩
  obtain ⟨-, -, -, hmode, -, -, hset⟩ := not_not.1 hown
  have hslot : classifyRepositoryMutationSlot (start.mode.getD "") =
      classifyRepositoryMutationSlot l.mode := by
    rw [← hmode]
    rfl
  obtain ⟨hb, hfree⟩ := not_or.1 hfree
  obtain ⟨hr, hother⟩ := not_or.1 hfree
  rw [hslot] at hl hother
  exact ⟨inspectEvidence_record hl, settlement_none (by simp [hset]), isSome_false hb, isSome_false hr,
    fun hlink => isSome_false fun h => hother ⟨hlink, h⟩⟩

theorem wp_beginAdvisory (context : AdvisoryContext) (id sha ref : String) :
    wp (beginAdvisoryRepositoryOperation c host context id sha ref)
      (fun _ s' => s.settlement = none ∧ Change c host s (.beginAdvisory context id sha ref) s')
      (fun _ s' => Change c host s (.beginAdvisory context id sha ref) s') s := by
  unfold beginAdvisoryRepositoryOperation
  rw [wp_bind]
  refine wp_mono (wp_advisoryOwner context) ?_ ?_
  · rintro l _ ⟨rfl, ho⟩
    simp only [wp_bind, wp_liftM, wp_failIf, wp_demand, wp_replaceLeaseAtomic]
    refine ⟨fun _ => .unchanged, fun caller _ => ⟨fun _ => .unchanged, fun hfree => ⟨fun _ _ =>
      ⟨fun _ => .unchanged, fun _ => ⟨fun hv => ?_, fun _ _ => .unchanged⟩⟩, fun _ _ => .unchanged⟩⟩⟩
    obtain ⟨-, hfree⟩ := not_or.1 hfree
    obtain ⟨ha, hc⟩ := not_or.1 hfree
    exact ⟨ho.settlement, .begunAdvisory ho (isSome_false ha) hc rfl hv⟩
  · rintro _ _ rfl
    exact .unchanged

theorem wp_finishAdvisory (context : AdvisoryContext) (id : String) (settled : Bool) :
    wp (finishAdvisoryRepositoryOperation c host context id settled)
      (fun _ s' => s.settlement = none ∧ Change c host s (.finishAdvisory context id settled) s')
      (fun _ s' => Change c host s (.finishAdvisory context id settled) s') s := by
  unfold finishAdvisoryRepositoryOperation
  rw [wp_bind]
  refine wp_mono (wp_advisoryOwner context) ?_ ?_
  · rintro l _ ⟨rfl, ho⟩
    simp only [wp_bind, wp_liftM, wp_failIf, wp_ite, wp_pure, wp_replaceLeaseAtomic]
    exact ⟨fun _ => .unchanged, fun _ => ⟨fun _ => ⟨ho.settlement, .unchanged⟩, fun _ => ⟨fun _ _ =>
      ⟨fun _ => .unchanged, fun _ => ⟨fun hv => ⟨ho.settlement, .finishedAdvisory ho rfl hv⟩,
        fun _ _ => .unchanged⟩⟩, fun _ _ => .unchanged⟩⟩⟩
  · rintro _ _ rfl
    exact .unchanged

theorem overlappingCustody_false (h : ¬ overlappingCustody s = true) :
    s.borrower = none ∧ s.implement = none ∧ s.review = none := by
  simp only [overlappingCustody, Bool.or_eq_true, not_or] at h
  exact ⟨isSome_false h.1.1, isSome_false h.1.2, isSome_false h.2⟩

theorem executionWorktree_ok (h : executionWorktree c = .ok ()) : c.linked = true := by
  simpa [executionWorktree] using h

theorem directLease_record {input : DirectCustodyInput} {l : RepositoryMutationLease}
    (h : directLease c host s input = some l) : recordOf s.lease = some l := by
  unfold directLease at h
  exact inspectEvidence_record (Option.filter_eq_some_iff.1 (Option.filter_eq_some_iff.1 h).1).1

theorem wp_setDirectCustody (input : DirectCustodyInput) (custody : DirectExecutionCustody) :
    wp (setDirectCustody c host input custody)
      (fun _ s' => s.settlement = none ∧ Change c host s (.setDirectCustody input custody) s')
      (fun _ s' => Change c host s (.setDirectCustody input custody) s') s := by
  simp only [setDirectCustody, wp_bind, wp_get, wp_liftM, wp_failIf, wp_demand, wp_ite, wp_pure,
    wp_replaceLeaseAtomic]
  refine ⟨fun _ hlink => ⟨fun _ => .unchanged, fun hset => ⟨fun _ _ => ⟨fun _ => .unchanged, fun l hl =>
    ⟨fun _ => .unchanged, fun hfree => ⟨fun _ => ⟨settlement_none hset, .unchanged⟩, fun _ =>
      ⟨fun hv => ?_, fun _ _ => .unchanged⟩⟩⟩⟩, fun _ _ => .unchanged⟩⟩, fun _ _ => .unchanged⟩
  obtain ⟨hb, hi, hr⟩ := overlappingCustody_false hfree
  exact ⟨settlement_none hset, .custody ⟨executionWorktree_ok hlink, directLease_record hl,
    settlement_none hset, hb, hi, hr⟩ rfl hv⟩

theorem wp_handoffDirectOwner (expected : RepositoryMutationLease) (source : Option NativeRestart) :
    wp (handoffDirectOwner c host expected source)
      (fun _ s' => s.settlement = none ∧ Change c host s (.handoffDirectOwner expected source) s')
      (fun _ s' => Change c host s (.handoffDirectOwner expected source) s') s := by
  simp only [handoffDirectOwner, wp_bind, wp_get, wp_liftM, wp_failIf, wp_demand]
  refine ⟨fun _ hlink => ⟨fun _ => .unchanged, fun hset => ⟨fun _ => .unchanged, fun native _ =>
    ⟨fun _ _ => ⟨fun _ => .unchanged, fun _ => ⟨fun _ => .unchanged, fun _ => ⟨fun _ => .unchanged,
      fun hfree => ⟨fun _ _ => ⟨fun _ => .unchanged, fun _ => ?_⟩, fun _ _ => .unchanged⟩⟩⟩⟩,
      fun _ _ => .unchanged⟩⟩⟩, fun _ _ => .unchanged⟩
  obtain ⟨hb, hi, hr⟩ := overlappingCustody_false hfree
  cases hread : readValidLeaseUnlocked s .lease with
  | absent => exact wp_throw.2 .unchanged
  | invalid => exact wp_throw.2 .unchanged
  | found current =>
    simp only [wp_bind, wp_failIf, wp_ite, wp_pure, wp_replaceLeaseAtomic]
    refine ⟨fun _ => .unchanged, fun hcas => ⟨fun _ => ⟨settlement_none hset, .unchanged⟩, fun hne =>
      ⟨fun hv => ?_, fun _ _ => .unchanged⟩⟩⟩
    have hcur : current = expected := by
      by_contra h
      exact hcas ⟨h, hne⟩
    subst hcur
    exact ⟨settlement_none hset, .handedOff ⟨executionWorktree_ok hlink, (readValidLease_found hread).2,
      settlement_none hset, hb, hi, hr⟩ rfl hv⟩

theorem wp_advanceDirectSnapshot (input : DirectCustodyInput) (expected next : RepositoryGitSnapshot) :
    wp (advanceDirectSnapshot c host input expected next)
      (fun _ s' => s.settlement = none ∧ Change c host s (.advanceDirectSnapshot input expected next) s')
      (fun _ s' => Change c host s (.advanceDirectSnapshot input expected next) s') s := by
  simp only [advanceDirectSnapshot, wp_bind, wp_get, wp_liftM, wp_failIf, wp_demand,
    wp_replaceLeaseAtomic]
  refine ⟨fun _ hlink => ⟨fun _ => .unchanged, fun hset => ⟨fun _ _ => ⟨fun _ => .unchanged, fun l hl =>
    ⟨fun _ => .unchanged, fun hexp => ⟨fun _ => .unchanged, fun hfree => ⟨fun _ _ => ⟨fun _ => .unchanged,
      fun _ => ⟨fun _ => .unchanged, fun _ => ⟨fun hv => ?_, fun _ _ => .unchanged⟩⟩⟩,
      fun _ _ => .unchanged⟩⟩⟩⟩, fun _ _ => .unchanged⟩⟩, fun _ _ => .unchanged⟩
  obtain ⟨hb, hi, hr⟩ := overlappingCustody_false hfree
  have hown : DirectOwner c s l := ⟨executionWorktree_ok hlink, directLease_record hl,
    settlement_none hset, hb, hi, hr⟩
  have hauth : l.authority = expected := by
    by_contra hne
    exact hexp (.inr (.inl hne))
  refine wp_mono wp_publishToRegistry ?_ ?_
  · rintro _ s' ⟨db', -, -, rfl⟩
    exact ⟨settlement_none hset, .advancedDirect hown hauth rfl hv⟩
  · rintro _ s' ⟨rfl, -⟩
    exact @Change.advancedDirect _ _ _ _ _ _ _ _ s.registry hown hauth rfl hv

/-! ## Every call -/

/-- The calls that a pending settlement stops. -/
def Call.frozen : Call → Bool
  | withReservation _ _ _ | finalizeReview _ _ _ => false
  | _ => true

/-- **What every call leaves is listed**, and one that succeeds has found no pending
    settlement. -/
theorem change_run (call : Call) :
    wp (call.run c host)
      (fun _ s' => (call.frozen = true → s.settlement = none) ∧ Change c host s call s')
      (fun _ s' => Change c host s call s') s := by
  have hfrozen : ∀ {m : Op PUnit}, wp m (fun _ s' => s.settlement = none ∧ Change c host s call s')
      (fun _ s' => Change c host s call s') s → wp m
      (fun _ s' => (call.frozen = true → s.settlement = none) ∧ Change c host s call s')
      (fun _ s' => Change c host s call s') s :=
    fun h => wp_mono h (fun _ _ h => ⟨fun _ => h.1, h.2⟩) fun _ _ h => h
  cases call with
  | acquire o =>
    refine hfrozen ?_
    simp only [Call.run, wp_bind, wp_pure]
    refine wp_mono (wp_acquire o) ?_ fun _ _ h => h
    rintro l s' ⟨hs, hr, href, ha, rfl⟩
    exact ⟨hs, .acquired hs hr href ha⟩
  | register o =>
    refine hfrozen ?_
    simp only [Call.run, wp_bind, wp_pure]
    exact wp_register o
  | finalizeBorrower o =>
    refine hfrozen ?_
    simp only [Call.run, wp_bind, wp_pure]
    exact wp_finalizeBorrower o
  | reserve o =>
    refine hfrozen ?_
    simp only [Call.run, wp_bind, wp_pure]
    exact wp_reserve o
  | finalizeReview r verifyTerminal publish =>
    simp only [Call.run, wp_bind, wp_pure]
    exact wp_mono (wp_finalizeReview r verifyTerminal publish) (fun _ _ h => ⟨by simp [Call.frozen], h⟩)
      fun _ _ h => h
  | withReservation r reread action =>
    exact wp_mono (wp_withReservation r reread action) (fun _ _ h => ⟨by simp [Call.frozen], h⟩)
      fun _ _ h => h
  | updateLease o snapshot => exact hfrozen (wp_updateLease o snapshot)
  | transferLease o gitDir gitCommonDir next => exact hfrozen (wp_transferLease o gitDir gitCommonDir next)
  | releaseLease o => exact hfrozen (wp_releaseLease o _ (.inl rfl) host)
  | finalizeLease hosts o => exact hfrozen (wp_finalizeLease hosts o)
  | quarantine identity => exact hfrozen (wp_quarantine identity)
  | transferBorrower token gitDir gitCommonDir next =>
    exact hfrozen (wp_transferBorrower token gitDir gitCommonDir next)
  | releaseBorrower token expected => exact hfrozen (wp_releaseBorrower token expected)
  | publishApproval a => exact hfrozen (wp_publishApproval a)
  | removeApproval path receiptId => exact hfrozen (wp_removeApproval path receiptId)
  | beginAdvisory context id sha ref => exact hfrozen (wp_beginAdvisory context id sha ref)
  | finishAdvisory context id settled => exact hfrozen (wp_finishAdvisory context id settled)
  | setDirectCustody input custody => exact hfrozen (wp_setDirectCustody input custody)
  | handoffDirectOwner expected source => exact hfrozen (wp_handoffDirectOwner expected source)
  | advanceDirectSnapshot input expected next =>
    exact hfrozen (wp_advanceDirectSnapshot input expected next)

/-- **What a call leaves is one of its changes.** -/
theorem change_after (call : Call) : Change c host s call (after c host call s) :=
  wp_state.1 (wp_mono (change_run call) (fun _ _ h => h.2) fun _ _ h => h)

end PaPlatform.Admission
