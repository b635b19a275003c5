/-
  One writer owns a worktree whose owners are Pi's.

  There is one lease, and a borrower only beside the lease of its parent
  (`OneWriter`).  A registration does not look at direct custody or at an advisory
  operation, so a child may start to write beside its parent
  (`child_beside_direct_custody`); without such a registration the two never meet.
-/
import PaPlatform.Admission.Exclusion

namespace PaPlatform.Admission

open Guard Effect
open Capacity (ProcessFingerprint fingerprintsEqual)

variable {c : Checkout} {host : Host} {s s' : State} {call : Call} {file : LeaseFile}
  {l l' : RepositoryMutationLease} {b b' : RepositoryMutationBorrower}

/-! ## The invariant -/

/-- The borrower `b` stands beside the orchestrator lease `l` of its parent. -/
structure Borrows (s : State) (b : RepositoryMutationBorrower) (l : RepositoryMutationLease) : Prop where
  borrower : recordOf s.borrower = some b
  lease : recordOf s.lease = some l
  deployment : l.deploymentId = b.parentDeploymentId
  mode : l.mode = "orchestrator"
  runtime : l.runtime = "pi"
  directory : b.dirtyApprovalReceiptId.isSome = true →
    (repositoryDirtyBorrowApprovalPath l.deploymentDirectory).toOption.isSome = true

/-- There is one lease, and a borrower only beside that of its parent. -/
structure OneWriter (c : Checkout) (s : State) : Prop where
  single : s.lease = none ∨ s.implement = none
  primary : c.linked = false → s.implement = none
  parent : s.borrower ≠ none → ∃ b l, Borrows s b l

/-- The owner does not write itself. -/
def IdleOwner (s : State) : Prop :=
  ∀ l, recordOf s.lease = some l →
    l.directExecutionCustody ≠ some .active ∧ l.advisoryOperation = none

/-- A child and its parent do not write at one time. -/
def Unshared (s : State) : Prop := s.borrower ≠ none → IdleOwner s

/-- The lease of the same owner, with the same custody. -/
structure Kept (l l' : RepositoryMutationLease) : Prop where
  deployment : l'.deploymentId = l.deploymentId
  directory : l'.deploymentDirectory = l.deploymentDirectory
  mode : l'.mode = l.mode
  runtime : l'.runtime = l.runtime
  custody : l'.directExecutionCustody = l.directExecutionCustody
  advisory : l'.advisoryOperation = l.advisoryOperation

theorem Borrows.keep (h : Borrows s b l) (hk : Kept l l') (hb : recordOf s'.borrower = some b')
    (hl : recordOf s'.lease = some l') (hp : b'.parentDeploymentId = b.parentDeploymentId)
    (hr : b'.dirtyApprovalReceiptId = b.dirtyApprovalReceiptId) : Borrows s' b' l' :=
  ⟨hb, hl, by rw [hk.deployment, h.deployment, hp], by rw [hk.mode, h.mode],
    by rw [hk.runtime, h.runtime], by rw [hk.directory, hr]; exact h.directory⟩

theorem kept_refl : Kept l l := ⟨rfl, rfl, rfl, rfl, rfl, rfl⟩

/-- The lease file of a linked worktree's implement slot is its own. -/
theorem leaseFile_implement {slot : RepositoryMutationSlot} (h : c.leaseFile slot = .implement) :
    c.linked = true ∧ slot = .implement := by
  unfold Checkout.leaseFile at h
  split_ifs at h with hf
  exact hf

theorem leaseFile_lease {slot : RepositoryMutationSlot} (h : c.leaseFile slot = .lease)
    (hl : c.linked = true) : slot = .orchestrator := by
  unfold Checkout.leaseFile at h
  split_ifs at h with hf
  cases slot with
  | orchestrator => rfl
  | implement => exact absurd ⟨hl, rfl⟩ hf

theorem OneWriter.same (hi : OneWriter c s) (hl : s'.lease = s.lease)
    (hm : s'.implement = s.implement) (hb : s'.borrower = s.borrower) : OneWriter c s' := by
  refine ⟨by rw [hl, hm]; exact hi.single, fun h => hm.trans (hi.primary h), fun h => ?_⟩
  obtain ⟨b, l, hbor⟩ := hi.parent (by rwa [hb] at h)
  exact ⟨b, l, hbor.keep kept_refl (hb ▸ hbor.borrower) (hl ▸ hbor.lease) rfl rfl⟩

/-- A lease in the place of one that was there. -/
theorem OneWriter.putLease (hi : OneWriter c s) (hne : s.leaseAt file ≠ none)
    (hk : s.borrower ≠ none → ∀ l, recordOf (s.leaseAt file) = some l → Kept l l') :
    OneWriter c (s.putLease file (some (writtenLease host l'))) := by
  cases file with
  | lease =>
    have himp : s.implement = none := hi.single.resolve_left hne
    refine ⟨Or.inr himp, fun _ => himp, fun hb => ?_⟩
    obtain ⟨b, l, h⟩ := hi.parent hb
    exact ⟨b, l', h.keep (hk hb l h.lease) h.borrower rfl rfl rfl⟩
  | implement =>
    have hlease : s.lease = none := hi.single.resolve_right hne
    refine ⟨Or.inl hlease, fun hl => absurd (hi.primary hl) hne, fun hb => ?_⟩
    obtain ⟨b, l, h⟩ := hi.parent hb
    exact absurd hlease (recordOf_ne_none h.lease)

/-- A removed lease, without a borrower of it. -/
theorem OneWriter.removeLease (hi : OneWriter c s) (hb : file ≠ .implement → s.borrower = none) :
    OneWriter c (s.putLease file none) := by
  cases file with
  | lease => exact ⟨Or.inl rfl, hi.primary, fun h => absurd (hb (by simp)) h⟩
  | implement =>
    refine ⟨Or.inr rfl, fun _ => rfl, fun h => ?_⟩
    obtain ⟨b, l, hbor⟩ := hi.parent h
    exact ⟨b, l, hbor.keep kept_refl hbor.borrower hbor.lease rfl rfl⟩

/-! ## Acquisitions -/

/-- What a Pi acquisition finds. -/
theorem acquisitionRefusals_pi {o : AcquireRepositoryMutationLeaseOptions}
    (h : acquisitionRefusals c host o s = .ok ()) (hp : o.runtime = .pi) :
    s.leaseAt (c.leaseFile (classifyRepositoryMutationSlot o.mode)) = none ∧ s.borrower = none ∧
      (c.linked = true → s.leaseAt (otherLease (classifyRepositoryMutationSlot o.mode)) = none) := by
  simp only [acquisitionRefusals, bind_eq_ok, throwIf_eq_ok] at h
  obtain ⟨_, hown, _, -, _, hother, _, -, _, -, hb⟩ := h
  refine ⟨?_, ?_, fun hl => ?_⟩
  · by_contra hne
    exact hown ⟨hp, fun habs => hne (inspectEvidence_absent.1 habs)⟩
  · by_contra hne
    refine hb ⟨fun habs => hne ?_, Or.inl hp⟩
    rw [acquisitionBorrower, if_pos (Or.inl hp)] at habs
    exact inspectEvidence_absent.1 habs
  · by_contra hne
    exact hother ⟨hp, hl, Option.isSome_iff_ne_none.2 hne⟩

/-- A Pi acquisition finds nothing to quarantine. -/
theorem quarantineEvidence_pi {o : AcquireRepositoryMutationLeaseOptions}
    (h : acquisitionRefusals c host o s = .ok ()) (hp : o.runtime = .pi) :
    quarantineEvidence c host o s = s.putLease (c.leaseFile (classifyRepositoryMutationSlot o.mode)) none := by
  unfold quarantineEvidence
  have hb : (acquisitionBorrower c host o s).state = .absent := by
    rw [acquisitionBorrower, if_pos (Or.inl hp)]
    exact inspectEvidence_absent.2 (acquisitionRefusals_pi h hp).2.1
  rw [if_neg (not_not.2 hb)]

theorem OneWriter.acquire {o : AcquireRepositoryMutationLeaseOptions}
    {e : Option (Evidence RepositoryMutationLease)} (hi : OneWriter c s)
    (h : acquisitionRefusals c host o s = .ok ()) (hp : o.runtime = .pi) :
    OneWriter c (s.putLease (c.leaseFile (classifyRepositoryMutationSlot o.mode)) e) := by
  obtain ⟨-, hb, hother⟩ := acquisitionRefusals_pi h hp
  cases hf : c.leaseFile (classifyRepositoryMutationSlot o.mode) with
  | lease =>
    have himp : s.implement = none := by
      by_cases hl : c.linked = true
      · simpa [leaseFile_lease hf hl, otherLease] using hother hl
      · exact hi.primary (by simpa using hl)
    exact ⟨Or.inr himp, fun _ => himp, fun h => absurd hb h⟩
  | implement =>
    obtain ⟨hl, hslot⟩ := leaseFile_implement hf
    have hlease : s.lease = none := by simpa [hslot, otherLease] using hother hl
    exact ⟨Or.inl hlease, fun hn => absurd hl (by simp [hn]), fun h => absurd hb h⟩

/-! ## Registrations and finalizations -/

/-- What a registration found in its parent. -/
theorem parentOf_ok {o : RegisterRepositoryMutationBorrowerOptions} {identity : Option String}
    (h : parentOf c host s o = .ok (l, identity)) :
    recordOf s.lease = some l ∧ l.mode = "orchestrator" ∧ l.runtime = "pi" := by
  simp only [parentOf, bind_eq_ok, require_eq_ok, throwIf_eq_ok, pure_eq_ok, Prod.mk.injEq] at h
  obtain ⟨l', hl, _, -, _, hid, _, -, _, -, rfl, -⟩ := h
  obtain ⟨hrt, hid⟩ := not_or.1 hid
  exact ⟨inspectEvidence_record (Option.filter_eq_some_iff.1 hl).1, not_not.1 (not_or.1 hid).1,
    not_not.1 hrt⟩

/-- The borrower that a registration publishes names its parent. -/
theorem registeredBorrower_ok {o : RegisterRepositoryMutationBorrowerOptions}
    {fingerprint : ProcessFingerprint} {snapshot : RepositoryGitSnapshot}
    {approved : Option (List String × String)}
    (h : registeredBorrower c host l o fingerprint snapshot approved = .ok b) :
    b.parentDeploymentId = l.deploymentId ∧ b.dirtyApprovalReceiptId = approved.map (·.2) := by
  simp only [registeredBorrower, bind_eq_ok, pure_eq_ok] at h
  obtain ⟨_, -, _, -, _, -, _, -, _, -, _, -, rfl⟩ := h
  exact ⟨rfl, rfl⟩

theorem Registers.borrows {o : RegisterRepositoryMutationBorrowerOptions} (h : Registers c host o s l b)
    (hk : Kept l l') (hb : recordOf s'.borrower = some b) (hl : recordOf s'.lease = some l') :
    Borrows s' b l' := by
  obtain ⟨identity, hp⟩ := h.parent
  obtain ⟨-, hmode, hrt⟩ := parentOf_ok hp
  obtain ⟨_, _, approved, -, happ, -, hreg⟩ := h.borrower
  obtain ⟨hparent, hreceipt⟩ := registeredBorrower_ok hreg
  refine ⟨hb, hl, hk.deployment.trans hparent.symm, hk.mode.trans hmode, hk.runtime.trans hrt, fun hr => ?_⟩
  rw [hreceipt, Option.isSome_map] at hr
  obtain ⟨a, ha⟩ := Option.isSome_iff_exists.1 hr
  rw [hk.directory]
  exact (happ a ha).1

/-- A finalization keeps the lease of the parent or removes it. -/
theorem Settles.lease {o : FinalizeRepositoryMutationBorrowerOptions} {final : RepositoryGitSnapshot}
    (h : Settles c host b o final s s') : s'.implement = s.implement ∧ s'.borrower = s.borrower ∧
      (s'.lease = none ∨ s.lease ≠ none ∧
        ∀ l, recordOf s.lease = some l → ∃ l', recordOf s'.lease = some l' ∧ Kept l l') := by
  cases h with
  | kept =>
    refine ⟨rfl, rfl, ?_⟩
    by_cases hn : s.lease = none
    · exact Or.inl hn
    · exact Or.inr ⟨hn, fun l hl => ⟨l, hl, kept_refl⟩⟩
  | restored =>
    refine ⟨rfl, rfl, ?_⟩
    by_cases hn : s.lease = none
    · exact Or.inl (by simp [hn])
    · exact Or.inr ⟨hn, fun l hl => ⟨l, by simpa using hl, kept_refl⟩⟩
  | advanced hl =>
    refine ⟨rfl, rfl, Or.inr ⟨recordOf_ne_none hl, fun l' hl' => ⟨_, recordOf_writtenLease, ?_⟩⟩⟩
    obtain rfl := Option.some.inj (hl.symm.trans hl')
    exact ⟨rfl, rfl, rfl, rfl, rfl, rfl⟩
  | released => exact ⟨rfl, rfl, Or.inl rfl⟩

/-- The lease that a finalization leaves is that of the parent before. -/
theorem Settles.keeps {o : FinalizeRepositoryMutationBorrowerOptions} {final : RepositoryGitSnapshot}
    (h : Settles c host b o final s s') (hl : recordOf s'.lease = some l') :
    ∃ l, recordOf s.lease = some l ∧ Kept l l' := by
  cases h with
  | kept => exact ⟨l', hl, kept_refl⟩
  | restored => exact ⟨l', by simpa using hl, kept_refl⟩
  | advanced h₀ =>
    obtain rfl := Option.some.inj hl
    exact ⟨_, h₀, rfl, rfl, rfl, rfl, rfl, rfl⟩
  | released => cases hl

/-! ## Steps -/

/-- Only Pi's acquire. -/
def Call.pi : Call → Prop
  | acquire o => o.runtime = .pi
  | _ => True

theorem Change.oneWriter (h : Change c host s call s') (hp : call.pi) (hi : OneWriter c s) :
    OneWriter c s' := by
  cases h with
  | unchanged => exact hi
  | quarantined _ _ href =>
    rw [quarantineEvidence_pi href hp]
    exact hi.acquire href hp
  | @acquired o l _ _ href =>
    rw [quarantineEvidence_pi href hp]
    have hput : ∀ file e, (s.putLease file none).putLease file e = s.putLease file e := by
      intro file e
      cases file <;> rfl
    rw [hput]
    exact hi.acquire href hp
  | updatedLease hl hl' | transferredLease hl hl' =>
    subst hl'
    refine hi.putLease (recordOf_ne_none (heldLease_record hl)) fun _ l₀ h₀ => ?_
    obtain rfl := Option.some.inj (h₀.symm.trans (heldLease_record hl))
    exact ⟨rfl, rfl, rfl, rfl, rfl, rfl⟩
  | @releasedLease _ _ _ f _ _ _ _ hb =>
    have hi' : OneWriter c (s.withApprovals f) := hi.same rfl rfl rfl
    exact hi'.removeLease hb
  | quarantinedLease _ hl hrt =>
    refine ⟨Or.inl rfl, hi.primary, fun hb => ?_⟩
    obtain ⟨b, l, h⟩ := hi.parent hb
    obtain rfl := Option.some.inj (hl.symm.trans h.lease)
    rw [h.runtime] at hrt
    exact absurd hrt (by decide)
  | consumed => exact hi.same rfl rfl rfl
  | rolledBack _ _ hb =>
    exact ⟨hi.single.imp_left fun h => by simp [h], hi.primary, fun h => absurd hb h⟩
  | registered _ _ hreg =>
    obtain ⟨identity, hpar⟩ := hreg.parent
    exact ⟨hi.single, hi.primary, fun _ => ⟨_, _, hreg.borrows kept_refl rfl (parentOf_ok hpar).1⟩⟩
  | transitioned _ _ hreg =>
    obtain ⟨identity, hpar⟩ := hreg.parent
    have himp := hi.single.resolve_left (recordOf_ne_none (parentOf_ok hpar).1)
    exact ⟨Or.inr himp, fun _ => himp, fun _ =>
      ⟨_, Admission.transitioned host _ _, hreg.borrows ⟨rfl, rfl, rfl, rfl, rfl, rfl⟩ rfl rfl⟩⟩
  | transferredBorrower hb hb' =>
    subst hb'
    refine ⟨hi.single, hi.primary, fun _ => ?_⟩
    obtain ⟨b₀, l, h⟩ := hi.parent (recordOf_ne_none (heldBorrower_ok hb).2)
    obtain rfl := Option.some.inj ((heldBorrower_ok hb).2.symm.trans h.borrower)
    exact ⟨_, l, h.keep kept_refl rfl h.lease rfl rfl⟩
  | finalizing hb hb' =>
    subst hb'
    refine ⟨hi.single, hi.primary, fun _ => ?_⟩
    obtain ⟨b₀, l, h⟩ := hi.parent (recordOf_ne_none (heldBorrower_ok hb).2)
    obtain rfl := Option.some.inj ((heldBorrower_ok hb).2.symm.trans h.borrower)
    exact ⟨_, l, h.keep kept_refl rfl h.lease rfl rfl⟩
  | releasedBorrower => exact ⟨hi.single, hi.primary, fun h => absurd rfl h⟩
  | @settling o b b' final _ hb _ hb' _ hs hnone =>
    subst hb'
    obtain ⟨himp, hbor, hlease⟩ := hs.lease
    obtain ⟨b₀, l, h⟩ := hi.parent (recordOf_ne_none (heldBorrower_ok hb).2)
    obtain rfl := Option.some.inj ((heldBorrower_ok hb).2.symm.trans h.borrower)
    rcases hlease with hn | ⟨hne, hkept⟩
    · obtain ⟨hrec, l₀, h₀, -, hpath⟩ := hnone hn (recordOf_ne_none h.lease)
      obtain rfl := Option.some.inj (h₀.symm.trans h.lease)
      have hdir := h.directory hrec
      rw [hpath] at hdir
      cases hdir
    · obtain ⟨l', hl', hk⟩ := hkept l h.lease
      have hrec : recordOf s'.borrower = some _ := (congrArg recordOf hbor).trans recordOf_writtenBorrower
      exact ⟨Or.inr (himp.trans (hi.single.resolve_left hne)), fun hl => himp.trans (hi.primary hl),
        fun _ => ⟨_, l', h.keep hk hrec hl' rfl rfl⟩⟩
  | finalized hb _ _ hs =>
    obtain ⟨himp, -, hlease⟩ := hs.lease
    refine ⟨?_, fun hl => himp.trans (hi.primary hl), fun h => absurd rfl h⟩
    rcases hlease with hn | ⟨hne, -⟩
    · exact Or.inl hn
    · exact Or.inr (himp.trans (hi.single.resolve_left hne))
  | approval | reserved | finalizedReview => exact hi.same rfl rfl rfl
  | begunAdvisory ho | finishedAdvisory ho =>
    exact hi.putLease (recordOf_ne_none ho.lease) fun hb => absurd ho.borrower hb
  | custody ho | handedOff ho =>
    have hne : s.leaseAt .lease ≠ none := recordOf_ne_none ho.lease
    exact hi.putLease hne fun hb => absurd ho.borrower hb
  | @advancedDirect _ _ _ l l' db' ho =>
    have hne : s.leaseAt .lease ≠ none := recordOf_ne_none ho.lease
    have hput : OneWriter c (s.putLease .lease (some (writtenLease host l'))) :=
      hi.putLease hne fun hb => absurd ho.borrower hb
    exact hput.same rfl rfl rfl

/-- A child is registered only while its parent does not write. -/
def Call.sparesOwner (s : State) : Call → Prop
  | register _ => IdleOwner s
  | _ => True

/-- A lease that is kept stays idle. -/
theorem IdleOwner.keep (hu : IdleOwner s)
    (hk : ∀ l', recordOf s'.lease = some l' → ∃ l, recordOf s.lease = some l ∧ Kept l l') :
    IdleOwner s' := by
  intro l' hl'
  obtain ⟨l, hl, hkept⟩ := hk l' hl'
  rw [hkept.custody, hkept.advisory]
  exact hu l hl

theorem Unshared.putLease (hu : Unshared s) (hl : recordOf (s.leaseAt file) = some l) (hk : Kept l l') :
    Unshared (s.putLease file (some (writtenLease host l'))) := by
  cases file with
  | lease =>
    refine fun hb => IdleOwner.keep (hu hb) fun l₁ h₁ => ⟨l, hl, ?_⟩
    obtain rfl := Option.some.inj h₁
    exact hk
  | implement => exact hu

theorem Change.unshared (h : Change c host s call s') (hp : call.pi) (hc : call.sparesOwner s)
    (hu : Unshared s) : Unshared s' := by
  cases h with
  | unchanged => exact hu
  | quarantined _ _ href =>
    rw [quarantineEvidence_pi href hp]
    exact fun hb => absurd (acquisitionRefusals_pi href hp).2.1 (by simpa using hb)
  | acquired _ _ href =>
    rw [quarantineEvidence_pi href hp]
    exact fun hb => absurd (acquisitionRefusals_pi href hp).2.1 (by simpa using hb)
  | updatedLease hl hl' | transferredLease hl hl' =>
    subst hl'
    exact hu.putLease (heldLease_record hl) ⟨rfl, rfl, rfl, rfl, rfl, rfl⟩
  | @releasedLease _ o =>
    generalize holderFile c o.slot = file
    cases file with
    | lease => exact fun _ l hl => by cases hl
    | implement => exact hu
  | quarantinedLease => exact fun _ l hl => by cases hl
  | consumed => exact hu
  | rolledBack _ _ hb => exact fun h => absurd hb h
  | registered => exact fun _ => hc
  | transitioned _ _ hreg =>
    obtain ⟨identity, hpar⟩ := hreg.parent
    refine fun _ => IdleOwner.keep hc fun l₁ h₁ => ⟨_, (parentOf_ok hpar).1, ?_⟩
    obtain rfl := Option.some.inj h₁
    exact ⟨rfl, rfl, rfl, rfl, rfl, rfl⟩
  | transferredBorrower hb | finalizing hb => exact fun _ => hu (recordOf_ne_none (heldBorrower_ok hb).2)
  | releasedBorrower => exact fun h => absurd rfl h
  | settling hb _ _ _ hs =>
    exact fun _ => IdleOwner.keep (hu (recordOf_ne_none (heldBorrower_ok hb).2)) fun _ => hs.keeps
  | finalized => exact fun h => absurd rfl h
  | approval | reserved | finalizedReview => exact hu
  | begunAdvisory ho | finishedAdvisory ho => exact fun hb => absurd ho.borrower (by simpa using hb)
  | custody ho | handedOff ho | advancedDirect ho => exact fun hb => absurd ho.borrower hb

/-! ## Runs -/

/-- **One active writer.**  In every run from a Git directory without evidence in
    which only Pi's acquire:
    - there is at most one of the two leases;
    - a borrower stands only beside the orchestrator lease of its parent;
    - if no child is registered while the owner holds direct custody or has an
      advisory operation, a borrower never stands beside such an owner. -/
theorem one_active_writer (c : Checkout) (registry : Registry.Database) (ticket : TicketBranch)
    (h : List (Run.Step State Event)) (s : State) (hr : Reaches c registry ticket h s)
    (hp : ∀ st ∈ h, st.event.call.pi) :
    (s.lease = none ∨ s.implement = none) ∧ (s.borrower ≠ none → ∃ b l, Borrows s b l) ∧
      ((∀ st ∈ h, st.event.call.sparesOwner st.before) → Unshared s) := by
  have hone := (hr.throughout (C := fun _ e => e.call.pi) (I := OneWriter c)
    ⟨Or.inl rfl, fun _ => rfl, fun h => absurd rfl h⟩
    (fun _ _ _ hi hp hs => (step_change hs).oneWriter hp hi) hp).1
  refine ⟨hone.single, hone.parent, fun hc => ?_⟩
  exact (hr.throughout (C := fun s e => e.call.pi ∧ e.call.sparesOwner s) (I := Unshared)
    (fun h => absurd rfl h) (fun _ _ _ hu hc hs => (step_change hs).unshared hc.1 hc.2 hu)
    fun st hst => ⟨hp st hst, hc st hst⟩).1

namespace Sample

/-- A checkout without porcelain evidence. -/
def plain : RepositoryGitSnapshot := ⟨branch, "a", 0, 0, 0, false, "", none, none, none, none⟩

/-- The orchestrator `d-1` acquires the worktree. -/
def owned : Event :=
  ⟨moment 10 (fun _ => true) "t1",
    .acquire { acquisition .pi "d-1" "orchestrator" false with gitSnapshot := some plain }⟩

/-- Its child `d-2` is registered. -/
def registration : RegisterRepositoryMutationBorrowerOptions where
  capability := none
  canonicalRepoKey := "pa"
  expectedGitDir := none
  expectedGitCommonDir := none
  parentDeploymentId := "d-1"
  deploymentId := "d-2"
  deploymentDirectory := "/pa/deployments/d-2"
  runtime := .pi
  team := "builder"
  mode := "implement"
  launchMode := .background
  ticket := "PA-4"
  branch := branch
  timeoutSeconds := 60
  pid := none
  processFingerprint := none
  expectedGitSnapshot := none
  gitSnapshot := some plain
  settlementMutationPaths := none
  dirtyApprovalPath := none
  branchTransitionPolicy := none
  faultAfterParentSnapshotReplacement := false

def registered : Event := ⟨moment 20 (fun _ => true) "t2", .register registration⟩

/-- The orchestrator takes direct custody. -/
def active : Event := ⟨moment 10 (fun _ => true) "t3", .setDirectCustody ⟨"d-1", "t1"⟩ .active⟩

end Sample

/-- A child is registered beside the direct custody of its parent. -/
theorem child_beside_direct_custody :
    ∃ (h : List (Run.Step State Event)) (s : State) (l : RepositoryMutationLease),
      Reaches Sample.checkout Registry.Database.empty ⟨Sample.branch, Sample.sha, Sample.sha⟩ h s ∧
        h.map (·.event) = [Sample.owned, Sample.active, Sample.registered] ∧
        s.borrower ≠ none ∧ recordOf s.lease = some l ∧ l.directExecutionCustody = some .active := by
  have hrun : (Sample.run [Sample.owned, Sample.active, Sample.registered]).borrower.isSome = true ∧
      (recordOf (Sample.run [Sample.owned, Sample.active, Sample.registered]).lease).bind
        (·.directExecutionCustody) = some .active := by decide +kernel
  obtain ⟨h, hr, hm⟩ := Sample.run_reaches [Sample.owned, Sample.active, Sample.registered]
  obtain ⟨l, hl, hcust⟩ := Option.bind_eq_some_iff.1 hrun.2
  exact ⟨h, _, l, hr, hm, Option.isSome_iff_ne_none.1 hrun.1, hl, hcust⟩

theorem one_active_writer_registered :
    ∃ (s : State) (b : RepositoryMutationBorrower) (l : RepositoryMutationLease), Borrows s b l := by
  have hrun : (Sample.run [Sample.owned, Sample.registered]).borrower.isSome = true := by decide +kernel
  obtain ⟨h, hr, hm⟩ := Sample.run_reaches [Sample.owned, Sample.registered]
  have hp : ∀ st ∈ h, st.event.call.pi := by
    intro st hst
    have hev : st.event ∈ h.map (·.event) := List.mem_map_of_mem hst
    rw [hm] at hev
    rcases List.mem_pair.1 hev with hev | hev
    · rw [hev]
      exact (rfl : RuntimeName.pi = .pi)
    · rw [hev]
      trivial
  exact ⟨_, (one_active_writer _ _ _ h _ hr hp).2.1 (Option.isSome_iff_ne_none.1 hrun)⟩

end PaPlatform.Admission
