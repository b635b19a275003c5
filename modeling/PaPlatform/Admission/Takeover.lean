/-
  A live borrower and new owners.

  An acquisition for another runtime than Pi takes the orchestrator slot of a
  linked worktree without a look at the borrower (`Call.overlooks`).  Without such
  an acquisition a live borrower blocks every new owner
  (`live_borrower_blocks_owners`).
-/
import PaPlatform.Admission.Writers

namespace PaPlatform.Admission

open Guard Effect
open Capacity (ProcessFingerprint fingerprintsEqual)

variable {c : Checkout} {host : Host} {s s' : State} {call : Call} {file : LeaseFile}
  {l l' : RepositoryMutationLease} {b b' : RepositoryMutationBorrower}

/-- The process of the borrower `b` runs. -/
structure LiveBorrower (host : Host) (s : State) (b : RepositoryMutationBorrower) : Prop where
  record : recordOf s.borrower = some b
  live : fingerprintsEqual b.processFingerprint
    (host.getProcessFingerprint b.processFingerprint.pid) = true

/-- The acquisition of the orchestrator slot of a linked worktree that does not look
    at the borrower, and that an absent or dead owner does not stop. -/
def Call.overlooks (c : Checkout) (host : Host) (s : State) : Call → Prop
  | acquire o => o.runtime = .opencode ∧ classifyRepositoryMutationSlot o.mode = .orchestrator ∧
      c.linked = true ∧ (s.lease = none ∨
        o.force = true ∧ (inspectLeaseUnlocked c host s.lease).state ≠ .live)
  | _ => False

/-! ## The invariant -/

/-- A file that was written with this record. -/
structure Sound {α : Type} (e : Evidence α) (value : α) : Prop where
  regular : e.regular = true
  links : e.links = 1
  size : e.size ≤ maxRepositoryLeaseBytes
  content : e.content = .record value

/-- A borrower is readable and excludes an implement lease. -/
structure Guarded (c : Checkout) (s : State) : Prop where
  free : s.borrower ≠ none → s.implement = none
  primary : c.linked = false → s.implement = none
  sound : ∀ e, s.borrower = some e → ∃ b, Sound e b

theorem sound_writtenBorrower (h : assertBorrower c.sha256 b = .ok ()) :
    Sound (writtenBorrower host b) b := by
  simp only [assertBorrower, bind_eq_ok, throwIf_eq_ok, not_lt] at h
  obtain ⟨_, -, hsize⟩ := h
  exact ⟨rfl, rfl, hsize, rfl⟩

theorem Guarded.same (hi : Guarded c s) (hm : s'.implement = s.implement)
    (hb : s'.borrower = s.borrower ∨ s'.borrower = none) : Guarded c s' := by
  refine ⟨fun h => ?_, fun h => hm.trans (hi.primary h), fun e he => ?_⟩
  · rcases hb with hb | hb
    · exact hm.trans (hi.free (by rwa [hb] at h))
    · exact absurd hb h
  · rcases hb with hb | hb
    · exact hi.sound e (hb ▸ he)
    · rw [hb] at he
      cases he

/-- A lease in the place of one that was there, or none. -/
theorem Guarded.putLease {e : Option (Evidence RepositoryMutationLease)} (hi : Guarded c s)
    (h : s.leaseAt file ≠ none ∨ e = none) : Guarded c (s.putLease file e) := by
  cases file with
  | lease => exact hi.same rfl (Or.inl rfl)
  | implement =>
    rcases h with h | rfl
    · refine ⟨fun hb => absurd (hi.free hb) h, fun hl => absurd (hi.primary hl) h, hi.sound⟩
    · exact ⟨fun _ => rfl, fun _ => rfl, hi.sound⟩

/-- A borrower in the place of one that was there. -/
theorem Guarded.putBorrower (hi : Guarded c s) (hm : s'.implement = s.implement) (hne : s.borrower ≠ none)
    (hb : s'.borrower = some (writtenBorrower host b)) (hv : assertBorrower c.sha256 b = .ok ()) :
    Guarded c s' := by
  refine ⟨fun _ => hm.trans (hi.free hne), fun h => hm.trans (hi.primary h), fun e he => ?_⟩
  rw [hb] at he
  cases he
  exact ⟨b, sound_writtenBorrower hv⟩

/-- The borrower of a registration. -/
theorem Guarded.register {o : RegisterRepositoryMutationBorrowerOptions} (hi : Guarded c s)
    (hreg : Registers c host o s l b) (hm : s'.implement = s.implement)
    (hb : s'.borrower = some (writtenBorrower host b)) : Guarded c s' := by
  have himp : s.implement = none := by
    by_cases hl : c.linked = true
    · exact (freeSlots_ok hreg.free).2 hl
    · exact hi.primary (by simpa using hl)
  refine ⟨fun _ => hm.trans himp, fun _ => hm.trans himp, fun e he => ?_⟩
  rw [hb] at he
  cases he
  exact ⟨b, sound_writtenBorrower hreg.valid⟩

/-! ## Acquisitions -/

/-- An acquisition finds no borrower, or removes it, or does not look at it. -/
theorem quarantineEvidence_borrower {o : AcquireRepositoryMutationLeaseOptions} :
    (quarantineEvidence c host o s).borrower = none ∨
      (quarantineEvidence c host o s).borrower = s.borrower ∧
        classifyRepositoryMutationSlot o.mode = .orchestrator ∧ c.linked = true := by
  unfold quarantineEvidence
  dsimp only
  rw [State.putLease_borrower]
  split_ifs with h
  · exact Or.inl rfl
  · unfold acquisitionBorrower at h
    split_ifs at h with hlook
    · exact Or.inl (inspectEvidence_absent.1 (not_not.1 h))
    · refine Or.inr ⟨rfl, ?_, ?_⟩
      · cases hs : classifyRepositoryMutationSlot o.mode with
        | orchestrator => rfl
        | implement => exact absurd (Or.inr (Or.inl hs)) hlook
      · by_contra hl
        exact hlook (Or.inr (Or.inr (by simpa using hl)))

theorem quarantineEvidence_putLease {o : AcquireRepositoryMutationLeaseOptions} :
    ∃ s₁, (s₁ = s ∨ s₁ = { s with borrower := none }) ∧ quarantineEvidence c host o s =
      s₁.putLease (c.leaseFile (classifyRepositoryMutationSlot o.mode)) none := by
  unfold quarantineEvidence
  dsimp only
  split_ifs with h
  · exact ⟨_, Or.inr rfl, rfl⟩
  · exact ⟨_, Or.inl rfl, rfl⟩

theorem Guarded.quarantine {o : AcquireRepositoryMutationLeaseOptions} (hi : Guarded c s) :
    Guarded c (quarantineEvidence c host o s) := by
  obtain ⟨s₁, hs₁, hq⟩ := @quarantineEvidence_putLease c host s o
  rw [hq]
  have hi₁ : Guarded c s₁ := by
    rcases hs₁ with rfl | rfl
    · exact hi
    · exact hi.same rfl (Or.inr rfl)
  exact hi₁.putLease (Or.inr rfl)

theorem Guarded.acquire {o : AcquireRepositoryMutationLeaseOptions}
    {e : Option (Evidence RepositoryMutationLease)} (hi : Guarded c s) :
    Guarded c ((quarantineEvidence c host o s).putLease
      (c.leaseFile (classifyRepositoryMutationSlot o.mode)) e) := by
  have hq : Guarded c (quarantineEvidence c host o s) := hi.quarantine
  cases hf : c.leaseFile (classifyRepositoryMutationSlot o.mode) with
  | lease => exact hq.same rfl (Or.inl rfl)
  | implement =>
    obtain ⟨hl, hslot⟩ := leaseFile_implement hf
    have hb : (quarantineEvidence c host o s).borrower = none := by
      rcases @quarantineEvidence_borrower c host s o with hb | ⟨-, hs, -⟩
      · exact hb
      · rw [hslot] at hs
        cases hs
    exact ⟨fun h => absurd hb h, fun hn => absurd hl (by simp [hn]), hq.sound⟩

/-- **A live borrower refuses every acquisition that looks at it.** -/
theorem acquisitionRefusals_live {o : AcquireRepositoryMutationLeaseOptions} (hi : Guarded c s)
    (hb : LiveBorrower host s b) (ho : ¬ (Call.acquire o).overlooks c host s) :
    acquisitionRefusals c host o s ≠ .ok () := by
  intro h
  simp only [acquisitionRefusals, bind_eq_ok, throwIf_eq_ok] at h
  obtain ⟨_, -, _, hlive, _, -, _, hbor, _, hown, -⟩ := h
  unfold acquisitionBorrower at hbor
  split_ifs at hbor with hlook
  · obtain ⟨e, he⟩ := Option.ne_none_iff_exists'.1 (recordOf_ne_none hb.record)
    obtain ⟨b', hs⟩ := hi.sound e he
    have hrec := hb.record
    simp only [he, recordOf, Option.bind_some, hs.content, Content.value, Option.some.injEq] at hrec
    subst hrec
    refine hbor ?_
    simp only [he, inspectBorrowerUnlocked, inspectEvidence, hs.regular, hs.links, hs.content]
    rw [if_neg (by simp), if_neg (not_lt.2 hs.size), if_pos hb.live]
  · obtain ⟨hpi, himp⟩ := not_or.1 hlook
    obtain ⟨himp, hlink⟩ := not_or.1 himp
    have hslot : classifyRepositoryMutationSlot o.mode = .orchestrator := by
      cases hs : classifyRepositoryMutationSlot o.mode with
      | orchestrator => rfl
      | implement => exact absurd hs himp
    have hfile : c.leaseFile (classifyRepositoryMutationSlot o.mode) = .lease := by
      rw [hslot]
      simp [Checkout.leaseFile]
    rw [hfile] at hlive hown
    refine ho ⟨?_, hslot, by simpa using hlink, ?_⟩
    · cases hr : o.runtime with
      | opencode => rfl
      | pi => exact absurd hr hpi
    · by_cases hn : s.lease = none
      · exact Or.inl hn
      · refine Or.inr ⟨?_, hlive⟩
        by_contra hforce
        exact hown ⟨fun habs => hn (inspectEvidence_absent.1 habs), Or.inr (by simpa using hforce)⟩

/-! ## Steps -/

theorem Change.guarded (h : Change c host s call s') (hi : Guarded c s) : Guarded c s' := by
  cases h with
  | unchanged => exact hi
  | quarantined => exact hi.quarantine
  | acquired => exact hi.acquire
  | updatedLease hl | transferredLease hl =>
    exact hi.putLease (Or.inl (recordOf_ne_none (heldLease_record hl)))
  | @releasedLease _ _ _ f =>
    have hi' : Guarded c (s.withApprovals f) := hi.same rfl (Or.inl rfl)
    exact hi'.putLease (Or.inr rfl)
  | quarantinedLease | consumed | rolledBack | approval | reserved | finalizedReview =>
    exact hi.same rfl (Or.inl rfl)
  | registered _ _ hreg | transitioned _ _ hreg => exact hi.register hreg rfl rfl
  | transferredBorrower hb _ hv | finalizing hb _ hv =>
    exact hi.putBorrower rfl (recordOf_ne_none (heldBorrower_ok hb).2) rfl hv
  | releasedBorrower => exact hi.same rfl (Or.inr rfl)
  | settling hb _ _ hv hs =>
    exact hi.putBorrower hs.lease.1 (recordOf_ne_none (heldBorrower_ok hb).2) hs.lease.2.1 hv
  | finalized _ _ _ hs => exact hi.same hs.lease.1 (Or.inr rfl)
  | begunAdvisory ho | finishedAdvisory ho => exact hi.putLease (Or.inl (recordOf_ne_none ho.lease))
  | custody | handedOff | advancedDirect => exact hi.same rfl (Or.inl rfl)

/-- What a call does to a lease of the parent of a live borrower. -/
theorem Change.parent_kept (h : Change c host s call s') (hi : Guarded c s) (hb : LiveBorrower host s b)
    (ho : ¬ call.overlooks c host s) (hq : ∀ identity, call ≠ .quarantine identity)
    (hl : recordOf (s.leaseAt file) = some l) (hp : l.deploymentId = b.parentDeploymentId) :
    (∃ l', recordOf (s'.leaseAt file) = some l' ∧ l'.deploymentId = b.parentDeploymentId) ∨
      ∃ o, call = .finalizeBorrower o ∧ heldBorrower c s o.borrowerToken = .ok b := by
  have hne : s.borrower ≠ none := recordOf_ne_none hb.record
  -- a file that is left alone, and one that is written again for its deployment
  have hsame : recordOf (s'.leaseAt file) = recordOf (s.leaseAt file) →
      ∃ l', recordOf (s'.leaseAt file) = some l' ∧ l'.deploymentId = b.parentDeploymentId :=
    fun he => ⟨l, he.trans hl, hp⟩
  have hput : ∀ {file' l₀ l₁}, recordOf (s.leaseAt file') = some l₀ → l₁.deploymentId = l₀.deploymentId →
      ∃ l', recordOf ((s.putLease file' (some (writtenLease host l₁))).leaseAt file) = some l' ∧
        l'.deploymentId = b.parentDeploymentId := by
    intro file' l₀ l₁ h₀ hd
    by_cases hf : file' = file
    · subst hf
      obtain rfl := Option.some.inj (h₀.symm.trans hl)
      exact ⟨l₁, by simp, hd.trans hp⟩
    · refine ⟨l, ?_, hp⟩
      cases file <;> cases file' <;> first | exact absurd rfl hf | exact hl
  cases h with
  | unchanged | consumed | approval | reserved | finalizedReview | transferredBorrower
  | releasedBorrower | finalizing => exact Or.inl (hsame (by cases file <;> rfl))
  | quarantined _ _ href => exact absurd href (acquisitionRefusals_live hi hb ho)
  | acquired _ _ href => exact absurd href (acquisitionRefusals_live hi hb ho)
  | updatedLease h₀ h₁ | transferredLease h₀ h₁ =>
    subst h₁
    exact Or.inl (hput (heldLease_record h₀) rfl)
  | @releasedLease _ o l₀ f _ h₀ _ _ hfree =>
    by_cases hf : holderFile c o.slot = .implement
    · have hrec := heldLease_record h₀
      rw [hf] at hrec
      exact absurd (hi.free hne) (recordOf_ne_none hrec)
    · exact absurd (hfree hf) hne
  | quarantinedLease => exact absurd rfl (hq _)
  | rolledBack _ _ hn => exact absurd hn hne
  | registered _ _ hreg | transitioned _ _ hreg => exact absurd (freeSlots_ok hreg.free).1 hne
  | settling h₀ | finalized h₀ =>
    obtain rfl := Option.some.inj ((heldBorrower_ok h₀).2.symm.trans hb.record)
    exact Or.inr ⟨_, rfl, h₀⟩
  | begunAdvisory hown | finishedAdvisory hown | custody hown | handedOff hown | advancedDirect hown =>
    exact absurd hown.borrower hne

/-- **A live borrower blocks every new owner.**  In every run from a Git directory
    without evidence whose acquisitions do not overlook a live borrower, while the
    process of the borrower runs:
    - no acquisition acquires a lease;
    - the leases of its parent stay, except in its own finalization. -/
theorem live_borrower_blocks_owners (c : Checkout) (registry : Registry.Database) (ticket : TicketBranch)
    (h : List (Run.Step State Event)) (s : State) (hr : Reaches c registry ticket h s)
    (hq : ∀ st ∈ h, ∀ identity, st.event.call ≠ .quarantine identity)
    (hc : ∀ st ∈ h, ∀ b, LiveBorrower st.event.host st.before b →
      ¬ st.event.call.overlooks c st.event.host st.before) :
    ∀ st ∈ h, ∀ b, LiveBorrower st.event.host st.before b →
      (∀ o, st.event.call = .acquire o → ∃ e,
        (outcome (acquireRepositoryMutationLease c st.event.host o) st.before).1 = .error e) ∧
      ∀ file l, recordOf (st.before.leaseAt file) = some l → l.deploymentId = b.parentDeploymentId →
        (∃ l', recordOf (st.after.leaseAt file) = some l' ∧ l'.deploymentId = b.parentDeploymentId) ∨
          ∃ o, st.event.call = .finalizeBorrower o ∧
            heldBorrower c st.before o.borrowerToken = .ok b := by
  have hguard := (hr.throughout (C := fun _ _ => True) (I := Guarded c)
    ⟨fun _ => rfl, fun _ => rfl, fun _ he => by cases he⟩
    (fun _ _ _ hi _ hs => (step_change hs).guarded hi) fun _ _ => trivial).2
  intro st hst b hb
  have hi : Guarded c st.before := (hguard st hst).1
  obtain ⟨pre, post, rfl⟩ := List.append_of_mem hst
  refine ⟨fun o ho => ?_, fun file l hl hp => ?_⟩
  · have hw := @wp_acquire c st.event.host st.before o
    rcases hout : outcome (acquireRepositoryMutationLease c st.event.host o) st.before with ⟨e | l, s'⟩
    · exact ⟨e, rfl⟩
    · rw [wp_of_ok hout] at hw
      have hn := hc st hst b hb
      rw [ho] at hn
      exact absurd hw.2.2.1 (acquisitionRefusals_live hi hb hn)
  · exact (step_change hr.split.2.1).parent_kept hi hb (hc st hst b hb) (hq st hst) hl hp

namespace Sample

/-- The orchestrator has died, its child runs. -/
def orphaned : Host := moment 30 (fun p => p != 10) "t4"

/-- The forced acquisition of the orchestrator slot for OpenCode. -/
def takeover : AcquireRepositoryMutationLeaseOptions :=
  { acquisition .opencode "d-3" "orchestrator" true with gitSnapshot := some plain }

/-- The acquisition of the implement slot for Pi. -/
def second : AcquireRepositoryMutationLeaseOptions :=
  { acquisition .pi "d-3" "implement" true with gitSnapshot := some plain }

/-- The borrower of `d-1` runs, and the lease of `d-1` is there. -/
def borrowed (s : State) : Bool :=
  (recordOf s.borrower).any fun b => fingerprintsEqual b.processFingerprint
    (orphaned.getProcessFingerprint b.processFingerprint.pid) && b.parentDeploymentId == "d-1" &&
    (recordOf s.lease).any fun l => l.deploymentId == "d-1"

theorem borrowed_live (h : borrowed s = true) : ∃ b l, LiveBorrower orphaned s b ∧
    recordOf s.lease = some l ∧ l.deploymentId = b.parentDeploymentId ∧ l.deploymentId = "d-1" := by
  obtain ⟨b, hb, h⟩ := (Option.any_eq_true _ _).1 h
  obtain ⟨h, hl⟩ := Bool.and_eq_true_iff.1 h
  obtain ⟨hlive, hp⟩ := Bool.and_eq_true_iff.1 h
  obtain ⟨l, hl, hd⟩ := (Option.any_eq_true _ _).1 hl
  rw [beq_iff_eq] at hp hd
  exact ⟨b, l, ⟨hb, hlive⟩, hl, hd.trans hp.symm, hd⟩

end Sample

/-- A forced acquisition takes the lease of the parent of a live borrower. -/
theorem takeover_beside_live_borrower :
    ∃ (h : List (Run.Step State Event)) (s : State) (b : RepositoryMutationBorrower)
      (l l' lease : RepositoryMutationLease),
      Reaches Sample.checkout Registry.Database.empty ⟨Sample.branch, Sample.sha, Sample.sha⟩ h s ∧
        LiveBorrower Sample.orphaned s b ∧ recordOf s.lease = some l ∧
        l.deploymentId = b.parentDeploymentId ∧
        (outcome (acquireRepositoryMutationLease Sample.checkout Sample.orphaned Sample.takeover) s).1 =
          .ok lease ∧
        recordOf (after Sample.checkout Sample.orphaned (.acquire Sample.takeover) s).lease = some l' ∧
        l'.deploymentId ≠ b.parentDeploymentId := by
  have hrun : Sample.borrowed (Sample.run [Sample.owned, Sample.registered]) = true ∧
      (outcome (acquireRepositoryMutationLease Sample.checkout Sample.orphaned Sample.takeover)
        (Sample.run [Sample.owned, Sample.registered])).1.toOption.isSome = true ∧
      (recordOf (after Sample.checkout Sample.orphaned (.acquire Sample.takeover)
        (Sample.run [Sample.owned, Sample.registered])).lease).map (·.deploymentId) = some "d-3" := by
    decide +kernel
  obtain ⟨hb, hok, hl'⟩ := hrun
  obtain ⟨h, hr, -⟩ := Sample.run_reaches [Sample.owned, Sample.registered]
  obtain ⟨b, l, hlive, hl, hp, hd⟩ := Sample.borrowed_live hb
  obtain ⟨l', hl', hd'⟩ := Option.map_eq_some_iff.1 hl'
  rcases hout : (outcome (acquireRepositoryMutationLease Sample.checkout Sample.orphaned Sample.takeover)
      (Sample.run [Sample.owned, Sample.registered])).1 with e | lease
  · rw [hout] at hok
    cases hok
  · exact ⟨h, _, b, l, l', lease, hr, hlive, hl, hp, hout, hl', by rw [hd', ← hp, hd]; decide⟩

theorem live_borrower_blocks_owners_borrowed :
    ∃ (s : State) (b : RepositoryMutationBorrower) (e : Refusal), LiveBorrower Sample.orphaned s b ∧
      (outcome (acquireRepositoryMutationLease Sample.checkout Sample.orphaned Sample.second) s).1 =
        .error e := by
  have hb : Sample.borrowed (Sample.run [Sample.owned, Sample.registered]) = true := by decide +kernel
  obtain ⟨h, hr, hm⟩ := Sample.run_reaches [Sample.owned, Sample.registered]
  obtain ⟨b, l, hlive, -⟩ := Sample.borrowed_live hb
  -- the acquisition is the last step of the run
  have hr' := hr.snoc (rfl : step Sample.checkout _ ⟨Sample.orphaned, .acquire Sample.second⟩ = _)
  have hev : ∀ {st : Run.Step State Event}, st.event ∈ h.map (·.event) ++
      [⟨Sample.orphaned, .acquire Sample.second⟩] → (∀ identity, st.event.call ≠ .quarantine identity) ∧
        ¬ st.event.call.overlooks Sample.checkout st.event.host st.before := by
    intro st hst
    rw [hm] at hst
    simp only [List.cons_append, List.nil_append, List.mem_cons, List.not_mem_nil, or_false] at hst
    rcases hst with he | he | he <;> rw [he]
    · exact ⟨fun _ => Call.noConfusion, fun ho => RuntimeName.noConfusion ho.1⟩
    · exact ⟨fun _ => Call.noConfusion, id⟩
    · exact ⟨fun _ => Call.noConfusion, fun ho => RuntimeName.noConfusion ho.1⟩
  have hmem : ∀ {st : Run.Step State Event} {st'}, st ∈ h ++ [st'] →
      st'.event = ⟨Sample.orphaned, .acquire Sample.second⟩ → st.event ∈ h.map (·.event) ++
        [⟨Sample.orphaned, .acquire Sample.second⟩] := by
    intro st st' hst he
    rcases List.mem_append.1 hst with hst | hst
    · exact List.mem_append_left _ (List.mem_map_of_mem hst)
    · rw [List.mem_singleton.1 hst, he]
      simp
  have hwit := live_borrower_blocks_owners _ _ _ _ _ hr'
    (fun st hst => (hev (hmem hst rfl)).1) (fun st hst _ _ => (hev (hmem hst rfl)).2)
    _ (List.mem_append_right _ (List.mem_singleton_self _)) b hlive
  obtain ⟨e, he⟩ := hwit.1 _ rfl
  exact ⟨_, b, e, hlive, he⟩

end PaPlatform.Admission
