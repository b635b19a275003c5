/-
  What a replayed journal guarantees: an intent is authorized by an approval of the
  subject that is current at the intent, and nothing is performed twice in an attempt.
-/
import PaPlatform.Workflow.Replay

namespace PaPlatform.Workflow.Replay

open Js Guard

open WorkflowRun (executes)

variable {j : Journal} {s s' : WorkflowRun} {e : Entry} {data : Json}

/-! ## Events -/

namespace Entry

/-- The decision that an event records. -/
def decision? (e : Entry) : Option WorkflowDecision :=
  if e.type = .decision ∨ e.type = .decisionRecovered then (e.data.field "record").bind parseDecision else none

def revoked? (e : Entry) : Option String :=
  if e.type = .revocation then (e.data.field "decisionId").bind idText else none

def intent? (e : Entry) : Option EffectIntent :=
  if e.type = .intent then (e.data.field "intent").bind parseIntent else none

/-- The intent that a result settles. -/
def settled? (e : Entry) : Option String :=
  if e.type = .result then (e.data.field "intentId").bind idText else none

end Entry

theorem contract_eq_ok {α : Type} {read : Option α} {a : α} : contract read = .ok a ↔ read = some a := require_eq_ok

theorem object_eq_some {required optional : List String} {value : Json} {r : Row}
    (h : object required optional value = some r) : value = .obj r := by
  unfold object at h
  split at h
  · split_ifs at h
    rw [Option.some.inj h]
  · cases h

theorem field_of_object {α : Type} {required optional : List String} {value : Json} {r : Row} {key : String}
    {read : Json → Option α} {a : α} (h : object required optional value = some r) (hf : fieldOf r key read = some a) :
    (value.field key).bind read = some a := by
  rw [object_eq_some h]
  exact hf

/-! ## Steps -/

/-- What an accepted event does. -/
inductive Applied (j : Journal) (s : WorkflowRun) : Entry → WorkflowRun → Prop
  | revised {e sha next reason id} : e.type = .subjectRevised → j.subject sha = .ok next →
      s.subjectRevisionReason next = .ok reason → (∀ a ∈ s.attempts, a.attemptId ≠ id) →
      Applied j s e { s with
        subject := next, subjectSha256 := sha, earlier := s.attempts, revision := e.revision
        attempt := ⟨id, some s.attempt.attemptId, next.subjectId, sha, e.revision, reason, ∅⟩ }
  | adopted {e current purpose} : e.type = .coordinatorAdopted →
      s.legacyCoordinatorAdoptionPurpose = some purpose ∨ s.coordinatorAdoptionPurpose = some purpose →
      current.deploymentId ≠ s.workflowCoordinator.deploymentId → current.team = s.workflowCoordinator.team →
      current.mode = s.workflowCoordinator.mode → s.subjectCaller current → (∃ v, parseCaller v = some current) →
      Applied j s e { s with
        coordinatorQueueOnly := purpose = .queueReconcile, coordinatorDocumentOnly := purpose = .documentContinuation
        coordinatorDocumentSubjectSha256 := if purpose = .documentContinuation then some s.subjectSha256 else none
        coordinator := some current, revision := e.revision }
  | decided {e d step} : e.decision? = some d → s.step d.stepId = some step → step.kind = .decision →
      d.runId = s.runId → d.subjectSha256 = s.subjectSha256 → d.subjectRef = s.subject.subjectId →
      (∀ old ∈ s.decisions, old.decisionId ≠ d.decisionId ∧ old.captureEvidenceRef.ref ≠ d.captureEvidenceRef.ref) →
      Journal.permissionsOk s d → (e.type = .decision ∧ step.id ∈ eligibleSteps s.view ∨
        e.type = .decisionRecovered ∧ ∃ c, s.recoverableCancelledDecision = some c ∧ d.stepId = c.stepId) →
      Applied j s e { { s with decisions := s.decisions ++ [d] }.record d.stepId d.outcome with revision := e.revision }
  | revoked {e id} : e.revoked? = some id → (∃ d ∈ s.decisions, d.decisionId = id) → id ∉ s.revoked →
      Applied j s e { s with revoked := s.revoked ++ [id], revision := e.revision }
  | intended {e i step d} : e.intent? = some i → s.step i.stepId = some step → step.kind ≠ .decision →
      i.runId = s.runId → i.subjectSha256 = s.subjectSha256 → i.owner = step.owner → step.id ∈ eligibleSteps s.view →
      s.coordinatorOperationAllowed step.operation = true → s.requireDecision i.decisionId step.authorization = .ok d →
      Applied j s e { s with pending := s.pending ++ [i], revision := e.revision }
  | reconciled {e i} : e.type = .reconcile → i ∈ s.pending → Applied j s e { s with revision := e.revision }
  | settled {e id i step outcome} : e.settled? = some id → s.pending.find? (·.intentId == id) = some i →
      s.step i.stepId = some step → outcome ∈ stepOutcomes step.kind →
      Applied j s e { s.record step.id outcome with
        pending := s.pending.filter (·.intentId != id), revision := e.revision }

theorem step_id {id : String} {step : WorkflowStep} (h : s.step id = some step) : step.id = id := by
  have hp := List.find?_some h
  simpa using hp

theorem oneOf_mem {α : Type} {name : α → String} {choices : List α} {value : Json} {a : α}
    (h : oneOf name choices value = some a) : a ∈ choices := by
  unfold oneOf at h
  split at h
  · exact List.mem_of_find?_eq_some h
  · cases h

theorem applied_revised (ht : e.type = .subjectRevised) (h : j.subjectRevised s e.revision e.data = .ok s') :
    Applied j s e { s' with revision := e.revision } := by
  simp only [Journal.subjectRevised, bind_eq_ok, throwIf_eq_ok, exists_const, pure_eq_ok, contract_eq_ok] at h
  obtain ⟨r, -, sha, -, next, hnext, -, reason, hreason, -, id, -, hfresh, -, -, -, rfl⟩ := h
  refine .revised ht hnext hreason fun a ha hid => hfresh ?_
  exact List.any_eq_true.2 ⟨a, ha, by simpa using hid⟩

theorem applied_adopted (ht : e.type = .coordinatorAdopted) (h : j.coordinatorAdopted s e.data = .ok s') :
    Applied j s e { s' with revision := e.revision } := by
  simp only [Journal.coordinatorAdopted, bind_eq_ok, throwIf_eq_ok, exists_const, pure_eq_ok, contract_eq_ok] at h
  obtain ⟨r, -, previous, -, current, hcurrent, purpose, hpurpose, hsame, resources, -, -, hcaller, -, -, -, -, rfl⟩ := h
  obtain ⟨v, -, hv⟩ := Option.bind_eq_some_iff.1 hcurrent
  simp only [not_or, not_not, ne_eq] at hsame hcaller
  obtain ⟨hprevious, hid, hteam, hmode, -⟩ := hsame
  subst hprevious
  refine .adopted ht ?_ hid hteam hmode hcaller ⟨v, hv⟩
  cases hr : r.lookup "purpose" with
  | none =>
    rw [hr] at hpurpose
    exact Or.inl (require_eq_ok.1 hpurpose)
  | some v =>
    rw [hr] at hpurpose
    simp only [Journal.adoptionPurpose, bind_eq_ok, throwIf_eq_ok, exists_const, pure_eq_ok, ne_eq, not_not] at hpurpose
    obtain ⟨p, -, hp, rfl⟩ := hpurpose
    exact Or.inr hp

theorem applied_decided (recovers : Bool) (ht : e.type = if recovers then .decisionRecovered else .decision)
    (h : Journal.decided s recovers e.data = .ok s') : Applied j s e { s' with revision := e.revision } := by
  simp only [Journal.decided, bind_eq_ok, throwIf_eq_ok, exists_const, pure_eq_ok, contract_eq_ok] at h
  obtain ⟨r, hr, d, hd, h⟩ := h
  have hdecision : e.decision? = some d := by
    rw [Entry.decision?, if_pos]
    · exact field_of_object hr hd
    · cases recovers
      · exact Or.inl ht
      · exact Or.inr ht
  obtain ⟨_, hrecovery, step, hstep, hok, rfl⟩ := h
  rw [require_eq_ok] at hstep
  simp only [not_or, not_not, ne_eq] at hok
  obtain ⟨hrun, hsha, href, hkind, hel, hfresh, hperm⟩ := hok
  refine .decided hdecision hstep hkind hrun hsha href ?_ hperm ?_
  · intro old hold
    refine ⟨fun hid => hfresh ?_, fun hid => hfresh ?_⟩
    · exact List.any_eq_true.2 ⟨old, hold, by simp [hid]⟩
    · exact List.any_eq_true.2 ⟨old, hold, by simp [hid]⟩
  · cases recovers with
    | false =>
      refine Or.inl ⟨ht, ?_⟩
      simpa using hel
    | true =>
      simp only [Journal.checkRecovery, if_true, bind_eq_ok, throwIf_eq_ok, require_eq_ok, not_or, not_not,
        ne_eq] at hrecovery
      obtain ⟨c, hc, -, hsame⟩ := hrecovery
      exact Or.inr ⟨ht, c, hc, hsame⟩

theorem applied_revoked (ht : e.type = .revocation) (h : Journal.revocation s e.data = .ok s') :
    Applied j s e { s' with revision := e.revision } := by
  simp only [Journal.revocation, bind_eq_ok, throwIf_eq_ok, exists_const, pure_eq_ok, contract_eq_ok] at h
  obtain ⟨r, hr, id, hid, -, -, -, -, hok, rfl⟩ := h
  simp only [not_or, Bool.not_eq_false, Bool.not_eq_true, List.any_eq_true, beq_iff_eq] at hok
  refine .revoked ?_ hok.1 (by simpa using hok.2)
  rw [Entry.revoked?, if_pos ht]
  exact field_of_object hr hid

theorem applied_intended (ht : e.type = .intent) (h : Journal.intended s e.data = .ok s') :
    Applied j s e { s' with revision := e.revision } := by
  simp only [Journal.intended, bind_eq_ok, throwIf_eq_ok, exists_const, pure_eq_ok, contract_eq_ok, require_eq_ok] at h
  obtain ⟨r, hr, i, hi, step, hstep, hok, hallowed, d, hd, rfl⟩ := h
  simp only [not_or, not_not, ne_eq, Bool.not_eq_false, List.contains_iff_mem] at hok hallowed
  obtain ⟨hkind, hrun, hsha, howner, hel⟩ := hok
  refine .intended ?_ hstep hkind hrun hsha howner hel hallowed hd
  rw [Entry.intent?, if_pos ht]
  exact field_of_object hr hi

theorem applied_settled (ht : e.type = .result) (h : Journal.settled s e.data = .ok s') :
    Applied j s e { s' with revision := e.revision } := by
  simp only [Journal.settled, bind_eq_ok, throwIf_eq_ok, exists_const, pure_eq_ok, contract_eq_ok, require_eq_ok] at h
  obtain ⟨r, hr, id, hid, i, hi, step, hstep, outcome, ho, -, -, -, rfl⟩ := h
  have hmem : outcome ∈ stepOutcomes step.kind := by
    unfold fieldOf at ho
    obtain ⟨v, -, hv⟩ := Option.bind_eq_some_iff.1 ho
    exact oneOf_mem hv
  refine .settled ?_ hi hstep hmem
  rw [Entry.settled?, if_pos ht]
  exact field_of_object hr hid

theorem applied_reconciled (ht : e.type = .reconcile) (h : Journal.reconciled s e.data = .ok s') :
    Applied j s e { s' with revision := e.revision } := by
  simp only [Journal.reconciled, bind_eq_ok, throwIf_eq_ok, exists_const, pure_eq_ok, contract_eq_ok] at h
  obtain ⟨r, -, -, id, -, hany, rfl⟩ := h
  rw [Bool.not_eq_false, List.any_eq_true] at hany
  obtain ⟨i, hi, -⟩ := hany
  exact .reconciled ht hi

/-- **What an accepted event does**, by its type. -/
theorem applied (h : j.apply s e = .ok s') : Applied j s e s' := by
  obtain ⟨t, ht, rfl⟩ := map_eq_ok.1 h
  unfold Journal.event at ht
  split at ht
  · cases ht
  · next he => exact applied_revised he ht
  · next he => exact applied_decided false he ht
  · next he => exact applied_decided true he ht
  · next he => exact applied_adopted he ht
  · next he => exact applied_revoked he ht
  · next he => exact applied_intended he ht
  · next he => exact applied_reconciled he ht
  · next he => exact applied_settled he ht

theorem intent?_type {i : EffectIntent} (h : e.intent? = some i) : e.type = .intent := by
  unfold Entry.intent? at h
  split_ifs at h with ht
  exact ht

theorem revoked?_type {id : String} (h : e.revoked? = some id) : e.type = .revocation := by
  unfold Entry.revoked? at h
  split_ifs at h with ht
  exact ht

theorem settled?_type {id : String} (h : e.settled? = some id) : e.type = .result := by
  unfold Entry.settled? at h
  split_ifs at h with ht
  exact ht

/-! ## Valid states -/

/-- An eligible step has no outcome, and no intent is pending for it. -/
theorem eligible_free {id : String} (h : id ∈ eligibleSteps s.view) :
    s.outcomes.lookup id = none ∧ ∀ i ∈ s.pending, i.stepId ≠ id := by
  obtain ⟨t, ht, rfl⟩ := List.mem_map.1 h
  obtain ⟨hout, hpending, -⟩ := eligible_iff.1 (List.mem_filter.1 ht).2
  exact ⟨hout, fun i hi he => hpending (List.mem_map.2 ⟨i, hi, he⟩)⟩

theorem recoverable_pending {c : WorkflowDecision} (h : s.recoverableCancelledDecision = some c) : s.pending = [] := by
  simp only [WorkflowRun.recoverableCancelledDecision, Option.bind_eq_bind, Option.bind_eq_some_iff, rejectIf_eq_some,
    exists_const, not_or] at h
  obtain ⟨latest, -, ⟨-, hpending, -⟩, -⟩ := h
  simpa using hpending

theorem revision_pending {next : ReviewBundle} {reason : RevisionReason}
    (h : s.subjectRevisionReason next = .ok reason) : s.pending = [] ∧ s.attempts.length < 256 ∧ s.continues next := by
  simp only [WorkflowRun.subjectRevisionReason, bind_eq_ok, throwIf_eq_ok, exists_const, not_le, not_not] at h
  obtain ⟨hpending, hlen, hnext, -⟩ := h
  exact ⟨by simpa using hpending, hlen, hnext⟩

@[simp] theorem record_pending {id : String} {o : StepOutcome} : (s.record id o).pending = s.pending := rfl

theorem record_outcome {id k : String} {o : StepOutcome} (hk : k ≠ id) :
    (s.record id o).outcomes.lookup k = s.outcomes.lookup k := AList.lookup_insert_ne hk

/-- An intent that waits for its result. -/
structure Waits (s : WorkflowRun) (i : EffectIntent) : Prop where
  subject : i.subjectSha256 = s.subjectSha256
  run : i.runId = s.runId
  free : s.outcomes.lookup i.stepId = none
  step : ∃ step, s.step i.stepId = some step ∧ step.kind ≠ .decision ∧ i.owner = step.owner

structure Valid (j : Journal) (s : WorkflowRun) : Prop where
  subject : j.subject s.subjectSha256 = .ok s.subject
  distinct : (s.pending.map (·.stepId)).Nodup
  pending : ∀ i ∈ s.pending, Waits s i

/-- What the validity of a state depends on. -/
def core (s : WorkflowRun) :=
  (s.runId, s.definition, s.subject, s.subjectSha256, s.pending, s.attempt)

theorem Valid.of_core (hv : Valid j s) (h : core s' = core s) : Valid j s' := by
  simp only [core, Prod.mk.injEq] at h
  obtain ⟨hrun, hdef, hsubject, hsha, hpending, hattempt⟩ := h
  refine ⟨by rw [hsha, hsubject]; exact hv.subject, by rw [hpending]; exact hv.distinct, fun i hi => ?_⟩
  rw [hpending] at hi
  obtain ⟨h1, h2, h3, h4⟩ := hv.pending i hi
  refine ⟨h1.trans hsha.symm, h2.trans hrun.symm, ?_, ?_⟩
  · rw [WorkflowRun.outcomes, hattempt]
    exact h3
  · rw [WorkflowRun.step, hdef]
    exact h4

theorem valid_admitted {runId : String} (h : j.admitted runId data = .ok s) : Valid j s := by
  simp only [Journal.admitted, bind_eq_ok, throwIf_eq_ok, exists_const, pure_eq_ok] at h
  obtain ⟨a, -, sha, -, dsha, -, raw, -, d, -, subject, hsubject, -, rev, -, caller, -, -, res, -, _, -, rfl⟩ := h
  exact ⟨hsubject, List.nodup_nil, by simp⟩

theorem valid_applied (hv : Valid j s) (h : Applied j s e s') : Valid j s' := by
  cases h with
  | @revised sha next reason id ht hnext hreason hfresh =>
    obtain ⟨hpending, -, -⟩ := revision_pending hreason
    refine ⟨hnext, ?_, ?_⟩
    · rw [hpending]
      exact List.nodup_nil
    · rw [hpending]
      simp
  | adopted => exact hv.of_core rfl
  | @decided d step hd hstep hkind hrun hsha href hfresh hperm hcase =>
    have hother : ∀ i ∈ s.pending, i.stepId ≠ d.stepId := by
      rcases hcase with ⟨-, hel⟩ | ⟨-, c, hc, -⟩
      · rw [← step_id hstep]
        exact (eligible_free hel).2
      · rw [recoverable_pending hc]
        simp
    refine ⟨hv.subject, hv.distinct, fun i hi => ?_⟩
    have hw := hv.pending i hi
    exact ⟨hw.subject, hw.run, (record_outcome (hother i hi)).trans hw.free, hw.step⟩
  | revoked => exact hv.of_core rfl
  | @intended i step d hi hstep hkind hrun hsha howner hel hallowed hd =>
    obtain ⟨hout, hother⟩ := eligible_free hel
    rw [step_id hstep] at hout hother
    refine ⟨hv.subject, ?_, fun k hk => ?_⟩
    · show ((s.pending ++ [i]).map (·.stepId)).Nodup
      rw [List.map_append, List.nodup_append]
      refine ⟨hv.distinct, by simp, ?_⟩
      simpa using hother
    · rcases List.mem_append.1 hk with hk | hk
      · have hw := hv.pending k hk
        exact ⟨hw.subject, hw.run, hw.free, hw.step⟩
      · rw [List.mem_singleton.1 hk]
        exact ⟨hsha, hrun, hout, step, hstep, hkind, howner⟩
  | reconciled => exact hv.of_core rfl
  | @settled id i step outcome hid hi hstep ho =>
    refine ⟨hv.subject, hv.distinct.sublist (List.filter_sublist.map _), fun k hk => ?_⟩
    obtain ⟨hk, hne⟩ := List.mem_filter.1 hk
    have hmem := List.mem_of_find?_eq_some hi
    have hiid : i.intentId = id := by simpa using List.find?_some hi
    have hother : k.stepId ≠ step.id := by
      intro hsame
      rw [step_id hstep] at hsame
      have heq := List.inj_on_of_nodup_map hv.distinct hk hmem hsame
      rw [heq, hiid] at hne
      simp at hne
    have hw := hv.pending k hk
    exact ⟨hw.subject, hw.run, (record_outcome hother).trans hw.free, hw.step⟩

/-! ## Runs -/

abbrev History := List (Run.Step WorkflowRun Entry)

variable {s₀ : WorkflowRun} {h : History} {runId : String}

theorem valid_run (h₀ : Valid j s₀) (hr : Run.Reaches j.apply s₀ h s) : Valid j s := by
  induction hr with
  | nil => exact h₀
  | snoc _ hs ih => exact valid_applied ih (applied hs)

/-- The step records a decision about its subject. -/
structure Decides (j : Journal) (c : Run.Step WorkflowRun Entry) (d : WorkflowDecision) : Prop where
  event : c.event.decision? = some d
  current : c.before.subjectSha256 = d.subjectSha256
  valid : j.subject c.before.subjectSha256 = .ok c.before.subject
  permissions : Journal.permissionsOk c.before d

/-- The state has all decisions of the history, and all revocations. -/
structure Recorded (j : Journal) (h : History) (s : WorkflowRun) : Prop where
  decisions : ∀ d ∈ s.decisions, ∃ c ∈ h, Decides j c d
  revoked : ∀ c ∈ h, ∀ id, c.event.revoked? = some id → id ∈ s.revoked

theorem Recorded.snoc (hc : Recorded j h s) {st : Run.Step WorkflowRun Entry}
    (hd : ∀ d ∈ s'.decisions, d ∈ s.decisions ∨ Decides j st d)
    (hv : ∀ id, id ∈ s.revoked ∨ st.event.revoked? = some id → id ∈ s'.revoked) : Recorded j (h ++ [st]) s' where
  decisions d hmem := by
    rcases hd d hmem with hold | hnew
    · obtain ⟨c, hmem, hc⟩ := hc.decisions d hold
      exact ⟨c, List.mem_append_left _ hmem, hc⟩
    · exact ⟨st, by simp, hnew⟩
  revoked c hmem id hid := by
    rcases List.mem_append.1 hmem with hmem | hmem
    · exact hv id (Or.inl (hc.revoked c hmem id hid))
    · rw [List.mem_singleton.1 hmem] at hid
      exact hv id (Or.inr hid)

theorem recorded_run (hv : Valid j s₀) (h₀ : s₀.decisions = []) (hr : Run.Reaches j.apply s₀ h s) :
    Recorded j h s := by
  induction hr with
  | nil => exact ⟨by simp [h₀], by simp⟩
  | @snoc h s s' e hr hs ih =>
    -- Only a revocation revokes.
    have hother : e.type ≠ .revocation → ∀ id, id ∈ s.revoked ∨ e.revoked? = some id → id ∈ s.revoked := by
      rintro hne id (hid | hid)
      · exact hid
      · exact absurd (revoked?_type hid) hne
    cases applied hs with
    | revised ht => exact ih.snoc (fun d hd => Or.inl hd) (hother (by simp [ht]))
    | adopted ht => exact ih.snoc (fun d hd => Or.inl hd) (hother (by simp [ht]))
    | @decided d step hd hstep hkind hrun hsha href hfresh hperm hcase =>
      refine ih.snoc (fun k hk => ?_) (hother ?_)
      · rcases List.mem_append.1 hk with hk | hk
        · exact Or.inl hk
        · rw [List.mem_singleton.1 hk]
          exact Or.inr ⟨hd, hsha.symm, (valid_run hv hr).subject, hperm⟩
      · rcases hcase with ⟨ht, -⟩ | ⟨ht, -⟩ <;> simp [ht]
    | @revoked id hid =>
      refine ih.snoc (fun d hd => Or.inl hd) fun k hk => ?_
      rcases hk with hk | hk
      · exact List.mem_append_left _ hk
      · rw [hid, Option.some.injEq] at hk
        exact List.mem_append_right _ (by simp [hk])
    | intended hi => exact ih.snoc (fun d hd => Or.inl hd) (hother (by simp [intent?_type hi]))
    | reconciled ht => exact ih.snoc (fun d hd => Or.inl hd) (hother (by simp [ht]))
    | settled hid => exact ih.snoc (fun d hd => Or.inl hd) (hother (by simp [settled?_type hid]))

theorem requireDecision_eq_ok {id : String} {permissions : List PackagePermission} {d : WorkflowDecision}
    (h : s.requireDecision id permissions = .ok d) : d ∈ s.decisions ∧ d.decisionId = id ∧ d.outcome = .approved ∧
      d.subjectSha256 = s.subjectSha256 ∧ id ∉ s.revoked ∧ ∀ p ∈ permissions, p ∈ d.permissions.1 := by
  simp only [WorkflowRun.requireDecision, bind_eq_ok, require_eq_ok, throwIf_eq_ok, exists_const, pure_eq_ok, not_or,
    not_not, ne_eq, Bool.not_eq_true] at h
  obtain ⟨d, hd, ⟨ho, hsha, hrevoked, hperm⟩, rfl⟩ := h
  refine ⟨List.mem_of_find?_eq_some hd, by simpa using List.find?_some hd, ho, hsha, by simpa using hrevoked, ?_⟩
  simpa using hperm

/-- An approval grants what its subject requests. -/
theorem Decides.granted {c : Run.Step WorkflowRun Entry} {d : WorkflowDecision} (hc : Decides j c d)
    (ho : d.outcome = .approved) : d.permissions.1.Perm c.before.subject.requestedPermissions.1 := by
  have hperm := hc.permissions
  rw [Journal.permissionsOk, if_pos ho] at hperm
  obtain ⟨hlen, hall⟩ := hperm
  have hsub : c.before.subject.requestedPermissions.1 ⊆ d.permissions.1 := by
    intro p hp
    simpa using List.all_eq_true.1 hall p hp
  have hle := List.subperm_of_subset c.before.subject.requestedPermissions.2 hsub
  exact (hle.perm_of_length_le hlen.le).symm

/-- The intent of a step is authorized by a decision before it. -/
structure Authorized (before : History) (st : Run.Step WorkflowRun Entry) (i : EffectIntent) : Prop where
  current : i.subjectSha256 = st.before.subjectSha256
  decision : ∃ step d, st.before.step i.stepId = some step ∧ step.kind ≠ .decision ∧ i.owner = step.owner ∧
    (∃ c ∈ before, c.event.decision? = some d ∧ c.before.subjectSha256 = i.subjectSha256) ∧
    d.decisionId = i.decisionId ∧ d.outcome = .approved ∧ d.subjectSha256 = i.subjectSha256 ∧
    d.permissions.1.Perm st.before.subject.requestedPermissions.1 ∧ (∀ p ∈ step.authorization, p ∈ d.permissions.1) ∧
    ∀ c ∈ before, c.event.revoked? ≠ some d.decisionId

/-- What an accepted intent needs. -/
theorem intent_applied {i : EffectIntent} (hi : e.intent? = some i) (h : Applied j s e s') :
    ∃ step d, s.step i.stepId = some step ∧ step.kind ≠ .decision ∧ i.subjectSha256 = s.subjectSha256 ∧
      i.owner = step.owner ∧ step.id ∈ eligibleSteps s.view ∧ s.coordinatorOperationAllowed step.operation = true ∧
      s.requireDecision i.decisionId step.authorization = .ok d ∧
      s' = { s with pending := s.pending ++ [i], revision := e.revision } := by
  have htype := intent?_type hi
  cases h with
  | @intended k step d hk hstep hkind hrun hsha howner hel hallowed hd =>
    rw [hi, Option.some.injEq] at hk
    subst hk
    exact ⟨step, d, hstep, hkind, hsha, howner, hel, hallowed, hd, rfl⟩
  | revised ht => cases htype.symm.trans ht
  | adopted ht => cases htype.symm.trans ht
  | decided hd hstep hkind hrun hsha href hfresh hperm hcase =>
    rcases hcase with ⟨ht, -⟩ | ⟨ht, -⟩ <;> cases htype.symm.trans ht
  | revoked hid => cases htype.symm.trans (revoked?_type hid)
  | reconciled ht => cases htype.symm.trans ht
  | settled hid => cases htype.symm.trans (settled?_type hid)

/-- A subject is revised when no intent is pending. -/
theorem revised_pending (ht : e.type = .subjectRevised) (h : Applied j s e s') : s.pending = [] := by
  cases h with
  | revised _ _ hreason => exact (revision_pending hreason).1
  | adopted ht' => cases ht.symm.trans ht'
  | decided hd hstep hkind hrun hsha href hfresh hperm hcase =>
    rcases hcase with ⟨ht', -⟩ | ⟨ht', -⟩ <;> cases ht.symm.trans ht'
  | revoked hid => cases ht.symm.trans (revoked?_type hid)
  | intended hi => cases ht.symm.trans (intent?_type hi)
  | reconciled ht' => cases ht.symm.trans ht'
  | settled hid => cases ht.symm.trans (settled?_type hid)

/-- What an accepted result does. -/
theorem settled_applied {id : String} (hid : e.settled? = some id) (h : Applied j s e s') :
    ∃ i step outcome, s.pending.find? (·.intentId == id) = some i ∧ s.step i.stepId = some step ∧
      outcome ∈ stepOutcomes step.kind ∧ s' = { s.record step.id outcome with
        pending := s.pending.filter (·.intentId != id), revision := e.revision } := by
  have htype := settled?_type hid
  cases h with
  | @settled k i step outcome hk hi hstep ho =>
    rw [hid, Option.some.injEq] at hk
    subst hk
    exact ⟨i, step, outcome, hi, hstep, ho, rfl⟩
  | revised ht => cases htype.symm.trans ht
  | adopted ht => cases htype.symm.trans ht
  | decided hd hstep hkind hrun hsha href hfresh hperm hcase =>
    rcases hcase with ⟨ht, -⟩ | ⟨ht, -⟩ <;> cases htype.symm.trans ht
  | revoked hid => cases htype.symm.trans (revoked?_type hid)
  | reconciled ht => cases htype.symm.trans ht
  | intended hi => cases htype.symm.trans (intent?_type hi)

theorem authorized_run (hv : Valid j s₀) (h₀ : s₀.decisions = []) (hr : Run.Reaches j.apply s₀ h s) {pre post : History}
    {st : Run.Step WorkflowRun Entry} {i : EffectIntent} (hh : h = pre ++ st :: post) (hi : st.event.intent? = some i) :
    Authorized pre st i := by
  subst hh
  obtain ⟨hpre, hstep, -⟩ := hr.split
  have hrec := recorded_run hv h₀ hpre
  obtain ⟨step, d, hstep, hkind, hsha, howner, -, -, hd, -⟩ := intent_applied hi (applied hstep)
  obtain ⟨hmem, hid, ho, hdsha, hrevoked, hperm⟩ := requireDecision_eq_ok hd
  obtain ⟨c, hc, hdecides⟩ := hrec.decisions d hmem
  have hsame : c.before.subjectSha256 = st.before.subjectSha256 := hdecides.current.trans hdsha
  have hsubject : c.before.subject = st.before.subject := by
    have hvalid := hdecides.valid
    rw [hsame, (valid_run hv hpre).subject] at hvalid
    exact (Except.ok.inj hvalid).symm
  refine ⟨hsha, step, d, hstep, hkind, howner, ⟨c, hc, hdecides.event, hsame.trans hsha.symm⟩, hid, ho,
    hdsha.trans hsha.symm, ?_, hperm, fun x hx hrev => ?_⟩
  · rw [← hsubject]
    exact hdecides.granted ho
  · rw [hid] at hrev
    exact hrevoked (hrec.revoked x hx _ hrev)

/-! ## Once in an attempt -/

/-- The step gives a result of the workflow step `id`. -/
def Performs (id : String) (st : Run.Step WorkflowRun Entry) : Prop :=
  ∃ k i, st.event.settled? = some k ∧ st.before.pending.find? (·.intentId == k) = some i ∧ i.stepId = id

/-- The step requests the workflow step `id`. -/
def Requests (id : String) (st : Run.Step WorkflowRun Entry) : Prop := ∃ i, st.event.intent? = some i ∧ i.stepId = id

/-- The step stays in its attempt. -/
def Stays (st : Run.Step WorkflowRun Entry) : Prop := st.event.type ≠ .subjectRevised

theorem lookup_record {id k : String} {o : StepOutcome} (h : s.outcomes.lookup k ≠ none) :
    (s.record id o).outcomes.lookup k ≠ none := by
  by_cases hk : k = id
  · subst hk
    rw [show (s.record k o).outcomes.lookup k = some o from AList.lookup_insert _]
    simp
  · rwa [record_outcome hk]

/-- An outcome stays until the subject is revised. -/
theorem applied_outcome {id : String} (ha : Applied j s e s') (hs : e.type ≠ .subjectRevised)
    (h : s.outcomes.lookup id ≠ none) : s'.outcomes.lookup id ≠ none := by
  cases ha with
  | revised ht => exact absurd ht hs
  | adopted => exact h
  | decided => exact lookup_record h
  | revoked => exact h
  | intended => exact h
  | reconciled => exact h
  | settled => exact lookup_record h

theorem performed_outcome {id : String} (hr : Run.Reaches j.apply s₀ h s) (hp : Run.Since (Performs id) Stays h) :
    s.outcomes.lookup id ≠ none := by
  induction hr with
  | nil =>
    obtain ⟨pre, st, post, hnil, -⟩ := hp
    simp at hnil
  | @snoc h s s' e _ hs ih =>
    rcases Run.since_snoc.1 hp with ⟨k, i, hk, hi, rfl⟩ | ⟨hp, hstays⟩
    · dsimp only at hk hi
      obtain ⟨i', step, outcome, hi', hstep, -, rfl⟩ := settled_applied hk (applied hs)
      obtain rfl : i' = i := Option.some.inj (hi'.symm.trans hi)
      show (s.record step.id outcome).outcomes.lookup i'.stepId ≠ none
      rw [step_id hstep, show (s.record i'.stepId outcome).outcomes.lookup i'.stepId = some outcome from
        AList.lookup_insert _]
      simp
    · exact applied_outcome (applied hs) hstays (ih hp)

/-- Two results of one step have a revision between them. -/
theorem performed_once (h₀ : Valid j s₀) (hr : Run.Reaches j.apply s₀ h s) {pre mid post : History}
    {a b : Run.Step WorkflowRun Entry} {id : String} (hh : h = pre ++ a :: (mid ++ b :: post)) (ha : Performs id a)
    (hb : Performs id b) : ∃ c ∈ mid, c.event.type = .subjectRevised := by
  by_contra hno
  subst hh
  rw [← List.cons_append, ← List.append_assoc] at hr
  obtain ⟨hmid, -, -⟩ := hr.split
  have hout := performed_outcome hmid ⟨pre, a, mid, rfl, ha, fun x hx ht => hno ⟨x, hx, ht⟩⟩
  obtain ⟨k, i, -, hi, rfl⟩ := hb
  exact hout ((valid_run h₀ hmid).pending i (List.mem_of_find?_eq_some hi)).free

/-- The intents of a history. -/
def intents (h : History) : List EffectIntent := h.filterMap fun st => st.event.intent?

theorem intents_append (h k : History) : intents (h ++ k) = intents h ++ intents k := List.filterMap_append

/-- The pending intents are of the history. -/
theorem pending_intents (h₀ : s₀.pending = []) (hr : Run.Reaches j.apply s₀ h s) : s.pending.Sublist (intents h) := by
  induction hr with
  | nil =>
    rw [h₀]
    exact List.nil_sublist _
  | @snoc h s s' e _ hs ih =>
    rw [intents_append]
    have hkeep := ih.trans (List.sublist_append_left (intents h) (intents [⟨s, e, s'⟩]))
    cases applied hs with
    | @intended i step d hi =>
      refine ih.append ?_
      simp [intents, hi]
    | settled => exact List.filter_sublist.trans hkeep
    | revised => exact hkeep
    | adopted => exact hkeep
    | decided => exact hkeep
    | revoked => exact hkeep
    | reconciled => exact hkeep

/-- A requested step is pending or has an outcome. -/
theorem requested_kept {id : String} (h₀ : s₀.pending = []) (hr : Run.Reaches j.apply s₀ h s)
    (hn : ((intents h).map (·.intentId)).Nodup) (hp : Run.Since (Requests id) Stays h) :
    (∃ i ∈ s.pending, i.stepId = id) ∨ s.outcomes.lookup id ≠ none := by
  induction hr with
  | nil =>
    obtain ⟨pre, st, post, hnil, -⟩ := hp
    simp at hnil
  | @snoc h s s' e hr hs ih =>
    have hnodup : ((intents h).map (·.intentId)).Nodup := by
      rw [intents_append] at hn
      exact hn.sublist ((List.sublist_append_left _ _).map _)
    rcases Run.since_snoc.1 hp with ⟨i, hi, rfl⟩ | ⟨hp, hstays⟩
    · dsimp only at hi
      obtain ⟨step, d, -, -, -, -, -, -, -, rfl⟩ := intent_applied hi (applied hs)
      exact Or.inl ⟨i, by simp, rfl⟩
    · rcases ih hnodup hp with ⟨i, hi, rfl⟩ | hout
      · cases applied hs with
        | @settled k i' step outcome hk hi' hstep ho =>
          by_cases hki : i.intentId = k
          · have hmem := List.mem_of_find?_eq_some hi'
            have hid : i'.intentId = k := by simpa using List.find?_some hi'
            have hids := hnodup.sublist ((pending_intents h₀ hr).map _)
            obtain rfl := List.inj_on_of_nodup_map hids hi hmem (hki.trans hid.symm)
            right
            show (s.record step.id outcome).outcomes.lookup i.stepId ≠ none
            rw [step_id hstep, show (s.record i.stepId outcome).outcomes.lookup i.stepId = some outcome from
              AList.lookup_insert _]
            simp
          · exact Or.inl ⟨i, List.mem_filter.2 ⟨hi, by simpa using hki⟩, rfl⟩
        | revised ht => exact absurd ht hstays
        | intended => exact Or.inl ⟨i, List.mem_append_left _ hi, rfl⟩
        | adopted => exact Or.inl ⟨i, hi, rfl⟩
        | decided => exact Or.inl ⟨i, hi, rfl⟩
        | revoked => exact Or.inl ⟨i, hi, rfl⟩
        | reconciled => exact Or.inl ⟨i, hi, rfl⟩
      · exact Or.inr (applied_outcome (applied hs) hstays hout)

/-- Two requests of one step have a revision between them. -/
theorem requested_once (h₀ : s₀.pending = []) (hr : Run.Reaches j.apply s₀ h s)
    (hn : ((intents h).map (·.intentId)).Nodup) {pre mid post : History}
    {a b : Run.Step WorkflowRun Entry} {id : String} (hh : h = pre ++ a :: (mid ++ b :: post)) (ha : Requests id a)
    (hb : Requests id b) : ∃ c ∈ mid, c.event.type = .subjectRevised := by
  by_contra hno
  subst hh
  rw [← List.cons_append, ← List.append_assoc] at hr hn
  obtain ⟨hmid, hstep, -⟩ := hr.split
  have hnodup : ((intents (pre ++ a :: mid)).map (·.intentId)).Nodup := by
    rw [intents_append] at hn
    exact hn.sublist ((List.sublist_append_left _ _).map _)
  have hkept := requested_kept h₀ hmid hnodup ⟨pre, a, mid, rfl, ha, fun x hx ht => hno ⟨x, hx, ht⟩⟩
  obtain ⟨i, hi, rfl⟩ := hb
  obtain ⟨step, d, hstep, -, -, -, hel, -⟩ := intent_applied hi (applied hstep)
  obtain ⟨hout, hother⟩ := eligible_free hel
  rw [step_id hstep] at hout hother
  rcases hkept with ⟨k, hk, hsame⟩ | hsome
  · exact hother k hk hsame
  · exact hsome hout

/-! ## A sample -/

namespace ReplaySample

open Sample (double letter utf8 source)

def definitionSha : String := "aaaaaaaaaaaaaaaaaaaaaaaaaaaaaaaaaaaaaaaaaaaaaaaaaaaaaaaaaaaaaaaa"

def subjectSha : String := "bbbbbbbbbbbbbbbbbbbbbbbbbbbbbbbbbbbbbbbbbbbbbbbbbbbbbbbbbbbbbbbb"

def evidenceSha : String := "cccccccccccccccccccccccccccccccccccccccccccccccccccccccccccccccc"

/-- A package for the sample definition, with parentheses and apostrophes as there. -/
def package : String :=
  "('schemaVersion':'pa-review-bundle/v1','subjectId':'pair-package','revision':1,
    'requirements':('schemaVersion':'pa-workflow-evidence-ref/v1',
    'ref':'requirements:agent-teams/requirements/artifacts/r.md','version':'v1',
    'sha256':'cccccccccccccccccccccccccccccccccccccccccccccccccccccccccccccccc'),
    'uat':('schemaVersion':'pa-workflow-evidence-ref/v1','ref':'uat:agent-teams/requirements/artifacts/u.md',
    'version':'v1','sha256':'dddddddddddddddddddddddddddddddddddddddddddddddddddddddddddddddd'),
    'matrix':('schemaVersion':'pa-workflow-evidence-ref/v1',
    'ref':'requirements:agent-teams/requirements/artifacts/r.md','version':'v1',
    'sha256':'eeeeeeeeeeeeeeeeeeeeeeeeeeeeeeeeeeeeeeeeeeeeeeeeeeeeeeeeeeeeeeee'),
    'repository':('key':'pa','root':'/repos/pa'),'ticket':'PA-001','route':('team':'builder','mode':'implement'),
    'handoff':('type':'fresh','baseSha':'aaaaaaaaaaaaaaaaaaaaaaaaaaaaaaaaaaaaaaaa',
    'branch':'feature/PA-001-pair','branchAction':'create'),
    'workflow':('id':'pair','version':'v1','sha256':'aaaaaaaaaaaaaaaaaaaaaaaaaaaaaaaaaaaaaaaaaaaaaaaaaaaaaaaaaaaaaaaa'),
    'scope':('requirements':[],'acceptanceCriteria':[],'files':[],'directories':[],'newPaths':[],'checks':[],
    'excludedEffects':[]),'requestedPermissions':['artifact.publish-pair'])"

def packageText : List Char := package.toList.map letter

def journal : Journal where
  raw sha := if sha = definitionSha then some (utf8 (source "publish"))
    else if sha = subjectSha then some (utf8 packageText) else none
  digest bytes := if bytes = utf8 packageText then subjectSha else definitionSha
  double := double
  evidence _ := true
  validResources _ _ := true

def caller : WorkflowCaller where
  deploymentId := "d-0000aa"
  repoKey := "pa"
  repoRoot := "/repos/pa"
  ticket := "PA-001"
  team := "requirements"
  mode := "review"
  identitySha256 := evidenceSha

def evidence (ref : String) : Json :=
  .obj [("schemaVersion", .str "pa-workflow-evidence-ref/v1"), ("ref", .str ref), ("version", .str "v1"),
    ("sha256", .str evidenceSha)]

def admission : Json :=
  .obj [("definitionSha256", .str definitionSha), ("subjectSha256", .str subjectSha),
    ("configRevision", .str "ffffffffffffffffffffffffffffffffffffffff"),
    ("caller", .obj [("deploymentId", .str caller.deploymentId), ("repoKey", .str caller.repoKey),
      ("repoRoot", .str caller.repoRoot), ("ticket", .str caller.ticket), ("team", .str caller.team),
      ("mode", .str caller.mode), ("identitySha256", .str caller.identitySha256)])]

def approval : Json :=
  .obj [("record", .obj [("schemaVersion", .str "pa-decision/v1"), ("decisionId", .str "decision-1"),
    ("kind", .str "package"), ("runId", .str "wf-1"), ("stepId", .str "decide"), ("subjectRef", .str "pair-package"),
    ("subjectSha256", .str subjectSha), ("outcome", .str "approved"),
    ("permissions", .arr [.str "artifact.publish-pair"]), ("captureEvidenceRef", evidence "capture-1"),
    ("principal", .str "operator"), ("issuedAt", .str "2026-01-01T00:00:00.000Z")])]

def publication : Json :=
  .obj [("intent", .obj [("intentId", .str "intent-1"), ("runId", .str "wf-1"), ("stepId", .str "publish"),
    ("owner", .str "tickets"), ("decisionId", .str "decision-1"), ("subjectSha256", .str subjectSha)])]

def published : Json :=
  .obj [("intentId", .str "intent-1"), ("outcome", .str "completed"), ("evidence", .arr [evidence "pair-1"])]

/-- An approval, a publication under it, and its result. -/
def rest : List Entry := [⟨2, .decision, approval⟩, ⟨3, .intent, publication⟩, ⟨4, .result, published⟩]

def entries : List Entry := ⟨1, .admitted, admission⟩ :: rest

/-- The state after the admission. -/
def start (definition : WorkflowDefinition) (subject : ReviewBundle) : WorkflowRun where
  runId := "wf-1"
  revision := 1
  definition := definition
  subject := subject
  subjectSha256 := subjectSha
  configRevision := "ffffffffffffffffffffffffffffffffffffffff"
  resources := none
  caller := caller
  coordinator := none
  coordinatorQueueOnly := false
  coordinatorDocumentOnly := false
  coordinatorDocumentSubjectSha256 := none
  decisions := []
  revoked := []
  pending := []
  earlier := []
  attempt := ⟨"attempt-wf-1", none, subject.subjectId, subjectSha, 1, .initial, ∅⟩

/-- The caller may settle the publication. -/
def settling (s : WorkflowRun) : Bool :=
  (s.pending.find? (·.intentId == "intent-1")).any (fun i =>
      (s.step i.stepId).any fun step => step.kind == .publication) &&
    !s.coordinatorQueueOnly && s.workflowCoordinator == caller && decide (s.subjectCaller caller)

/-- The package fits the definition, and the events are accepted. -/
def good (definition : WorkflowDefinition) (subject : ReviewBundle) : Bool :=
  subject.workflow == ⟨definition.workflowId, definition.version, definitionSha⟩ &&
    subject.repository == ⟨"pa", "/repos/pa"⟩ && subject.ticket == "PA-001" &&
    (Run.exec journal.apply (start definition subject) rest).toOption.isSome &&
    (Run.exec journal.apply (start definition subject) (rest.take 2)).toOption.any settling

theorem accepted_texts {text packageText : List Char} (h : ((readJson double text).bind definition).any (fun d =>
    ((readJson double packageText).bind bundle).any (good d)) = true) :
    ∃ d b, (readJson double text).bind definition = some d ∧ (readJson double packageText).bind bundle = some b ∧
      good d b = true := by
  obtain ⟨d, hd, h⟩ := (Option.any_eq_true _ _).1 h
  obtain ⟨b, hb, hgood⟩ := (Option.any_eq_true _ _).1 h
  exact ⟨d, b, hd, hb, hgood⟩

/-- A small object. -/
def small (text : List Char) : Bool := decide (text.length ≤ 262144) && text.head? == some '\x7b'

set_option maxRecDepth 8000 in
theorem texts : ((readJson double (source "publish")).bind definition).any (fun d =>
      ((readJson double packageText).bind bundle).any (good d)) = true ∧
    small (source "publish") = true ∧ small packageText = true ∧
    (source "publish").flatMap String.utf8EncodeChar ≠ packageText.flatMap String.utf8EncodeChar := by
  have h1 : Sample.start.toList = _ := String.toList_ofList
  have h2 : Sample.decision.toList = _ := String.toList_ofList
  have h3 : Sample.policy.toList = _ := String.toList_ofList
  have h4 : Sample.publication.toList = _ := String.toList_ofList
  have h5 : "publish".toList = _ := String.toList_ofList
  have h6 : package.toList = _ := String.toList_ofList
  rw [source, packageText, h1, h2, h3, h4, h5, h6]
  exact ⟨by decide +kernel, by decide +kernel, by decide +kernel, by decide +kernel⟩

theorem strictJson_small {text : List Char} (h : small text = true) :
    strictJson double (utf8 text) = readJson double text := by
  simp only [small, Bool.and_eq_true, decide_eq_true_eq, beq_iff_eq] at h
  exact Sample.strictJson_bytes h.1 h.2

/-- A stored text is read. -/
theorem snapshot_small {sha : String} {text : List Char} (hsha : (shaText (.str sha)).isSome = true)
    (hraw : journal.raw sha = some (utf8 text)) (hdigest : journal.digest (utf8 text) = sha)
    (h : small text = true) : journal.snapshot sha = .ok (utf8 text) := by
  obtain ⟨t, ht⟩ := Option.isSome_iff_exists.1 hsha
  have hlen := Sample.length_flatMap_le text
  rw [← Sample.utf8_eq] at hlen
  simp only [small, Bool.and_eq_true, decide_eq_true_eq] at h
  have hok : ¬ (1048576 < (utf8 text).length ∨ journal.digest (utf8 text) ≠ sha) := by
    rw [hdigest]
    simp only [ne_eq, not_true_eq_false, or_false]
    omega
  simp only [Journal.snapshot, bind_eq_ok, contract_eq_ok, require_eq_ok, throwIf_eq_ok, exists_const, pure_eq_ok]
  exact ⟨t, ht, _, hraw, hok, rfl⟩

theorem raw_definition : journal.raw definitionSha = some (utf8 (source "publish")) := by
  simp only [journal, if_true]

theorem raw_subject : journal.raw subjectSha = some (utf8 packageText) := by
  simp only [journal, if_neg (show subjectSha ≠ definitionSha by decide), if_true]

theorem digest_definition {text : List Char} (h : utf8 text ≠ utf8 packageText) :
    journal.digest (utf8 text) = definitionSha := by
  simp only [journal, if_neg h]

theorem digest_subject : journal.digest (utf8 packageText) = subjectSha := by
  simp only [journal, if_true]

theorem admitted_sample {text : List Char} {d : WorkflowDefinition} {b : ReviewBundle} (h : small text = true)
    (hsnapshot : journal.snapshot definitionSha = .ok (utf8 text))
    (hd : (readJson double text).bind definition = some d)
    (hsubject : journal.subject subjectSha = .ok b) (hworkflow : b.workflow = ⟨d.workflowId, d.version, definitionSha⟩)
    (hcaller : (start d b).subjectCaller caller) : journal.admitted "wf-1" admission = .ok (start d b) := by
  have hobject : (object ["definitionSha256", "subjectSha256", "configRevision", "caller"]
      ["producerSha256", "resourcesSha256"] admission).isSome = true := by decide +kernel
  obtain ⟨r, hr⟩ := Option.isSome_iff_exists.1 hobject
  have hrow := object_eq_some hr
  simp only [Journal.admitted, bind_eq_ok, throwIf_eq_ok, exists_const, pure_eq_ok, contract_eq_ok]
  obtain rfl := (Json.obj.inj hrow).symm
  refine ⟨_, hr, subjectSha, by decide +kernel, definitionSha, by decide +kernel, _, hsnapshot, d, ?_, b, hsubject,
    not_not.2 hworkflow, "ffffffffffffffffffffffffffffffffffffffff", by decide +kernel, caller,
    by decide +kernel, not_not.2 hcaller, none, rfl, ⟨⟩, rfl, rfl⟩
  rw [parseWorkflowDefinition, show journal.double = double from rfl, strictJson_small h, hd]

theorem admitted_good : ∃ d b, journal.admitted "wf-1" admission = .ok (start d b) ∧ good d b = true := by
  obtain ⟨hparsed, hsmall, hsmall', hne⟩ := texts
  obtain ⟨d, b, hd, hb, hgood⟩ := accepted_texts hparsed
  rw [← Sample.utf8_eq, ← Sample.utf8_eq] at hne
  have hsnapshot : journal.snapshot definitionSha = .ok (utf8 (source "publish")) :=
    snapshot_small (by decide +kernel) raw_definition (digest_definition hne) hsmall
  have hsnapshot' : journal.snapshot subjectSha = .ok (utf8 packageText) :=
    snapshot_small (by decide +kernel) raw_subject digest_subject hsmall'
  have hsubject : journal.subject subjectSha = .ok b := by
    simp only [Journal.subject, bind_eq_ok, contract_eq_ok]
    refine ⟨_, hsnapshot', ?_⟩
    rw [parseReviewBundle, show journal.double = double from rfl, strictJson_small hsmall', hb]
  refine ⟨d, b, ?_, hgood⟩
  simp only [good, Bool.and_eq_true, beq_iff_eq] at hgood
  obtain ⟨⟨⟨⟨hworkflow, hrepo⟩, hticket⟩, -⟩, -⟩ := hgood
  refine admitted_sample hsmall hsnapshot hd hsubject hworkflow ⟨?_, ?_, ?_⟩
  · exact (congrArg Repository.key hrepo).symm
  · exact (congrArg Repository.root hrepo).symm
  · exact hticket.symm

theorem replays_rest {d : WorkflowDefinition} {b : ReviewBundle} {events : List Entry} {s : WorkflowRun}
    (h : journal.admitted "wf-1" admission = .ok (start d b))
    (hs : (Run.exec journal.apply (start d b) events).toOption = some s) :
    journal.replayWorkflow "wf-1" (⟨1, .admitted, admission⟩ :: events) = .ok s := by
  simp only [Journal.replayWorkflow, bind_eq_ok, throwIf_eq_ok, exists_const, h]
  refine ⟨by decide, _, rfl, ?_⟩
  cases hexec : Run.exec journal.apply (start d b) events with
  | error e =>
    rw [hexec] at hs
    cases hs
  | ok t =>
    rw [hexec] at hs
    exact congrArg Except.ok (Option.some.inj hs)

theorem accepted : ∃ s, journal.replayWorkflow "wf-1" entries = .ok s := by
  obtain ⟨d, b, hadmitted, hgood⟩ := admitted_good
  simp only [good, Bool.and_eq_true] at hgood
  obtain ⟨s, hs⟩ := Option.isSome_iff_exists.1 hgood.1.2
  exact ⟨s, replays_rest hadmitted hs⟩

/-- The journal before the result. -/
theorem accepted_settling : ∃ s, journal.replayWorkflow "wf-1" (entries.take 3) = .ok s ∧ settling s = true := by
  obtain ⟨d, b, hadmitted, hgood⟩ := admitted_good
  simp only [good, Bool.and_eq_true] at hgood
  obtain ⟨s, hs, hsettling⟩ := (Option.any_eq_true _ _).1 hgood.2
  exact ⟨s, replays_rest hadmitted hs, hsettling⟩

end ReplaySample

/-! ## Replayed journals -/

/-- The history of a replay, after the admission. -/
structure Replays (j : Journal) (runId : String) (entries : List Entry) (s₀ : WorkflowRun) (h : History)
    (s : WorkflowRun) : Prop where
  admitted : ∃ first, entries = first :: h.map (·.event) ∧ first.type = .admitted ∧ j.admitted runId first.data = .ok s₀
  reaches : Run.Reaches j.apply s₀ h s

theorem replays {entries : List Entry} (h : j.replayWorkflow runId entries = .ok s) :
    ∃ s₀ h, Replays j runId entries s₀ h s := by
  cases entries with
  | nil => cases h
  | cons first rest =>
    simp only [Journal.replayWorkflow, bind_eq_ok, throwIf_eq_ok, exists_const, not_not, ne_eq] at h
    obtain ⟨ht, s₀, h₀, hexec⟩ := h
    obtain ⟨h, hr, rfl⟩ := Run.reaches_of_exec hexec
    exact ⟨s₀, h, ⟨first, rfl, ht, h₀⟩, hr⟩

theorem admitted_empty (h : j.admitted runId data = .ok s) : s.decisions = [] ∧ s.pending = [] := by
  simp only [Journal.admitted, bind_eq_ok, throwIf_eq_ok, exists_const, pure_eq_ok] at h
  obtain ⟨a, -, sha, -, dsha, -, raw, -, d, -, subject, hsubject, -, rev, -, caller, -, -, res, -, _, -, rfl⟩ := h
  exact ⟨rfl, rfl⟩

/-- **Intents are authorized.**  In a journal that replays, each intent names an earlier decision that approves
    the very subject that is current at the intent, that is not revoked before it, and that grants what the subject
    requests, among it what the step needs. -/
theorem intents_authorized {entries : List Entry} (hreplay : j.replayWorkflow runId entries = .ok s) :
    ∃ s₀ h, Replays j runId entries s₀ h s ∧ ∀ pre st post i, h = pre ++ st :: post → st.event.intent? = some i →
      Authorized pre st i := by
  obtain ⟨s₀, h, hr⟩ := replays hreplay
  obtain ⟨first, -, -, h₀⟩ := hr.admitted
  exact ⟨s₀, h, hr, fun pre st post i hh hi =>
    authorized_run (valid_admitted h₀) (admitted_empty h₀).1 hr.reaches hh hi⟩

theorem intents_authorized_sample : ∃ s s₀ h, Replays ReplaySample.journal "wf-1" ReplaySample.entries s₀ h s ∧
    ∀ pre st post i, h = pre ++ st :: post → st.event.intent? = some i → Authorized pre st i := by
  obtain ⟨s, hs⟩ := ReplaySample.accepted
  exact ⟨s, intents_authorized hs⟩

/-- **Nothing is performed twice.**  Between two results of one step the subject is revised; between two intents for
    one step too, if intents have distinct ids.  No intent is pending when the subject is revised, and the pending
    intents are for distinct steps of the current subject without a result. -/
theorem performed_once_in_attempt {entries : List Entry} (hreplay : j.replayWorkflow runId entries = .ok s) :
    ∃ s₀ h, Replays j runId entries s₀ h s ∧
      (∀ pre a mid b post id, h = pre ++ a :: (mid ++ b :: post) → Performs id a → Performs id b →
        ∃ c ∈ mid, c.event.type = .subjectRevised) ∧
      (((intents h).map (·.intentId)).Nodup → ∀ pre a mid b post id, h = pre ++ a :: (mid ++ b :: post) →
        Requests id a → Requests id b → ∃ c ∈ mid, c.event.type = .subjectRevised) ∧
      (∀ st ∈ h, st.event.type = .subjectRevised → st.before.pending = []) ∧
      (s.pending.map (·.stepId)).Nodup ∧ ∀ i ∈ s.pending, Waits s i := by
  obtain ⟨s₀, h, hr⟩ := replays hreplay
  obtain ⟨first, -, -, h₀⟩ := hr.admitted
  have hvalid := valid_run (valid_admitted h₀) hr.reaches
  refine ⟨s₀, h, hr, fun pre a mid b post id hh ha hb => performed_once (valid_admitted h₀) hr.reaches hh ha hb,
    fun hn pre a mid b post id hh ha hb => requested_once (admitted_empty h₀).2 hr.reaches hn hh ha hb, ?_,
    hvalid.distinct, hvalid.pending⟩
  intro st hst ht
  obtain ⟨pre, post, rfl⟩ := List.append_of_mem hst
  obtain ⟨-, hstep, -⟩ := hr.reaches.split
  exact revised_pending ht (applied hstep)

theorem performed_once_in_attempt_sample :
    ∃ s s₀ h, Replays ReplaySample.journal "wf-1" ReplaySample.entries s₀ h s ∧
      ∀ pre a mid b post id, h = pre ++ a :: (mid ++ b :: post) → Performs id a → Performs id b →
        ∃ c ∈ mid, c.event.type = .subjectRevised := by
  obtain ⟨s, hs⟩ := ReplaySample.accepted
  obtain ⟨s₀, h, hr, honce, -⟩ := performed_once_in_attempt hs
  exact ⟨s, s₀, h, hr, honce⟩

end PaPlatform.Workflow.Replay
