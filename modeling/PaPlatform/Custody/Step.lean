/-
  What an accepted command requires and what it does.

  `Applied` has one constructor for each way in which `transition` accepts a
  command; `transition_applied` is its inversion lemma.
-/
import PaPlatform.Custody.Transition

namespace PaPlatform.Custody

open Js Guard

variable {s s' : ExecutionState} {actor : ExecutionHolder} {now : Timestamp}

/-! ## What the guards establish -/

/-- `runnable` accepts. -/
structure Runnable (s : ExecutionState) (now : Timestamp) : Prop where
  deadline : now.ms < s.bounds.deadlineAt.ms
  progress : s.bounds.consecutiveNoProgress < 3

/-- No restart has been announced. -/
structure Settled (s : ExecutionState) : Prop where
  pendingRestart : s.pendingRestart = none
  restartLaunch : s.restartLaunch = none

/-- `owner` and `idle` accept. -/
structure IdleOwner (s : ExecutionState) (actor : ExecutionHolder) : Prop extends Settled s where
  owner : s.activeOwner = actor
  custody : s.custody = .idle
  operation : s.operation = none

/-- `writer` accepts, with the operation `inFlight`. -/
structure Writes (s : ExecutionState) (actor : ExecutionHolder) (inFlight : Option Text) : Prop
    extends Settled s where
  holder : ∃ executor, s.custody = .held executor actor inFlight ∧ executor ≠ .reviewReserved ∧
    (executor = .orchestratorDirect → s.activeOwner = actor)

/-- The common requirements of the restart family. -/
structure Transfers (s : ExecutionState) (actor previousOwner : ExecutionHolder)
    (evidence : SourceVersion) : Prop where
  previous : previousOwner = s.activeOwner
  fresh : ∀ holder ∈ s.activeOwner :: s.retiredOwners, holder.process ≠ actor.process
  replacements : s.bounds.replacementsUsed < replacementLimit
  custody : s.custody = .idle ∨ ∃ o, s.custody = .held .orchestratorDirect s.activeOwner o
  launch : ∀ l, s.restartLaunch = some l →
    actor.deploymentId = l.actor.deploymentId ∧ evidence = l.evidence

/-- The accepted commands of `actor` at `now`, and the states they lead to. -/
inductive Applied (s : ExecutionState) (actor : ExecutionHolder) (now : Timestamp) :
    ExecutionCommand → ExecutionState → Prop
  | restartLaunch {previous evidence} : Transfers s actor previous evidence → Settled s →
      Runnable s now → s.operation = none → s.custody.inFlightOperation = none → s.sequence < 254 →
      Applied s actor now (.restart .restartLaunch previous evidence)
        { s.tick now with restartLaunch := some ⟨actor, evidence, s.sequence + 1⟩ }
  | restartIntent {previous evidence} : Transfers s actor previous evidence →
      s.pendingRestart = none → Runnable s now →
      Applied s actor now (.restart .restartIntent previous evidence)
        { s.tick now with pendingRestart := some ⟨actor, s.activeOwner, evidence, s.sequence + 1⟩ }
  | restart {previous evidence} : Transfers s actor previous evidence →
      (∀ p, s.pendingRestart = some p → p = ⟨actor, previous, evidence, s.sequence⟩) →
      (s.pendingRestart = none → s.restartLaunch = none ∧ Runnable s now) →
      Applied s actor now (.restart .restart previous evidence)
        { s.tick now with
          activeOwner := actor
          retiredOwners := s.retiredOwners ++ [s.activeOwner]
          pendingRestart := none
          restartLaunch := none
          bounds := { s.bounds with replacementsUsed := s.bounds.replacementsUsed + 1 }
          custody := custodyAfterRestart s actor }
  | plan {plan} : IdleOwner s actor → Runnable s now →
      (∀ f, s.originalFailure = some f → f.check.1 ∈ plan.checkNames ∧
        s.plan.map (·.phaseId) = some plan.phaseId) →
      (∀ p, s.plan = some p → plan.phaseId = p.phaseId) →
      Applied s actor now (.plan plan) { (s.tick now).cleared with plan := some plan }
  | advance {plan evidence current} : IdleOwner s actor → Runnable s now →
      s.plan = some current → s.originalFailure = none → s.recoveryPending = false →
      s.bounds.unresolvedFailureRef = none → plan.phaseId ≠ current.phaseId →
      phaseMarker plan ∉ s.usedOperationIds → plan.paths = current.paths →
      plan.checks = current.checks →
      Applied s actor now (.advance plan evidence)
        { (s.tick now).cleared with
          plan := some plan
          usedOperationIds := s.usedOperationIds ++ [phaseMarker current] }
  | selectDirect {holder handover plan} : IdleOwner s actor → Runnable s now →
      s.plan = some plan → s.recoveryPending = false → holder = s.activeOwner →
      Applied s actor now (.select .orchestratorDirect holder handover)
        { s.tick now with custody := .held .orchestratorDirect holder none }
  | selectChild {holder handover plan} : IdleOwner s actor → Runnable s now →
      s.plan = some plan → s.recoveryPending = false → holder ≠ s.activeOwner →
      holder ∉ s.retiredOwners → priorChildren s.usedOperationIds = 0 →
      Applied s actor now (.select .implementChild holder handover)
        { s.tick now with
          usedOperationIds := s.usedOperationIds ++ [childPrefix ++ toString (s.sequence + 1)]
          custody := .held .implementChild holder none }
  | replaceChild {holder handover plan} : IdleOwner s actor → Runnable s now →
      s.plan = some plan → s.recoveryPending = false → holder ≠ s.activeOwner →
      holder ∉ s.retiredOwners → 0 < priorChildren s.usedOperationIds →
      s.bounds.replacementsUsed < replacementLimit →
      Applied s actor now (.select .implementChild holder handover)
        { s.tick now with
          usedOperationIds := s.usedOperationIds ++ [childPrefix ++ toString (s.sequence + 1)]
          bounds := { s.bounds with replacementsUsed := s.bounds.replacementsUsed + 1 }
          custody := .held .implementChild holder none }
  | selectReview {holder handover plan} : IdleOwner s actor → Runnable s now →
      s.plan = some plan → s.recoveryPending = false → holder ≠ s.activeOwner →
      holder ∉ s.retiredOwners → s.bounds.reviewsUsed < s.bounds.reviewCap →
      s.originalFailure = none → s.checked plan →
      Applied s actor now (.select .reviewReserved holder handover)
        { s.tick now with
          bounds := { s.bounds with reviewsUsed := s.bounds.reviewsUsed + 1 }
          custody := .held .reviewReserved holder none }
  | begin {operation plan} : Writes s actor none → Runnable s now → s.plan = some plan →
      s.recoveryPending = false → s.operation = none → operation.id.1 ∉ s.usedOperationIds →
      startsWith operation.id.1 childPrefix = false →
      (∀ check, operation.check = some check → check.1 ∈ plan.checkNames) →
      Applied s actor now (.begin operation) (begun s operation now)
  | finish {operationId evidence failure candidate operation} :
      Writes s actor (some operationId) → s.operation = some operation →
      operation.id = operationId →
      (∀ f, failure = some f → f.candidateSha = s.candidateSha ∧
        f.check.1 = operation.resultName) →
      Applied s actor now (.finish operationId evidence failure candidate)
        (finished s operation evidence failure candidate now)
  | settle {evidence inventory} : Settled s → s.activeOwner = actor → s.custody ≠ .idle →
      s.operation = none → s.custody.inFlightOperation = none →
      inventory.branch = s.binding.branch → inventory.headSha = s.candidateSha →
      Applied s actor now (.settle evidence inventory) { s.tick now with custody := .idle }
  | attempt {recovery failure} : IdleOwner s actor → Runnable s now →
      s.originalFailure = some failure → recovery.originalFailure = failure.output →
      recovery.recheck.check = failure.check → recovery.recheck.candidateSha = s.candidateSha →
      Applied s actor now (.attempt recovery)
        { s.tick now with
          recoveryPending := false
          bounds := { s.bounds with
            consecutiveNoProgress :=
              if progress s failure recovery then 0 else s.bounds.consecutiveNoProgress + 1 }
          diagnosticDigests := s.diagnosticDigests ++ (recovery.diagnostic.map (·.sha256)).toList
          remedyDigests := s.remedyDigests ++ (recovery.remedy.map (·.sha256)).toList }
  | resolve {evidence failure} : IdleOwner s actor → s.originalFailure = some failure →
      s.passOf failure.check.1 = some evidence →
      Applied s actor now (.resolve evidence)
        { s.tick now with
          originalFailure := none
          recoveryPending := false
          bounds := { s.bounds with consecutiveNoProgress := 0, unresolvedFailureRef := none } }
  | candidate {candidateSha mapping} : IdleOwner s actor → Runnable s now →
      candidateSha ≠ s.candidateSha →
      Applied s actor now (.candidate candidateSha mapping)
        { (s.tick now).cleared with candidateSha }
  | accept {kind evidence plan} : IdleOwner s actor → Runnable s now → s.plan = some plan →
      s.originalFailure = none → s.checked plan → s.acceptance kind = none →
      (kind = .uat ∨ kind = .integration →
        (s.acceptance .review).isSome ∧ (s.acceptance .ci).isSome) →
      (kind = .integration → (s.acceptance .uat).isSome) →
      Applied s actor now (.accept kind evidence)
        { s.tick now with acceptance := Function.update s.acceptance kind (some evidence) }

/-! ## Inversion -/

theorem runnable_ok {u} (h : runnable s now = .ok u) : Runnable s now := by
  simp only [runnable, throwIf_eq_ok, not_or] at h
  exact ⟨by omega, by omega⟩

theorem owner_ok {u} (h : owner s actor = .ok u) : s.activeOwner = actor := by
  simpa [owner] using h

theorem idle_ok {u} (h : idle s = .ok u) : s.custody = .idle ∧ s.operation = none := by
  simpa [idle] using h

theorem writer_ok {u} (h : writer s actor = .ok u) :
    ∃ executor o, s.custody = .held executor actor o ∧ executor ≠ .reviewReserved ∧
      (executor = .orchestratorDirect → s.activeOwner = actor) := by
  simp only [writer, bind_eq_ok, require_eq_ok, throwIf_eq_ok] at h
  obtain ⟨⟨executor, holder⟩, hw, h⟩ := h
  push Not at h
  obtain ⟨rfl, h2⟩ := h
  cases hc : s.custody with
  | idle => simp [hc, ExecutionCustody.writerOf] at hw
  | suspended => simp [hc, ExecutionCustody.writerOf] at hw
  | held e k o =>
    cases e <;> simp [hc, ExecutionCustody.writerOf] at hw
    all_goals
      obtain ⟨rfl, rfl⟩ := hw
      exact ⟨_, o, rfl, by simp, h2⟩

/-- The three guards at the head of the owner's commands. -/
theorem idleOwner_ok {u v w} (hs : Settled s) (ho : owner s actor = .ok u) (hi : idle s = .ok v)
    (hr : runnable s now = .ok w) : IdleOwner s actor ∧ Runnable s now :=
  ⟨⟨hs, owner_ok ho, (idle_ok hi).1, (idle_ok hi).2⟩, runnable_ok hr⟩

theorem runnableOrPending_ok {action previous evidence u}
    (h : runnableOrPending s actor action previous evidence now = .ok u) :
    (∀ p, s.pendingRestart = some p →
      action = .restart ∧ p = ⟨actor, previous, evidence, s.sequence⟩) ∧
    (s.pendingRestart = none → Runnable s now) := by
  unfold runnableOrPending at h
  cases hp : s.pendingRestart with
  | none =>
    rw [hp] at h
    exact ⟨by simp, fun _ => runnable_ok h⟩
  | some p =>
    rw [hp] at h
    simp only [throwIf_eq_ok] at h
    push Not at h
    obtain ⟨h1, h2, h3, h4, h5⟩ := h
    refine ⟨?_, by simp⟩
    rintro p' hp'
    obtain rfl := Option.some.inj hp'
    exact ⟨h1, by rw [← h2, ← h3, ← h4, ← h5]⟩

theorem applyRestart_ok {action previous evidence}
    (hp : s.pendingRestart.isSome → action = .restart)
    (hl : s.restartLaunch.isSome → s.pendingRestart = none → action = .restartIntent)
    (h : applyRestart s actor action previous evidence now = .ok s') :
    Applied s actor now (.restart action previous evidence) s' := by
  simp only [applyRestart, bind_eq_ok, throwIf_eq_ok] at h
  obtain ⟨_, hpend, _, hlaunch, _, hcommon, h⟩ := h
  obtain ⟨hsome, hnone⟩ := runnableOrPending_ok hpend
  push Not at hlaunch hcommon
  obtain ⟨h1, h2, h3, h4, h5, h6⟩ := hcommon
  have ht : Transfers s actor previous evidence := by
    refine ⟨h1, fun k hk => (h3 k hk).1, by omega, ?_, hlaunch⟩
    cases hc : s.custody with
    | idle => exact Or.inl rfl
    | suspended => simp [hc, ExecutionCustody.idleOrDirect] at h5
    | held e k o =>
      cases e <;> simp [hc, ExecutionCustody.idleOrDirect] at h5 h6
      exact Or.inr ⟨o, by rw [h6]⟩
  cases action with
  | restartLaunch =>
    have hp' : s.pendingRestart = none := by simpa using hp
    have hl' : s.restartLaunch = none := by simpa [hp'] using hl
    simp only [bind_eq_ok, throwIf_eq_ok, pure_eq_ok] at h
    obtain ⟨_, hg, rfl⟩ := h
    push Not at hg
    exact .restartLaunch ht ⟨hp', hl'⟩ (hnone hp') (by simpa using hg.1) (by simpa using hg.2.1)
      hg.2.2
  | restartIntent =>
    have hp' : s.pendingRestart = none := by simpa using hp
    simp only [pure_eq_ok] at h
    subst h
    exact .restartIntent ht hp' (hnone hp')
  | restart =>
    simp only [pure_eq_ok] at h
    subst h
    exact .restart ht (fun p hp' => (hsome p hp').2)
      fun hp' => ⟨by simpa [hp'] using hl, hnone hp'⟩

theorem applyPlan_ok {plan} (hs : Settled s) (h : applyPlan s actor plan now = .ok s') :
    Applied s actor now (.plan plan) s' := by
  simp only [applyPlan, bind_eq_ok, throwIf_eq_ok, pure_eq_ok] at h
  obtain ⟨_, ho, _, hi, _, hr, _, h1, _, h2, rfl⟩ := h
  push Not at h1 h2
  obtain ⟨hio, hrun⟩ := idleOwner_ok hs ho hi hr
  exact .plan hio hrun (fun f hf => ⟨(h1 f hf).1, (h1 f hf).2.symm⟩) h2

theorem applyAdvance_ok {plan evidence} (hs : Settled s)
    (h : applyAdvance s actor plan now = .ok s') :
    Applied s actor now (.advance plan evidence) s' := by
  simp only [applyAdvance, bind_eq_ok, throwIf_eq_ok, require_eq_ok, pure_eq_ok] at h
  obtain ⟨_, ho, _, hi, _, hr, current, hc, _, h1, _, h2, rfl⟩ := h
  push Not at h1 h2
  obtain ⟨hio, hrun⟩ := idleOwner_ok hs ho hi hr
  obtain ⟨e1, e2, e3, e4, e5⟩ := h1
  exact .advance hio hrun hc (by simpa using e1) (by simpa using e2) (by simpa using e3) e4 e5 h2.1
    h2.2

theorem applySelect_ok {executor holder handover} (hs : Settled s)
    (h : applySelect s actor executor holder now = .ok s') :
    Applied s actor now (.select executor holder handover) s' := by
  simp only [applySelect, bind_eq_ok, throwIf_eq_ok, require_eq_ok] at h
  obtain ⟨_, ho, _, hi, _, hr, plan, hp, _, h1, h⟩ := h
  push Not at h1
  obtain ⟨e1, e2, e3⟩ := h1
  obtain ⟨hio, hrun⟩ := idleOwner_ok hs ho hi hr
  have hrec : s.recoveryPending = false := by simpa using e1
  cases executor with
  | orchestratorDirect =>
    simp only [pure_eq_ok] at h
    subst h
    exact .selectDirect hio hrun hp hrec (e2 rfl)
  | implementChild =>
    obtain ⟨n1, n2⟩ := e3 (by simp)
    simp only at h
    split_ifs at h with hc
    · simp only [bind_eq_ok, throwIf_eq_ok, pure_eq_ok] at h
      obtain ⟨_, hlt, rfl⟩ := h
      exact .replaceChild hio hrun hp hrec n1 n2 hc (by omega)
    · simp only [pure_eq_ok] at h
      subst h
      exact .selectChild hio hrun hp hrec n1 n2 (by omega)
  | reviewReserved =>
    obtain ⟨n1, n2⟩ := e3 (by simp)
    simp only [bind_eq_ok, throwIf_eq_ok, pure_eq_ok] at h
    obtain ⟨_, hg, rfl⟩ := h
    push Not at hg
    exact .selectReview hio hrun hp hrec n1 n2 hg.1 (by simpa using hg.2.1) hg.2.2

theorem applyBegin_ok {operation} (hs : Settled s) (h : applyBegin s actor operation now = .ok s') :
    Applied s actor now (.begin operation) s' := by
  simp only [applyBegin, bind_eq_ok, throwIf_eq_ok, require_eq_ok, pure_eq_ok] at h
  obtain ⟨_, hw, _, hr, plan, hp, _, h1, rfl⟩ := h
  push Not at h1
  obtain ⟨e1, e2, e3, e4, e5, e6⟩ := h1
  obtain ⟨executor, o, hc, hk, hd⟩ := writer_ok hw
  obtain rfl : o = none := by simpa [hc] using e3
  exact .begin ⟨hs, executor, hc, hk, hd⟩ (runnable_ok hr) hp (by simpa using e1)
    (by simpa using e2) e4 (by simpa using e5) e6

theorem applyFinish_ok {operationId evidence failure candidate} (hs : Settled s)
    (h : applyFinish s actor operationId evidence failure candidate now = .ok s') :
    Applied s actor now (.finish operationId evidence failure candidate) s' := by
  simp only [applyFinish, bind_eq_ok, throwIf_eq_ok, require_eq_ok, pure_eq_ok] at h
  obtain ⟨_, hw, operation, hop, _, h1, _, h2, rfl⟩ := h
  push Not at h1 h2
  obtain ⟨executor, o, hc, hk, hd⟩ := writer_ok hw
  obtain rfl : o = some operationId := by simpa [hc] using h1.2
  exact .finish ⟨hs, executor, hc, hk, hd⟩ hop h1.1 h2

theorem applySettle_ok {evidence inventory} (hs : Settled s)
    (h : applySettle s actor inventory now = .ok s') :
    Applied s actor now (.settle evidence inventory) s' := by
  simp only [applySettle, bind_eq_ok, throwIf_eq_ok, pure_eq_ok] at h
  obtain ⟨_, ho, _, h1, rfl⟩ := h
  push Not at h1
  obtain ⟨e1, e2, e3, e4, e5⟩ := h1
  exact .settle hs (owner_ok ho) e1 (by simpa using e2) (by simpa using e3) e4 e5

theorem applyAttempt_ok {recovery} (hs : Settled s)
    (h : applyAttempt s actor recovery now = .ok s') :
    Applied s actor now (.attempt recovery) s' := by
  simp only [applyAttempt, bind_eq_ok, throwIf_eq_ok, require_eq_ok, pure_eq_ok] at h
  obtain ⟨_, ho, _, hi, _, hr, failure, hf, _, h1, rfl⟩ := h
  push Not at h1
  obtain ⟨hio, hrun⟩ := idleOwner_ok hs ho hi hr
  exact .attempt hio hrun hf h1.1 h1.2.1 h1.2.2

theorem applyResolve_ok {evidence} (hs : Settled s)
    (h : applyResolve s actor evidence now = .ok s') :
    Applied s actor now (.resolve evidence) s' := by
  simp only [applyResolve, bind_eq_ok, throwIf_eq_ok, require_eq_ok, pure_eq_ok, not_not] at h
  obtain ⟨_, ho, _, hi, failure, hf, _, h1, rfl⟩ := h
  exact .resolve ⟨hs, owner_ok ho, (idle_ok hi).1, (idle_ok hi).2⟩ hf h1

theorem applyCandidate_ok {candidateSha mapping} (hs : Settled s)
    (h : applyCandidate s actor candidateSha now = .ok s') :
    Applied s actor now (.candidate candidateSha mapping) s' := by
  simp only [applyCandidate, bind_eq_ok, throwIf_eq_ok, pure_eq_ok] at h
  obtain ⟨_, ho, _, hi, _, hr, _, h1, rfl⟩ := h
  obtain ⟨hio, hrun⟩ := idleOwner_ok hs ho hi hr
  exact .candidate hio hrun h1

theorem applyAccept_ok {kind evidence} (hs : Settled s)
    (h : applyAccept s actor kind evidence now = .ok s') :
    Applied s actor now (.accept kind evidence) s' := by
  simp only [applyAccept, bind_eq_ok, throwIf_eq_ok, require_eq_ok, pure_eq_ok] at h
  obtain ⟨_, ho, _, hi, _, hr, plan, hp, _, h1, _, h2, _, h3, rfl⟩ := h
  push Not at h1 h2 h3
  obtain ⟨hio, hrun⟩ := idleOwner_ok hs ho hi hr
  refine .accept hio hrun hp (by simpa using h1.1) h1.2.1 (by simpa using h1.2.2) ?_ ?_
  · intro hk
    exact ⟨Option.isSome_iff_ne_none.2 (h2 hk).1, Option.isSome_iff_ne_none.2 (h2 hk).2⟩
  · intro hk
    exact Option.isSome_iff_ne_none.2 (h3 hk)

/-- **Inversion**: every accepted command is one of `Applied`, at a time not
    before the last one. -/
theorem transition_applied {command} (h : transition s actor command now = .ok s') :
    s.recordedAt.ms ≤ now.ms ∧ Applied s actor now command s' := by
  simp only [transition, bind_eq_ok, throwIf_eq_ok] at h
  obtain ⟨_, ht, _, h1, _, h2, h⟩ := h
  refine ⟨by omega, ?_⟩
  have hs : command.isRestart = false → command.isRestartIntent = false → Settled s := by
    intro e1 e2
    have hp : s.pendingRestart = none := by simpa [e1] using h1
    exact ⟨hp, by simpa [e2, hp] using h2⟩
  cases command with
  | restart action previous evidence =>
    refine applyRestart_ok ?_ ?_ h
    · intro hp
      cases action <;> simp_all [ExecutionCommand.isRestart]
    · intro hl hp
      cases action <;> simp_all [ExecutionCommand.isRestartIntent]
  | plan => exact applyPlan_ok (hs rfl rfl) h
  | advance => exact applyAdvance_ok (hs rfl rfl) h
  | select => exact applySelect_ok (hs rfl rfl) h
  | begin => exact applyBegin_ok (hs rfl rfl) h
  | finish => exact applyFinish_ok (hs rfl rfl) h
  | settle => exact applySettle_ok (hs rfl rfl) h
  | attempt => exact applyAttempt_ok (hs rfl rfl) h
  | resolve => exact applyResolve_ok (hs rfl rfl) h
  | candidate => exact applyCandidate_ok (hs rfl rfl) h
  | accept => exact applyAccept_ok (hs rfl rfl) h

end PaPlatform.Custody
