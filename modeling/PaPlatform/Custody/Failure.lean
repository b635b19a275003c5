/-
  The original failure.

  A failure is recorded by a failing `finish` and leaves the state only through
  `resolve`, on the evidence of a later success under the same name.
-/
import PaPlatform.Custody.Results

namespace PaPlatform.Custody

open Js Guard Run

variable {s s' : ExecutionState} {actor : ExecutionHolder} {now : Timestamp}
  {c : ExecutionCommand} {e : ExecutionInput} {h : History} {b : ExecutionBinding} {t : Timestamp}
  {f : ExecutionFailure}

/-- The step records `f` as the original failure. -/
def Records (f : ExecutionFailure) (st : Step ExecutionState ExecutionInput) : Prop :=
  (∃ id evidence candidate, st.event.command = .finish id evidence (some f) candidate) ∧
    st.before.originalFailure = none

/-- A step that records a failure is no success under its name. -/
theorem Records.not_success {evidence : SourceVersion} {st : Step ExecutionState ExecutionInput}
    (hr : Records f st) :
    ¬ Succeeds f.check.1 evidence st ∧ ¬ (Steady st ∧ ¬ Fails f.check.1 st) := by
  obtain ⟨⟨id, ev, candidate, hc⟩, -⟩ := hr
  have hfails : Fails f.check.1 st := ⟨id, ev, f, candidate, hc, rfl⟩
  exact ⟨fun hs => hs.not_fails hfails, fun hs => hs.2 hfails⟩

/-! ## One step -/

/-- A recorded failure stays until it is resolved. -/
theorem Applied.keeps_failure (ha : Applied s actor now c s') (hf : s.originalFailure = some f) :
    s'.originalFailure = some f ∨
      ∃ evidence, c = .resolve evidence ∧ s'.originalFailure = none := by
  cases ha with
  | begin => exact Or.inl (by simpa using hf)
  | finish => left; simp [finished, hf]
  | resolve => exact Or.inr ⟨_, rfl, rfl⟩
  | _ => exact Or.inl hf

/-- A new failure comes from a failing `finish`. -/
theorem Applied.new_failure (ha : Applied s actor now c s') (hn : s.originalFailure = none)
    (hf : s'.originalFailure = some f) :
    ∃ id evidence candidate, c = .finish id evidence (some f) candidate := by
  cases ha with
  | begin => simp [hn] at hf
  | @finish id ev failure candidate =>
    obtain rfl : failure = some f := by simpa [finished, hn] using hf
    exact ⟨id, ev, candidate, rfl⟩
  | resolve => simp at hf
  | _ => exact absurd (hf.symm.trans hn) (by simp)

theorem Applied.of_resolve {evidence : SourceVersion}
    (ha : Applied s actor now (.resolve evidence) s') :
    ∃ f, s.originalFailure = some f ∧ s.passOf f.check.1 = some evidence := by
  cases ha with
  | resolve _ hf hp => exact ⟨_, hf, hp⟩

/-- What no command may do while a failure is recorded. -/
structure Confined (s : ExecutionState) (f : ExecutionFailure) (c : ExecutionCommand) : Prop where
  advance : ∀ plan evidence, c ≠ .advance plan evidence
  accept : ∀ kind evidence, c ≠ .accept kind evidence
  plan : ∀ plan, c = .plan plan → f.check.1 ∈ plan.checkNames ∧
    s.plan.map (·.phaseId) = some plan.phaseId

theorem Applied.confined (ha : Applied s actor now c s') (hf : s.originalFailure = some f) :
    Confined s f c := by
  cases ha with
  | plan _ _ hp =>
    refine ⟨by simp, by simp, ?_⟩
    rintro _ heq
    cases heq
    exact hp f hf
  | advance _ _ _ hn => simp [hn] at hf
  | accept _ _ _ hn => simp [hn] at hf
  | _ => exact ⟨by simp, by simp, by simp⟩

/-! ## Runs -/

/-- A recorded failure was recorded by a failing `finish` and stood ever since. -/
theorem since_recorded (hr : Lineage b t h s) (hf : s.originalFailure = some f) :
    Since (Records f) (fun st => st.after.originalFailure = some f) h := by
  revert f
  refine hr.invariant (P := fun h s => ∀ {f}, s.originalFailure = some f →
    Since (Records f) (fun st => st.after.originalFailure = some f) h) (by simp [initialState]) ?_
  intro h s e s' _ ih hs f hf
  have ha := step_applied hs
  cases hb : s.originalFailure with
  | none => exact since_self ⟨ha.new_failure hb hf, hb⟩
  | some g =>
    rcases ha.keeps_failure hb with hk | ⟨_, -, hk⟩
    · obtain rfl : g = f := by simpa [hk] using hf
      exact (ih hb).snoc hf
    · simp [hk] at hf

/-- The evidence on which a failure can be resolved comes from a success under
    its name, recorded after the failure and followed only by steady steps. -/
theorem success_after_failure (hr : Lineage b t h s) (hf : s.originalFailure = some f)
    {evidence : SourceVersion} (hp : s.passOf f.check.1 = some evidence) :
    ∃ pre failing mid passing post, h = pre ++ failing :: (mid ++ passing :: post) ∧
      Records f failing ∧ (∀ st ∈ mid ++ passing :: post, st.after.originalFailure = some f) ∧
      Succeeds f.check.1 evidence passing ∧ ∀ st ∈ post, Steady st := by
  have hres : ∃ ofCheck, (s.results ofCheck).get? f.check.1 = some evidence := by
    unfold ExecutionState.passOf at hp
    cases hc : s.passedChecks.get? f.check.1 with
    | some ev =>
      rw [hc] at hp
      exact ⟨true, hc.trans hp⟩
    | none =>
      rw [hc] at hp
      exact ⟨false, hp⟩
  obtain ⟨_, hget⟩ := hres
  obtain ⟨pre, failing, mid, passing, post, heq, h1, h2, h3, h4⟩ :=
    (since_recorded hr hf).after (since_success hr hget) fun _ hrec => hrec.not_success
  exact ⟨pre, failing, mid, passing, post, heq, h1, h3, h2, fun st hst => (h4 st hst).1⟩

/-- **A failure cannot be laundered.**  Through every step it stays what it is
    or is resolved; a `resolve` needs a success under the failed name that came
    after the failure, with only steady steps since; and while the failure
    stands there is no advance, no accept and no plan that drops its check or
    leaves its phase. -/
theorem failure_not_laundered (hr : Lineage b t h s) {pre post : History}
    {st : Step ExecutionState ExecutionInput} (heq : h = pre ++ st :: post) :
    (∀ f, st.before.originalFailure = some f →
      (st.after.originalFailure = some f ∨
        ∃ evidence, st.event.command = .resolve evidence ∧ st.after.originalFailure = none) ∧
      Confined st.before f st.event.command) ∧
    ∀ evidence, st.event.command = .resolve evidence →
      ∃ f, st.before.originalFailure = some f ∧
        ∃ a failing mid passing post, pre = a ++ failing :: (mid ++ passing :: post) ∧
          Records f failing ∧ (∀ st ∈ mid ++ passing :: post, st.after.originalFailure = some f) ∧
          Succeeds f.check.1 evidence passing ∧ ∀ st ∈ post, Steady st := by
  subst heq
  obtain ⟨hpre, hs, -⟩ := hr.split
  have ha := step_applied hs
  refine ⟨fun f hf => ⟨ha.keeps_failure hf, ha.confined hf⟩, fun evidence hc => ?_⟩
  rw [hc] at ha
  obtain ⟨f, hf, hp⟩ := ha.of_resolve
  exact ⟨f, hf, success_after_failure hpre hf hp⟩

/-- `opened`, then the check fails, passes when begun again, and resolves the
    failure. -/
def Sample.resolved : List ExecutionInput :=
  let failure : ExecutionFailure :=
    ⟨Sample.lint.check.get Sample.lint_check, ⟨"make lint", Sample.command_ok⟩, ⟨1, Sample.exitCode_ok⟩, Sample.headSha,
      Sample.source⟩
  let settle : ExecutionInput := Sample.event (.settle Sample.source
    ⟨Sample.binding.branch, Sample.headSha, "", Sample.sha, [], Sample.source⟩)
  let again : ExecutionOperation := { Sample.lint with id := ⟨"op-2", by decide⟩ }
  Sample.opened ++ [Sample.event (.finish Sample.lint.id Sample.source (some failure) none), settle,
    Sample.event (.attempt ⟨Sample.source, none, none, none, failure⟩),
    Sample.event (.select .orchestratorDirect Sample.launcher Sample.source),
    Sample.event (.begin again), Sample.event (.finish again.id Sample.source none none), settle,
    Sample.event (.resolve Sample.source)]

theorem failure_not_laundered_resolved :
    ∃ h s pre st, Lineage Sample.binding Sample.start h s ∧ h.map (·.event) = Sample.resolved ∧
      h = pre ++ [st] ∧ ∃ f, st.before.originalFailure = some f ∧
        ∃ a failing mid passing post, pre = a ++ failing :: (mid ++ passing :: post) ∧
          Records f failing ∧ Succeeds f.check.1 Sample.source passing := by
  obtain ⟨h, s, hr, hm⟩ := lineage_of_isOk Sample.binding Sample.start Sample.resolved (by decide)
  rcases h.eq_nil_or_concat with rfl | ⟨pre, st, rfl⟩
  · simp [Sample.resolved] at hm
  rw [List.concat_eq_append] at hr hm
  have hc : st.event.command = .resolve Sample.source := by
    have hlast := congrArg List.getLast? hm
    simp [Sample.resolved, Sample.event] at hlast
    rw [hlast]
  obtain ⟨f, hf, a, failing, mid, passing, post, heq, h1, -, h3, -⟩ :=
    (failure_not_laundered hr rfl).2 _ hc
  exact ⟨_, s, pre, st, hr, hm, rfl, f, hf, a, failing, mid, passing, post, heq, h1, h3⟩

end PaPlatform.Custody
