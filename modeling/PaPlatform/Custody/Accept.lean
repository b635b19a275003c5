/-
  Acceptance gating.

  `Granted` couples a standing acceptance to the plan, the failure, the
  operation in flight and the passed checks; every command keeps it.
-/
import PaPlatform.Custody.Results

namespace PaPlatform.Custody

open Js Guard Run

variable {s s' : ExecutionState} {actor : ExecutionHolder} {now : Timestamp}
  {c : ExecutionCommand} {e : ExecutionInput} {h : History} {b : ExecutionBinding} {t : Timestamp}
  {kind : AcceptanceKind} {evidence : SourceVersion}

/-- What a standing acceptance rests on. -/
structure Granted (s : ExecutionState) : Prop where
  plan : ∃ plan, s.plan = some plan ∧ s.checked plan
  failure : s.originalFailure = none
  operation : ∀ o, s.operation = some o → sourceMutation o.kind = false

/-- The step keeps the plan, the candidate and every passed check. -/
structure KeepsGrounds (s s' : ExecutionState) : Prop where
  plan : s'.plan = s.plan
  candidate : s'.candidateSha = s.candidateSha
  checks : ∀ check, s.passedChecks.hasOwn check = true → s'.passedChecks.hasOwn check = true

theorem KeepsGrounds.checked {plan : PhaseExecutionPlan} (hk : KeepsGrounds s s')
    (hc : s.checked plan) : s'.checked plan := fun check hcheck => hk.checks check (hc check hcheck)

theorem keepsGrounds_of_eq (hp : s'.plan = s.plan) (hc : s'.candidateSha = s.candidateSha)
    (hr : s'.passedChecks = s.passedChecks) : KeepsGrounds s s' := ⟨hp, hc, by simp [hr]⟩

/-! ## One step -/

/-- A finish keeps an acceptance only if it succeeded on the same candidate. -/
theorem finished_acceptance {o : ExecutionOperation} {ev : SourceVersion}
    {failure : Option ExecutionFailure} {candidate : Option GitSha}
    (hk : (finished s o ev failure candidate now).acceptance kind = some evidence) :
    failure = none ∧ s.acceptance kind = some evidence ∧
      KeepsGrounds s (finished s o ev failure candidate now) := by
  simp only [finished] at hk
  split_ifs at hk with hs
  push Not at hs
  obtain ⟨h1, h2, h3⟩ := hs
  obtain rfl : failure = none := by simpa using h1
  refine ⟨rfl, hk, rfl, h3, fun check hc => ?_⟩
  have hm : sourceMutation o.kind = false := by simpa using h2
  cases ho : o.check.isSome with
  | true =>
    have hset := Record.hasOwn_set_of (r := s.passedChecks.spread) (k := o.resultName) (v := ev) hc
    simpa [finished, ho, hm, h3, recordResult] using hset
  | false => simpa [finished, ho, hm, h3] using hc

theorem finished_acceptance_or {o : ExecutionOperation} {ev : SourceVersion}
    {failure : Option ExecutionFailure} {candidate : Option GitSha} :
    (finished s o ev failure candidate now).acceptance = (fun _ => none) ∨
      (finished s o ev failure candidate now).acceptance = s.acceptance := ite_eq_or_eq _ _ _

/-- **An acceptance in the next state** is granted by this command, or stood
    before and rests on the same grounds. -/
theorem Applied.acceptance (ha : Applied s actor now c s') (hk : s'.acceptance kind = some evidence) :
    c = .accept kind evidence ∨ (s.acceptance kind = some evidence ∧ KeepsGrounds s s') := by
  cases ha with
  | plan => simp [ExecutionState.cleared] at hk
  | advance => simp [ExecutionState.cleared] at hk
  | candidate => simp [ExecutionState.cleared] at hk
  | @begin o =>
    cases hm : sourceMutation o.kind with
    | true => simp [begun, hm, ExecutionState.cleared] at hk
    | false =>
      refine Or.inr ⟨by simpa [begun, hm, ExecutionState.tick] using hk, keepsGrounds_of_eq ?_ ?_ ?_⟩ <;>
        simp [begun, hm, ExecutionState.tick]
  | finish =>
    obtain ⟨-, h1, h2⟩ := finished_acceptance hk
    exact Or.inr ⟨h1, h2⟩
  | @accept kind' evidence' =>
    by_cases heq : kind = kind'
    · subst heq
      simp only [Function.update_self, Option.some.injEq] at hk
      exact Or.inl (by rw [hk])
    · simp only [ne_eq, heq, not_false_eq_true, Function.update_of_ne] at hk
      exact Or.inr ⟨hk, keepsGrounds_of_eq rfl rfl rfl⟩
  | _ => exact Or.inr ⟨hk, keepsGrounds_of_eq rfl rfl rfl⟩

/-- A standing acceptance keeps the failure clear and the operation harmless. -/
theorem Applied.granted (ha : Applied s actor now c s') (hg : Granted s)
    (hk : s'.acceptance kind = some evidence) :
    s'.originalFailure = none ∧ ∀ o, s'.operation = some o → sourceMutation o.kind = false := by
  cases ha with
  | @begin o =>
    cases hm : sourceMutation o.kind with
    | true => simp [begun, hm, ExecutionState.cleared] at hk
    | false =>
      refine ⟨by simpa [begun, hm, ExecutionState.tick] using hg.failure, ?_⟩
      intro o' ho'
      obtain rfl : o = o' := by simpa [begun] using ho'
      exact hm
  | finish =>
    obtain ⟨rfl, -, -⟩ := finished_acceptance hk
    exact ⟨by simp [finished, hg.failure], by simp [finished]⟩
  | resolve => exact ⟨rfl, hg.operation⟩
  | _ => exact ⟨hg.failure, hg.operation⟩

/-- The state in which an acceptance is granted. -/
theorem Applied.granted_of_accept (ha : Applied s actor now (.accept kind evidence) s') :
    Granted s' := by
  cases ha with
  | accept hi _ hp hf hc =>
    refine ⟨⟨_, hp, hc⟩, hf, ?_⟩
    intro o ho
    have hn := hi.operation
    simp only [ExecutionState.tick] at ho
    simp [hn] at ho

/-! ## Runs -/

/-- A standing acceptance rests on its grounds. -/
theorem granted (hr : Lineage b t h s) (hk : s.acceptance kind = some evidence) : Granted s := by
  revert kind evidence
  refine hr.invariant (P := fun _ s => ∀ {kind evidence}, s.acceptance kind = some evidence →
    Granted s) (by simp [initialState]) ?_
  intro h s e s' _ ih hs kind evidence hk
  have ha := step_applied hs
  rcases ha.acceptance hk with hc | ⟨hk', hkeep⟩
  · rw [hc] at ha
    exact ha.granted_of_accept
  · have hg := ih hk'
    obtain ⟨h1, h2⟩ := ha.granted hg hk
    obtain ⟨plan, hp, hc⟩ := hg.plan
    exact ⟨⟨plan, hkeep.plan.trans hp, hkeep.checked hc⟩, h1, h2⟩

/-- The order of the acceptances. -/
structure Ordered (s : ExecutionState) : Prop where
  uat : (s.acceptance .uat).isSome → (s.acceptance .review).isSome ∧ (s.acceptance .ci).isSome
  integration : (s.acceptance .integration).isSome → (s.acceptance .uat).isSome

theorem Ordered.of_eq (ho : Ordered s) (heq : s'.acceptance = s.acceptance) : Ordered s' :=
  ⟨by rw [heq]; exact ho.uat, by rw [heq]; exact ho.integration⟩

theorem ordered_of_none (hn : s'.acceptance = fun _ => none) : Ordered s' :=
  ⟨by simp [hn], by simp [hn]⟩

theorem isSome_update {f : AcceptanceKind → Option SourceVersion} {k l : AcceptanceKind}
    {ev : SourceVersion} : (Function.update f k (some ev) l).isSome ↔ l = k ∨ (f l).isSome := by
  by_cases hl : l = k
  · subst hl; simp
  · simp [hl]

theorem Applied.ordered (ha : Applied s actor now c s') (ho : Ordered s) : Ordered s' := by
  cases ha with
  | plan => exact ordered_of_none rfl
  | advance => exact ordered_of_none rfl
  | candidate => exact ordered_of_none rfl
  | @begin o =>
    cases hm : sourceMutation o.kind with
    | true => exact ordered_of_none (by simp [begun, hm, ExecutionState.cleared])
    | false => exact ho.of_eq (by simp [begun, hm, ExecutionState.tick])
  | finish =>
    rcases finished_acceptance_or with heq | heq
    · exact ordered_of_none heq
    · exact ho.of_eq heq
  | accept _ _ _ _ _ _ h1 h2 =>
    constructor
    · simp only [isSome_update]
      rintro (rfl | hu)
      · exact ⟨Or.inr (h1 (Or.inl rfl)).1, Or.inr (h1 (Or.inl rfl)).2⟩
      · exact ⟨Or.inr (ho.uat hu).1, Or.inr (ho.uat hu).2⟩
    · simp only [isSome_update]
      rintro (rfl | hi)
      · exact Or.inr (h2 rfl)
      · exact Or.inr (ho.integration hi)
  | _ => exact ho.of_eq rfl

theorem ordered (hr : Lineage b t h s) : Ordered s :=
  hr.invariant (P := fun _ s => Ordered s) (ordered_of_none rfl) fun _ _ _ _ _ ho hs =>
    (step_applied hs).ordered ho

/-- An acceptance was granted by an `accept`, and every step since kept its
    grounds. -/
theorem since_accept (hr : Lineage b t h s) (hk : s.acceptance kind = some evidence) :
    Since (fun st => st.event.command = .accept kind evidence)
      (fun st => KeepsGrounds st.before st.after) h := by
  revert kind evidence
  refine hr.invariant (P := fun h s => ∀ {kind evidence}, s.acceptance kind = some evidence →
    Since (fun st => st.event.command = .accept kind evidence)
      (fun st => KeepsGrounds st.before st.after) h) (by simp [initialState]) ?_
  intro h s e s' _ ih hs kind evidence hk
  rcases (step_applied hs).acceptance hk with hc | ⟨hk', hkeep⟩
  · exact since_self hc
  · exact (ih hk').snoc hkeep

/-- **Acceptance gating.**  A state with an acceptance has a plan whose checks
    have all passed, no failure, and at most a check or a feature update in
    flight; the acceptances stand in their order; and each was granted by an
    `accept` whose grounds every later step kept. -/
theorem acceptance_gated (hr : Lineage b t h s) :
    ((∃ kind, (s.acceptance kind).isSome) →
      (∃ plan, s.plan = some plan ∧
        ∀ check ∈ plan.checkNames, s.passedChecks.hasOwn check = true) ∧
      s.originalFailure = none ∧
      ∀ o, s.operation = some o → o.kind = .check ∨ o.kind = .featureUpdate) ∧
    ((s.acceptance .integration).isSome → (s.acceptance .uat).isSome) ∧
    ((s.acceptance .uat).isSome → (s.acceptance .review).isSome ∧ (s.acceptance .ci).isSome) ∧
    ∀ kind evidence, s.acceptance kind = some evidence →
      Since (fun st => st.event.command = .accept kind evidence)
        (fun st => KeepsGrounds st.before st.after) h := by
  refine ⟨?_, (ordered hr).integration, (ordered hr).uat, fun kind evidence => since_accept hr⟩
  rintro ⟨kind, hk⟩
  obtain ⟨evidence, hk⟩ := Option.isSome_iff_exists.1 hk
  obtain ⟨hp, hf, ho⟩ := granted hr hk
  refine ⟨hp, hf, fun o h => ?_⟩
  have hm := ho o h
  cases hkind : o.kind <;> simp_all [sourceMutation]

/-- `passed`, then the custody is settled and the review accepted. -/
def Sample.accepted : List ExecutionInput :=
  Sample.passed ++ [Sample.event (.settle Sample.source
      ⟨Sample.binding.branch, Sample.headSha, "", Sample.sha, [], Sample.source⟩),
    Sample.event (.accept .review Sample.source)]

theorem acceptance_gated_accepted :
    ∃ h s, Lineage Sample.binding Sample.start h s ∧ h.map (·.event) = Sample.accepted ∧
      ∃ plan, s.plan = some plan ∧ ∀ check ∈ plan.checkNames, s.passedChecks.hasOwn check = true := by
  have hrun : ∃ s, exec step (initialState Sample.binding Sample.start) Sample.accepted = .ok s ∧
      (s.acceptance .review).isSome = true := ⟨_, rfl, rfl⟩
  obtain ⟨s, hs, hk⟩ := hrun
  obtain ⟨h, hr, hm⟩ := reaches_of_exec hs
  exact ⟨h, s, hr, hm, ((acceptance_gated hr).1 ⟨.review, hk⟩).1⟩

end PaPlatform.Custody
