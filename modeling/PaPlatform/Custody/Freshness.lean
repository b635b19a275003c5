/-
  Passed checks and the current candidate.

  `FreshPass h check evidence` says that the history `h` runs the check to the
  given evidence on the candidate that is still current.  A successful check
  that reports a new candidate breaks it: its own pass is recorded under the
  candidate that it did not run on.
-/
import PaPlatform.Custody.Results

namespace PaPlatform.Custody

open Js Guard Run

variable {s s' : ExecutionState} {actor : ExecutionHolder} {now : Timestamp}
  {c : ExecutionCommand} {e : ExecutionInput} {h : History} {b : ExecutionBinding} {t : Timestamp}
  {st : Step ExecutionState ExecutionInput}

/-- A check operation for `check` was begun and finished with `evidence`, and
    from its begin to the end of the history every step is steady. -/
def FreshPass (h : History) (check : String) (evidence : SourceVersion) : Prop :=
  ∃ pre opening mid closing post o candidate, h = pre ++ opening :: (mid ++ closing :: post) ∧
    opening.event.command = .begin o ∧ o.kind = .check ∧ o.check.map (·.1) = some check ∧
    closing.event.command = .finish o.id evidence none candidate ∧
    ∀ st ∈ opening :: (mid ++ closing :: post), Steady st

/-- Every passed check of the state is about its candidate. -/
def FreshChecks (h : History) (s : ExecutionState) : Prop :=
  ∀ check evidence, s.passedChecks.get? check = some evidence → FreshPass h check evidence

/-- The step is not a successful finish of a check that reports a candidate
    other than the current one. -/
def BindsCurrent (st : Step ExecutionState ExecutionInput) : Prop :=
  ∀ o evidence candidate, st.event.command = .finish o.id evidence none (some candidate) →
    st.before.operation = some o → o.kind = .check → candidate = st.before.candidateSha

/-! ## From the begin of a check -/

/-- While an operation is in flight, only its finish can move the candidate. -/
theorem Applied.steady_of_inFlight (ha : Applied s actor now c s') (hb : c.begins = none)
    (hf : c.finishes = none) (ho : s.operation.isSome) : Steady ⟨s, ⟨actor, c, now⟩, s'⟩ := by
  cases ha with
  | restartLaunch => exact ⟨rfl, rfl, rfl⟩
  | restartIntent => exact ⟨rfl, rfl, rfl⟩
  | restart => exact ⟨rfl, rfl, rfl⟩
  | begin => simp [ExecutionCommand.begins] at hb
  | finish => simp [ExecutionCommand.finishes] at hf
  | settle _ _ _ hn => simp [hn] at ho
  | plan hi => simp [hi.operation] at ho
  | advance hi => simp [hi.operation] at ho
  | selectDirect hi => simp [hi.operation] at ho
  | selectChild hi => simp [hi.operation] at ho
  | replaceChild hi => simp [hi.operation] at ho
  | selectReview hi => simp [hi.operation] at ho
  | attempt hi => simp [hi.operation] at ho
  | resolve hi => simp [hi.operation] at ho
  | candidate hi => simp [hi.operation] at ho
  | accept hi => simp [hi.operation] at ho

theorem Applied.steady_of_begin {o : ExecutionOperation} (ha : Applied s actor now (.begin o) s')
    (hm : sourceMutation o.kind = false) : Steady ⟨s, ⟨actor, .begin o, now⟩, s'⟩ := by
  cases ha with
  | begin =>
    refine ⟨?_, ?_, rfl⟩
    · simp [begun, hm, ExecutionState.tick]
    · simpa [ExecutionCommand.mutates, ExecutionCommand.begins] using hm

/-- Every step since the begin of an operation in flight that does not mutate
    the source is steady. -/
theorem steady_since_begin (hr : Lineage b t h s) {o : ExecutionOperation}
    (ho : s.operation = some o) (hm : sourceMutation o.kind = false) :
    Since (fun st => st.event.command = .begin o ∧ Steady st) Steady h := by
  revert o
  refine hr.invariant (P := fun h s => ∀ {o}, s.operation = some o → sourceMutation o.kind = false →
    Since (fun st => st.event.command = .begin o ∧ Steady st) Steady h) (by simp [initialState]) ?_
  intro h s e s' _ ih hs o ho hm
  have ha := step_applied hs
  cases hb : e.command.begins with
  | some o' =>
    rw [begins_eq_some] at hb
    have ha' := ha
    rw [hb] at ha'
    obtain ⟨-, ho', -⟩ := ha'.of_begin
    obtain rfl : o' = o := by simpa [ho'] using ho
    obtain ⟨h1, h2, h3⟩ := ha'.steady_of_begin hm
    exact since_self ⟨hb, h1, by rw [hb]; exact h2, by rw [hb]; exact h3⟩
  | none =>
    cases hf : e.command.finishes with
    | some id =>
      obtain ⟨_, _, _, hc⟩ := finishes_eq_some.1 hf
      rw [hc] at ha
      obtain ⟨_, -, -, -, hn⟩ := ha.of_finish
      simp [hn] at ho
    | none =>
      have hop := (ha.keeps_operation hb hf).1
      rw [hop] at ho
      exact (ih ho hm).snoc (ha.steady_of_inFlight hb hf (by simp [ho]))

theorem FreshPass.snoc {check evidence} (hp : FreshPass h check evidence) (hs : Steady st) :
    FreshPass (h ++ [st]) check evidence := by
  obtain ⟨pre, opening, mid, closing, post, o, candidate, rfl, h1, h2, h3, h4, h5⟩ := hp
  refine ⟨pre, opening, mid, closing, post ++ [st], o, candidate, by simp, h1, h2, h3, h4, ?_⟩
  intro x hx
  have hx' : x ∈ (opening :: (mid ++ closing :: post)) ++ [st] := by simpa using hx
  rcases List.mem_append.1 hx' with hx' | hx'
  · exact h5 x hx'
  · rw [List.mem_singleton.1 hx']; exact hs

/-- The last step of a history is steady if a pass is fresh at its end. -/
theorem FreshPass.last_steady {check evidence} (hp : FreshPass (h ++ [st]) check evidence) :
    Steady st := by
  obtain ⟨pre, opening, mid, closing, post, _, _, heq, -, -, -, -, hall⟩ := hp
  have hlast := congrArg List.getLast? heq
  rw [List.getLast?_concat, List.getLast?_append_of_ne_nil _ (by simp)] at hlast
  exact hall st (List.mem_of_getLast? hlast.symm)

/-! ## The result -/

/-- Runs whose steps bind the current candidate keep the passed checks fresh. -/
theorem freshChecks_of_bindsCurrent (hr : Lineage b t h s) (hc : ∀ st ∈ h, BindsCurrent st) :
    FreshChecks h s := by
  revert hc
  refine hr.invariant (P := fun h s => (∀ st ∈ h, BindsCurrent st) → FreshChecks h s) ?_ ?_
  · intro _ check evidence hp
    simp [initialState] at hp
  · intro h s e s' hr ih hs hc check evidence hp
    have ha := step_applied hs
    have hfresh := ih fun st hst => hc st (by simp [hst])
    have hget : (s'.results true).get? check = some evidence := hp
    rcases ha.results hget with ⟨o, candidate, hcmd, ho, hn, hk⟩ | ⟨hp', hst, -⟩
    · have hkind : o.kind = .check := o.check_iff.2 hk
      obtain ⟨text, htext⟩ := Option.isSome_iff_exists.1 hk
      obtain ⟨pre, opening, mid, rfl, ⟨hb, hbs⟩, hmid⟩ :=
        steady_since_begin hr ho (by simp [sourceMutation, hkind])
      have hbinds := hc ⟨s, e, s'⟩ (by simp)
      have hsteady : Steady ⟨s, e, s'⟩ := by
        refine ⟨?_, by simp [hcmd, ExecutionCommand.mutates, ExecutionCommand.begins],
          by simp [hcmd, ExecutionCommand.replans]⟩
        have ha' := ha
        rw [hcmd] at ha'
        cases ha' with
        | finish =>
          cases candidate with
          | none => rfl
          | some sha => exact hbinds o evidence sha hcmd ho hkind
      refine ⟨pre, opening, mid, ⟨s, e, s'⟩, [], o, candidate, by simp, hb, hkind,
        by rw [htext]; exact congrArg some ((resultName_check htext).symm.trans hn), hcmd, ?_⟩
      intro x hx
      rcases List.mem_cons.1 hx with rfl | hx
      · exact hbs
      · rcases List.mem_append.1 hx with hx | hx
        · exact hmid x hx
        · rw [List.mem_singleton.1 hx]; exact hsteady
    · exact (hfresh check evidence hp').snoc hst

/-- A step that does not bind the current candidate leaves a pass that is not
    fresh. -/
theorem not_freshChecks_of_moved (hs : step st.before st.event = .ok st.after)
    (hm : ¬ BindsCurrent st) : ¬ FreshChecks (h ++ [st]) st.after := by
  intro hfresh
  unfold BindsCurrent at hm
  push Not at hm
  obtain ⟨o, evidence, candidate, hcmd, ho, hkind, hne⟩ := hm
  have ha := step_applied hs
  rw [hcmd] at ha
  generalize hafter : st.after = s' at ha hfresh
  cases ha with
  | @finish _ _ _ _ o' _ ho' =>
    obtain rfl : o = o' := by simpa [ho] using ho'
    have hget : (finished st.before o evidence none (some candidate)
        st.event.recordedAt).passedChecks.get? o.resultName = some evidence := by
      simp [finished, o.check_iff.1 hkind, recordResult, Record.get?_set]
    have hsteady := (hfresh _ _ hget).last_steady.candidate
    rw [hafter] at hsteady
    exact hne hsteady

/-- **Passed checks are about the current candidate exactly as long as** no
    successful check reports another candidate: in every run, every state
    reached along it has fresh checks iff every step binds the current
    candidate. -/
theorem passed_checks_fresh_iff (hr : Lineage b t h s) :
    (∀ pre s', pre <+: h → Lineage b t pre s' → FreshChecks pre s') ↔ ∀ st ∈ h, BindsCurrent st := by
  constructor
  · intro hfresh st hst
    obtain ⟨pre, post, rfl⟩ := List.append_of_mem hst
    obtain ⟨-, hs, hr'⟩ := hr.split
    by_contra hm
    exact not_freshChecks_of_moved hs hm (hfresh _ _ ⟨post, by simp⟩ hr')
  · intro hc pre s' hpre hr'
    exact freshChecks_of_bindsCurrent hr' fun st hst => hc st (hpre.subset hst)

/-- The run `passed` satisfies the condition, so its pass is fresh. -/
theorem passed_checks_fresh_iff_passed :
    ∃ h s, Lineage Sample.binding Sample.start h s ∧ h.map (·.event) = Sample.passed ∧
      ((∀ pre s', pre <+: h → Lineage Sample.binding Sample.start pre s' → FreshChecks pre s') ↔
        ∀ st ∈ h, BindsCurrent st) := by
  obtain ⟨h, s, hr, hm⟩ := lineage_of_isOk Sample.binding Sample.start Sample.passed (by decide)
  exact ⟨h, s, hr, hm, passed_checks_fresh_iff hr⟩

/-- The success of `lint` that reports another candidate. -/
def Sample.moving : ExecutionInput :=
  Sample.event (.finish Sample.lint.id Sample.source none (some Sample.otherSha))

/-- **A pass outlives the candidate it ran on**: after `opened` and `moving` the
    check `lint` counts as passed, on a candidate that no operation checked. -/
theorem pass_on_unchecked_candidate :
    ¬ ∀ h s, Lineage Sample.binding Sample.start h s → FreshChecks h s := by
  intro hall
  have hrun : ∃ s s', exec step (initialState Sample.binding Sample.start) Sample.opened = .ok s ∧
      step s Sample.moving = .ok s' ∧ s.operation = some Sample.lint ∧
      s.candidateSha = Sample.headSha := ⟨_, _, rfl, rfl, rfl, rfl⟩
  obtain ⟨s, s', hopen, hs, hop, hcand⟩ := hrun
  obtain ⟨h, hr, -⟩ := reaches_of_exec hopen
  have hmoved : ¬ BindsCurrent ⟨s, Sample.moving, s'⟩ := by
    intro hbinds
    have heq := hbinds Sample.lint Sample.source Sample.otherSha rfl hop rfl
    rw [hcand] at heq
    exact absurd heq (by decide)
  have hfresh := hall _ _ (hr.snoc hs)
  exact @not_freshChecks_of_moved h ⟨s, Sample.moving, s'⟩ hs hmoved hfresh

end PaPlatform.Custody
