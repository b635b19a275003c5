/-
  The recorded results of operations.

  An entry of `passedChecks` or `actionPasses` is put there by a successful
  `finish` and survives only steps that are `Steady` and do not fail under the
  same name.
-/
import PaPlatform.Custody.InFlight

namespace PaPlatform.Custody

open Js Guard Run

variable {s s' : ExecutionState} {actor : ExecutionHolder} {now : Timestamp}
  {c : ExecutionCommand} {e : ExecutionInput} {h : History} {b : ExecutionBinding} {t : Timestamp}
  {name : String} {evidence : SourceVersion}

/-- The command begins a write, an edit, a shell command or a launch. -/
def ExecutionCommand.mutates (c : ExecutionCommand) : Bool :=
  c.begins.any fun o => sourceMutation o.kind

/-- The command is a plan or an advance. -/
def ExecutionCommand.replans : ExecutionCommand → Bool
  | .plan _ => true
  | .advance _ _ => true
  | _ => false

/-- The step keeps the candidate, begins no source mutation and applies no
    plan. -/
structure Steady (st : Step ExecutionState ExecutionInput) : Prop where
  candidate : st.after.candidateSha = st.before.candidateSha
  mutates : st.event.command.mutates = false
  replans : st.event.command.replans = false

/-- The step finishes an operation under the given name with success. -/
def Succeeds (name : String) (evidence : SourceVersion) (st : Step ExecutionState ExecutionInput) :
    Prop :=
  ∃ o candidate, st.event.command = .finish o.id evidence none candidate ∧
    st.before.operation = some o ∧ o.resultName = name

/-- The step finishes an operation with a failure under the given name. -/
def Fails (name : String) (st : Step ExecutionState ExecutionInput) : Prop :=
  ∃ id ev f candidate, st.event.command = .finish id ev (some f) candidate ∧ f.check.1 = name

theorem Succeeds.not_fails {st : Step ExecutionState ExecutionInput} (hs : Succeeds name evidence st) : ¬ Fails name st := by
  obtain ⟨_, _, h1, -⟩ := hs
  rintro ⟨_, _, _, _, h2, -⟩
  simp [h1] at h2

/-! ## Names of results -/

theorem resultName_check {o : ExecutionOperation} {check : Text} (h : o.check = some check) :
    o.resultName = check.1 := by
  simp [ExecutionOperation.resultName, h]

theorem resultName_other {o : ExecutionOperation} (h : o.check = none) :
    startsWith o.resultName operationPrefix = true := by
  simp [ExecutionOperation.resultName, h, startsWith_append]

/-- No check of a plan is named like another kind of operation. -/
theorem checkNames_plain {plan : PhaseExecutionPlan} (h : name ∈ plan.checkNames) :
    startsWith name operationPrefix = false := by
  simp only [PhaseExecutionPlan.checkNames, List.mem_map] at h
  obtain ⟨⟨n, hn⟩, -, rfl⟩ := h
  simp only [checkNameOk, Bool.and_eq_true] at hn
  simpa using hn.2

/-- The prefix `@operation:` tells an operation's name from a check's. -/
theorem startsWith_resultName (hr : Lineage b t h s) {o : ExecutionOperation}
    (ho : s.operation = some o) : startsWith o.resultName operationPrefix = !o.check.isSome := by
  revert o
  refine hr.invariant (P := fun _ s => ∀ {o}, s.operation = some o →
    startsWith o.resultName operationPrefix = !o.check.isSome) (by simp [initialState]) ?_
  intro h s e s' _ ih hs o ho
  have ha := step_applied hs
  cases hb : e.command.begins with
  | some o' =>
    rw [begins_eq_some] at hb
    rw [hb] at ha
    obtain ⟨-, ho', -⟩ := ha.of_begin
    obtain rfl : o' = o := by simpa [ho'] using ho
    cases hc : o'.check with
    | none => simpa using resultName_other hc
    | some check =>
      cases ha with
      | begin _ _ _ _ _ _ _ hcheck =>
        simpa [resultName_check hc] using checkNames_plain (hcheck check hc)
  | none =>
    cases hf : e.command.finishes with
    | some id =>
      obtain ⟨_, _, _, hc⟩ := finishes_eq_some.1 hf
      rw [hc] at ha
      obtain ⟨_, -, -, -, hn⟩ := ha.of_finish
      simp [hn] at ho
    | none => exact ih ((ha.keeps_operation hb hf).1 ▸ ho)

/-! ## One step -/

/-- The two result maps: of checks, and of other operations. -/
def ExecutionState.results (s : ExecutionState) (ofCheck : Bool) : Record SourceVersion :=
  bif ofCheck then s.passedChecks else s.actionPasses

variable {ofCheck : Bool}

theorem recordResult_get? {r : Record SourceVersion} {n : String} {ev : SourceVersion}
    {failure : Option ExecutionFailure} {stale : Prop} [Decidable stale]
    (hp : (recordResult (if stale then ∅ else r.spread) n ev failure).get? name = some evidence) :
    (failure = none ∧ name = n ∧ ev = evidence) ∨
      (¬ stale ∧ r.get? name = some evidence ∧ (failure.isSome → name ≠ n)) := by
  cases failure with
  | none =>
    simp only [recordResult, Record.get?_set_eq_some] at hp
    rcases hp with ⟨hn, he⟩ | ⟨-, hp⟩
    · exact Or.inl ⟨rfl, hn, he⟩
    · split_ifs at hp with hs
      · simp at hp
      · exact Or.inr ⟨hs, Record.get?_of_spread hp, by simp⟩
  | some f =>
    simp only [recordResult] at hp
    split_ifs at hp with hs
    · have := (Record.get?_of_delete hp).1
      simp at this
    · obtain ⟨hg, hne⟩ := Record.get?_of_delete_spread hp
      exact Or.inr ⟨hs, hg, fun _ => hne⟩

theorem finished_results {o : ExecutionOperation} {ev : SourceVersion}
    {failure : Option ExecutionFailure} {candidate : Option GitSha}
    (hp : ((finished s o ev failure candidate now).results ofCheck).get? name = some evidence) :
    (failure = none ∧ name = o.resultName ∧ ev = evidence ∧ o.check.isSome = ofCheck) ∨
      (candidate.getD s.candidateSha = s.candidateSha ∧ (s.results ofCheck).get? name = some evidence ∧
        (failure.isSome → o.check.isSome = ofCheck → name ≠ o.resultName)) := by
  have key : ∀ {r : Record SourceVersion},
      (if sourceMutation o.kind = true ∨ candidate.getD s.candidateSha ≠ s.candidateSha
        then ∅ else r.spread).get? name = some evidence →
      candidate.getD s.candidateSha = s.candidateSha ∧ r.get? name = some evidence := by
    intro r hr
    split_ifs at hr with hs
    · simp at hr
    · push Not at hs
      exact ⟨hs.2, Record.get?_of_spread hr⟩
  cases ofCheck <;> cases ho : o.check.isSome <;>
    simp only [ExecutionState.results, finished, ho, cond_true, cond_false, if_true, if_false,
      Bool.false_eq_true] at hp ⊢
  case false.true => exact Or.inr ⟨(key hp).1, (key hp).2, by simp⟩
  case true.false => exact Or.inr ⟨(key hp).1, (key hp).2, by simp⟩
  all_goals
    rcases recordResult_get? hp with ⟨h1, h2, h3⟩ | ⟨h1, h2, h3⟩
    · exact Or.inl ⟨h1, h2, h3, trivial⟩
    · push Not at h1
      exact Or.inr ⟨h1.2, h2, fun hf _ => h3 hf⟩

/-- **An entry of a result map** is new after a success, and otherwise was
    there before a steady step that did not fail under its name. -/
theorem Applied.results (ha : Applied s actor now c s')
    (hp : (s'.results ofCheck).get? name = some evidence) :
    (∃ o candidate, c = .finish o.id evidence none candidate ∧ s.operation = some o ∧
      o.resultName = name ∧ o.check.isSome = ofCheck) ∨
    ((s.results ofCheck).get? name = some evidence ∧ Steady ⟨s, ⟨actor, c, now⟩, s'⟩ ∧
      ∀ id ev f candidate o, c = .finish id ev (some f) candidate → s.operation = some o →
        o.check.isSome = ofCheck → name ≠ o.resultName) := by
  cases ha with
  | plan => cases ofCheck <;> simp [ExecutionState.results, ExecutionState.cleared] at hp
  | advance => cases ofCheck <;> simp [ExecutionState.results, ExecutionState.cleared] at hp
  | candidate => cases ofCheck <;> simp [ExecutionState.results, ExecutionState.cleared] at hp
  | @begin o =>
    right
    cases hm : sourceMutation o.kind with
    | true =>
      cases ofCheck <;>
        simp [ExecutionState.results, begun, hm, ExecutionState.cleared] at hp
    | false =>
      refine ⟨?_, ⟨?_, ?_, rfl⟩, by simp⟩
      · simpa [ExecutionState.results, begun, hm, ExecutionState.tick] using hp
      · simp [begun, hm, ExecutionState.tick]
      · simpa [ExecutionCommand.mutates, ExecutionCommand.begins] using hm
  | @finish id ev failure candidate o hw ho hid =>
    subst hid
    rcases finished_results hp with ⟨rfl, rfl, rfl, hk⟩ | ⟨hcand, hget, hne⟩
    · exact Or.inl ⟨o, candidate, rfl, ho, rfl, hk⟩
    · refine Or.inr ⟨hget, ⟨hcand, rfl, rfl⟩, ?_⟩
      rintro _ _ f _ o' heq ho' hk
      obtain rfl : o = o' := by simpa [ho] using ho'
      cases heq
      exact hne rfl hk
  | _ => exact Or.inr ⟨hp, ⟨rfl, rfl, rfl⟩, by simp⟩

/-! ## Runs -/

theorem startsWith_results (hr : Lineage b t h s)
    (hp : (s.results ofCheck).get? name = some evidence) :
    startsWith name operationPrefix = !ofCheck := by
  revert name evidence
  refine hr.invariant (P := fun _ s => ∀ {name evidence},
    (s.results ofCheck).get? name = some evidence → startsWith name operationPrefix = !ofCheck) ?_ ?_
  · intro name evidence hp
    cases ofCheck <;> simp [ExecutionState.results, initialState] at hp
  · intro h s e s' hr ih hs name evidence hp
    rcases (step_applied hs).results hp with ⟨o, _, -, ho, rfl, rfl⟩ | ⟨hp, -⟩
    · exact startsWith_resultName hr ho
    · exact ih hp

/-- **Every entry of a result map comes from a success**, followed only by
    steady steps that do not fail under its name. -/
theorem since_success (hr : Lineage b t h s)
    (hp : (s.results ofCheck).get? name = some evidence) :
    Since (Succeeds name evidence) (fun st => Steady st ∧ ¬ Fails name st) h := by
  revert name evidence
  refine hr.invariant (P := fun h s => ∀ {name evidence},
    (s.results ofCheck).get? name = some evidence →
    Since (Succeeds name evidence) (fun st => Steady st ∧ ¬ Fails name st) h) ?_ ?_
  · intro name evidence hp
    cases ofCheck <;> simp [ExecutionState.results, initialState] at hp
  · intro h s e s' hr ih hs name evidence hp
    have ha := step_applied hs
    rcases ha.results hp with ⟨o, candidate, hc, ho, hn, -⟩ | ⟨hp', hst, hne⟩
    · exact since_self ⟨o, candidate, hc, ho, hn⟩
    · refine (ih hp').snoc ⟨hst, ?_⟩
      rintro ⟨id, ev, f, candidate, hc, rfl⟩
      have ha' := ha
      rw [hc] at ha'
      cases ha' with
      | @finish _ _ _ _ o _ ho _ hf =>
        have hname := (hf f rfl).2
        have h1 := startsWith_results hr hp'
        have h2 := startsWith_resultName hr ho
        have hk : o.check.isSome = ofCheck := by
          rw [hname, h2] at h1
          exact Bool.not_inj h1
        exact hne _ _ _ _ o hc ho hk hname

end PaPlatform.Custody
