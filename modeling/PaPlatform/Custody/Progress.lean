/-
  Evidence that counts as progress.

  The diagnostics and the remedies of the attempts are remembered in two lists,
  and a digest is new if it is not in the list of its own role.  A digest is
  therefore credited once in each role: once in all exactly if no digest comes
  up in both.
-/
import PaPlatform.Custody.Replay

namespace PaPlatform.Custody

open Js Guard Run

variable {s s' : ExecutionState} {actor : ExecutionHolder} {now : Timestamp}
  {c : ExecutionCommand} {e : ExecutionInput} {h : History} {b : ExecutionBinding} {t : Timestamp}
  {st st' : Step ExecutionState ExecutionInput}

/-- The two kinds of evidence that an attempt can submit. -/
inductive EvidenceRole where
  | diagnostic
  | remedy
  deriving DecidableEq

variable {role role' : EvidenceRole} {d : Sha256}

/-- The digest that an attempt submits in a role. -/
def ExecutionCommand.submits (role : EvidenceRole) : ExecutionCommand → Option Sha256
  | .attempt r =>
    match role with
    | .diagnostic => r.diagnostic.map (·.sha256)
    | .remedy => r.remedy.map (·.sha256)
  | _ => none

/-- The attempt has a rationale. -/
def ExecutionCommand.explained : ExecutionCommand → Bool
  | .attempt r => r.rationale.isSome
  | _ => false

/-- The digests remembered in a role. -/
def ExecutionState.seen (s : ExecutionState) : EvidenceRole → List Sha256
  | .diagnostic => s.diagnosticDigests
  | .remedy => s.remedyDigests

/-- The digest of the output of the original failure. -/
def ExecutionState.output (s : ExecutionState) : Option Sha256 :=
  s.originalFailure.map (·.output.sha256)

/-- **The step is credited** with progress because of the digest `d`. -/
structure Credits (st : Step ExecutionState ExecutionInput) (role : EvidenceRole) (d : Sha256) :
    Prop where
  explained : st.event.command.explained = true
  submits : st.event.command.submits role = some d
  unseen : d ∉ st.before.seen role
  other : role = .diagnostic → st.before.output ≠ some d

/-- Each digest is credited to one step at most, and that of the original
    failure's own output to none. -/
structure EvidenceOnce (h : History) : Prop where
  once : ∀ pre st mid st' post role role' d, h = pre ++ st :: (mid ++ st' :: post) →
    Credits st role d → ¬ Credits st' role' d
  output : ∀ st ∈ h, ∀ role d, Credits st role d → st.before.output ≠ some d

/-- After `pre`, the step submits `d` in a role for the first time: with a
    rationale, and not the failure's own output for a diagnostic of it. -/
structure Opens (pre : History) (st : Step ExecutionState ExecutionInput) (role : EvidenceRole)
    (d : Sha256) : Prop where
  explained : st.event.command.explained = true
  submits : st.event.command.submits role = some d
  first : ∀ x ∈ pre, x.event.command.submits role ≠ some d
  other : role = .diagnostic → st.before.output ≠ some d

/-- No digest comes up in both roles in different attempts, and no failure's
    output as its remedy. -/
structure RolesApart (h : History) : Prop where
  apart : ∀ pre st mid st' post role role' d, h = pre ++ st :: (mid ++ st' :: post) → role ≠ role' →
    Opens pre st role d → ¬ Opens (pre ++ st :: mid) st' role' d
  output : ∀ pre st post d, h = pre ++ st :: post → Opens pre st .remedy d → st.before.output ≠ some d

/-! ## One step -/

/-- What an attempt submits is remembered. -/
theorem Applied.seen (ha : Applied s actor now c s') (role : EvidenceRole) :
    s'.seen role = s.seen role ++ (c.submits role).toList := by
  cases ha with
  | attempt => cases role <;> rfl
  | begin =>
    show _ = s.seen role ++ []
    rw [List.append_nil]
    unfold begun
    cases role <;> split <;> rfl
  | _ => exact (List.append_nil _).symm

theorem progress_iff {failure : ExecutionFailure} {recovery : ExecutionRecovery}
    (hf : s.originalFailure = some failure) : progress s failure recovery = true ↔
      ∃ role d, Credits ⟨s, ⟨actor, .attempt recovery, now⟩, s'⟩ role d := by
  have hout : ∀ d, s.output ≠ some d ↔ d ≠ failure.output.sha256 := by
    intro d
    simp only [ExecutionState.output, hf, Option.map_some, ne_eq, Option.some.injEq]
    exact not_congr eq_comm
  unfold progress
  rw [Bool.and_eq_true, Bool.or_eq_true, Option.any_eq_true, Option.any_eq_true]
  simp only [decide_eq_true_eq]
  constructor
  · rintro ⟨⟨x, hx, hnew, hne⟩ | ⟨x, hx, hnew⟩, hr⟩
    · refine ⟨.diagnostic, x.sha256, hr, ?_, hnew, fun _ => (hout _).2 hne⟩
      simp only [ExecutionCommand.submits, hx, Option.map_some]
    · refine ⟨.remedy, x.sha256, hr, ?_, hnew, fun hrole => by cases hrole⟩
      simp only [ExecutionCommand.submits, hx, Option.map_some]
  · rintro ⟨role, d, hr, hsub, hnew, hne⟩
    refine ⟨?_, hr⟩
    cases role with
    | diagnostic =>
      obtain ⟨x, hx, rfl⟩ := Option.map_eq_some_iff.1 hsub
      exact Or.inl ⟨x, hx, hnew, (hout _).1 (hne rfl)⟩
    | remedy =>
      obtain ⟨x, hx, rfl⟩ := Option.map_eq_some_iff.1 hsub
      exact Or.inr ⟨x, hx, hnew⟩

/-- **An attempt resets the count exactly if it is credited with a digest.** -/
theorem Applied.resets_iff {recovery : ExecutionRecovery}
    (ha : Applied s actor now (.attempt recovery) s') :
    s'.bounds.consecutiveNoProgress = 0 ↔
      ∃ role d, Credits ⟨s, ⟨actor, .attempt recovery, now⟩, s'⟩ role d := by
  cases ha with
  | @attempt _ failure _ _ hf =>
    refine Iff.trans ?_ (progress_iff hf)
    show (if progress s failure recovery then 0 else s.bounds.consecutiveNoProgress + 1) = 0 ↔ _
    by_cases hp : progress s failure recovery = true
    · rw [if_pos hp]
      exact ⟨fun _ => hp, fun _ => rfl⟩
    · rw [if_neg hp]
      exact ⟨fun h => absurd h (Nat.succ_ne_zero _), fun h => absurd h hp⟩

/-! ## Runs -/

/-- The remembered digests are the submitted ones. -/
theorem mem_seen (hr : Lineage b t h s) :
    d ∈ s.seen role ↔ ∃ st ∈ h, st.event.command.submits role = some d := by
  refine hr.invariant (P := fun h s => d ∈ s.seen role ↔ ∃ st ∈ h, st.event.command.submits role = some d)
    ?_ ?_
  · cases role <;> simp [initialState, ExecutionState.seen]
  · intro h s e s' _ ih hs
    rw [(step_applied hs).seen role, List.mem_append, ih, Option.mem_toList]
    simp only [List.mem_append, List.mem_singleton, or_and_right, exists_or, exists_eq_left]

/-- A step is credited where it submits a digest for the first time. -/
theorem credits_iff_opens (hr : Lineage b t h s) {pre post : History} (heq : h = pre ++ st :: post) :
    Credits st role d ↔ Opens pre st role d := by
  subst heq
  obtain ⟨hpre, -, -⟩ := hr.split
  have hseen : d ∉ st.before.seen role ↔ ∀ x ∈ pre, x.event.command.submits role ≠ some d := by
    rw [mem_seen hpre]
    push Not
    rfl
  constructor
  · rintro ⟨h1, h2, h3, h4⟩
    exact ⟨h1, h2, hseen.1 h3, h4⟩
  · rintro ⟨h1, h2, h3, h4⟩
    exact ⟨h1, h2, hseen.2 h3, h4⟩

/-- **Evidence is credited once exactly as long as** the roles stay apart. -/
theorem evidence_once_iff (hr : Lineage b t h s) : EvidenceOnce h ↔ RolesApart h := by
  have hassoc : ∀ (pre : History) st mid (st' : Step ExecutionState ExecutionInput) post,
      pre ++ st :: (mid ++ st' :: post) = (pre ++ st :: mid) ++ st' :: post := by
    intro pre st mid st' post
    rw [List.append_assoc, List.cons_append]
  constructor
  · intro ho
    constructor
    · intro pre st mid st' post role role' d heq _ h1 h2
      exact ho.once pre st mid st' post role role' d heq ((credits_iff_opens hr heq).2 h1)
        ((credits_iff_opens hr (heq.trans (hassoc ..))).2 h2)
    · intro pre st post d heq h1
      exact ho.output st (by rw [heq]; simp) .remedy d ((credits_iff_opens hr heq).2 h1)
  · intro ha
    constructor
    · intro pre st mid st' post role role' d heq h1 h2
      have hopen := (credits_iff_opens hr heq).1 h1
      have hopen' := (credits_iff_opens hr (heq.trans (hassoc ..))).1 h2
      by_cases hrole : role = role'
      · subst hrole
        exact hopen'.first st (by simp) hopen.submits
      · exact ha.apart pre st mid st' post role role' d heq hrole hopen hopen'
    · intro st hst role d h1
      cases role with
      | diagnostic => exact h1.other rfl
      | remedy =>
        obtain ⟨pre, post, heq⟩ := List.append_of_mem hst
        exact ha.output pre st post d heq ((credits_iff_opens hr heq).1 h1)

namespace Sample

def otherSource : SourceVersion :=
  ⟨⟨"diagnostic", by decide⟩, ⟨"v1", version_ok⟩, ⟨String.ofList (List.replicate 64 '1'), by decide⟩⟩

def failure : ExecutionFailure :=
  ⟨lint.check.get lint_check, ⟨"make lint", command_ok⟩, ⟨1, exitCode_ok⟩, headSha, source⟩

/-- An attempt with a rationale. -/
def attempt (diagnostic remedy : Option SourceVersion) : ExecutionInput :=
  event (.attempt ⟨source, diagnostic, remedy, some ⟨"because", by decide⟩, failure⟩)

/-- `opened`, then the check fails and a diagnostic is found. -/
def diagnosed : List ExecutionInput :=
  opened ++ [event (.finish lint.id source (some failure) none),
    event (.settle source ⟨binding.branch, headSha, "", sha, [], source⟩), attempt (some otherSource) none]

/-- `diagnosed`, then the diagnostic is submitted as a remedy. -/
def relabelled : List ExecutionInput := diagnosed ++ [attempt none (some otherSource)]

end Sample

theorem evidence_once_iff_diagnosed :
    ∃ h s, Lineage Sample.binding Sample.start h s ∧ h.map (·.event) = Sample.diagnosed ∧
      (EvidenceOnce h ↔ RolesApart h) := by
  obtain ⟨h, s, hr, hm⟩ := lineage_of_isOk Sample.binding Sample.start Sample.diagnosed (by decide)
  exact ⟨h, s, hr, hm, evidence_once_iff hr⟩

/-- **The same evidence counts twice**: as a diagnostic, and then as a remedy. -/
theorem credited_twice : ¬ ∀ h s, Lineage Sample.binding Sample.start h s → EvidenceOnce h := by
  intro hall
  have hrun : ∃ s₁ s₂ s₃, exec step (initialState Sample.binding Sample.start)
        (Sample.diagnosed.take 5) = .ok s₁ ∧
      step s₁ (Sample.attempt (some Sample.otherSource) none) = .ok s₂ ∧
      step s₂ (Sample.attempt none (some Sample.otherSource)) = .ok s₃ ∧
      s₁.diagnosticDigests = [] ∧ s₁.output = some Sample.sha ∧ s₂.remedyDigests = [] :=
    ⟨_, _, _, rfl, rfl, rfl, rfl, rfl, rfl⟩
  obtain ⟨s₁, s₂, s₃, hexec, h₂, h₃, hd, hout, hrem⟩ := hrun
  obtain ⟨h, hr, -⟩ := reaches_of_exec hexec
  refine (hall _ _ ((hr.snoc h₂).snoc h₃)).once h
    ⟨s₁, Sample.attempt (some Sample.otherSource) none, s₂⟩ []
    ⟨s₂, Sample.attempt none (some Sample.otherSource), s₃⟩ [] .diagnostic .remedy Sample.otherSource.sha256
    (by simp) ⟨rfl, rfl, ?_, fun _ => ?_⟩ ⟨rfl, rfl, ?_, fun hrole => by cases hrole⟩
  · show Sample.otherSource.sha256 ∉ s₁.diagnosticDigests
    rw [hd]
    simp
  · show s₁.output ≠ _
    rw [hout]
    decide
  · show Sample.otherSource.sha256 ∉ s₂.remedyDigests
    rw [hrem]
    simp

end PaPlatform.Custody
