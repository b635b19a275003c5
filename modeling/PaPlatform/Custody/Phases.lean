/-
  Phases and operation ids.

  `usedOperationIds` holds the ids of the operations and the markers of the
  phases and of the selected children.  A phase that was left is never entered
  again; but its marker is its own only as long as no operation is named after
  a phase.
-/
import PaPlatform.Custody.Journal
import PaPlatform.Custody.Bounds

namespace PaPlatform.Custody

open Js Guard Run

variable {s s' : ExecutionState} {actor : ExecutionHolder} {now : Timestamp}
  {c : ExecutionCommand} {e : ExecutionInput} {h : History} {b : ExecutionBinding} {t : Timestamp}
  {phase : Text}

/-- The phase that a command enters or stays in. -/
def ExecutionCommand.enters : ExecutionCommand → Option Text
  | .plan p => some p.phaseId
  | .advance p _ => some p.phaseId
  | _ => none

def ExecutionCommand.advances : ExecutionCommand → Bool
  | .advance _ _ => true
  | _ => false

/-- Some plan or advance of `h` has the phase. -/
def Entered (h : History) (phase : Text) : Prop := ∃ st ∈ h, st.event.command.enters = some phase

/-- Some advance of `h` leaves the phase. -/
def Left (h : History) (phase : Text) : Prop :=
  ∃ st ∈ h, st.event.command.advances = true ∧ st.before.plan.map (·.phaseId) = some phase

/-- The marker of a phase. -/
def markerOf (phase : Text) : String := "phase:" ++ phase.1

/-- The operation does not have the marker of a phase for its id. -/
def ExecutionCommand.Unmarked (c : ExecutionCommand) : Prop :=
  ∀ o, c.begins = some o → ∀ phase, o.id.1 ≠ markerOf phase

/-- **The separation of phases and operations** after the history `h`: no id is
    used twice, a phase that was left is not entered again, and an advance that
    would be accepted if no id were used is refused only if its phase was
    entered. -/
structure PhasesSeparate (h : History) (s : ExecutionState) : Prop where
  distinct : s.usedOperationIds.Nodup
  left : ∀ pre st post phase, h = pre ++ st :: post → st.event.command.enters = some phase →
    ¬ Left pre phase
  fresh : ∀ actor plan evidence now s', step { s with usedOperationIds := [] } ⟨actor, .advance plan evidence, now⟩ = .ok s' →
    (∀ s', step s ⟨actor, .advance plan evidence, now⟩ ≠ .ok s') → Entered h plan.phaseId

/-! ## Markers -/

theorem phaseMarker_eq (plan : PhaseExecutionPlan) : phaseMarker plan = markerOf plan.phaseId := rfl

theorem markerOf_inj {p q : Text} : markerOf p = markerOf q ↔ p = q := by
  constructor
  · intro h
    have hlist := congrArg String.toList h
    simp only [markerOf, String.toList_append, List.append_cancel_left_eq] at hlist
    exact Subtype.ext (String.toList_inj.1 hlist)
  · rintro rfl
    rfl

theorem markerOf_not_child (p : Text) : startsWith (markerOf p) childPrefix = false := by
  simp [startsWith, markerOf, childPrefix, List.isPrefixOf]

theorem childMarker_inj {m n : ℕ} : childPrefix ++ toString m = childPrefix ++ toString n ↔ m = n := by
  constructor
  · intro h
    have hlist := congrArg String.toList h
    simp only [String.toList_append, List.append_cancel_left_eq] at hlist
    have hdigits := congrArg (Nat.ofDigitChars 10 · 0) hlist
    simpa [Nat.toString_eq_repr, Nat.toList_repr, Nat.ofDigitChars_ten_toDigits] using hdigits
  · rintro rfl
    rfl

theorem entered_snoc {st : Step ExecutionState ExecutionInput} :
    Entered (h ++ [st]) phase ↔ Entered h phase ∨ st.event.command.enters = some phase := by
  simp only [Entered, List.mem_append, List.mem_singleton, or_and_right, exists_or, exists_eq_left]

theorem left_snoc {st : Step ExecutionState ExecutionInput} :
    Left (h ++ [st]) phase ↔ Left h phase ∨
      st.event.command.advances = true ∧ st.before.plan.map (·.phaseId) = some phase := by
  simp only [Left, List.mem_append, List.mem_singleton, or_and_right, exists_or, exists_eq_left]

/-! ## One step -/

/-- What a command does to the plan and to the used ids. -/
inductive Marks (s s' : ExecutionState) : ExecutionCommand → Prop
  | plan {plan} : (∀ p, s.plan = some p → plan.phaseId = p.phaseId) → s'.plan = some plan →
      s'.usedOperationIds = s.usedOperationIds → Marks s s' (.plan plan)
  | advance {plan evidence current} : s.plan = some current → plan.phaseId ≠ current.phaseId →
      markerOf plan.phaseId ∉ s.usedOperationIds → s'.plan = some plan →
      s'.usedOperationIds = s.usedOperationIds ++ [markerOf current.phaseId] →
      Marks s s' (.advance plan evidence)
  | child {command} : command.enters = none → command.advances = false → command.begins = none → s'.plan = s.plan →
      s'.usedOperationIds = s.usedOperationIds ++ [childPrefix ++ toString (s.sequence + 1)] →
      Marks s s' command
  | begin {o} : o.id.1 ∉ s.usedOperationIds → startsWith o.id.1 childPrefix = false →
      s'.plan = s.plan → s'.usedOperationIds = s.usedOperationIds ++ [o.id.1] → Marks s s' (.begin o)
  | other {command} : command.enters = none → command.advances = false → command.begins = none →
      s'.plan = s.plan → s'.usedOperationIds = s.usedOperationIds → Marks s s' command

theorem Applied.marks (ha : Applied s actor now c s') : Marks s s' c := by
  cases ha with
  | plan _ _ _ hp => exact .plan hp rfl rfl
  | advance _ _ hc _ _ _ hne hnew => exact .advance hc hne hnew rfl rfl
  | selectChild => exact .child rfl rfl rfl rfl rfl
  | replaceChild => exact .child rfl rfl rfl rfl rfl
  | begin _ _ _ _ _ hnew hchild => exact .begin hnew hchild begun_plan rfl
  | restartLaunch => exact .other rfl rfl rfl rfl rfl
  | restartIntent => exact .other rfl rfl rfl rfl rfl
  | restart => exact .other rfl rfl rfl rfl rfl
  | selectDirect => exact .other rfl rfl rfl rfl rfl
  | selectReview => exact .other rfl rfl rfl rfl rfl
  | finish => exact .other rfl rfl rfl rfl rfl
  | settle => exact .other rfl rfl rfl rfl rfl
  | attempt => exact .other rfl rfl rfl rfl rfl
  | resolve => exact .other rfl rfl rfl rfl rfl
  | candidate => exact .other rfl rfl rfl rfl rfl
  | accept => exact .other rfl rfl rfl rfl rfl

/-! ## Phases that were left -/

/-- Every phase that was left has its marker, and the plan is in another one. -/
def Departed (h : History) (s : ExecutionState) : Prop :=
  ∀ phase, Left h phase → markerOf phase ∈ s.usedOperationIds ∧
    ∃ plan, s.plan = some plan ∧ plan.phaseId ≠ phase

theorem Departed.step (hd : Departed h s) (hs : step s e = .ok s') :
    Departed (h ++ [⟨s, e, s'⟩]) s' ∧ ∀ phase, e.command.enters = some phase → ¬ Left h phase := by
  have hm := (step_applied hs).marks
  generalize hc : e.command = c at hm
  have hkeep : c.advances = false → s'.plan = s.plan →
      (∀ id ∈ s.usedOperationIds, id ∈ s'.usedOperationIds) → Departed (h ++ [⟨s, e, s'⟩]) s' := by
    intro hadv hplan hids p hp
    rcases left_snoc.1 hp with hp | ⟨hp, -⟩
    · rw [hplan]
      exact ⟨hids _ (hd p hp).1, (hd p hp).2⟩
    · rw [hc, hadv] at hp
      cases hp
  cases hm with
  | @plan plan hsame hplan hids =>
    have hnot : ∀ p, Left h p → plan.phaseId ≠ p := by
      intro p hp
      obtain ⟨-, q, hq, hne⟩ := hd p hp
      rw [hsame q hq]
      exact hne
    refine ⟨fun p hp => ?_, ?_⟩
    · rcases left_snoc.1 hp with hp | ⟨hp, -⟩
      · rw [hids]
        exact ⟨(hd p hp).1, plan, hplan, hnot p hp⟩
      · rw [hc] at hp
        cases hp
    · rintro p ⟨⟩ hp
      exact hnot _ hp rfl
  | @advance plan evidence current hcur hne hnew hplan hids =>
    have hnot : ∀ p, Left h p → plan.phaseId ≠ p := by
      rintro p hp rfl
      exact hnew (hd _ hp).1
    refine ⟨fun p hp => ?_, ?_⟩
    · rw [hids]
      rcases left_snoc.1 hp with hp | ⟨-, hp⟩
      · exact ⟨List.mem_append_left _ (hd p hp).1, plan, hplan, hnot p hp⟩
      · have hcp : current.phaseId = p := by simpa [hcur] using hp
        subst hcp
        exact ⟨List.mem_append_right _ (by simp), plan, hplan, hne⟩
    · rintro p ⟨⟩ hp
      exact hnot _ hp rfl
  | child he hadv _ hplan hids =>
    refine ⟨hkeep hadv hplan fun id hid => ?_, by simp [he]⟩
    rw [hids]
    exact List.mem_append_left _ hid
  | begin _ _ hplan hids =>
    refine ⟨hkeep rfl hplan fun id hid => ?_, by simp [ExecutionCommand.enters]⟩
    rw [hids]
    exact List.mem_append_left _ hid
  | other he hadv _ hplan hids => exact ⟨hkeep hadv hplan fun id hid => by rwa [hids], by simp [he]⟩

theorem departed (hr : Lineage b t h s) : Departed h s := by
  refine hr.invariant (P := Departed) ?_ fun h s e s' _ ih hs => (ih.step hs).1
  rintro p ⟨st, hst, -⟩
  cases hst

/-- **A phase that was left is never entered again**, whatever the operations
    are called. -/
theorem left_not_entered (hr : Lineage b t h s) {pre post : History}
    {st : Step ExecutionState ExecutionInput} (heq : h = pre ++ st :: post)
    (hp : st.event.command.enters = some phase) : ¬ Left pre phase := by
  subst heq
  obtain ⟨hpre, hs, -⟩ := hr.split
  exact ((departed hpre).step hs).2 _ hp

/-! ## Fresh ids -/

/-- The used ids are distinct; the children are numbered by past events, the
    phases with a marker were entered, and the phase of the plan has none. -/
structure Marked (h : History) (s : ExecutionState) : Prop where
  distinct : s.usedOperationIds.Nodup
  children : ∀ n, childPrefix ++ toString n ∈ s.usedOperationIds → n ≤ s.sequence
  phases : ∀ phase, markerOf phase ∈ s.usedOperationIds → Entered h phase
  current : ∀ plan, s.plan = some plan → Entered h plan.phaseId ∧ markerOf plan.phaseId ∉ s.usedOperationIds
  unplanned : s.plan = none → ∀ phase, ¬ Entered h phase

theorem nodup_concat {ids : List String} {id : String} (hn : ids.Nodup) (hid : id ∉ ids) :
    (ids ++ [id]).Nodup := by
  rw [List.nodup_append]
  refine ⟨hn, by simp, ?_⟩
  rintro x hx y hy rfl
  rw [List.mem_singleton.1 hy] at hx
  exact hid hx

theorem child_ne {id : String} {n : ℕ} (hid : startsWith id childPrefix = false) :
    childPrefix ++ toString n ≠ id := by
  rintro rfl
  rw [startsWith_append] at hid
  cases hid

theorem Marked.empty : Marked [] (initialState b t) where
  distinct := List.nodup_nil
  children := by rintro n ⟨⟩
  phases := by rintro p ⟨⟩
  current := by rintro p ⟨⟩
  unplanned := by
    rintro - p ⟨st, hst, -⟩
    cases hst

/-- A step that leaves the plan alone and adds at most an id that is neither
    used nor a marker. -/
theorem Marked.keep {st : Step ExecutionState ExecutionInput} {new : List String} (hm : Marked h s)
    (he : st.event.command.enters = none) (hplan : s'.plan = s.plan)
    (hids : s'.usedOperationIds = s.usedOperationIds ++ new) (hn : (s.usedOperationIds ++ new).Nodup)
    (hchild : ∀ n, childPrefix ++ toString n ∈ new → n ≤ s'.sequence) (hseq : s.sequence ≤ s'.sequence)
    (hphase : ∀ p, markerOf p ∉ new) : Marked (h ++ [st]) s' := by
  have hentered : ∀ {p}, Entered (h ++ [st]) p ↔ Entered h p := by
    intro p
    rw [entered_snoc, he]
    simp
  constructor
  · rw [hids]
    exact hn
  · intro n hin
    rw [hids] at hin
    rcases List.mem_append.1 hin with hin | hin
    · exact (hm.children n hin).trans hseq
    · exact hchild n hin
  · intro p hp
    rw [hids] at hp
    rcases List.mem_append.1 hp with hp | hp
    · exact hentered.2 (hm.phases p hp)
    · exact absurd hp (hphase p)
  · intro q hq
    rw [hplan] at hq
    obtain ⟨hin, hnot⟩ := hm.current q hq
    refine ⟨hentered.2 hin, ?_⟩
    rw [hids]
    intro hmem
    rcases List.mem_append.1 hmem with hmem | hmem
    · exact hnot hmem
    · exact hphase _ hmem
  · intro hnone p hp
    rw [hplan] at hnone
    exact hm.unplanned hnone p (hentered.1 hp)

theorem Marked.step (hm : Marked h s) (hu : e.command.Unmarked) (hs : step s e = .ok s') :
    Marked (h ++ [⟨s, e, s'⟩]) s' := by
  have hseq := (step_applied hs).sequence
  have hmarks := (step_applied hs).marks
  have hkeep : ∀ {p}, Entered h p → Entered (h ++ [⟨s, e, s'⟩]) p := fun hp => entered_snoc.2 (Or.inl hp)
  generalize hc : e.command = c at hmarks hu
  cases hmarks with
  | @plan plan hsame hplan hids =>
    have hnot : markerOf plan.phaseId ∉ s.usedOperationIds := by
      intro hmem
      rcases hp : s.plan with _ | q
      · exact hm.unplanned hp _ (hm.phases _ hmem)
      · rw [hsame q hp] at hmem
        exact (hm.current q hp).2 hmem
    refine ⟨by rw [hids]; exact hm.distinct, fun n hn => ?_, fun p hp => ?_, fun q hq => ?_, fun hnone => ?_⟩
    · rw [hids] at hn
      have hle := hm.children n hn
      omega
    · rw [hids] at hp
      exact hkeep (hm.phases p hp)
    · obtain rfl : plan = q := by simpa [hplan] using hq
      rw [hids]
      exact ⟨entered_snoc.2 (Or.inr (by rw [hc]; rfl)), hnot⟩
    · rw [hplan] at hnone
      cases hnone
  | @advance plan evidence current hcur hne hnew hplan hids =>
    obtain ⟨hin, hnot⟩ := hm.current current hcur
    refine ⟨by rw [hids]; exact nodup_concat hm.distinct hnot, fun n hn => ?_, fun p hp => ?_,
      fun q hq => ?_, fun hnone => ?_⟩
    · rw [hids] at hn
      rcases List.mem_append.1 hn with hn | hn
      · have hle := hm.children n hn
        omega
      · exact absurd (List.mem_singleton.1 hn) (child_ne (markerOf_not_child _))
    · rw [hids] at hp
      rcases List.mem_append.1 hp with hp | hp
      · exact hkeep (hm.phases p hp)
      · rw [markerOf_inj.1 (List.mem_singleton.1 hp)]
        exact hkeep hin
    · obtain rfl : plan = q := by simpa [hplan] using hq
      refine ⟨entered_snoc.2 (Or.inr (by rw [hc]; rfl)), fun hmem => ?_⟩
      rw [hids] at hmem
      rcases List.mem_append.1 hmem with hmem | hmem
      · exact hnew hmem
      · exact hne (markerOf_inj.1 (List.mem_singleton.1 hmem))
    · rw [hplan] at hnone
      cases hnone
  | child he hadv _ hplan hids =>
    refine hm.keep (by rw [hc]; exact he) hplan hids (nodup_concat hm.distinct fun hmem => ?_)
      (fun n hn => ?_) (by omega) fun p hp => ?_
    · have hle := hm.children _ hmem
      omega
    · rw [childMarker_inj.1 (List.mem_singleton.1 hn), hseq]
    · exact child_ne (markerOf_not_child p) (List.mem_singleton.1 hp).symm
  | @begin o hnew hchild hplan hids =>
    refine hm.keep (by rw [hc]; rfl) hplan hids (nodup_concat hm.distinct hnew) (fun n hn => ?_) (by omega)
      fun p hp => ?_
    · exact absurd (List.mem_singleton.1 hn) (child_ne hchild)
    · exact hu o rfl p (List.mem_singleton.1 hp).symm
  | other he hadv _ hplan hids =>
    refine hm.keep (by rw [hc]; exact he) hplan (hids.trans (List.append_nil _).symm) ?_ (by simp) (by omega)
      (by simp)
    rw [List.append_nil]
    exact hm.distinct

theorem marked (hr : Lineage b t h s) (hu : ∀ st ∈ h, st.event.command.Unmarked) : Marked h s := by
  revert hu
  refine hr.invariant (P := fun h s => (∀ st ∈ h, st.event.command.Unmarked) → Marked h s)
    (fun _ => .empty) ?_
  intro h s e s' _ ih hs hu
  exact (ih fun st hst => hu st (by simp [hst])).step (hu ⟨s, e, s'⟩ (by simp)) hs

/-! ## Refused advances -/

/-- The used ids matter to an advance only through the marker of its phase. -/
theorem advance_refused {plan evidence} (hok : step { s with usedOperationIds := [] } ⟨actor, .advance plan evidence, now⟩ = .ok s')
    (hno : ∀ s', step s ⟨actor, .advance plan evidence, now⟩ ≠ .ok s') :
    markerOf plan.phaseId ∈ s.usedOperationIds := by
  by_contra hnew
  simp only [step, transition, applyAdvance, bind_eq_ok, throwIf_eq_ok, require_eq_ok, pure_eq_ok] at hok
  obtain ⟨_, ht, _, h1, _, h2, _, ho, _, hi, _, hrun, current, hc, _, h3, _, h4, -⟩ := hok
  refine hno { (s.tick now).cleared with
    plan := some plan
    usedOperationIds := s.usedOperationIds ++ [phaseMarker current] } ?_
  simp only [step, transition, applyAdvance, bind_eq_ok, throwIf_eq_ok, require_eq_ok, pure_eq_ok]
  refine ⟨⟨⟩, ht, ⟨⟩, h1, ⟨⟩, h2, ⟨⟩, ho, ⟨⟩, hi, ⟨⟩, hrun, current, hc, ⟨⟩, ?_, ⟨⟩, h4, rfl⟩
  rintro (h | h | h | h | h)
  · exact h3 (Or.inl h)
  · exact h3 (Or.inr (Or.inl h))
  · exact h3 (Or.inr (Or.inr (Or.inl h)))
  · exact h3 (Or.inr (Or.inr (Or.inr (Or.inl h))))
  · exact hnew h

/-! ## The result -/

/-- **Phases and operations are separate** in every run that begins no
    operation under the marker of a phase. -/
theorem phases_separate (hr : Lineage b t h s) (hu : ∀ st ∈ h, st.event.command.Unmarked) :
    PhasesSeparate h s where
  distinct := (marked hr hu).distinct
  left _ _ _ _ heq hp := left_not_entered hr heq hp
  fresh _ _ _ _ _ hok hno := (marked hr hu).phases _ (advance_refused hok hno)

namespace Sample

def nextPlan : PhaseExecutionPlan := { plan with phaseId := ⟨"phase-2", by decide⟩ }

def inventory : ExecutionRecoveryInventory := ⟨binding.branch, headSha, "", sha, [], source⟩

/-- The check passes and the next phase begins. -/
def advanced : List ExecutionInput :=
  passed ++ [event (.settle source inventory), event (.advance nextPlan source)]

/-- An operation under the marker of the first phase. -/
def phaseNamed : ExecutionOperation where
  id := ⟨"phase:phase-1", by decide⟩
  kind := .shell
  check := none
  intent := none
  check_iff := by decide
  update_intent := by decide

/-- The operation `phaseNamed` runs in the first phase, which is then left. -/
def twiceMarked : List ExecutionInput :=
  [event (.plan plan), event (.select .orchestratorDirect launcher source), event (.begin phaseNamed),
    event (.finish phaseNamed.id source none none), event (.settle source inventory),
    event (.advance nextPlan source)]

end Sample

/-- The operation of the run `advanced` is not named after a phase. -/
theorem phases_separate_advanced :
    ∃ h s, Lineage Sample.binding Sample.start h s ∧ h.map (·.event) = Sample.advanced ∧
      PhasesSeparate h s := by
  obtain ⟨h, s, hr, hm⟩ := lineage_of_isOk Sample.binding Sample.start Sample.advanced (by decide)
  refine ⟨h, s, hr, hm, phases_separate hr fun st hst o ho phase heq => ?_⟩
  have hmem : st.event ∈ Sample.advanced := hm ▸ List.mem_map_of_mem hst
  have hall : ∀ e ∈ Sample.advanced, ∀ o, e.command.begins = some o → startsWith o.id.1 "phase:" = false := by
    decide
  have hno := hall _ hmem o ho
  rw [heq, markerOf, startsWith_append] at hno
  cases hno

/-- **An operation can take the marker of its phase**, which the advance then
    adds a second time. -/
theorem marker_duplicated : ¬ ∀ h s, Lineage Sample.binding Sample.start h s → PhasesSeparate h s := by
  intro hall
  have hrun : ∃ s, exec step (initialState Sample.binding Sample.start) Sample.twiceMarked = .ok s ∧
      s.usedOperationIds = ["phase:phase-1", "phase:phase-1"] := ⟨_, rfl, rfl⟩
  obtain ⟨s, hexec, hids⟩ := hrun
  obtain ⟨h, hr, -⟩ := reaches_of_exec hexec
  have hd := (hall h s hr).distinct
  rw [hids] at hd
  exact absurd hd (by decide)

end PaPlatform.Custody
