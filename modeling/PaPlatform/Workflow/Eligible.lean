/-
  The steps of a workflow that can be executed (`workflows/service.ts`).

  An accepted definition has no cycle, and its inputs come from prior steps.  It
  has no dead step exactly as long as every dependency that has to be met is
  taken by a transition of its producer, and one outcome of a producer is enough.
-/
import PaPlatform.Workflow.Definition
import PaPlatform.Lib.Guard

namespace PaPlatform.Workflow

open Js Ancestry Relation

/-! ## Predicates -/

/-- The fields of a review bundle that a predicate reads. -/
structure Subject where
  repositoryKey : String
  ticket : String
  team : String
  mode : String
  handoffType : String

/-- `context(state)`, of the subject. -/
def context (subject : Subject) : String → Option String := fun field =>
  [("repository.key", subject.repositoryKey), ("ticket", subject.ticket), ("route.team", subject.team),
    ("route.mode", subject.mode), ("handoff.type", subject.handoffType), ("runtime", "pi")].lookup field

mutual

def evaluatePredicate (context : String → Option String) : Predicate → Bool
  | .always => true
  | .eq field value => context field == some value
  | .isIn field values => (context field).any values.contains
  | .all predicates => evaluateAll context predicates
  | .any predicates => evaluateAny context predicates

def evaluateAll (context : String → Option String) : List Predicate → Bool
  | [] => true
  | p :: predicates => evaluatePredicate context p && evaluateAll context predicates

def evaluateAny (context : String → Option String) : List Predicate → Bool
  | [] => false
  | p :: predicates => evaluatePredicate context p || evaluateAny context predicates

end

/-! ## States -/

structure WorkflowState where
  definition : WorkflowDefinition
  subject : Subject
  outcomes : String → Option StepOutcome
  /-- The steps of the pending intents. -/
  pending : List String

/-- The outcome is recorded, and the producer goes on to the step with it. -/
def met (state : WorkflowState) (s : WorkflowStep) (d : Dependency) : Bool :=
  d.outcome != .unknown && state.outcomes d.stepId == some d.outcome &&
    ((state.definition.steps.find? (·.id == d.stepId)).bind fun producer => producer.transitions.lookup d.outcome) ==
      some s.id

def eligible (state : WorkflowState) (s : WorkflowStep) : Bool :=
  state.outcomes s.id == none && !state.pending.contains s.id &&
    evaluatePredicate (context state.subject) s.when && s.dependsOn.all (met state s)

def eligibleSteps (state : WorkflowState) : List String := (state.definition.steps.filter (eligible state)).map (·.id)

/-- The states that executing eligible steps one after another leads to. -/
inductive Executed (definition : WorkflowDefinition) (subject : Subject) : WorkflowState → Prop
  | start : Executed definition subject ⟨definition, subject, fun _ => none, []⟩
  | execute {state : WorkflowState} {s : WorkflowStep} {outcome : StepOutcome} : Executed definition subject state →
      s ∈ definition.steps → s.id ∈ eligibleSteps state → outcome ∈ stepOutcomes s.kind →
      Executed definition subject { state with outcomes := Function.update state.outcomes s.id (some outcome) }

/-! ## What a definition should be -/

/-- The step `a` depends on is `b`, directly or not. -/
def Ancestor (steps : List WorkflowStep) : String → String → Prop := TransGen (Dep (dependencies steps))

/-- The step is `s`, or one that `s` depends on. -/
def Leads (steps : List WorkflowStep) (t s : WorkflowStep) : Prop :=
  t ∈ steps ∧ (t.id = s.id ∨ Ancestor steps t.id s.id)

def Acyclic (steps : List WorkflowStep) : Prop := ∀ s ∈ steps, ¬ Ancestor steps s.id s.id

/-- An output that a step takes is declared by a step that it depends on. -/
def InputsFromAncestors (steps : List WorkflowStep) : Prop :=
  ∀ s ∈ steps, ∀ i ∈ s.inputs, ∀ stepId output, i.source = .output stepId output →
    stepId ≠ s.id ∧ Ancestor steps stepId s.id ∧ ∃ producer ∈ steps, producer.id = stepId ∧
      (⟨output, i.schemaVersion⟩ : OutputDeclaration) ∈ producer.outputs

/-- The conditions of the step and of those that it depends on hold. -/
def Wanted (steps : List WorkflowStep) (subject : Subject) (s : WorkflowStep) : Prop :=
  ∀ t, Leads steps t s → evaluatePredicate (context subject) t.when = true

/-- The step can be executed, after the steps that it depends on. -/
def Alive (definition : WorkflowDefinition) (subject : Subject) (s : WorkflowStep) : Prop :=
  ∃ state, Executed definition subject state ∧
    (∀ id, (state.outcomes id).isSome ↔ Ancestor definition.steps id s.id) ∧ s.id ∈ eligibleSteps state

def NoDeadSteps (definition : WorkflowDefinition) : Prop :=
  ∀ s ∈ definition.steps, ∀ subject, Wanted definition.steps subject s → Alive definition subject s

/-- The dependency is taken by its producer: it leads to the step. -/
def Taken (steps : List WorkflowStep) (t : WorkflowStep) (d : Dependency) : Prop :=
  d.outcome ≠ .unknown ∧ ∃ producer ∈ steps, producer.id = d.stepId ∧
    producer.transitions.lookup d.outcome = some t.id

/-- All dependencies on the way to a step are taken, and two on the same producer
    want the same outcome. -/
structure Consistent (steps : List WorkflowStep) (s : WorkflowStep) : Prop where
  taken : ∀ t, Leads steps t s → ∀ d ∈ t.dependsOn, Taken steps t d
  single : ∀ t t', Leads steps t s → Leads steps t' s → ∀ d ∈ t.dependsOn, ∀ d' ∈ t'.dependsOn,
    d.stepId = d'.stepId → d.outcome = d'.outcome

/-! ## Accepted definitions -/

section
variable {steps : List WorkflowStep} {s t : WorkflowStep} {d : Dependency} {id : String}
  {definition : WorkflowDefinition} {subject : Subject} {state : WorkflowState}

theorem rejectIf_eq_some {p : Prop} [Decidable p] {u : Unit} : rejectIf p = some u ↔ ¬ p := by
  unfold rejectIf
  split_ifs with h <;> simp [h]

theorem unique_eq_some {α : Type} [DecidableEq α] {l l' : List α} : unique l = some l' ↔ l.Nodup ∧ l = l' := by
  unfold unique
  split_ifs with h <;> simp [h]

theorem byId_eq_some (hn : (steps.map (·.id)).Nodup) : byId steps id = some s ↔ s ∈ steps ∧ s.id = id := by
  constructor
  · intro h
    have hid := List.find?_some h
    exact ⟨List.mem_of_find?_eq_some h, eq_of_beq hid⟩
  · rintro ⟨hs, rfl⟩
    cases h : byId steps s.id with
    | none => exact absurd (List.find?_eq_none.1 h s hs) (by simp)
    | some t =>
      have hid := List.find?_some h
      rw [List.inj_on_of_nodup_map hn (List.mem_of_find?_eq_some h) hs (eq_of_beq hid)]

/-- What the checks of the steps say. -/
structure Accepted (steps : List WorkflowStep) : Prop where
  ids : (steps.map (·.id)).Nodup
  acc : ∀ s ∈ steps, Acc (Dep (dependencies steps)) s.id
  producer : ∀ s ∈ steps, ∀ d ∈ s.dependsOn, ∃ producer ∈ steps, producer.id = d.stepId ∧
    d.outcome ∈ stepOutcomes producer.kind
  input : ∀ s ∈ steps, ∀ i ∈ s.inputs, ∀ stepId output, i.source = .output stepId output →
    Ancestor steps stepId s.id ∧ ∃ producer ∈ steps, producer.id = stepId ∧
      (⟨output, i.schemaVersion⟩ : OutputDeclaration) ∈ producer.outputs

theorem dependencyOk_iff (hn : (steps.map (·.id)).Nodup) : dependencyOk steps d = true ↔
    ∃ producer ∈ steps, producer.id = d.stepId ∧ d.outcome ∈ stepOutcomes producer.kind := by
  unfold dependencyOk
  rw [Option.any_eq_true]
  simp only [byId_eq_some hn, List.contains_iff_mem, and_assoc]

theorem inputOk_output {prior : List String} {i : InputReference} {stepId output : String}
    (hn : (steps.map (·.id)).Nodup) (hi : i.source = .output stepId output) (h : inputOk steps prior i = true) :
    stepId ∈ prior ∧ ∃ producer ∈ steps, producer.id = stepId ∧
      (⟨output, i.schemaVersion⟩ : OutputDeclaration) ∈ producer.outputs := by
  unfold inputOk at h
  rw [hi] at h
  simp only [Bool.and_eq_true, List.contains_iff_mem, Option.any_eq_true, byId_eq_some hn, List.any_eq_true,
    beq_iff_eq] at h
  obtain ⟨hprior, producer, ⟨hp, hid⟩, o, ho, rfl, hv⟩ := h
  refine ⟨hprior, producer, hp, hid, ?_⟩
  rw [← hv]
  exact ho

/-- One round of the loop. -/
structure Checked (steps : List WorkflowStep) (s : WorkflowStep) : Prop where
  acc : Acc (Dep (dependencies steps)) s.id
  producer : s.dependsOn.all (dependencyOk steps) = true
  input : ∃ prior : List String, (∀ x ∈ prior, Ancestor steps x s.id) ∧ s.inputs.all (inputOk steps prior) = true

theorem checkStep_eq_some {cache cache' : Cache String} (hc : Sound (dependencies steps) cache)
    (h : checkStep steps cache s = some cache') : Sound (dependencies steps) cache' ∧ Checked steps s := by
  simp only [checkStep, Option.bind_eq_bind, Option.bind_eq_some_iff, rejectIf_eq_some, Bool.not_eq_false] at h
  obtain ⟨_, -, prior, hprior, _, hdep, _, hin, _, -, h⟩ := h
  obtain rfl := Option.some.inj h
  obtain ⟨hs, he⟩ := ancestors_explored hc hprior
  exact ⟨hs, he.acc, hdep, prior.1, fun x hx => (he.mem x).1 hx, hin⟩

theorem foldlM_checkStep {l : List WorkflowStep} {cache cache' : Cache String}
    (hc : Sound (dependencies steps) cache) (h : l.foldlM (checkStep steps) cache = some cache') :
    ∀ s ∈ l, Checked steps s := by
  induction l generalizing cache with
  | nil => exact nofun
  | cons s l ih =>
    rw [List.foldlM_cons] at h
    obtain ⟨next, hnext, h⟩ := Option.bind_eq_some_iff.1 h
    obtain ⟨hs, hchecked⟩ := checkStep_eq_some hc hnext
    exact List.forall_mem_cons.2 ⟨hchecked, ih hs h⟩

theorem accepted {cache : Cache String} (h : checkSteps steps = some cache) : Accepted steps := by
  simp only [checkSteps, Option.bind_eq_bind, Option.bind_eq_some_iff, rejectIf_eq_some, unique_eq_some] at h
  obtain ⟨_, -, _, ⟨hids, -⟩, _, -, _, -, h⟩ := h
  have hall := foldlM_checkStep sound_empty h
  constructor
  · exact hids
  · exact fun s hs => (hall s hs).acc
  · exact fun s hs d hd => (dependencyOk_iff hids).1 (List.all_eq_true.1 (hall s hs).producer d hd)
  · intro s hs i hi stepId output hsource
    obtain ⟨prior, hprior, hin⟩ := (hall s hs).input
    obtain ⟨hmem, hproducer⟩ := inputOk_output hids hsource (List.all_eq_true.1 hin i hi)
    exact ⟨hprior stepId hmem, hproducer⟩

theorem accepted_of_parse {double : String → Json} {bytes : Bytes}
    (h : parseWorkflowDefinition double bytes = some definition) : Accepted definition.steps := by
  obtain ⟨value, -, h⟩ := Option.bind_eq_some_iff.1 h
  simp only [Workflow.definition, Option.bind_eq_bind, Option.bind_eq_some_iff] at h
  obtain ⟨r, -, _, -, steps, -, cache, hcheck, _, -, _, -, _, -, _, -, _, -, h⟩ := h
  obtain rfl := Option.some.inj h
  exact accepted hcheck

theorem Accepted.acyclic (h : Accepted steps) : Acyclic steps := fun s hs => not_ancestor_self (h.acc s hs)

theorem Accepted.inputs (h : Accepted steps) : InputsFromAncestors steps := by
  intro s hs i hi stepId output hsource
  obtain ⟨hanc, hproducer⟩ := h.input s hs i hi stepId output hsource
  refine ⟨?_, hanc, hproducer⟩
  rintro rfl
  exact h.acyclic s hs hanc

/-! ## The way to a step -/

theorem dep_iff (h : Accepted steps) (hs : s ∈ steps) : Dep (dependencies steps) id s.id ↔
    ∃ d ∈ s.dependsOn, d.stepId = id := by
  unfold Dep dependencies
  rw [(byId_eq_some h.ids).2 ⟨hs, rfl⟩]
  simp

/-- A dependency of a step on the way is on the way. -/
theorem Leads.dependency (h : Accepted steps) (ht : Leads steps t s) (hd : d ∈ t.dependsOn) :
    ∃ producer, Leads steps producer s ∧ producer.id = d.stepId ∧ d.outcome ∈ stepOutcomes producer.kind ∧
      Ancestor steps producer.id s.id := by
  obtain ⟨producer, hp, hid, hout⟩ := h.producer t ht.1 d hd
  have hdep : Dep (dependencies steps) producer.id t.id := (dep_iff h ht.1).2 ⟨d, hd, hid.symm⟩
  have hanc : Ancestor steps producer.id s.id := by
    rcases ht.2 with heq | hanc
    · rw [← heq]
      exact .single hdep
    · exact hanc.head hdep
  exact ⟨producer, ⟨hp, Or.inr hanc⟩, hid, hout, hanc⟩

/-- The step that has a dependency. -/
theorem dep_step (h : Accepted steps) {id' : String} (hdep : Dep (dependencies steps) id id') :
    ∃ t ∈ steps, t.id = id' ∧ ∃ d ∈ t.dependsOn, d.stepId = id := by
  have ht : ∃ t ∈ steps, t.id = id' := by
    obtain ⟨deps, hdeps, -⟩ := hdep
    obtain ⟨t, ht, -⟩ := Option.map_eq_some_iff.1 hdeps
    exact ⟨t, (byId_eq_some h.ids).1 ht⟩
  obtain ⟨t, ht, rfl⟩ := ht
  exact ⟨t, ht, rfl, (dep_iff h ht).1 hdep⟩

/-- A step that is depended on has a dependent on the way. -/
theorem Ancestor.dependent (h : Accepted steps) (ha : Ancestor steps id s.id) :
    ∃ t, Leads steps t s ∧ ∃ d ∈ t.dependsOn, d.stepId = id := by
  obtain ⟨id', hdep, hrest⟩ := TransGen.head'_iff.1 ha
  obtain ⟨t, ht, rfl, hd⟩ := dep_step h hdep
  refine ⟨t, ⟨ht, ?_⟩, hd⟩
  rcases reflTransGen_iff_eq_or_transGen.1 hrest with heq | hanc
  · exact Or.inl heq.symm
  · exact Or.inr hanc

/-! ## Runs -/

theorem mem_eligibleSteps (h : Accepted state.definition.steps) (hs : s ∈ state.definition.steps) :
    s.id ∈ eligibleSteps state ↔ eligible state s = true := by
  constructor
  · intro hmem
    obtain ⟨t, ht, hid⟩ := List.mem_map.1 hmem
    obtain ⟨ht, he⟩ := List.mem_filter.1 ht
    rwa [← List.inj_on_of_nodup_map h.ids ht hs hid]
  · exact fun he => List.mem_map.2 ⟨s, List.mem_filter.2 ⟨hs, he⟩, rfl⟩

theorem eligible_iff : eligible state s = true ↔ state.outcomes s.id = none ∧ s.id ∉ state.pending ∧
    evaluatePredicate (context state.subject) s.when = true ∧ ∀ d ∈ s.dependsOn, met state s d = true := by
  simp only [eligible, Bool.and_eq_true, beq_iff_eq, Bool.not_eq_true', ← Bool.not_eq_true, List.contains_iff_mem,
    List.all_eq_true, and_assoc]

theorem met_iff (h : Accepted state.definition.steps) : met state s d = true ↔
    state.outcomes d.stepId = some d.outcome ∧ Taken state.definition.steps s d := by
  unfold met Taken
  have hfind : ((state.definition.steps.find? (·.id == d.stepId)).bind fun producer =>
      producer.transitions.lookup d.outcome) = some s.id ↔ ∃ producer ∈ state.definition.steps,
        producer.id = d.stepId ∧ producer.transitions.lookup d.outcome = some s.id := by
    rw [Option.bind_eq_some_iff]
    refine exists_congr fun producer => ?_
    have hid := @byId_eq_some _ producer d.stepId h.ids
    unfold byId at hid
    rw [hid, and_assoc]
  simp only [Bool.and_eq_true, beq_iff_eq, bne_iff_ne, hfind]
  exact ⟨fun h => ⟨h.1.2, h.1.1, h.2⟩, fun h => ⟨⟨h.2.1, h.1⟩, h.2.2⟩⟩

theorem Executed.definition_eq (h : Executed definition subject state) :
    state.definition = definition ∧ state.subject = subject ∧ state.pending = [] := by
  induction h with
  | start => exact ⟨rfl, rfl, rfl⟩
  | execute _ _ _ _ ih => exact ih

/-- **In every state, the dependencies of the executed steps are met.** -/
theorem Executed.met (ha : Accepted definition.steps) (h : Executed definition subject state) :
    ∀ t ∈ definition.steps, (state.outcomes t.id).isSome → ∀ d ∈ t.dependsOn,
      state.outcomes d.stepId = some d.outcome ∧ Taken definition.steps t d := by
  induction h with
  | start => exact fun t _ hsome => absurd hsome nofun
  | @execute state s outcome hx hs he _ ih =>
    obtain ⟨hdef, -, -⟩ := hx.definition_eq
    have ha' : Accepted state.definition.steps := hdef ▸ ha
    rw [mem_eligibleSteps ha' (hdef ▸ hs), eligible_iff] at he
    obtain ⟨hnone, -, -, hmet⟩ := he
    -- a recorded outcome stays
    have hkeep : ∀ {id o}, state.outcomes id = some o →
        Function.update state.outcomes s.id (some outcome) id = some o := by
      intro id o ho
      rw [Function.update_of_ne _, ho]
      rintro rfl
      rw [hnone] at ho
      cases ho
    intro t ht hsome d hd
    by_cases hid : t.id = s.id
    · obtain rfl := List.inj_on_of_nodup_map ha.ids ht hs hid
      obtain ⟨ho, htaken⟩ := (met_iff ha').1 (hmet d hd)
      exact ⟨hkeep ho, hdef ▸ htaken⟩
    · have hsome' : (state.outcomes t.id).isSome := by
        rw [← Function.update_of_ne hid (some outcome) state.outcomes]
        exact hsome
      obtain ⟨ho, htaken⟩ := ih t ht hsome' d hd
      exact ⟨hkeep ho, htaken⟩

/-- All steps on the way to an eligible one were executed, and met. -/
theorem Executed.leads (ha : Accepted definition.steps) (h : Executed definition subject state)
    (hs : s ∈ definition.steps) (he : s.id ∈ eligibleSteps state) :
    ∀ t, Leads definition.steps t s → ∀ d ∈ t.dependsOn,
      state.outcomes d.stepId = some d.outcome ∧ Taken definition.steps t d := by
  obtain ⟨hdef, -, -⟩ := h.definition_eq
  have ha' : Accepted state.definition.steps := hdef ▸ ha
  rw [mem_eligibleSteps ha' (hdef ▸ hs), eligible_iff] at he
  have hself : ∀ d ∈ s.dependsOn, state.outcomes d.stepId = some d.outcome ∧ Taken definition.steps s d := by
    intro d hd
    have hmet := (met_iff ha').1 (he.2.2.2 d hd)
    rwa [hdef] at hmet
  have hsome : ∀ id, Ancestor definition.steps id s.id → (state.outcomes id).isSome := by
    intro id hanc
    induction hanc using TransGen.head_induction_on with
    | single hdep =>
      obtain ⟨d, hd, rfl⟩ := (dep_iff ha hs).1 hdep
      rw [(hself d hd).1]
      rfl
    | @head id id' hdep hrest ih =>
      obtain ⟨t, ht, rfl, d, hd, rfl⟩ := dep_step ha hdep
      rw [(h.met ha t ht ih d hd).1]
      rfl
  intro t ht d hd
  rcases ht.2 with heq | hanc
  · obtain rfl := List.inj_on_of_nodup_map ha.ids ht.1 hs heq
    exact hself d hd
  · exact h.met ha t ht.1 (hsome t.id hanc) d hd

/-- An alive step has a consistent way to it. -/
theorem Alive.consistent (ha : Accepted definition.steps) (hs : s ∈ definition.steps)
    (h : Alive definition subject s) : Consistent definition.steps s := by
  obtain ⟨state, hx, -, he⟩ := h
  have hleads := hx.leads ha hs he
  constructor
  · exact fun t ht d hd => (hleads t ht d hd).2
  · intro t t' ht ht' d hd d' hd' heq
    have h1 := (hleads t ht d hd).1
    have h2 := (hleads t' ht' d' hd').1
    rw [heq, h2] at h1
    exact (Option.some.inj h1).symm

/-- **Along a consistent way**, the steps can be executed one after the other. -/
theorem Consistent.alive (ha : Accepted definition.steps) (hs : s ∈ definition.steps)
    (hw : Wanted definition.steps subject s) (h : Consistent definition.steps s) : Alive definition subject s := by
  classical
  -- the outcome that each step on the way is wanted with
  have hwanted : ∀ id, ∃ o, Ancestor definition.steps id s.id →
      ∀ t, Leads definition.steps t s → ∀ d ∈ t.dependsOn, d.stepId = id → d.outcome = o := by
    intro id
    by_cases hanc : Ancestor definition.steps id s.id
    · obtain ⟨t, ht, d, hd, rfl⟩ := hanc.dependent ha
      exact ⟨d.outcome, fun _ t' ht' d' hd' heq => h.single t' t ht' ht d' hd' d hd heq⟩
    · exact ⟨.unknown, fun hx => absurd hx hanc⟩
  choose outcome houtcome using hwanted
  obtain ⟨A, hA⟩ : ∃ A : Finset String, ∀ id, id ∈ A ↔ Ancestor definition.steps id s.id := by
    refine ⟨(definition.steps.map (·.id)).toFinset.filter fun id => Ancestor definition.steps id s.id, fun id => ?_⟩
    rw [Finset.mem_filter, List.mem_toFinset, List.mem_map]
    refine ⟨(·.2), fun hanc => ⟨?_, hanc⟩⟩
    obtain ⟨t, ht, d, hd, rfl⟩ := hanc.dependent ha
    obtain ⟨producer, hp, hid, -⟩ := ht.dependency ha hd
    exact ⟨producer, hp.1, hid⟩
  -- a step whose dependencies were executed is eligible
  have hready : ∀ {state : WorkflowState} {D : Finset String} {t : WorkflowStep},
      Executed definition subject state → (∀ id, state.outcomes id = if id ∈ D then some (outcome id) else none) →
      Leads definition.steps t s → t.id ∉ D → (∀ d ∈ t.dependsOn, d.stepId ∈ D) → t.id ∈ eligibleSteps state := by
    intro state D t hx hout ht htD hdeps
    obtain ⟨hdef, hsub, hpend⟩ := hx.definition_eq
    have ha' : Accepted state.definition.steps := hdef ▸ ha
    rw [mem_eligibleSteps ha' (hdef ▸ ht.1), eligible_iff, hpend, hsub]
    refine ⟨by rw [hout, if_neg htD], List.not_mem_nil, hw t ht, fun d hd => ?_⟩
    obtain ⟨producer, -, hid, -, hanc⟩ := ht.dependency ha hd
    rw [met_iff ha', hout, if_pos (hdeps d hd), hdef]
    refine ⟨?_, h.taken t ht d hd⟩
    rw [houtcome d.stepId (hid ▸ hanc) t ht d hd rfl]
  obtain ⟨state, hx, hout⟩ : ∃ state, Executed definition subject state ∧
      ∀ id, state.outcomes id = if id ∈ A then some (outcome id) else none := by
    refine grow (R := Dep (dependencies definition.steps)) (P := fun D => ∃ state,
      Executed definition subject state ∧ ∀ id, state.outcomes id = if id ∈ D then some (outcome id) else none)
      (fun id hid => ?_) ⟨_, .start, fun id => by simp⟩ ?_
    · exact (ha.acc s hs).inv_of_transGen ((hA id).1 hid)
    · rintro D id - hid hD hdeps ⟨state, hx, hout⟩
      obtain ⟨t', ht', d', hd', rfl⟩ := ((hA id).1 hid).dependent ha
      obtain ⟨t, ht, heq, hkind, -⟩ := ht'.dependency ha hd'
      rw [← heq] at hid hD hdeps ⊢
      have he : t.id ∈ eligibleSteps state := by
        refine hready hx hout ht hD fun d hd => ?_
        obtain ⟨producer, -, hpid, -, hanc⟩ := ht.dependency ha hd
        refine hdeps d.stepId ((hA _).2 (hpid ▸ hanc)) ((dep_iff ha ht.1).2 ⟨d, hd, rfl⟩)
      refine ⟨_, @Executed.execute definition subject state t (outcome t.id) hx ht.1 he ?_, fun id => ?_⟩
      · rw [← houtcome t.id ((hA _).1 hid) t' ht' d' hd' heq.symm]
        exact hkind
      · show Function.update state.outcomes t.id (some (outcome t.id)) id = _
        by_cases hx : id = t.id
        · subst hx
          rw [Function.update_self, if_pos (Finset.mem_insert_self _ _)]
        · rw [Function.update_of_ne hx, hout]
          simp only [Finset.mem_insert, hx, false_or]
  refine ⟨state, hx, fun id => ?_, hready hx hout ⟨hs, Or.inl rfl⟩ ?_ fun d hd => ?_⟩
  · rw [hout, ← hA]
    split_ifs with hid <;> simp [hid]
  · rw [hA]
    exact ha.acyclic s hs
  · obtain ⟨producer, -, hpid, -, hanc⟩ := Leads.dependency ha ⟨hs, Or.inl rfl⟩ hd
    exact (hA _).2 (hpid ▸ hanc)

/-! ## The result -/

/-- **An accepted definition** has no cycle, takes its inputs from prior steps,
    and has no dead steps exactly if the way to each step that is wanted under
    some subject is consistent. -/
theorem definition_sound_alive_iff {double : String → Json} {bytes : Bytes}
    (h : parseWorkflowDefinition double bytes = some definition) :
    Acyclic definition.steps ∧ InputsFromAncestors definition.steps ∧
      (NoDeadSteps definition ↔ ∀ s ∈ definition.steps, (∃ subject, Wanted definition.steps subject s) →
        Consistent definition.steps s) := by
  have ha := accepted_of_parse h
  refine ⟨ha.acyclic, ha.inputs, ?_⟩
  constructor
  · rintro hn s hs ⟨subject, hw⟩
    exact (hn s hs subject hw).consistent ha hs
  · exact fun hc s hs subject hw => (hc s hs ⟨subject, hw⟩).alive ha hs hw

end

namespace Sample

/-- Braces and quotes are written as parentheses and apostrophes. -/
def letter (c : Char) : Char :=
  if c = '(' then '\x7b' else if c = ')' then '\x7d' else if c = '\'' then '"' else c

def start : String :=
  "('schemaVersion':'pa-workflow-definition/v1','workflowId':'pair','version':'v1',
    'requiredCapabilities':['operator.foreground','artifact.paired-publication'],'steps':["

/-- A decision, up to the target of an approval. -/
def decision : String :=
  "('id':'decide','order':1,'title':'decide','kind':'decision','owner':'operator','dependsOn':[],'when':true,
    'inputs':[('name':'bundle','schemaVersion':'pa-review-bundle/v1','source':'context','field':'bundle')],
    'operation':('id':'decision.package','version':'v1'),'authorization':[],'effects':['operator.capture'],
    'outputs':[('name':'decision','schemaVersion':'pa-decision/v1')],
    'verification':[('id':'decision.issued','version':'v1','inputs':['bundle'])],'transitions':('approved':'"

/-- The rest of the decision. -/
def policy : String :=
  "','rejected':'blocked','changes-requested':'blocked','cancelled':'cancelled'),
    'failurePolicy':('strategy':'stop','correctionOwner':'operator')),"

/-- A publication after an approval. -/
def publication : String :=
  "('id':'publish','order':2,'title':'publish','kind':'publication','owner':'tickets',
    'dependsOn':[('stepId':'decide','outcome':'approved')],'when':true,
    'inputs':[('name':'bundle','schemaVersion':'pa-review-bundle/v1','source':'context','field':'bundle'),
    ('name':'decision','schemaVersion':'pa-decision/v1','source':'output','stepId':'decide','output':'decision')],
    'operation':('id':'publication.pair','version':'v1'),'authorization':['artifact.publish-pair'],
    'effects':['artifact.write-pair'],'outputs':[('name':'pair','schemaVersion':'pa-publication-pair/v1')],
    'verification':[('id':'publication.exact-pair','version':'v1','inputs':['bundle','decision'])],
    'transitions':('completed':'completed','failed':'blocked','unknown':'blocked'),
    'failurePolicy':('strategy':'stop','correctionOwner':'tickets'))])"

/-- The text of a definition with both, where an approval goes to `approved`. -/
def source (approved : String) : List Char :=
  (start.toList ++ decision.toList ++ approved.toList ++ policy.toList ++ publication.toList).map letter

/-- The bytes of a text. -/
def utf8 (text : List Char) : Bytes := (String.ofList text).toUTF8.data.toList

def double : String → Json := .float

def subject : Subject := ⟨"pa", "PA-001", "builder", "implement", "fresh"⟩

theorem utf8_eq (text : List Char) : utf8 text = text.flatMap String.utf8EncodeChar := by
  rw [utf8, String.toUTF8_eq_toByteArray, String.toByteArray_ofList, List.utf8Encode, List.toList_data_toByteArray]

theorem length_flatMap_le (text : List Char) :
    (text.flatMap String.utf8EncodeChar).length ≤ 4 * text.length := by
  induction text with
  | nil => simp
  | cons c text ih =>
    have := Char.utf8Size_le_four c
    rw [List.flatMap_cons, List.length_append, String.length_utf8EncodeChar, List.length_cons]
    omega

theorem fromUTF8?_toUTF8 (s : String) : String.fromUTF8? s.toUTF8 = some s := by
  rw [String.fromUTF8?]
  exact dif_pos s.isValidUTF8

theorem strictJson_bytes {text : List Char} (h : text.length ≤ 262144) (hb : text.head? = some '\x7b') :
    strictJson double (utf8 text) = readJson double text := by
  have hsize : ¬ (1048576 < (utf8 text).length ∨ [0xef, 0xbb, 0xbf].isPrefixOf (utf8 text) = true) := by
    have hlen := length_flatMap_le text
    obtain ⟨rest, rfl⟩ := List.head?_eq_some_iff.1 hb
    rw [utf8_eq]
    rintro (hlong | hmark)
    · omega
    · have hbrace : String.utf8EncodeChar '\x7b' = [0x7b] := by decide
      rw [List.flatMap_cons, hbrace] at hmark
      exact absurd hmark (by simp [List.isPrefixOf])
  rw [strictJson, if_neg hsize, utf8, Array.toArray_toList]
  show (String.fromUTF8? (String.ofList text).toUTF8).bind _ = _
  rw [fromUTF8?_toUTF8, Option.bind_some, String.toList_ofList]

theorem parses {approved : String} {good : WorkflowDefinition → Bool} {text : List Char}
    (htext : source approved = text) (h : text.length ≤ 262144) (hb : text.head? = some '\x7b')
    (hgood : ((readJson double text).bind definition).any good = true) :
    ∃ d, parseWorkflowDefinition double (utf8 (source approved)) = some d ∧ good d = true := by
  rw [parseWorkflowDefinition, htext, strictJson_bytes h hb]
  exact (Option.any_eq_true _ _).1 hgood

/-- The step `publish` waits for an approval that leads elsewhere, and all conditions hold. -/
def dead (definition : WorkflowDefinition) : Bool :=
  (definition.steps.any fun s => s.id == "publish" && s.dependsOn.any fun d => d.outcome == .approved) &&
    definition.steps.all fun p => p.transitions.lookup .approved != some "publish" &&
      evaluatePredicate (context subject) p.when

/-- The one dependency is on an approval, and it is taken. -/
def taken (definition : WorkflowDefinition) : Bool :=
  definition.steps.all fun s => s.dependsOn.all fun d => d.stepId == "decide" && d.outcome == .approved &&
    s.id == "publish" && definition.steps.any fun p => p.id == "decide" &&
      p.transitions.lookup .approved == some "publish"

set_option maxRecDepth 4000 in
theorem parses_completed : ∃ d, parseWorkflowDefinition double (utf8 (source "completed")) = some d ∧ dead d = true := by
  have h1 : start.toList = _ := String.toList_ofList
  have h2 : decision.toList = _ := String.toList_ofList
  have h3 : policy.toList = _ := String.toList_ofList
  have h4 : publication.toList = _ := String.toList_ofList
  have h5 : "completed".toList = _ := String.toList_ofList
  refine parses (by rw [source, h1, h2, h3, h4, h5]) ?_ ?_ ?_
  · decide +kernel
  · decide +kernel
  · decide +kernel

set_option maxRecDepth 4000 in
theorem parses_publish : ∃ d, parseWorkflowDefinition double (utf8 (source "publish")) = some d ∧ taken d = true := by
  have h1 : start.toList = _ := String.toList_ofList
  have h2 : decision.toList = _ := String.toList_ofList
  have h3 : policy.toList = _ := String.toList_ofList
  have h4 : publication.toList = _ := String.toList_ofList
  have h5 : "publish".toList = _ := String.toList_ofList
  refine parses (by rw [source, h1, h2, h3, h4, h5]) ?_ ?_ ?_
  · decide +kernel
  · decide +kernel
  · decide +kernel

theorem consistent {definition : WorkflowDefinition} (h : taken definition = true) {s : WorkflowStep} :
    Consistent definition.steps s := by
  have hd : ∀ t ∈ definition.steps, ∀ d ∈ t.dependsOn, d.outcome = .approved ∧ Taken definition.steps t d := by
    intro t ht d hd
    have h := List.all_eq_true.1 (List.all_eq_true.1 h t ht) d hd
    simp only [Bool.and_eq_true, beq_iff_eq, List.any_eq_true] at h
    obtain ⟨⟨⟨hid, ho⟩, hs⟩, p, hp, hpid, hlook⟩ := h
    refine ⟨ho, by rw [ho]; decide, p, hp, hpid.trans hid.symm, ?_⟩
    rw [ho, hs, hlook]
  constructor
  · exact fun t ht d hdt => (hd t ht.1 d hdt).2
  · intro t t' ht ht' d hdt d' hdt' _
    rw [(hd t ht.1 d hdt).1, (hd t' ht'.1 d' hdt').1]

/-- Where an approval leads to `publish`, no step is dead. -/
theorem definition_sound_alive_iff_publish : ∃ d, parseWorkflowDefinition double (utf8 (source "publish")) = some d ∧
    NoDeadSteps d := by
  obtain ⟨d, hd, ht⟩ := parses_publish
  exact ⟨d, hd, (definition_sound_alive_iff hd).2.2.2 fun _ _ _ => consistent ht⟩

/-- Where an approval ends the workflow, `publish` is accepted and never eligible. -/
theorem accepted_dead : ∃ d, parseWorkflowDefinition double (utf8 (source "completed")) = some d ∧ ¬ NoDeadSteps d := by
  obtain ⟨d, hd, hdead⟩ := parses_completed
  refine ⟨d, hd, fun hn => ?_⟩
  simp only [dead, Bool.and_eq_true, List.any_eq_true, List.all_eq_true, beq_iff_eq, bne_iff_ne] at hdead
  obtain ⟨⟨s, hs, hid, dep, hdep, ho⟩, hall⟩ := hdead
  have hc := (hn s hs subject fun t ht => (hall t ht.1).2).consistent (accepted_of_parse hd) hs
  obtain ⟨-, p, hp, -, hlook⟩ := hc.taken s ⟨hs, Or.inl rfl⟩ dep hdep
  rw [ho, hid] at hlook
  exact (hall p hp).1 hlook

end Sample

end PaPlatform.Workflow
