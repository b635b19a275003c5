/-
  The service writes nothing that its own replay rejects, unless the host gives it a
  capture for the second time, or more evidence than a journal entry may have.
-/
import PaPlatform.Workflow.Attempts
import PaPlatform.Workflow.Service

namespace PaPlatform.Workflow.Replay

open Js Guard

/-! ## What is read is read again -/

theorem text_self {p : String → Bool} {max : ℕ} {v : Json} {s : String} (h : text p max v = some s) :
    text p max (.str s) = some s := by
  unfold text at h
  split at h
  · split_ifs at h with hs
    rw [Option.some.injEq] at h
    rw [← h, text, if_pos hs]
  · cases h

theorem text_eq {p : String → Bool} {max : ℕ} {s t : String} (h : text p max (.str s) = some t) : t = s := by
  unfold text at h
  dsimp only at h
  split_ifs at h
  exact (Option.some.inj h).symm

theorem fieldOf_self {r : Row} {key : String} {p : String → Bool} {max : ℕ} {s : String}
    (h : fieldOf r key (text p max) = some s) : text p max (.str s) = some s := by
  obtain ⟨v, -, hv⟩ := Option.bind_eq_some_iff.1 h
  exact text_self hv

theorem mapM_length {α : Type} {parse : Json → Option α} {vs : List Json} {l : List α} (h : vs.mapM parse = some l) :
    l.length = vs.length := by
  induction vs generalizing l with
  | nil =>
    cases h
    rfl
  | cons v vs ih =>
    simp only [List.mapM_cons, Option.bind_eq_bind, Option.bind_eq_some_iff, Option.pure_def, Option.some.injEq] at h
    obtain ⟨a, -, l, hl, rfl⟩ := h
    rw [List.length_cons, List.length_cons, ih hl]

theorem mem_of_mapM_some {α : Type} {parse : Json → Option α} {vs : List Json} {l : List α} {a : α}
    (h : vs.mapM parse = some l) (ha : a ∈ l) : ∃ v ∈ vs, parse v = some a := by
  induction vs generalizing l with
  | nil =>
    cases h
    cases ha
  | cons v vs ih =>
    simp only [List.mapM_cons, Option.bind_eq_bind, Option.bind_eq_some_iff, Option.pure_def, Option.some.injEq] at h
    obtain ⟨b, hb, l, hl, rfl⟩ := h
    rcases List.mem_cons.1 ha with rfl | ha
    · exact ⟨v, List.mem_cons_self .., hb⟩
    · obtain ⟨w, hw, hp⟩ := ih hl ha
      exact ⟨w, List.mem_cons_of_mem _ hw, hp⟩

theorem array_length {α : Type} {parse : Json → Option α} {max : ℕ} {v : Json} {l : List α}
    (h : array parse max v = some l) : l.length ≤ max := by
  unfold array at h
  split at h
  · split_ifs at h with hlen
    rw [mapM_length h]
    exact hlen
  · cases h

theorem mapM_map {α : Type} {parse : Json → Option α} {write : α → Json} {l : List α}
    (h : ∀ a ∈ l, parse (write a) = some a) : (l.map write).mapM parse = some l := by
  induction l with
  | nil => rfl
  | cons a l ih =>
    rw [List.map_cons, List.mapM_cons, h a (List.mem_cons_self ..), ih fun b hb => h b (List.mem_cons_of_mem _ hb)]
    rfl

theorem array_map {α : Type} {parse : Json → Option α} {write : α → Json} {max : ℕ} {l : List α}
    (hlen : l.length ≤ max) (h : ∀ a ∈ l, parse (write a) = some a) :
    array parse max (.arr (l.map write)) = some l := by
  rw [array, if_pos (by rwa [List.length_map]), mapM_map h]

theorem permission_self (p : PackagePermission) :
    oneOf PackagePermission.text packagePermissions (.str p.text) = some p := by
  cases p <;> rfl

theorem permissions_length {l : List PackagePermission} (h : l.Nodup) : l.length ≤ 256 := by
  have hsub : l ⊆ packagePermissions := by
    intro p _
    cases p <;> decide
  exact (List.subperm_of_subset h hsub).length_le.trans (by decide)

theorem permissions_self (l : Distinct PackagePermission) :
    distinct (oneOf PackagePermission.text packagePermissions) (permissionsJson l.1) = some l := by
  have harray : array (oneOf PackagePermission.text packagePermissions) 256 (permissionsJson l.1) = some l.1 :=
    array_map (permissions_length l.2) fun p _ => permission_self p
  simp only [distinct, Option.bind_eq_bind, harray, Option.bind_some, dif_pos l.2]
  rfl

theorem outcome_self {kind : StepKind} {o : StepOutcome} (h : o ∈ stepOutcomes kind) :
    oneOf StepOutcome.text (stepOutcomes kind) (.str o.text) = some o := by
  cases kind <;> cases o <;> first | rfl | simp [stepOutcomes] at h

/-! ## Records -/

/-- A row with exactly the required keys. -/
theorem object_keys {required : List String} {r : Row} (h : r.map (·.1) = required) :
    object required [] (.obj r) = some r := by
  subst h
  have hget : ((r.map (·.1)).all fun key => (r.lookup key).isSome) = true := by
    rw [List.all_map, List.all_eq_true]
    intro f hf
    rw [Function.comp_apply, List.lookup_isSome_iff]
    exact ⟨f, hf, beq_self_eq_true f.1⟩
  have hown : (r.all fun f => (r.map (·.1)).contains f.1 || [].contains f.1) = true := by
    rw [List.all_eq_true]
    intro f hf
    have hmem := List.mem_map_of_mem (f := (·.1)) hf
    simp [hmem]
  rw [object, if_pos ⟨hget, hown⟩]

theorem fieldOf_lookup {α : Type} {r : Row} {key : String} {v : Json} {read : Json → Option α} {a : α}
    (h : r.lookup key = some v) (hv : read v = some a) : fieldOf r key read = some a := by
  rw [fieldOf, h, Option.bind_some, hv]

theorem evidenceRef_json {v : Json} {e : EvidenceRef} (h : evidenceRef v = some e) : evidenceRef e.json = some e := by
  simp only [evidenceRef, Option.bind_eq_bind, Option.bind_eq_some_iff, Option.pure_def, Option.some.injEq] at h
  obtain ⟨r, -, -, -, ref, hr, version, hv, sha, hs, rfl⟩ := h
  have hr : anyText (.str ref) = some ref := fieldOf_self hr
  have hv : anyText (.str version) = some version := fieldOf_self hv
  have hs : shaText (.str sha) = some sha := fieldOf_self hs
  simp only [evidenceRef, EvidenceRef.json, Option.bind_eq_bind]
  rw [object_keys (by rfl)]
  simp [fieldOf, List.lookup_cons, literal, hr, hv, hs]

theorem parseCaller_json {v : Json} {c : WorkflowCaller} (h : parseCaller v = some c) :
    parseCaller c.json = some c := by
  simp only [parseCaller, Option.bind_eq_bind, Option.bind_eq_some_iff, Option.pure_def, Option.some.injEq] at h
  obtain ⟨r, -, deploymentId, h1, key, h2, root, h3, ticket, h4, team, h5, mode, h6, sha, h7, rfl⟩ := h
  have h1 : text deploymentIdOk 4096 (.str deploymentId) = some deploymentId := fieldOf_self h1
  have h2 : idText (.str key) = some key := fieldOf_self h2
  have h3 : anyText (.str root) = some root := fieldOf_self h3
  have h4 : workflowTicket (.str ticket) = some ticket := fieldOf_self h4
  have h5 : idText (.str team) = some team := fieldOf_self h5
  have h6 : idText (.str mode) = some mode := fieldOf_self h6
  have h7 : shaText (.str sha) = some sha := fieldOf_self h7
  simp only [parseCaller, WorkflowCaller.json, Option.bind_eq_bind]
  rw [object_keys (by rfl)]
  simp [fieldOf, List.lookup_cons, h1, h2, h3, h4, h5, h6, h7]

theorem parseDecision_json {v : Json} {d : WorkflowDecision} (h : parseDecision v = some d) :
    parseDecision d.json = some d := by
  simp only [parseDecision, Option.bind_eq_bind, Option.bind_eq_some_iff, Option.pure_def, Option.some.injEq] at h
  obtain ⟨r, -, issuedAt, h1, -, -, id, h2, -, -, runId, h3, stepId, h4, ref, h5, sha, h6, outcome, h7, permissions, -,
    evidence, h8, principal, h9, rfl⟩ := h
  have h1 : text isIssuedAt 4096 (.str issuedAt) = some issuedAt := fieldOf_self h1
  have h2 : idText (.str id) = some id := fieldOf_self h2
  have h3 : idText (.str runId) = some runId := fieldOf_self h3
  have h4 : idText (.str stepId) = some stepId := fieldOf_self h4
  have h5 : idText (.str ref) = some ref := fieldOf_self h5
  have h6 : shaText (.str sha) = some sha := fieldOf_self h6
  have h9 : anyText (.str principal) = some principal := fieldOf_self h9
  obtain ⟨w, -, hw⟩ := Option.bind_eq_some_iff.1 h7
  obtain ⟨w', -, hw'⟩ := Option.bind_eq_some_iff.1 h8
  have h7 := outcome_self (oneOf_mem hw)
  have h8 := evidenceRef_json hw'
  have hp := permissions_self permissions
  simp only [parseDecision, WorkflowDecision.json, Option.bind_eq_bind, Option.bind_eq_some_iff]
  exact ⟨_, object_keys (by rfl), issuedAt, fieldOf_lookup rfl h1, _, fieldOf_lookup rfl rfl, id, fieldOf_lookup rfl h2,
    _, fieldOf_lookup rfl rfl, runId, fieldOf_lookup rfl h3, stepId, fieldOf_lookup rfl h4, ref, fieldOf_lookup rfl h5,
    sha, fieldOf_lookup rfl h6, outcome, fieldOf_lookup rfl h7, permissions, fieldOf_lookup rfl hp, evidence,
    fieldOf_lookup rfl h8, principal, fieldOf_lookup rfl h9, rfl⟩

theorem parseIntent_json {i : EffectIntent} (h1 : idText (.str i.intentId) = some i.intentId)
    (h2 : idText (.str i.runId) = some i.runId) (h3 : idText (.str i.stepId) = some i.stepId)
    (h4 : idText (.str i.owner) = some i.owner) (h5 : idText (.str i.decisionId) = some i.decisionId)
    (h6 : shaText (.str i.subjectSha256) = some i.subjectSha256) : parseIntent i.json = some i := by
  simp only [parseIntent, EffectIntent.json, Option.bind_eq_bind]
  rw [object_keys (by rfl)]
  simp [fieldOf, List.lookup_cons, h1, h2, h3, h4, h5, h6]

/-! ## Clean states -/

/-- A text that is read as an id. -/
def IsName (s : String) : Prop := idText (.str s) = some s

/-- The names in a state are ids, and its coordinator is read as it is. -/
structure Clean (s : WorkflowRun) : Prop where
  coordinator : parseCaller s.workflowCoordinator.json = some s.workflowCoordinator
  subject : shaText (.str s.subjectSha256) = some s.subjectSha256
  steps : ∀ step ∈ s.definition.steps, IsName step.id ∧ IsName step.owner
  decisions : ∀ d ∈ s.decisions, IsName d.decisionId
  pending : ∀ i ∈ s.pending, IsName i.intentId

/-- A character of an id. -/
theorem idChar_bounds {c : Char} (h : (isLower c || isDigit c || c == '.' || c == '-') = true) :
    45 ≤ c.toNat ∧ c.toNat ≤ 122 := by
  simp only [isLower, isDigit, Bool.or_eq_true, Bool.and_eq_true, decide_eq_true_eq, beq_iff_eq, Char.le_def] at h
  rcases h with ((⟨h₁, h₂⟩ | ⟨h₁, h₂⟩) | rfl) | rfl
  · exact ⟨le_trans (by decide) (UInt32.le_iff_toNat_le.1 h₁), UInt32.le_iff_toNat_le.1 h₂⟩
  · exact ⟨le_trans (by decide) (UInt32.le_iff_toNat_le.1 h₁), le_trans (UInt32.le_iff_toNat_le.1 h₂) (by decide)⟩
  · decide
  · decide

theorem isName_of_isId {s : String} (h : isId s = true) : IsName s := by
  have hid := h
  simp only [isId, Bool.and_eq_true, decide_eq_true_eq] at h
  obtain ⟨⟨hhead, hlen⟩, hall⟩ := h
  have hb : ∀ c ∈ s.toList, 45 ≤ c.toNat ∧ c.toNat ≤ 122 := fun c hc => idChar_bounds (List.all_eq_true.1 hall c hc)
  have hspace : ∀ c ∈ s.toList, isSpace c = false := by
    intro c hc
    obtain ⟨h₁, h₂⟩ := hb c hc
    simp only [isSpace, Bool.or_eq_false_iff, Bool.and_eq_false_iff, decide_eq_false_iff_not,
      beq_eq_false_iff_ne, ne_eq]
    omega
  have hcontrol : s.toList.any isControlOrFormat = false := by
    rw [List.any_eq_false]
    intro c hc
    obtain ⟨h₁, h₂⟩ := hb c hc
    simp only [isControlOrFormat, Bool.or_eq_true, Bool.and_eq_true, decide_eq_true_eq, beq_iff_eq]
    omega
  have hne : s ≠ "" := by
    rintro rfl
    simp at hhead
  have hunits : utf16Length s ≤ 4096 := by
    have hsum : (s.toList.map fun c => if c.toNat < 0x10000 then 1 else 2).sum = s.toList.length := by
      rw [List.map_congr_left (g := fun _ => 1) fun c hc => if_pos (by have hc := hb c hc; omega)]
      simp
    rw [utf16Length, hsum]
    omega
  have htrimmed : trimmed s = true := by
    rw [trimmed, Bool.and_eq_true, Bool.not_eq_true', Bool.not_eq_true']
    constructor
    · rw [Option.any_eq_false]
      intro c hc
      simp [hspace c (List.mem_of_head? hc)]
    · rw [Option.any_eq_false]
      intro c hc
      simp [hspace c (List.mem_of_getLast? hc)]
  rw [IsName, idText, text, if_pos ⟨hne, hunits, htrimmed, hcontrol, hid⟩]

/-- The id of a new intent. -/
theorem uuid_name (uuid : Uuid) : IsName ("intent-" ++ uuid.1) := by
  obtain ⟨u, hlen, hall⟩ := uuid
  refine isName_of_isId ?_
  simp only [isId, String.toList_append, Bool.and_eq_true, decide_eq_true_eq, List.all_append, List.length_append]
  refine ⟨⟨?_, ?_⟩, by decide, ?_⟩
  · rw [List.head?_append, show "intent-".toList.head? = some 'i' by decide, Option.some_or]
    decide
  · have hseven : "intent-".toList.length = 7 := by decide
    omega
  · rw [List.all_eq_true] at hall ⊢
    intro c hc
    have hchar := hall c hc
    simp only [Bool.or_eq_true] at hchar ⊢
    tauto

theorem Journal.subject_sha {j : Journal} {sha : String} {b : ReviewBundle} (h : j.subject sha = .ok b) :
    shaText (.str sha) = some sha := by
  simp only [Journal.subject, Journal.snapshot, bind_eq_ok, contract_eq_ok] at h
  obtain ⟨raw, ⟨t, ht, -⟩, -⟩ := h
  rw [ht, text_eq ht]

theorem contract_owner {id : String} {contract : OperationContract} (h : operationContract id = some contract) :
    IsName contract.owner := by
  have hmem := List.mem_of_find?_eq_some h
  simp only [operations, List.mem_cons, List.not_mem_nil, or_false] at hmem
  rcases hmem with rfl | rfl | rfl | rfl | rfl <;> rfl

theorem step_names {v : Json} {s : WorkflowStep} (h : step v = some s) : IsName s.id ∧ IsName s.owner := by
  unfold step at h
  obtain ⟨r, -, h⟩ := Option.bind_eq_some_iff.1 h
  obtain ⟨kind, -, h⟩ := Option.bind_eq_some_iff.1 h
  obtain ⟨op, -, h⟩ := Option.bind_eq_some_iff.1 h
  obtain ⟨operation, -, h⟩ := Option.bind_eq_some_iff.1 h
  obtain ⟨_, _, h⟩ := Option.bind_eq_some_iff.1 h
  obtain ⟨contract, hcontract, h⟩ := Option.bind_eq_some_iff.1 h
  obtain ⟨_, _, h⟩ := Option.bind_eq_some_iff.1 h
  obtain ⟨owner, howner, h⟩ := Option.bind_eq_some_iff.1 h
  obtain ⟨transitions, -, h⟩ := Option.bind_eq_some_iff.1 h
  obtain ⟨inputs, -, h⟩ := Option.bind_eq_some_iff.1 h
  obtain ⟨_, _, h⟩ := Option.bind_eq_some_iff.1 h
  obtain ⟨outputs, -, h⟩ := Option.bind_eq_some_iff.1 h
  obtain ⟨_, _, h⟩ := Option.bind_eq_some_iff.1 h
  obtain ⟨_, _, h⟩ := Option.bind_eq_some_iff.1 h
  obtain ⟨authorization, -, h⟩ := Option.bind_eq_some_iff.1 h
  obtain ⟨_, _, h⟩ := Option.bind_eq_some_iff.1 h
  obtain ⟨effects, -, h⟩ := Option.bind_eq_some_iff.1 h
  obtain ⟨_, _, h⟩ := Option.bind_eq_some_iff.1 h
  obtain ⟨verification, -, h⟩ := Option.bind_eq_some_iff.1 h
  obtain ⟨_, _, h⟩ := Option.bind_eq_some_iff.1 h
  obtain ⟨failure, -, h⟩ := Option.bind_eq_some_iff.1 h
  obtain ⟨id, hid, h⟩ := Option.bind_eq_some_iff.1 h
  obtain ⟨order, -, h⟩ := Option.bind_eq_some_iff.1 h
  obtain ⟨title, -, h⟩ := Option.bind_eq_some_iff.1 h
  have hnames : s.id = id ∧ s.owner = owner := by
    dsimp only at h
    split at h <;>
    · obtain ⟨description, -, h⟩ := Option.bind_eq_some_iff.1 h
      obtain ⟨dependsOn, -, h⟩ := Option.bind_eq_some_iff.1 h
      obtain ⟨when, -, h⟩ := Option.bind_eq_some_iff.1 h
      obtain ⟨targets, -, h⟩ := Option.bind_eq_some_iff.1 h
      obtain ⟨strategy, -, h⟩ := Option.bind_eq_some_iff.1 h
      obtain ⟨correctionOwner, -, h⟩ := Option.bind_eq_some_iff.1 h
      cases h
      exact ⟨rfl, rfl⟩
  obtain ⟨w, -, hw⟩ := Option.bind_eq_some_iff.1 howner
  obtain ⟨-, -, rfl⟩ := Option.map_eq_some_iff.1 hw
  rw [hnames.1, hnames.2]
  exact ⟨fieldOf_self hid, contract_owner hcontract⟩

theorem definition_names {double : String → Json} {raw : Bytes} {d : WorkflowDefinition}
    (h : parseWorkflowDefinition double raw = some d) : ∀ s ∈ d.steps, IsName s.id ∧ IsName s.owner := by
  obtain ⟨v, -, h⟩ := Option.bind_eq_some_iff.1 h
  simp only [definition, Option.bind_eq_bind, Option.bind_eq_some_iff, Option.pure_def, Option.some.injEq] at h
  obtain ⟨r, -, -, -, steps, hsteps, -, -, -, -, -, -, -, -, -, -, -, -, rfl⟩ := h
  intro s hs
  obtain ⟨w, -, hw⟩ := Option.bind_eq_some_iff.1 hsteps
  unfold array at hw
  split at hw
  · split_ifs at hw
    obtain ⟨x, -, hx⟩ := mem_of_mapM_some hw hs
    exact step_names hx
  · cases hw

variable {j : Journal} {s s' : WorkflowRun} {e : Entry} {data : Json}

theorem clean_admitted {runId : String} (h : j.admitted runId data = .ok s) : Clean s := by
  simp only [Journal.admitted, bind_eq_ok, throwIf_eq_ok, exists_const, pure_eq_ok, contract_eq_ok] at h
  obtain ⟨a, -, sha, -, dsha, -, raw, -, d, hd, subject, hsubject, -, rev, -, caller, hcaller, -, res, -, _, -, rfl⟩ := h
  obtain ⟨w, -, hw⟩ := Option.bind_eq_some_iff.1 hcaller
  exact ⟨parseCaller_json hw, Journal.subject_sha hsubject, definition_names hd, by simp, by simp⟩

theorem decision?_name {d : WorkflowDecision} (h : e.decision? = some d) : IsName d.decisionId := by
  unfold Entry.decision? at h
  split_ifs at h
  obtain ⟨v, -, hv⟩ := Option.bind_eq_some_iff.1 h
  simp only [parseDecision, Option.bind_eq_bind, Option.bind_eq_some_iff, Option.pure_def, Option.some.injEq] at hv
  obtain ⟨r, -, -, -, -, -, id, hid, -, -, -, -, -, -, -, -, -, -, -, -, -, -, -, -, -, -, rfl⟩ := hv
  exact fieldOf_self hid

theorem intent?_name {i : EffectIntent} (h : e.intent? = some i) : IsName i.intentId := by
  unfold Entry.intent? at h
  split_ifs at h
  obtain ⟨v, -, hv⟩ := Option.bind_eq_some_iff.1 h
  simp only [parseIntent, Option.bind_eq_bind, Option.bind_eq_some_iff, Option.pure_def, Option.some.injEq] at hv
  obtain ⟨r, -, id, hid, -, -, -, -, -, -, -, -, -, -, rfl⟩ := hv
  exact fieldOf_self hid

theorem clean_applied (hc : Clean s) (h : Applied j s e s') : Clean s' := by
  cases h with
  | revised ht hnext => exact ⟨hc.coordinator, Journal.subject_sha hnext, hc.steps, hc.decisions, hc.pending⟩
  | adopted ht hpurpose hid hteam hmode hcaller hread =>
    obtain ⟨v, hv⟩ := hread
    exact ⟨parseCaller_json hv, hc.subject, hc.steps, hc.decisions, hc.pending⟩
  | decided hd =>
    refine ⟨hc.coordinator, hc.subject, hc.steps, fun k hk => ?_, hc.pending⟩
    rcases List.mem_append.1 hk with hk | hk
    · exact hc.decisions k hk
    · rw [List.mem_singleton.1 hk]
      exact decision?_name hd
  | revoked => exact ⟨hc.coordinator, hc.subject, hc.steps, hc.decisions, hc.pending⟩
  | intended hi =>
    refine ⟨hc.coordinator, hc.subject, hc.steps, hc.decisions, fun k hk => ?_⟩
    rcases List.mem_append.1 hk with hk | hk
    · exact hc.pending k hk
    · rw [List.mem_singleton.1 hk]
      exact intent?_name hi
  | reconciled => exact ⟨hc.coordinator, hc.subject, hc.steps, hc.decisions, hc.pending⟩
  | settled =>
    exact ⟨hc.coordinator, hc.subject, hc.steps, hc.decisions, fun i hi => hc.pending i (List.mem_filter.1 hi).1⟩

theorem clean_run {s₀ : WorkflowRun} {h : History} (h₀ : Clean s₀) (hr : Run.Reaches j.apply s₀ h s) : Clean s := by
  induction hr with
  | nil => exact h₀
  | snoc _ hs ih => exact clean_applied ih (applied hs)

/-! ## Accepted events -/

/-- No earlier decision names the evidence of the capture. -/
def Unused (s : WorkflowRun) (evidence : EvidenceRef) : Prop :=
  ∀ old ∈ s.decisions, old.captureEvidenceRef.ref ≠ evidence.ref

theorem apply_ok : Ok (j.apply s e) ↔ Ok (j.event s e) := by
  constructor
  · rintro ⟨t, ht⟩
    obtain ⟨t', ht', -⟩ := map_eq_ok.1 ht
    exact ⟨t', ht'⟩
  · rintro ⟨t, ht⟩
    exact ⟨_, map_eq_ok.2 ⟨t, ht, rfl⟩⟩

/-- A decision that fits the state is accepted if its capture is new. -/
theorem decided_ok {recovers : Bool} {r : Row} {d : WorkflowDecision} {step : WorkflowStep}
    (hr : object (if recovers then ["record", "cancelledDecisionId"] else ["record"]) [] data = some r)
    (hd : fieldOf r "record" parseDecision = some d) (hrec : Journal.checkRecovery s recovers r d = .ok ())
    (hstep : s.step d.stepId = some step) (hkind : step.kind = .decision) (hrun : d.runId = s.runId)
    (hsha : d.subjectSha256 = s.subjectSha256) (href : d.subjectRef = s.subject.subjectId)
    (hel : recovers = false → step.id ∈ eligibleSteps s.view) (hperm : Journal.permissionsOk s d)
    (hid : ∀ old ∈ s.decisions, old.decisionId ≠ d.decisionId) :
    Ok (Journal.decided s recovers data) ↔ Unused s d.captureEvidenceRef := by
  have hiff : Ok (Journal.decided s recovers data) ↔ ¬ (s.decisions.any fun old => old.decisionId == d.decisionId ||
      old.captureEvidenceRef.ref == d.captureEvidenceRef.ref) = true := by
    have hel' : ¬ (recovers = false ∧ (eligibleSteps s.view).contains step.id = false) := by
      rintro ⟨hr, hn⟩
      have hmem := hel hr
      simp [hmem] at hn
    constructor
    · rintro ⟨t, ht⟩ hany
      simp only [Journal.decided, bind_eq_ok, throwIf_eq_ok, exists_const, contract_eq_ok] at ht
      obtain ⟨r', hr', d', hd', _, _, step', hstep', hok, _⟩ := ht
      rw [hr, Option.some.injEq] at hr'
      subst hr'
      rw [hd, Option.some.injEq] at hd'
      subst hd'
      rw [require_eq_ok, hstep, Option.some.injEq] at hstep'
      subst hstep'
      exact hok (Or.inr (Or.inr (Or.inr (Or.inr (Or.inr (Or.inl hany))))))
    · intro hany
      refine ⟨{ s with decisions := s.decisions ++ [d] }.record d.stepId d.outcome, ?_⟩
      simp only [Journal.decided, bind_eq_ok, throwIf_eq_ok, exists_const, pure_eq_ok, contract_eq_ok]
      refine ⟨r, hr, d, hd, (), hrec, step, require_eq_ok.2 hstep, ?_, rfl⟩
      rintro (h | h | h | h | h | h | h)
      · exact h hrun
      · exact h hsha
      · exact h href
      · exact h hkind
      · exact hel' h
      · exact hany h
      · exact h hperm
  rw [hiff]
  simp only [List.any_eq_true, Bool.or_eq_true, beq_iff_eq, not_exists, not_and, not_or, Unused]
  exact ⟨fun h old hold => (h old hold).2, fun h old hold => ⟨hid old hold, h old hold⟩⟩

/-! ## Calls -/

variable {store : Store} {entries entries' : List Entry} {host : Host} {c : WorkflowCaller} {rev : ℕ} {a : Answer}

/-- What an append that succeeds has read and written. -/
theorem append_eq_ok {make : List Entry → Made} (h : store.append entries rev make = .ok entries') :
    entries.length = rev ∧ ∃ t d, make entries = .ok (t, d) ∧ entries' = entries ++ [⟨rev + 1, t, d⟩] := by
  simp only [Store.append, bind_eq_ok, throwIf_eq_ok, exists_const, not_not, ne_eq, pure_eq_ok] at h
  obtain ⟨hlen, ⟨t, d⟩, hmake, -, rfl⟩ := h
  exact ⟨hlen, t, d, hmake, rfl⟩

theorem fieldOf_text {r : Row} {key x y : String} {p : String → Bool} {max : ℕ} (h : r.lookup key = some (.str x))
    (hf : fieldOf r key (text p max) = some y) : y = x := by
  rw [fieldOf, h, Option.bind_some] at hf
  exact text_eq hf

/-- The outcome of a capture is an approval if it is read as one. -/
theorem approved_iff {o : StepOutcome} {v : Json} {p q : Json}
    (h : oneOf StepOutcome.text (stepOutcomes .decision) v = some o) :
    (Capture.approved ⟨v, p, q⟩ = true) ↔ o = .approved := by
  cases v with
  | str t =>
    have hmem := oneOf_mem h
    have ht : o.text = t := by simpa using List.find?_some h
    simp only [Capture.approved, beq_iff_eq, ← ht]
    simp only [stepOutcomes, List.mem_cons, List.not_mem_nil, or_false] at hmem
    rcases hmem with rfl | rfl | rfl | rfl <;> decide
  | _ => cases h

/-- A captured decision is about the subject, under a new id, and it grants what is requested or nothing. -/
theorem decision_fields {stepId : String} {d : WorkflowDecision} (h : store.decision s stepId a = some d) :
    d.decisionId = "decision-" ++ a.uuid.1 ∧ d.runId = store.runId ∧ d.stepId = stepId ∧
      d.subjectSha256 = s.subjectSha256 ∧ d.subjectRef = s.subject.subjectId ∧ Journal.permissionsOk s d ∧
      evidenceRef a.capture.evidence = some d.captureEvidenceRef ∧ parseDecision d.json = some d := by
  have hjson := parseDecision_json h
  simp only [Store.decision, parseDecision, Option.bind_eq_bind, Option.bind_eq_some_iff, Option.pure_def,
    Option.some.injEq] at h
  obtain ⟨r, hr, issuedAt, -, -, -, id, h2, -, -, runId, h3, stepId', h4, ref, h5, sha, h6, outcome, h7,
    permissions, hp, evidence, h8, principal, -, rfl⟩ := h
  rw [object_keys (by rfl), Option.some.injEq] at hr
  subst hr
  refine ⟨fieldOf_text rfl h2, fieldOf_text rfl h3, fieldOf_text rfl h4, fieldOf_text rfl h6, fieldOf_text rfl h5, ?_,
    h8, hjson⟩
  have hout : a.capture.approved = true ↔ outcome = .approved :=
    approved_iff (p := a.capture.principal) (q := a.capture.evidence) h7
  obtain ⟨l, hl⟩ : ∃ l : Distinct PackagePermission,
      l.1 = if a.capture.approved then s.subject.requestedPermissions.1 else [] := by
    split
    · exact ⟨s.subject.requestedPermissions, rfl⟩
    · exact ⟨⟨[], List.nodup_nil⟩, rfl⟩
  have hsame : permissions = l := by
    have hread : distinct (oneOf PackagePermission.text packagePermissions)
        (permissionsJson (if a.capture.approved then s.subject.requestedPermissions.1 else [])) = some permissions := hp
    rw [← hl, permissions_self] at hread
    exact (Option.some.inj hread).symm
  subst hsame
  simp only [Journal.permissionsOk]
  by_cases ho : outcome = .approved
  · rw [if_pos ho, hl, if_pos (hout.2 ho)]
    exact ⟨rfl, by simp⟩
  · rw [if_neg ho, hl, if_neg fun happroved => ho (hout.1 happroved)]
    rfl

theorem decide_accepts {stepId : String} (hs : store.status entries = .ok s) (hrun : s.runId = store.runId)
    (hstart : s.decideStart host rev stepId = .ok c)
    (hid : ∀ old ∈ s.decisions, old.decisionId ≠ "decision-" ++ a.uuid.1)
    (h : store.decideCommit ⟨.decide stepId, s, rev, c⟩ stepId a entries = .ok entries') :
    ∃ t d evidence, entries' = entries ++ [⟨entries.length + 1, t, d⟩] ∧
      evidenceRef a.capture.evidence = some evidence ∧
      (Ok (store.apply s ⟨entries.length + 1, t, d⟩) ↔ Unused s evidence) := by
  simp only [WorkflowRun.decideStart, bind_eq_ok, throwIf_eq_ok, exists_const, not_or, Bool.not_eq_false] at hstart
  obtain ⟨-, -, -, ⟨-, hstep⟩, -⟩ := hstart
  simp only [WorkflowRun.decidable, Bool.and_eq_true, Option.any_eq_true, beq_iff_eq] at hstep
  obtain ⟨⟨step, hstep, hkind⟩, -⟩ := hstep
  simp only [Store.decideCommit, bind_eq_ok, throwIf_eq_ok, exists_const, contract_eq_ok] at h
  obtain ⟨-, -, -, record, hrecord, h⟩ := h
  obtain ⟨rfl, t, d, hmake, rfl⟩ := append_eq_ok h
  simp only [hs, bind_eq_ok, throwIf_eq_ok, exists_const, pure_eq_ok, Except.ok.injEq, Prod.mk.injEq, exists_eq_left',
    not_or, Bool.not_eq_false] at hmake
  obtain ⟨-, -, ⟨-, hel⟩, rfl, rfl⟩ := hmake
  obtain ⟨hrid, hrrun, hrstep, hrsha, hrref, hperm, hev, hparse⟩ := decision_fields hrecord
  subst hrstep
  refine ⟨_, _, _, rfl, hev, ?_⟩
  rw [apply_ok]
  refine decided_ok (object_keys (by rfl)) (fieldOf_lookup rfl hparse) rfl hstep hkind (hrrun.trans hrun.symm) hrsha
    hrref (fun _ => ?_) hperm (fun old hold => hrid ▸ hid old hold)
  rw [step_id hstep]
  simpa using hel

theorem recoverable_step {d : WorkflowDecision} (h : s.recoverableCancelledDecision = some d) :
    ∃ step, s.step d.stepId = some step ∧ step.kind = .decision := by
  simp only [WorkflowRun.recoverableCancelledDecision, Option.bind_eq_bind, Option.bind_eq_some_iff, rejectIf_eq_some,
    exists_const, not_or, not_not, ne_eq, Option.pure_def, Option.some.injEq] at h
  obtain ⟨latest, -, -, step, hstep, ⟨hkind, -⟩, rfl⟩ := h
  exact ⟨step, hstep, hkind⟩

theorem recover_accepts {decisionId sha : String} (hs : store.status entries = .ok s) (hrun : s.runId = store.runId)
    (hstart : s.recoverStart host rev decisionId sha = .ok c)
    (hid : ∀ old ∈ s.decisions, old.decisionId ≠ "decision-" ++ a.uuid.1)
    (h : store.recoverCommit ⟨.recoverCancelled decisionId sha, s, rev, c⟩ decisionId sha a entries = .ok entries') :
    ∃ t d evidence, entries' = entries ++ [⟨entries.length + 1, t, d⟩] ∧
      evidenceRef a.capture.evidence = some evidence ∧
      (Ok (store.apply s ⟨entries.length + 1, t, d⟩) ↔ Unused s evidence) := by
  simp only [WorkflowRun.recoverStart, bind_eq_ok, throwIf_eq_ok, exists_const, not_or, not_not, ne_eq] at hstart
  obtain ⟨-, -, -, ⟨-, -, hcancelled⟩, -⟩ := hstart
  obtain ⟨cancelled, hcancelled, hname⟩ := Option.map_eq_some_iff.1 hcancelled
  obtain ⟨step, hstep, hkind⟩ := recoverable_step hcancelled
  simp only [Store.recoverCommit, bind_eq_ok, throwIf_eq_ok, exists_const, contract_eq_ok, require_eq_ok, hcancelled,
    Option.some.injEq, exists_eq_left'] at h
  obtain ⟨-, -, -, -, record, hrecord, h⟩ := h
  obtain ⟨rfl, t, d, hmake, rfl⟩ := append_eq_ok h
  simp only [hs, bind_eq_ok, throwIf_eq_ok, exists_const, pure_eq_ok, Except.ok.injEq, Prod.mk.injEq,
    exists_eq_left'] at hmake
  obtain ⟨-, -, -, -, rfl, rfl⟩ := hmake
  obtain ⟨hrid, hrrun, hrstep, hrsha, hrref, hperm, hev, hparse⟩ := decision_fields hrecord
  refine ⟨_, _, _, rfl, hev, ?_⟩
  rw [apply_ok]
  have hobject : object ["record", "cancelledDecisionId"] []
      (.obj [("cancelledDecisionId", .str decisionId), ("record", record.json)]) =
        some [("cancelledDecisionId", .str decisionId), ("record", record.json)] := by
    simp [object, List.lookup_cons]
  have hrec : Journal.checkRecovery s true [("cancelledDecisionId", .str decisionId), ("record", record.json)] record =
      .ok () := by
    simp only [Journal.checkRecovery, if_true, bind_eq_ok, throwIf_eq_ok, require_eq_ok, hcancelled, Option.some.injEq,
      exists_eq_left']
    simp [Journal.isField, hname, hrstep]
  exact decided_ok hobject (fieldOf_lookup rfl hparse) hrec (hrstep ▸ hstep) hkind (hrrun.trans hrun.symm) hrsha hrref
    (by simp) hperm (fun old hold => hrid ▸ hid old hold)

theorem approved_eq_ok {x : Replayed (List Entry)} (h : Store.approved a entries x = .ok entries') :
    entries' = entries ∨ x = .ok entries' := by
  unfold Store.approved at h
  split_ifs at h
  · exact Or.inr h
  · exact Or.inl (Except.ok.inj h).symm

theorem revoke_accepts {decisionId : String} (hs : store.status entries = .ok s) (hclean : Clean s)
    (hstart : s.revokeStart store.toJournal host rev decisionId = .ok c)
    (h : store.revokeCommit ⟨.revoke decisionId, s, rev, c⟩ decisionId a entries = .ok entries') :
    entries' = entries ∨ ∃ t d, entries' = entries ++ [⟨entries.length + 1, t, d⟩] ∧
      Ok (store.apply s ⟨entries.length + 1, t, d⟩) := by
  simp only [WorkflowRun.revokeStart, bind_eq_ok, throwIf_eq_ok, exists_const, not_or, Bool.not_eq_false,
    Bool.not_eq_true] at hstart
  obtain ⟨-, -, ⟨-, hany, hrevoked⟩, -⟩ := hstart
  refine (approved_eq_ok h).imp id fun h => ?_
  simp only [bind_eq_ok] at h
  obtain ⟨-, -, h⟩ := h
  obtain ⟨rfl, t, d, hmake, rfl⟩ := append_eq_ok h
  simp only [hs, bind_eq_ok, pure_eq_ok, Except.ok.injEq, Prod.mk.injEq, exists_eq_left', contract_eq_ok] at hmake
  obtain ⟨-, -, evidence, hev, principal, hp, rfl, rfl⟩ := hmake
  refine ⟨_, _, rfl, apply_ok.2 ⟨{ s with revoked := s.revoked ++ [decisionId] }, ?_⟩⟩
  obtain ⟨old, hold, hname⟩ := List.any_eq_true.1 hany
  have hname : old.decisionId = decisionId := by simpa using hname
  have hidText : idText (.str decisionId) = some decisionId := hname ▸ hclean.decisions old hold
  show Journal.revocation s _ = _
  simp only [Journal.revocation, bind_eq_ok, throwIf_eq_ok, exists_const, pure_eq_ok, contract_eq_ok]
  exact ⟨_, object_keys (by rfl), decisionId, fieldOf_lookup rfl hidText, evidence,
    fieldOf_lookup rfl (evidenceRef_json hev), principal, fieldOf_lookup rfl (text_self hp),
    by simp only [hany, hrevoked]; simp, rfl⟩

/-- The purposes of an adoption, old and new. -/
theorem adoption_purpose {purpose : AdoptionPurpose} (h : s.coordinatorAdoptionPurpose = some purpose) :
    Journal.adoptionPurpose s ((Store.purposeField (some purpose)).lookup "purpose") = .ok purpose := by
  by_cases hp : purpose = .documentContinuation
  · subst hp
    simp only [Journal.adoptionPurpose, Store.purposeField, if_true, List.lookup_cons_self, bind_eq_ok, throwIf_eq_ok,
      exists_const, contract_eq_ok, pure_eq_ok]
    exact ⟨_, rfl, not_not.2 h, rfl⟩
  · rw [Store.purposeField, if_neg (by simpa using hp)]
    show require s.legacyCoordinatorAdoptionPurpose _ = _
    rw [require_eq_ok]
    unfold WorkflowRun.coordinatorAdoptionPurpose at h
    split at h
    · next hlegacy => rw [hlegacy, h]
    · split_ifs at h
      exact absurd (Option.some.inj h).symm hp

theorem adoptionCheck_eq_ok {sha : String} {previous current : WorkflowCaller} {purpose : Option AdoptionPurpose}
    {u : Unit} (h : host.adoptionCheck rev sha previous current purpose s = .ok u) :
    s.subjectCaller current ∧ sha = s.subjectSha256 ∧ s.coordinatorAdoptionPurpose ≠ none ∧
      current.team = previous.team ∧ current.mode = previous.mode ∧ current.deploymentId ≠ previous.deploymentId := by
  simp only [Host.adoptionCheck, bind_eq_ok, throwIf_eq_ok, exists_const, not_or, not_not, ne_eq] at h
  obtain ⟨hcaller, ⟨-, hsha, hsome, -⟩, -, -, ⟨hteam, hmode, hid, -⟩, -⟩ := h
  exact ⟨hcaller, hsha.symm, hsome, hteam, hmode, hid⟩

theorem adoption_object {previous current sha resources evidence principal : Json} {purpose : Option AdoptionPurpose} :
    object ["previous", "current", "subjectSha256", "resourcesSha256", "captureEvidenceRef", "principal"] ["purpose"]
      (.obj ([("previous", previous), ("current", current), ("subjectSha256", sha), ("resourcesSha256", resources),
        ("captureEvidenceRef", evidence), ("principal", principal)] ++ Store.purposeField purpose)) =
      some ([("previous", previous), ("current", current), ("subjectSha256", sha), ("resourcesSha256", resources),
        ("captureEvidenceRef", evidence), ("principal", principal)] ++ Store.purposeField purpose) := by
  by_cases hp : purpose = some .documentContinuation
  · simp [object, Store.purposeField, hp, List.lookup_cons]
  · simp [object, Store.purposeField, hp, List.lookup_cons]

theorem adopt_accepts {sha : String} (hs : store.status entries = .ok s) (hclean : Clean s)
    (hstart : s.adoptStart host rev sha = .ok c)
    (h : store.adoptCommit ⟨.adoptCoordinator sha, s, rev, c⟩ sha a entries = .ok entries') :
    entries' = entries ∨ ∃ t d, entries' = entries ++ [⟨entries.length + 1, t, d⟩] ∧
      Ok (store.apply s ⟨entries.length + 1, t, d⟩) := by
  simp only [WorkflowRun.adoptStart, bind_eq_ok, contract_eq_ok, pure_eq_ok] at hstart
  obtain ⟨current, hcurrent, -, -, -, -, rfl⟩ := hstart
  simp only [Store.adoptCommit, bind_eq_ok] at h
  obtain ⟨-, -, -, -, h⟩ := h
  refine (approved_eq_ok h).imp id fun h => ?_
  obtain ⟨rfl, t, d, hmake, rfl⟩ := append_eq_ok h
  simp only [hs, bind_eq_ok, pure_eq_ok, Except.ok.injEq, Prod.mk.injEq, exists_eq_left', contract_eq_ok,
    require_eq_ok] at hmake
  obtain ⟨u, hcheck, resources, hres, evidence, hev, principal, hp, rfl, rfl⟩ := hmake
  obtain ⟨hcaller, rfl, hsome, hteam, hmode, hid⟩ := adoptionCheck_eq_ok hcheck
  obtain ⟨purpose, hpurpose⟩ := Option.ne_none_iff_exists'.1 hsome
  have hpurpose' := adoption_purpose hpurpose
  rw [hpurpose]
  refine ⟨_, _, rfl, apply_ok.2 ⟨{ s with
    coordinatorQueueOnly := purpose = .queueReconcile, coordinatorDocumentOnly := purpose = .documentContinuation
    coordinatorDocumentSubjectSha256 := if purpose = .documentContinuation then some s.subjectSha256 else none
    coordinator := some current }, ?_⟩⟩
  show Journal.coordinatorAdopted _ s _ = _
  simp only [Journal.coordinatorAdopted, bind_eq_ok, throwIf_eq_ok, exists_const, pure_eq_ok, contract_eq_ok,
    require_eq_ok]
  refine ⟨_, adoption_object, s.workflowCoordinator, fieldOf_lookup rfl hclean.coordinator, current,
    fieldOf_lookup rfl (parseCaller_json hcurrent), purpose, ?_, ?_, resources, hres, ?_, not_not.2 hcaller, evidence,
    fieldOf_lookup rfl (evidenceRef_json hev), principal, fieldOf_lookup rfl (text_self hp), rfl⟩
  · exact hpurpose'
  · simp only [not_or, not_not, ne_eq, Bool.not_eq_false]
    exact ⟨trivial, hid, hteam, hmode, beq_self_eq_true s.subjectSha256⟩
  · simp only [Bool.not_eq_false]
    exact beq_self_eq_true (store.resourcesDigest resources)

theorem step_mem {id : String} {step : WorkflowStep} (h : s.step id = some step) : step ∈ s.definition.steps :=
  List.mem_of_find?_eq_some h

theorem request_accepts {stepId decisionId : String} (hs : store.status entries = .ok s) (hrun : s.runId = store.runId)
    (hname : IsName store.runId) (hclean : Clean s) (hstart : s.requestStart host rev stepId decisionId = .ok c)
    (h : store.requestCommit ⟨.requestStep stepId decisionId, s, rev, c⟩ stepId decisionId a entries = .ok entries') :
    ∃ t d, entries' = entries ++ [⟨entries.length + 1, t, d⟩] ∧
      Ok (store.apply s ⟨entries.length + 1, t, d⟩) := by
  simp only [WorkflowRun.requestStart, bind_eq_ok, throwIf_eq_ok, exists_const, not_or, not_not, ne_eq,
    Bool.not_eq_false, require_eq_ok] at hstart
  obtain ⟨-, -, ⟨-, hel⟩, step, hstep, hkind, hallowed, d, hd, -⟩ := hstart
  simp only [Store.requestCommit, bind_eq_ok, throwIf_eq_ok, exists_const, require_eq_ok, hstep, Option.some.injEq,
    exists_eq_left'] at h
  obtain ⟨-, h⟩ := h
  obtain ⟨rfl, t, data, hmake, rfl⟩ := append_eq_ok h
  simp only [hs, bind_eq_ok, pure_eq_ok, Except.ok.injEq, Prod.mk.injEq, exists_eq_left'] at hmake
  obtain ⟨-, -, -, -, rfl, rfl⟩ := hmake
  let intent := store.intent s step decisionId a.uuid
  refine ⟨_, _, rfl, apply_ok.2 ⟨{ s with pending := s.pending ++ [intent] }, ?_⟩⟩
  obtain ⟨hidName, hownerName⟩ := hclean.steps step (step_mem hstep)
  obtain ⟨hmem, hdid, -⟩ := requireDecision_eq_ok hd
  have hdecision : IsName decisionId := by
    rw [← hdid]
    exact hclean.decisions d hmem
  have hparse : parseIntent intent.json = some intent :=
    parseIntent_json (uuid_name a.uuid) hname hidName hownerName hdecision hclean.subject
  obtain rfl := step_id hstep
  show Journal.intended s _ = _
  simp only [Journal.intended, bind_eq_ok, throwIf_eq_ok, exists_const, pure_eq_ok, contract_eq_ok, require_eq_ok]
  refine ⟨_, object_keys (by rfl), intent, fieldOf_lookup rfl hparse, step, hstep, ?_, ?_, d, hd, rfl⟩
  · simp only [not_or, not_not, ne_eq, Bool.not_eq_false]
    exact ⟨hkind, hrun.symm, rfl, rfl, hel⟩
  · simpa using hallowed

theorem reconcile_accepts {intentId : String} (hs : store.status entries = .ok s) (hclean : Clean s)
    (h : store.reconcileCommit ⟨.reconcile intentId, s, rev, c⟩ intentId a entries = .ok entries') :
    ∃ t d, entries' = entries ++ [⟨entries.length + 1, t, d⟩] ∧
      Ok (store.apply s ⟨entries.length + 1, t, d⟩) := by
  simp only [Store.reconcileCommit, bind_eq_ok, require_eq_ok] at h
  obtain ⟨intent, hintent, h⟩ := h
  obtain ⟨rfl, t, data, hmake, rfl⟩ := append_eq_ok h
  simp only [hs, bind_eq_ok, pure_eq_ok, Except.ok.injEq, Prod.mk.injEq, exists_eq_left'] at hmake
  obtain ⟨-, -, rfl, rfl⟩ := hmake
  have hmem := List.mem_of_find?_eq_some hintent
  have hid : intent.intentId = intentId := by simpa using List.find?_some hintent
  have hread : idText (.str intentId) = some intentId := hid ▸ hclean.pending intent hmem
  refine ⟨_, _, rfl, apply_ok.2 ⟨s, ?_⟩⟩
  show Journal.reconciled s _ = _
  simp only [Journal.reconciled, bind_eq_ok, throwIf_eq_ok, exists_const, pure_eq_ok, contract_eq_ok]
  refine ⟨_, object_keys (by rfl), ?_, intentId, fieldOf_lookup rfl hread, ?_, trivial⟩
  · rw [List.isEmpty_iff]
    exact List.ne_nil_of_mem hmem
  · rw [Bool.not_eq_false, List.any_eq_true]
    exact ⟨intent, hmem, beq_iff_eq.2 hid⟩

/-- A result is accepted if a journal entry may have so much evidence. -/
theorem settle_accepts {intentId : String} (hs : store.status entries = .ok s) (hclean : Clean s)
    (h : store.settleCommit ⟨.settle intentId, s, rev, c⟩ intentId a entries = .ok entries') :
    ∃ t d, entries' = entries ++ [⟨entries.length + 1, t, d⟩] ∧
      (Ok (store.apply s ⟨entries.length + 1, t, d⟩) ↔ a.evidence.length ≤ 256) := by
  simp only [Store.settleCommit, bind_eq_ok, throwIf_eq_ok, exists_const, require_eq_ok, contract_eq_ok] at h
  obtain ⟨intent, hintent, step, hstep, outcome, hout, hne, h⟩ := h
  obtain ⟨rfl, t, data, hmake, rfl⟩ := append_eq_ok h
  simp only [hs, bind_eq_ok, throwIf_eq_ok, exists_const, pure_eq_ok, Except.ok.injEq, Prod.mk.injEq, exists_eq_left',
    contract_eq_ok] at hmake
  obtain ⟨-, evidence, hev, rfl, rfl⟩ := hmake
  refine ⟨_, _, rfl, apply_ok.trans ?_⟩
  have hmem := List.mem_of_find?_eq_some hintent
  have hid : intent.intentId = intentId := by simpa using List.find?_some hintent
  have hread : idText (.str intentId) = some intentId := hid ▸ hclean.pending intent hmem
  have hlen : evidence.length = a.evidence.length := mapM_length hev
  have hrefs : ∀ e ∈ evidence, evidenceRef e.json = some e := by
    intro e he
    obtain ⟨v, -, hv⟩ := mem_of_mapM_some hev he
    exact evidenceRef_json hv
  show Ok (Journal.settled s _) ↔ _
  constructor
  · rintro ⟨t, ht⟩
    simp only [Journal.settled, bind_eq_ok, throwIf_eq_ok, exists_const, pure_eq_ok, contract_eq_ok] at ht
    obtain ⟨r, hr, -, -, -, -, -, -, -, -, refs, hrefs', -⟩ := ht
    rw [object_keys (by rfl), Option.some.injEq] at hr
    subst hr
    have harray : array evidenceRef 256 (.arr (evidence.map EvidenceRef.json)) = some refs := hrefs'
    unfold array at harray
    dsimp only at harray
    split_ifs at harray with hle
    rwa [List.length_map, hlen] at hle
  · intro hle
    refine ⟨{ s.record step.id outcome with pending := s.pending.filter (·.intentId != intentId) }, ?_⟩
    simp only [Journal.settled, bind_eq_ok, throwIf_eq_ok, exists_const, pure_eq_ok, contract_eq_ok, require_eq_ok]
    refine ⟨_, object_keys (by rfl), intentId, fieldOf_lookup rfl hread, intent, hintent, step, hstep, outcome,
      fieldOf_lookup rfl (outcome_self (oneOf_mem hout)), evidence,
      fieldOf_lookup rfl (array_map (hlen ▸ hle) hrefs), ?_, rfl⟩
    rw [List.isEmpty_iff] at hne ⊢
    rintro rfl
    exact hne (List.length_eq_zero_iff.1 hlen.symm)

/-- The second half of a call is suited to the state: it adds no capture twice and no long evidence. -/
def Suits (s : WorkflowRun) (call : Call) (a : Answer) : Prop :=
  match call with
  | .decide _ | .recoverCancelled _ _ => ∀ evidence, evidenceRef a.capture.evidence = some evidence → Unused s evidence
  | .settle _ => a.evidence.length ≤ 256
  | _ => True

/-- The id that a decision is given is new. -/
def NewId (s : WorkflowRun) (call : Call) (a : Answer) : Prop :=
  match call with
  | .decide _ | .recoverCancelled _ _ => ∀ old ∈ s.decisions, old.decisionId ≠ "decision-" ++ a.uuid.1
  | _ => True

/-- **What a call appends is accepted** by the replay exactly if the host's answer suits the state. -/
theorem commit_accepts {call : Call} {r : Running} (hs : store.status entries = .ok s) (hrun : s.runId = store.runId)
    (hname : IsName store.runId) (hclean : Clean s) (hid : NewId s call a)
    (hstart : call.start store.toJournal host rev s = .ok r) (h : store.commit r a entries = .ok entries') :
    entries' = entries ∧ Suits s call a ∨ ∃ t d, entries' = entries ++ [⟨entries.length + 1, t, d⟩] ∧
      (Ok (store.apply s ⟨entries.length + 1, t, d⟩) ↔ Suits s call a) := by
  have hunused : ∀ {e : Entry} {evidence}, evidenceRef a.capture.evidence = some evidence →
      (Ok (store.apply s e) ↔ Unused s evidence) →
      (Ok (store.apply s e) ↔ ∀ ev, evidenceRef a.capture.evidence = some ev → Unused s ev) := by
    intro e evidence hev hiff
    rw [hiff, hev]
    simp
  cases call with
  | decide stepId =>
    obtain ⟨c, hc, rfl⟩ := map_eq_ok.1 hstart
    obtain ⟨t, d, evidence, rfl, hev, hiff⟩ := decide_accepts hs hrun hc hid h
    exact Or.inr ⟨t, d, rfl, hunused hev hiff⟩
  | recoverCancelled decisionId sha =>
    obtain ⟨c, hc, rfl⟩ := map_eq_ok.1 hstart
    obtain ⟨t, d, evidence, rfl, hev, hiff⟩ := recover_accepts hs hrun hc hid h
    exact Or.inr ⟨t, d, rfl, hunused hev hiff⟩
  | revoke decisionId =>
    obtain ⟨c, hc, rfl⟩ := map_eq_ok.1 hstart
    rcases revoke_accepts hs hclean hc h with he | ⟨t, d, he, hok⟩
    · exact Or.inl ⟨he, trivial⟩
    · exact Or.inr ⟨t, d, he, iff_of_true hok trivial⟩
  | adoptCoordinator sha =>
    obtain ⟨c, hc, rfl⟩ := map_eq_ok.1 hstart
    rcases adopt_accepts hs hclean hc h with he | ⟨t, d, he, hok⟩
    · exact Or.inl ⟨he, trivial⟩
    · exact Or.inr ⟨t, d, he, iff_of_true hok trivial⟩
  | requestStep stepId decisionId =>
    obtain ⟨c, hc, rfl⟩ := map_eq_ok.1 hstart
    obtain ⟨t, d, rfl, hok⟩ := request_accepts hs hrun hname hclean hc h
    exact Or.inr ⟨t, d, rfl, iff_of_true hok trivial⟩
  | reconcile intentId =>
    obtain ⟨c, hc, rfl⟩ := map_eq_ok.1 hstart
    obtain ⟨t, d, rfl, hok⟩ := reconcile_accepts hs hclean h
    exact Or.inr ⟨t, d, rfl, iff_of_true hok trivial⟩
  | settle intentId =>
    obtain ⟨c, hc, rfl⟩ := map_eq_ok.1 hstart
    obtain ⟨t, d, rfl, hiff⟩ := settle_accepts hs hclean h
    exact Or.inr ⟨t, d, rfl, hiff⟩

end PaPlatform.Workflow.Replay
