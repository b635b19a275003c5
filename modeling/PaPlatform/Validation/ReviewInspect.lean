/-
  The inspectors of review objectives and matrices (`validation/review-contract.ts`):
  they collect the errors of independent fields, and they report none exactly when the
  fail-first parsers succeed.
-/
import PaPlatform.Lib.Collect
import PaPlatform.Validation.ReviewContract

namespace PaPlatform.Validation.Review

open Js Units Guard Effect Collect

/-! ## The inspectors -/

/-- `error instanceof ReviewContractError`. -/
def caught : Thrown → Option ReviewContractError
  | .review error => some error
  | .syntaxError => none

abbrev Inspection (α : Type) := Collector ReviewContractError Thrown α

/-- `check(() => x)`. -/
def inspect {α : Type} (x : Reviewed α) : Inspection Unit := check caught (do let _ ← liftM x)

/-- `check(() => { const a = x; f(a); })`. -/
def inspectThen {α : Type} (x : Reviewed α) (f : α → Inspection Unit) : Inspection Unit :=
  check caught (do let a ← liftM x; f a)

/-- `if (p) check(() => fail(…))`. -/
def inspectIf (p : Bool) (path : Units) : Inspection Unit :=
  if p then inspect (fail .field path "contains an unknown field" : Reviewed Unit) else pure ()

/-- A ticket that is valid. -/
def knownTicket (input : Option Value) : Option Units :=
  match input with
  | some (.str s) => if isTicket s then some s else none
  | _ => none

def inspectEvidence (e : (Units × Value) × ℕ) : Inspection Unit := do
  inspect (strOf (some (.str e.1.1)) (evidencePath e.2 "id") isCommandId)
  inspect (strOf (some e.1.2) (evidencePath e.2 "commentId") Grammar.comment.full)

def inspectObjectiveFields (r : Row) : Inspection Unit := do
  inspect (version (own r "schemaVersion") (objective "schemaVersion") reviewObjectiveSchemaVersion)
  inspectIf (hasUnknown r objectiveFields) (units "objective")
  inspect (strOf (own r "ticket") (objective "ticket") isTicket)
  inspect (branch (own r "branch") (objective "branch") (knownTicket (own r "ticket")))
  inspect (strOf (own r "featureSha") (objective "featureSha") isSha)
  inspect (matrixSourceAt (own r "matrixSource") (objective "matrixSource"))
  inspect (strOf (own r "matrixAuthoritySha256") (objective "matrixAuthoritySha256") isDigest)
  inspect (strOf (own r "matrixApprovalEvidence") (objective "matrixApprovalEvidence") Grammar.matrixApproval.full)
  inspect (strOf (own r "reviewAuthorizationId") (objective "reviewAuthorizationId") Grammar.authorization.full)
  inspectThen (object (own r "prerequisiteEvidence") (objective "prerequisiteEvidence")) fun evidence =>
    (sortedEntries evidence).zipIdx.forM inspectEvidence

def inspectMatrixRepository (repo : Row) : Inspection Unit := do
  inspect (strOf (own repo "key") (repositoryPath "key") Grammar.repositoryKey.full)
  inspect (absolutePath (own repo "root") (repositoryPath "root"))
  inspect (strOf (own repo "baseSha") (repositoryPath "baseSha") isSha)
  inspect (branch (own repo "branch") (repositoryPath "branch") none)

/-- The profile, if it is supported. -/
def profileAt (input : Option Value) : Reviewed ReviewProfile :=
  match memberOf reviewProfiles ReviewProfile.text input with
  | none => fail .profile (matrix "profile") "profile version is unsupported"
  | some profile => .ok profile

/-- The pattern of a literal. -/
def literalPattern (name : String) : Units → Bool := if name = "PA_TICKET_ID" then isTicket else fun _ => true

def inspectEnvironment (env : Row) : Inspection Unit := do
  inspectIf (hasUnknown env environmentFields) (matrix "environment")
  reviewEnvironmentBindings.forM fun b => inspect (parseBinding env b.1 b.2)
  reviewLiteralEnvironmentNames.forM fun name => inspect (parseLiteral env (literalPattern name) name)

def inspectCommand (e : Value × ℕ) : Inspection Unit :=
  inspectThen (objectOf (some e.1) (commandPath e.2) commandFields) fun c => do
    inspect (strOf (own c "id") (dot (commandPath e.2) "id") isCommandId)
    inspect (commandText (own c "command") (dot (commandPath e.2) "command"))
    inspect (relativePath (own c "cwd") (dot (commandPath e.2) "cwd"))
    inspect (integer (own c "timeoutSeconds") (dot (commandPath e.2) "timeoutSeconds") minTimeoutSeconds
      maxTimeoutSeconds)
    inspect (integer (own c "maxOutputBytes") (dot (commandPath e.2) "maxOutputBytes") minOutputBytes maxOutputBytes)

def inspectMatrixFields (r : Row) : Inspection Unit := do
  inspect (version (own r "schemaVersion") (matrix "schemaVersion") reviewMatrixSchemaVersion)
  inspectIf (hasUnknown r matrixFields) (units "matrix")
  inspect (matrixSourceAt (own r "source") (matrix "source"))
  inspectThen (objectOf (own r "repository") (matrix "repository") repositoryFields) inspectMatrixRepository
  inspect (profileAt (own r "profile"))
  inspectThen (list (own r "prerequisites") (matrix "prerequisites") 1000) fun items =>
    items.zipIdx.forM fun e => inspect (parseReviewPrerequisite e.2 e.1)
  inspectThen (object (own r "environment") (matrix "environment")) inspectEnvironment
  inspectThen (list (own r "commands") (matrix "commands") maxReviewCommands) fun items =>
    items.zipIdx.forM inspectCommand
  inspect (integer (own r "commandCount") (matrix "commandCount") 1 maxReviewCommands)
  inspectThen (list (own r "outputs") (matrix "outputs") 1000) fun items =>
    items.zipIdx.forM fun e => inspect (strAny (some e.1) (outputPath e.2))
  inspectThen (objectOf (own r "passCriteria") (matrix "passCriteria") (passCriteria.map (·.1))) fun pc =>
    passCriteria.forM fun c => inspect (criterion pc c)

section

variable (double : Units → Number)

/-- The root object of an input. -/
def rowOf (input : Input) (limit : ℕ) (path : Units) : Reviewed Row := do
  let root ← json double input limit path
  object (some root) path

/-- Collect independent objective field defects; malformed JSON blocks all dependent checks. -/
def inspectReviewObjective (input : Input) : Inspection (Option ReviewObjective) := do
  match ← attempt caught (liftM (rowOf double input maxReviewObjectiveBytes (units "objective"))) with
  | none => return none
  | some r =>
    inspectObjectiveFields r
    if (← get) = [] then some <$> liftM (parseReviewObjective double input) else return none

/-- Collect safely independent matrix fields; the rules across fields need the whole. -/
def inspectReviewMatrix (input : Input) : Inspection Unit := do
  match ← attempt caught (liftM (rowOf double input maxReviewArtifactBytes (units "matrix"))) with
  | none => return ()
  | some r =>
    inspectMatrixFields r
    if (← get) = [] then inspect (parseReviewMatrix double input) else return ()

end

/-! ## Calls throw nothing else -/

variable {double : Units → Number} {α β : Type} {input : Option Value} {path : Units}

theorem safe_ok {a : α} : Safe caught (.ok a : Reviewed α) := by
  rintro e ⟨⟩

theorem safe_fail {code : ReviewContractErrorCode} {reason : String} :
    Safe caught (fail code path reason : Reviewed α) := by
  rintro e ⟨⟩
  rfl

theorem safe_failIf {p : Prop} [Decidable p] {code : ReviewContractErrorCode} {reason : String} :
    Safe caught (failIf p code path reason) := by
  unfold failIf throwIf
  split_ifs
  · rintro e ⟨⟩
    rfl
  · exact safe_ok

theorem safe_bind {x : Reviewed α} {f : α → Reviewed β} (hx : Safe caught x) (hf : ∀ a, Safe caught (f a)) :
    Safe caught (x >>= f) := by
  cases x with
  | ok a => exact hf a
  | error e =>
    intro e' he
    exact hx e' (by cases he; rfl)

theorem safe_map {x : Reviewed α} {f : α → β} (hx : Safe caught x) : Safe caught (x.map f) := by
  cases x with
  | ok a => exact safe_ok
  | error e =>
    intro e' he
    exact hx e' (by cases he; rfl)

theorem safe_malformed : Safe caught (malformed path : Reviewed α) := safe_fail

theorem safe_string {s : Units} : Safe caught (string double path s) := by
  unfold string
  split
  · exact safe_malformed
  · split
    · split_ifs
      · exact safe_malformed
      · exact safe_ok
    · exact safe_malformed

theorem safe_text {input : Input} {limit : ℕ} : Safe caught (text input limit path) := by
  unfold text
  refine safe_bind safe_failIf fun _ => safe_bind safe_failIf fun _ => safe_bind safe_failIf fun _ => ?_
  split
  · exact safe_ok
  · exact safe_fail

/-- No value makes `JSON.parse` throw. -/
structure Quiet (double : Units → Number) (path : Units) (fuel : ℕ) : Prop where
  value : ∀ depth location s, Safe caught (value double path fuel depth location s)
  items : ∀ depth location index s, Safe caught (items double path fuel depth location index s)
  member : ∀ depth location row s, Safe caught (member double path fuel depth location row s)
  members : ∀ depth location row s, Safe caught (members double path fuel depth location row s)

theorem quiet_zero : Quiet double path 0 where
  value _ _ _ := by rw [value]; exact safe_malformed
  items _ _ _ _ := by rw [items]; exact safe_malformed
  member _ _ _ _ := by rw [member]; exact safe_malformed
  members _ _ _ _ := by rw [members]; exact safe_malformed

theorem quiet_succ {fuel : ℕ} (ih : Quiet double path fuel) : Quiet double path (fuel + 1) where
  value depth location s := by
    rw [value]
    split_ifs
    · exact safe_malformed
    split
    · exact safe_malformed
    · next u rest =>
      split_ifs
      · exact safe_map safe_string
      · split
        · exact safe_ok
        · exact safe_bind (ih.member _ _ _ _) fun _ => safe_bind (ih.members _ _ _ _) fun _ => safe_ok
      · split
        · exact safe_ok
        · exact safe_bind (ih.value _ _ _) fun _ => safe_bind (ih.items _ _ _ _) fun _ => safe_ok
      · split
        · exact safe_malformed
        · next text rest' ht =>
          obtain ⟨x, hx, -⟩ := @token_eq_some double _ _ _ ht
          rw [hx]
          exact safe_ok
  items depth location index s := by
    rw [items]
    split
    · exact safe_ok
    · exact safe_bind (ih.value _ _ _) fun _ => safe_bind (ih.items _ _ _ _) fun _ => safe_ok
    · exact safe_malformed
  member depth location row s := by
    rw [member]
    split
    · refine safe_bind safe_string fun key => ?_
      split
      · exact safe_bind safe_failIf fun _ => safe_bind (ih.value _ _ _) fun _ => safe_ok
      · exact safe_malformed
    · exact safe_malformed
  members depth location row s := by
    rw [members]
    split
    · exact safe_ok
    · exact safe_bind (ih.member _ _ _ _) fun _ => ih.members _ _ _ _
    · exact safe_malformed

theorem quiet (fuel : ℕ) : Quiet double path fuel := by
  induction fuel with
  | zero => exact quiet_zero
  | succ fuel ih => exact quiet_succ ih

theorem safe_json {input : Input} {limit : ℕ} : Safe caught (json double input limit path) := by
  unfold json
  refine safe_bind safe_text fun s => safe_bind safe_failIf fun _ => safe_bind ((quiet _).value _ _ _) fun result => ?_
  split_ifs
  · exact safe_ok
  · exact safe_malformed

theorem safe_object : Safe caught (object input path) := by
  unfold object
  split
  · exact safe_ok
  · exact safe_fail

theorem safe_objectOf {keys : List String} : Safe caught (objectOf input path keys) := by
  refine safe_bind safe_object fun row => ?_
  split
  · exact safe_fail
  · exact safe_bind safe_failIf fun _ => safe_ok

theorem safe_str {pattern : Units → Bool} {max : ℕ} : Safe caught (str input path pattern max) := by
  unfold str
  split
  · exact safe_bind safe_failIf fun _ => safe_bind safe_failIf fun _ => safe_ok
  · exact safe_fail

theorem safe_integer {min max : ℕ} : Safe caught (integer input path min max) := by
  unfold integer
  split
  · split_ifs
    · exact safe_fail
    · exact safe_ok
  · exact safe_fail

theorem safe_literal {expected : Value} : Safe caught (literal input path expected) := safe_failIf

theorem safe_version {expected : String} : Safe caught (version input path expected) :=
  safe_bind safe_failIf fun _ => safe_failIf

theorem safe_relativePath : Safe caught (relativePath input path) := by
  refine safe_bind safe_str fun s => ?_
  split_ifs
  · exact safe_ok
  · exact safe_bind safe_failIf fun _ => safe_ok

theorem safe_absolutePath : Safe caught (absolutePath input path) :=
  safe_bind safe_str fun _ => safe_bind safe_failIf fun _ => safe_ok

theorem safe_branch {ticket : Option Units} : Safe caught (branch input path ticket) :=
  safe_bind safe_str fun _ => safe_bind safe_failIf fun _ => safe_ok

theorem safe_matrixSourceAt : Safe caught (matrixSourceAt input path) :=
  safe_bind safe_str fun _ => safe_bind safe_failIf fun _ => safe_bind safe_failIf fun _ =>
    safe_bind safe_relativePath fun _ => safe_ok

theorem safe_list {max : ℕ} : Safe caught (list input path max) := by
  unfold list
  split
  · exact safe_bind safe_failIf fun _ => safe_ok
  · exact safe_fail

theorem safe_mapEach {f : ℕ → α → Reviewed β} (hf : ∀ index a, Safe caught (f index a)) {index : ℕ} {l : List α} :
    Safe caught (mapEach f index l) := by
  induction l generalizing index with
  | nil => exact safe_ok
  | cons a l ih => exact safe_bind (hf index a) fun _ => safe_bind ih fun _ => safe_ok

theorem safe_prerequisite {index : ℕ} {v : Value} : Safe caught (parseReviewPrerequisite index v) := by
  unfold parseReviewPrerequisite
  refine safe_bind safe_object fun r => ?_
  split_ifs
  · exact safe_bind safe_objectOf fun _ => safe_bind safe_str fun _ => safe_bind safe_str fun _ => safe_ok
  · refine safe_bind safe_objectOf fun _ => ?_
    split
    · exact safe_fail
    · exact safe_bind safe_str fun _ => safe_ok
  · exact safe_bind safe_objectOf fun _ => safe_bind safe_relativePath fun _ => safe_bind safe_str fun _ =>
      safe_bind safe_str fun _ => safe_ok
  · exact safe_bind safe_objectOf fun _ => safe_bind safe_str fun _ => safe_bind safe_str fun _ => safe_ok
  · exact safe_fail

theorem safe_repository : Safe caught (parseReviewRepository input) :=
  safe_bind safe_objectOf fun _ => safe_bind safe_str fun _ => safe_bind safe_absolutePath fun _ =>
    safe_bind safe_str fun _ => safe_bind safe_branch fun _ => safe_ok

theorem safe_prerequisites {profile : ReviewProfile} : Safe caught (parsePrerequisites profile input) :=
  safe_bind safe_list fun _ => safe_bind (safe_mapEach fun _ _ => safe_prerequisite) fun _ =>
    safe_bind safe_failIf fun _ => safe_bind safe_failIf fun _ => safe_bind safe_failIf fun _ => safe_ok

theorem safe_binding {env : Row} {name binding : String} : Safe caught (parseBinding env name binding) :=
  safe_bind safe_objectOf fun _ => safe_bind safe_literal fun _ => safe_ok

theorem safe_parseLiteral {env : Row} {pattern : Units → Bool} {name : String} :
    Safe caught (parseLiteral env pattern name) :=
  safe_bind safe_objectOf fun _ => safe_bind safe_str fun _ => safe_ok

theorem safe_environment : Safe caught (parseEnvironment input) :=
  safe_bind safe_objectOf fun _ => safe_bind (safe_mapEach fun _ _ => safe_binding) fun _ =>
    safe_bind (safe_mapEach fun _ _ => safe_parseLiteral) fun _ => safe_bind safe_str fun _ => safe_ok

theorem safe_commandText : Safe caught (commandText input path) := by
  unfold commandText
  split
  · exact safe_bind safe_failIf fun _ => safe_ok
  · exact safe_fail

theorem safe_command {index : ℕ} {v : Value} : Safe caught (parseReviewCommand index v) :=
  safe_bind safe_objectOf fun _ => safe_bind safe_commandText fun _ => safe_bind safe_str fun _ =>
    safe_bind safe_relativePath fun _ => safe_bind safe_integer fun _ => safe_bind safe_integer fun _ => safe_ok

theorem safe_commands : Safe caught (parseCommands input) :=
  safe_bind safe_list fun _ => safe_bind (safe_mapEach fun _ _ => safe_command) fun _ =>
    safe_bind safe_failIf fun _ => safe_ok

theorem safe_outputs {commands : List ReviewCommand} : Safe caught (parseOutputs commands input) :=
  safe_bind safe_list fun _ => safe_bind (safe_mapEach fun _ _ => safe_str) fun _ =>
    safe_bind safe_failIf fun _ => safe_ok

theorem safe_passCriteria : Safe caught (parsePassCriteria input) :=
  safe_bind safe_objectOf fun _ => safe_bind (safe_mapEach fun _ _ => safe_literal) fun _ => safe_ok

theorem safe_profileAt : Safe caught (profileAt input) := by
  unfold profileAt
  split
  · exact safe_fail
  · exact safe_ok

theorem safe_matrix {input : Input} : Safe caught (parseReviewMatrix double input) := by
  unfold parseReviewMatrix
  refine safe_bind safe_json fun root => safe_bind safe_object fun r => safe_bind safe_version fun _ =>
    safe_bind safe_objectOf fun _ => safe_bind safe_matrixSourceAt fun _ => safe_bind safe_repository fun _ => ?_
  split
  · exact safe_fail
  · exact safe_bind safe_prerequisites fun _ => safe_bind safe_environment fun _ => safe_bind safe_commands fun _ =>
      safe_bind safe_integer fun _ => safe_bind safe_failIf fun _ => safe_bind safe_outputs fun _ =>
        safe_bind safe_passCriteria fun _ => safe_ok

theorem safe_rowOf {input : Input} {limit : ℕ} : Safe caught (rowOf double input limit path) :=
  safe_bind safe_json fun _ => safe_object

/-! ## The objective -/

theorem collects_inspect {x : Reviewed α} (h : Safe caught x) : Collects (inspect x) (Ok x) := collects_call h

theorem collects_inspectThen {x : Reviewed α} {f : α → Inspection Unit} {P : α → Prop} (h : Safe caught x)
    (hf : ∀ a, x = .ok a → Collects (f a) (P a)) : Collects (inspectThen x f) (∃ a, x = .ok a ∧ P a) :=
  collects_then h hf

theorem not_ok_fail {code : ReviewContractErrorCode} {reason : String} : ¬ Ok (fail code path reason : Reviewed α) := by
  rintro ⟨a, ha⟩
  exact fail_ne ha

theorem collects_inspectIf {p : Bool} : Collects (inspectIf p path) (p = false) := by
  unfold inspectIf
  split_ifs with hp
  · exact (collects_inspect safe_fail).iff (by simp [not_ok_fail, hp])
  · exact collects_pure.iff (by simp [hp])

theorem str_eq_ok {pattern : Units → Bool} {max : ℕ} {s : Units} : str input path pattern max = .ok s ↔
    input = some (.str s) ∧ 1 ≤ s.length ∧ s.length ≤ max ∧ s.contains 0 = false ∧ trimmed s = true ∧
      pattern s = true := by
  unfold str
  split
  · next t =>
    simp only [bind_eq_ok, failIf_eq_ok, pure_eq_ok, exists_const, not_or, Bool.not_eq_false, Bool.not_eq_true,
      not_lt, Option.some.injEq, Value.str.injEq]
    constructor
    · rintro ⟨⟨h1, h2, h3⟩, ⟨h4, h5⟩, rfl⟩
      exact ⟨rfl, h1, h2, h3, h4, h5⟩
    · rintro ⟨rfl, h1, h2, h3, h4, h5⟩
      exact ⟨⟨h1, h2, h3⟩, ⟨h4, h5⟩, rfl⟩
  · next hne =>
    refine ⟨fun h => absurd h fail_ne, ?_⟩
    rintro ⟨rfl, -⟩
    exact absurd rfl (hne s)

theorem isSome_of_str {pattern : Units → Bool} {max : ℕ} (h : Ok (str input path pattern max)) : input.isSome := by
  obtain ⟨s, hs⟩ := h
  rw [(str_eq_ok.1 hs).1]
  rfl

theorem ok_of_bind {x : Reviewed α} {f : α → Reviewed β} (h : Ok (x >>= f)) : Ok x := by
  obtain ⟨b, hb⟩ := h
  obtain ⟨a, ha, -⟩ := bind_eq_ok.1 hb
  exact ⟨a, ha⟩

theorem isSome_of_branch {ticket : Option Units} (h : Ok (branch input path ticket)) : input.isSome :=
  isSome_of_str (ok_of_bind h)

theorem isSome_of_matrixSourceAt (h : Ok (matrixSourceAt input path)) : input.isSome := isSome_of_str (ok_of_bind h)

theorem isSome_of_object (h : Ok (object input path)) : input.isSome := by
  obtain ⟨row, hr⟩ := h
  unfold object at hr
  split at hr
  · rfl
  · exact absurd hr fail_ne

theorem isSome_of_version {expected : String} (h : Ok (version input path expected)) : input.isSome := by
  obtain ⟨u, hu⟩ := ok_of_bind h
  rw [failIf_eq_ok, Option.isNone_iff_eq_none] at hu
  exact Option.isSome_iff_ne_none.2 hu

theorem objectOf_obj {r : Row} {keys : List String} : Ok (objectOf (some (.obj r)) path keys) ↔
    (∀ key ∈ keys, (own r key).isSome) ∧ hasUnknown r keys = false := by
  unfold objectOf
  rw [show object (some (.obj r)) path = .ok r from rfl, ok_bind]
  cases hf : keys.find? fun key => (own r key).isNone with
  | some key =>
    have hk := List.find?_some hf
    refine ⟨fun h => absurd h not_ok_fail, fun h => ?_⟩
    have hs := h.1 key (List.mem_of_find?_eq_some hf)
    rw [Option.isNone_iff_eq_none] at hk
    rw [hk] at hs
    cases hs
  | none =>
    rw [List.find?_eq_none] at hf
    have hall : ∀ key ∈ keys, (own r key).isSome := by
      intro key hkey
      have hne := hf key hkey
      rw [Option.isNone_iff_eq_none] at hne
      exact Option.isSome_iff_ne_none.2 hne
    simp only [Ok, bind_eq_ok, failIf_eq_ok, pure_eq_ok, Bool.not_eq_true, exists_const]
    constructor
    · rintro ⟨_, h, -⟩
      exact ⟨hall, h⟩
    · intro h
      exact ⟨_, h.2, rfl⟩

theorem objectOf_eq_ok {r : Row} {keys : List String} (h : objectOf input path keys = .ok r) :
    object input path = .ok r ∧ hasUnknown r keys = false := by
  unfold objectOf at h
  obtain ⟨row, hrow, h⟩ := bind_eq_ok.1 h
  split at h
  · exact absurd h fail_ne
  · simp only [bind_eq_ok, failIf_eq_ok, pure_eq_ok, Bool.not_eq_true, exists_const] at h
    obtain ⟨hu, rfl⟩ := h
    exact ⟨hrow, hu⟩

/-- The checks of the fields of an objective. -/
structure ObjectiveChecks (r : Row) : Prop where
  version : Ok (version (own r "schemaVersion") (objective "schemaVersion") reviewObjectiveSchemaVersion)
  known : hasUnknown r objectiveFields = false
  ticket : Ok (strOf (own r "ticket") (objective "ticket") isTicket)
  branch : Ok (branch (own r "branch") (objective "branch") (knownTicket (own r "ticket")))
  featureSha : Ok (strOf (own r "featureSha") (objective "featureSha") isSha)
  matrixSource : Ok (matrixSourceAt (own r "matrixSource") (objective "matrixSource"))
  authority : Ok (strOf (own r "matrixAuthoritySha256") (objective "matrixAuthoritySha256") isDigest)
  approval : Ok (strOf (own r "matrixApprovalEvidence") (objective "matrixApprovalEvidence")
    Grammar.matrixApproval.full)
  authorization : Ok (strOf (own r "reviewAuthorizationId") (objective "reviewAuthorizationId")
    Grammar.authorization.full)
  evidence : ∃ evidence, object (own r "prerequisiteEvidence") (objective "prerequisiteEvidence") = .ok evidence ∧
    ∀ e ∈ (sortedEntries evidence).zipIdx,
      Ok (strOf (some (.str e.1.1)) (evidencePath e.2 "id") isCommandId) ∧
      Ok (strOf (some e.1.2) (evidencePath e.2 "commentId") Grammar.comment.full)

theorem collects_objectiveFields (r : Row) : Collects (inspectObjectiveFields r) (ObjectiveChecks r) := by
  have hevidence : ∀ evidence : Row, Collects ((sortedEntries evidence).zipIdx.forM inspectEvidence) _ :=
    fun evidence => collects_forM fun e _ => (collects_inspect safe_str).bind (collects_inspect safe_str)
  refine ((collects_inspect safe_version).bind <| collects_inspectIf.bind <| (collects_inspect safe_str).bind <|
    (collects_inspect safe_branch).bind <| (collects_inspect safe_str).bind <|
    (collects_inspect safe_matrixSourceAt).bind <| (collects_inspect safe_str).bind <|
    (collects_inspect safe_str).bind <| (collects_inspect safe_str).bind <|
    collects_inspectThen safe_object fun evidence _ => hevidence evidence).iff ⟨?_, ?_⟩
  · rintro ⟨h1, h2, h3, h4, h5, h6, h7, h8, h9, h10⟩
    exact ⟨h1, h2, h3, h4, h5, h6, h7, h8, h9, h10⟩
  · rintro ⟨h1, h2, h3, h4, h5, h6, h7, h8, h9, h10⟩
    exact ⟨h1, h2, h3, h4, h5, h6, h7, h8, h9, h10⟩

theorem ok_bind_iff {x : Reviewed α} {f : α → Reviewed β} : Ok (x >>= f) ↔ ∃ a, x = .ok a ∧ Ok (f a) := by
  cases x with
  | ok a => simp [ok_bind]
  | error e => simp [Ok]

theorem parseEvidence_ok {entries : Row} {index : ℕ} {evidence : List (Units × Units)} :
    Ok (parseEvidence index evidence entries) ↔ ∀ e ∈ entries.zipIdx index,
      Ok (strOf (some (.str e.1.1)) (evidencePath e.2 "id") isCommandId) ∧
      Ok (strOf (some e.1.2) (evidencePath e.2 "commentId") Grammar.comment.full) := by
  induction entries generalizing index evidence with
  | nil => simp [parseEvidence, Ok]
  | cons entry entries ih =>
    obtain ⟨key, v⟩ := entry
    rw [parseEvidence, List.zipIdx_cons]
    simp only [ok_bind_iff, ih, List.forall_mem_cons]
    constructor
    · rintro ⟨k, hk, c, hc, h⟩
      exact ⟨⟨⟨k, hk⟩, c, hc⟩, h⟩
    · rintro ⟨⟨⟨k, hk⟩, c, hc⟩, h⟩
      exact ⟨k, hk, c, hc, h⟩

theorem knownTicket_of_ok {ticket : Units} (h : strOf input path isTicket = .ok ticket) :
    knownTicket input = some ticket := by
  obtain ⟨rfl, -, -, -, -, ht⟩ := str_eq_ok.1 h
  exact if_pos ht

theorem ok_unit {x : Reviewed Unit} : Ok x ↔ x = .ok () := ⟨fun ⟨_, h⟩ => h, fun h => ⟨_, h⟩⟩

/-- **The objective is parsed if and only if its fields pass their checks.** -/
theorem parseReviewObjective_ok {input : Input} : Ok (parseReviewObjective double input) ↔
    ∃ r, rowOf double input maxReviewObjectiveBytes (units "objective") = .ok r ∧ ObjectiveChecks r := by
  unfold parseReviewObjective rowOf
  simp only [ok_bind_iff, bind_eq_ok]
  constructor
  · rintro ⟨root, hroot, r, hr, _, hv, _, ho, t, ht, evidence, he, _, hp, _, hb, _, h1, _, h2, _, h3, _, h4, _, h5, -⟩
    refine ⟨r, ⟨root, hroot, hr⟩, ⟨_, hv⟩, (objectOf_obj.1 ⟨_, ho⟩).2, ⟨t, ht⟩, ?_, ⟨_, h1⟩, ⟨_, h2⟩, ⟨_, h3⟩,
      ⟨_, h4⟩, ⟨_, h5⟩, evidence, he, parseEvidence_ok.1 ⟨_, hp⟩⟩
    rw [knownTicket_of_ok ht]
    exact ⟨_, hb⟩
  · rintro ⟨r, ⟨root, hroot, hr⟩, h⟩
    obtain ⟨evidence, he, hall⟩ := h.evidence
    obtain ⟨t, ht⟩ := h.ticket
    obtain ⟨b, hb⟩ := h.branch
    rw [knownTicket_of_ok ht] at hb
    have hpresent : ∀ key ∈ objectiveFields, (own r key).isSome := by
      simp only [objectiveFields, List.forall_mem_cons]
      exact ⟨isSome_of_version h.version, isSome_of_str h.ticket, isSome_of_branch h.branch,
        isSome_of_str h.featureSha, isSome_of_matrixSourceAt h.matrixSource, isSome_of_str h.authority,
        isSome_of_str h.approval, isSome_of_str h.authorization, isSome_of_object ⟨_, he⟩, by simp⟩
    obtain ⟨_, ho⟩ := (@objectOf_obj (units "objective") r _).2 ⟨hpresent, h.known⟩
    obtain ⟨_, hp⟩ := (@parseEvidence_ok _ 0 []).2 hall
    obtain ⟨_, h1⟩ := h.featureSha
    obtain ⟨_, h2⟩ := h.matrixSource
    obtain ⟨_, h3⟩ := h.authority
    obtain ⟨_, h4⟩ := h.approval
    obtain ⟨_, h5⟩ := h.authorization
    exact ⟨root, hroot, r, hr, (), ok_unit.1 h.version, _, ho, t, ht, evidence, he, _, hp, b, hb, _, h1, _, h2, _, h3,
      _, h4, _, h5, _, rfl⟩

/-! ## The matrix -/

theorem mapEach_ok {f : ℕ → α → Reviewed β} {index : ℕ} {l : List α} :
    Ok (mapEach f index l) ↔ ∀ e ∈ l.zipIdx index, Ok (f e.2 e.1) := by
  induction l generalizing index with
  | nil => simp [mapEach, Ok]
  | cons a l ih =>
    rw [mapEach, List.zipIdx_cons]
    simp only [ok_bind_iff, List.forall_mem_cons]
    constructor
    · rintro ⟨b, hb, bs, hbs, -⟩
      exact ⟨⟨b, hb⟩, ih.1 ⟨bs, hbs⟩⟩
    · rintro ⟨⟨b, hb⟩, h⟩
      obtain ⟨bs, hbs⟩ := ih.2 h
      exact ⟨b, hb, bs, hbs, _, rfl⟩

theorem mapEach_ok_each {f : α → Reviewed β} {index : ℕ} {l : List α} :
    Ok (mapEach (fun _ => f) index l) ↔ ∀ a ∈ l, Ok (f a) := by
  induction l generalizing index with
  | nil => simp [mapEach, Ok]
  | cons a l ih =>
    rw [mapEach]
    simp only [ok_bind_iff, List.forall_mem_cons]
    constructor
    · rintro ⟨b, hb, bs, hbs, -⟩
      exact ⟨⟨b, hb⟩, ih.1 ⟨bs, hbs⟩⟩
    · rintro ⟨⟨b, hb⟩, h⟩
      obtain ⟨bs, hbs⟩ := ih.2 h
      exact ⟨b, hb, bs, hbs, _, rfl⟩

/-- The checks of the fields of a repository. -/
structure RepositoryChecks (repo : Row) : Prop where
  key : Ok (strOf (own repo "key") (repositoryPath "key") Grammar.repositoryKey.full)
  root : Ok (absolutePath (own repo "root") (repositoryPath "root"))
  baseSha : Ok (strOf (own repo "baseSha") (repositoryPath "baseSha") isSha)
  branch : Ok (branch (own repo "branch") (repositoryPath "branch") none)

theorem collects_repository (repo : Row) : Collects (inspectMatrixRepository repo) (RepositoryChecks repo) := by
  refine ((collects_inspect safe_str).bind <| (collects_inspect safe_absolutePath).bind <|
    (collects_inspect safe_str).bind <| collects_inspect safe_branch).iff ⟨?_, ?_⟩
  · rintro ⟨h1, h2, h3, h4⟩
    exact ⟨h1, h2, h3, h4⟩
  · rintro ⟨h1, h2, h3, h4⟩
    exact ⟨h1, h2, h3, h4⟩

/-- The checks of the environment. -/
structure EnvironmentChecks (env : Row) : Prop where
  known : hasUnknown env environmentFields = false
  bindings : ∀ b ∈ reviewEnvironmentBindings, Ok (parseBinding env b.1 b.2)
  literals : ∀ name ∈ reviewLiteralEnvironmentNames, Ok (parseLiteral env (literalPattern name) name)

theorem collects_environment (env : Row) : Collects (inspectEnvironment env) (EnvironmentChecks env) := by
  refine (collects_inspectIf.bind <| (collects_forM fun _ _ => collects_inspect safe_binding).bind <|
    collects_forM fun _ _ => collects_inspect safe_parseLiteral).iff ⟨?_, ?_⟩
  · rintro ⟨h1, h2, h3⟩
    exact ⟨h1, h2, h3⟩
  · rintro ⟨h1, h2, h3⟩
    exact ⟨h1, h2, h3⟩

/-- The checks of the fields of a command. -/
structure CommandChecks (index : ℕ) (c : Row) : Prop where
  id : Ok (strOf (own c "id") (dot (commandPath index) "id") isCommandId)
  command : Ok (commandText (own c "command") (dot (commandPath index) "command"))
  cwd : Ok (relativePath (own c "cwd") (dot (commandPath index) "cwd"))
  timeoutSeconds : Ok (integer (own c "timeoutSeconds") (dot (commandPath index) "timeoutSeconds") minTimeoutSeconds
    maxTimeoutSeconds)
  maxOutputBytes : Ok (integer (own c "maxOutputBytes") (dot (commandPath index) "maxOutputBytes") minOutputBytes
    maxOutputBytes)

theorem collects_command (e : Value × ℕ) : Collects (inspectCommand e)
    (∃ c, objectOf (some e.1) (commandPath e.2) commandFields = .ok c ∧ CommandChecks e.2 c) := by
  refine collects_inspectThen safe_objectOf fun c _ => ?_
  refine ((collects_inspect safe_str).bind <| (collects_inspect safe_commandText).bind <|
    (collects_inspect safe_relativePath).bind <| (collects_inspect safe_integer).bind <|
    collects_inspect safe_integer).iff ⟨?_, ?_⟩
  · rintro ⟨h1, h2, h3, h4, h5⟩
    exact ⟨h1, h2, h3, h4, h5⟩
  · rintro ⟨h1, h2, h3, h4, h5⟩
    exact ⟨h1, h2, h3, h4, h5⟩

/-- The checks of the fields of a matrix. -/
structure MatrixChecks (r : Row) : Prop where
  version : Ok (version (own r "schemaVersion") (matrix "schemaVersion") reviewMatrixSchemaVersion)
  known : hasUnknown r matrixFields = false
  source : Ok (matrixSourceAt (own r "source") (matrix "source"))
  repository : ∃ repo, objectOf (own r "repository") (matrix "repository") repositoryFields = .ok repo ∧
    RepositoryChecks repo
  profile : Ok (profileAt (own r "profile"))
  prerequisites : ∃ items, list (own r "prerequisites") (matrix "prerequisites") 1000 = .ok items ∧
    ∀ e ∈ items.zipIdx, Ok (parseReviewPrerequisite e.2 e.1)
  environment : ∃ env, object (own r "environment") (matrix "environment") = .ok env ∧ EnvironmentChecks env
  commands : ∃ items, list (own r "commands") (matrix "commands") maxReviewCommands = .ok items ∧
    ∀ e ∈ items.zipIdx, ∃ c, objectOf (some e.1) (commandPath e.2) commandFields = .ok c ∧ CommandChecks e.2 c
  commandCount : Ok (integer (own r "commandCount") (matrix "commandCount") 1 maxReviewCommands)
  outputs : ∃ items, list (own r "outputs") (matrix "outputs") 1000 = .ok items ∧
    ∀ e ∈ items.zipIdx, Ok (strAny (some e.1) (outputPath e.2))
  criteria : ∃ pc, objectOf (own r "passCriteria") (matrix "passCriteria") (passCriteria.map (·.1)) = .ok pc ∧
    ∀ c ∈ passCriteria, Ok (criterion pc c)

theorem collects_matrixFields (r : Row) : Collects (inspectMatrixFields r) (MatrixChecks r) := by
  refine ((collects_inspect safe_version).bind <| collects_inspectIf.bind <|
    (collects_inspect safe_matrixSourceAt).bind <|
    (collects_inspectThen safe_objectOf fun repo _ => collects_repository repo).bind <|
    (collects_inspect safe_profileAt).bind <|
    (collects_inspectThen safe_list fun _ _ => collects_forM fun _ _ => collects_inspect safe_prerequisite).bind <|
    (collects_inspectThen safe_object fun env _ => collects_environment env).bind <|
    (collects_inspectThen safe_list fun _ _ => collects_forM fun e _ => collects_command e).bind <|
    (collects_inspect safe_integer).bind <|
    (collects_inspectThen safe_list fun _ _ => collects_forM fun _ _ => collects_inspect safe_str).bind <|
    collects_inspectThen safe_objectOf fun _ _ => collects_forM fun _ _ => collects_inspect safe_literal).iff ⟨?_, ?_⟩
  · rintro ⟨h1, h2, h3, h4, h5, h6, h7, h8, h9, h10, h11⟩
    exact ⟨h1, h2, h3, h4, h5, h6, h7, h8, h9, h10, h11⟩
  · rintro ⟨h1, h2, h3, h4, h5, h6, h7, h8, h9, h10, h11⟩
    exact ⟨h1, h2, h3, h4, h5, h6, h7, h8, h9, h10, h11⟩

theorem repositoryChecks_of_ok (h : Ok (parseReviewRepository input)) :
    ∃ repo, objectOf input (matrix "repository") repositoryFields = .ok repo ∧ RepositoryChecks repo := by
  unfold parseReviewRepository at h
  simp only [ok_bind_iff] at h
  obtain ⟨repo, hrepo, _, h1, _, h2, _, h3, _, h4, -⟩ := h
  exact ⟨repo, hrepo, ⟨_, h1⟩, ⟨_, h2⟩, ⟨_, h3⟩, ⟨_, h4⟩⟩

theorem commandChecks_of_ok {index : ℕ} {v : Value} (h : Ok (parseReviewCommand index v)) :
    ∃ c, objectOf (some v) (commandPath index) commandFields = .ok c ∧ CommandChecks index c := by
  unfold parseReviewCommand at h
  simp only [ok_bind_iff] at h
  obtain ⟨c, hc, _, h1, _, h2, _, h3, _, h4, _, h5, -⟩ := h
  exact ⟨c, hc, ⟨_, h2⟩, ⟨_, h1⟩, ⟨_, h3⟩, ⟨_, h4⟩, ⟨_, h5⟩⟩

theorem parseBinding_eq_ok {env : Row} {b : String × String} {p : String × EnvironmentValue}
    (h : parseBinding env b.1 b.2 = .ok p) : p = (b.1, .binding (units b.2)) := by
  unfold parseBinding at h
  simp only [bind_eq_ok, pure_eq_ok] at h
  obtain ⟨_, -, _, -, rfl⟩ := h
  rfl

theorem mapEach_eq {f : ℕ → α → Reviewed β} {g : α → β} (hf : ∀ i a b, f i a = .ok b → b = g a) {index : ℕ}
    {l : List α} {bs : List β} (h : mapEach f index l = .ok bs) : bs = l.map g := by
  induction l generalizing index bs with
  | nil =>
    cases h
    rfl
  | cons a l ih =>
    simp only [mapEach, bind_eq_ok, pure_eq_ok] at h
    obtain ⟨b, hb, bs, hbs, rfl⟩ := h
    rw [hf _ _ _ hb, ih hbs]
    rfl

theorem parseLiteral_eq_ok {env : Row} {pattern : Units → Bool} {name : String} {p : String × EnvironmentValue} :
    parseLiteral env pattern name = .ok p ↔ ∃ v value, objectOf (own env name) (environmentPath name) ["literal"] = .ok v ∧
      strOf (own v "literal") (dot (environmentPath name) "literal") pattern = .ok value ∧
      p = (name, .literal value) := by
  unfold parseLiteral
  simp only [bind_eq_ok, pure_eq_ok]
  constructor
  · rintro ⟨v, hv, value, hvalue, rfl⟩
    exact ⟨v, value, hv, hvalue, rfl⟩
  · rintro ⟨v, value, hv, hvalue, rfl⟩
    exact ⟨v, hv, value, hvalue, rfl⟩

/-- The literal of a ticket is checked once more. -/
theorem environmentChecks_of_ok (h : Ok (parseEnvironment input)) :
    ∃ env, object input (matrix "environment") = .ok env ∧ EnvironmentChecks env := by
  unfold parseEnvironment at h
  simp only [ok_bind_iff] at h
  obtain ⟨env, henv, bindings, hb, literals, hl, s, hs, -⟩ := h
  obtain ⟨hobj, hknown⟩ := objectOf_eq_ok henv
  refine ⟨env, hobj, hknown, mapEach_ok_each.1 ⟨_, hb⟩, ?_⟩
  have hall := mapEach_ok_each.1 ⟨_, hl⟩
  intro name hname
  by_cases hticket : name = "PA_TICKET_ID"
  · subst hticket
    have hbindings := mapEach_eq (fun _ _ _ hp => parseBinding_eq_ok hp) hb
    simp only [reviewLiteralEnvironmentNames, mapEach, bind_eq_ok] at hl
    obtain ⟨p, hp, rest, -, hrest⟩ := hl
    obtain ⟨v, value, hv, hvalue, rfl⟩ := parseLiteral_eq_ok.1 hp
    cases hrest
    have htext : literalText (bindings ++ ("PA_TICKET_ID", .literal value) :: rest) "PA_TICKET_ID" =
        some (.str value) := by
      rw [hbindings]
      rfl
    rw [htext] at hs
    obtain ⟨hsome, h1, h2, h3, h4, ht⟩ := str_eq_ok.1 hs
    cases hsome
    obtain ⟨hown, -⟩ := str_eq_ok.1 hvalue
    exact ⟨_, parseLiteral_eq_ok.2 ⟨v, s, hv, str_eq_ok.2 ⟨hown, h1, h2, h3, h4, ht⟩, rfl⟩⟩
  · rw [literalPattern, if_neg hticket]
    exact hall name hname

theorem matrixChecks_of_ok {input : Input} (h : Ok (parseReviewMatrix double input)) {r : Row}
    (hr : rowOf double input maxReviewArtifactBytes (units "matrix") = .ok r) : MatrixChecks r := by
  unfold parseReviewMatrix at h
  unfold rowOf at hr
  simp only [ok_bind_iff] at h
  simp only [bind_eq_ok] at hr
  obtain ⟨root, hroot, hr⟩ := hr
  obtain ⟨root', hroot', r', hr', _, hv, _, ho, _, hs, _, hrepo, h⟩ := h
  rw [hroot] at hroot'
  cases hroot'
  rw [hr] at hr'
  cases hr'
  split at h
  · exact absurd h not_ok_fail
  · next profile hprofile =>
    simp only [ok_bind_iff] at h
    obtain ⟨_, hp, _, he, commands, hc, _, hcount, _, -, _, hout, _, hcrit, -⟩ := h
    unfold parsePrerequisites at hp
    unfold parseCommands at hc
    unfold parseOutputs at hout
    unfold parsePassCriteria at hcrit
    simp only [bind_eq_ok] at hp hc hout hcrit
    obtain ⟨items, hitems, _, heach, -⟩ := hp
    obtain ⟨items', hitems', _, heach', -⟩ := hc
    obtain ⟨items'', hitems'', _, heach'', -⟩ := hout
    obtain ⟨pc, hpc, _, hcriteria, -⟩ := hcrit
    exact {
      version := ⟨_, hv⟩
      known := (objectOf_obj.1 ⟨_, ho⟩).2
      source := ⟨_, hs⟩
      repository := repositoryChecks_of_ok ⟨_, hrepo⟩
      profile := ⟨profile, by rw [profileAt, hprofile]⟩
      prerequisites := ⟨items, hitems, mapEach_ok.1 ⟨_, heach⟩⟩
      environment := environmentChecks_of_ok ⟨_, he⟩
      commands := ⟨items', hitems', fun e he => commandChecks_of_ok (mapEach_ok.1 ⟨_, heach'⟩ e he)⟩
      commandCount := ⟨_, hcount⟩
      outputs := ⟨items'', hitems'', mapEach_ok.1 ⟨_, heach''⟩⟩
      criteria := ⟨pc, hpc, mapEach_ok_each.1 ⟨_, hcriteria⟩⟩ }

/-! ## Agreement -/

theorem outcome_objective {input : Input} : ∃ found errors,
    outcome (inspectReviewObjective double input) [] = (.ok found, errors) ∧
      (errors = [] ↔ Ok (parseReviewObjective double input)) ∧
      ∀ o, parseReviewObjective double input = .ok o → found = some o := by
  unfold inspectReviewObjective
  rw [outcome_bind, outcome_attempt, outcome_liftM]
  rw [parseReviewObjective_ok]
  cases hr : rowOf double input maxReviewObjectiveBytes (units "objective") with
  | error e =>
    obtain ⟨error, he⟩ := Option.isSome_iff_exists.1 (safe_rowOf e hr)
    have hnot : ∀ o, parseReviewObjective double input ≠ .ok o := by
      intro o ho
      obtain ⟨r, hr', -⟩ := parseReviewObjective_ok.1 ⟨o, ho⟩
      rw [hr] at hr'
      cases hr'
    dsimp only
    rw [he]
    exact ⟨none, [error], rfl, by simp, fun o ho => absurd ho (hnot o)⟩
  | ok r =>
    dsimp only
    obtain ⟨more, hm, hp⟩ := collects_objectiveFields r []
    have hiff : (∃ r', Except.ok r = (Except.ok r' : Reviewed Row) ∧ ObjectiveChecks r') ↔ ObjectiveChecks r := by simp
    rw [outcome_bind, hm, hiff, ← hp]
    show ∃ found errors, outcome (if more = [] then _ else _) more = _ ∧ _
    split_ifs with hmore
    · obtain ⟨o, ho⟩ := parseReviewObjective_ok.2 ⟨r, hr, hp.1 hmore⟩
      refine ⟨some o, [], ?_, by simp [hmore], fun o' ho' => by rw [ho] at ho'; cases ho'; rfl⟩
      rw [map_eq_pure_bind, outcome_bind, outcome_liftM, ho, hmore]
      rfl
    · refine ⟨none, more, rfl, Iff.rfl, fun o ho => ?_⟩
      obtain ⟨r', hr', hchecks⟩ := parseReviewObjective_ok.1 ⟨o, ho⟩
      rw [hr] at hr'
      cases hr'
      exact absurd (hp.2 hchecks) hmore

theorem outcome_matrix {input : Input} : ∃ errors,
    outcome (inspectReviewMatrix double input) [] = (.ok (), errors) ∧
      (errors = [] ↔ Ok (parseReviewMatrix double input)) := by
  unfold inspectReviewMatrix
  rw [outcome_bind, outcome_attempt, outcome_liftM]
  cases hr : rowOf double input maxReviewArtifactBytes (units "matrix") with
  | error e =>
    obtain ⟨error, he⟩ := Option.isSome_iff_exists.1 (safe_rowOf e hr)
    have hnot : ¬ Ok (parseReviewMatrix double input) := by
      intro h
      unfold parseReviewMatrix at h
      simp only [ok_bind_iff] at h
      obtain ⟨root, hroot, r, hobj, -⟩ := h
      rw [rowOf, hroot, ok_bind, hobj] at hr
      cases hr
    dsimp only
    rw [he]
    exact ⟨[error], rfl, by simp [hnot]⟩
  | ok r =>
    dsimp only
    obtain ⟨more, hm, hp⟩ := collects_matrixFields r []
    rw [outcome_bind, hm]
    show ∃ errors, outcome (if more = [] then _ else _) more = _ ∧ _
    split_ifs with hmore
    · obtain ⟨last, hlast, hok⟩ := collects_inspect (@safe_matrix double input) more
      exact ⟨more ++ last, hlast, by rw [hmore, List.nil_append, hok]⟩
    · refine ⟨more, rfl, fun h => absurd h hmore, fun h => hp.2 (matrixChecks_of_ok h hr)⟩

/-- **The inspectors agree with the parsers.** -/
theorem inspectors_agree (double : Units → Number) (input : Input) :
    (∃ found errors, outcome (inspectReviewObjective double input) [] = (.ok found, errors) ∧
      (errors = [] ↔ ∃ o, parseReviewObjective double input = .ok o) ∧
      ∀ o, parseReviewObjective double input = .ok o → found = some o) ∧
    ∃ errors, outcome (inspectReviewMatrix double input) [] = (.ok (), errors) ∧
      (errors = [] ↔ ∃ m, parseReviewMatrix double input = .ok m) :=
  ⟨outcome_objective, outcome_matrix⟩

end PaPlatform.Validation.Review
