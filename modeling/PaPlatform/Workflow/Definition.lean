/-
  Workflow definitions: `workflows/contracts.ts`, `workflows/operations.ts` and
  `parseWorkflowDefinition` of `workflows/definition.ts`.

  A reader returns `none` where the source calls `reject()`.
-/
import PaPlatform.Workflow.StrictJson
import PaPlatform.Lib.Ancestors

namespace PaPlatform.Workflow

open Js Ancestry

/-! ## Contracts -/

inductive StepKind where
  | decision | check | action | publication
  deriving DecidableEq

inductive StepOutcome where
  | approved | rejected | changesRequested | cancelled | passed | failed | completed | unknown
  deriving DecidableEq

inductive Effect where
  | none | operatorCapture | artifactWritePair | ticketQueue | sourceScoped | checkScoped | gitLocal | reviewClaim
  deriving DecidableEq

inductive PackagePermission where
  | artifactPublishPair | ticketQueueAdvance | sourceEditScoped | checkExecuteScoped | repairSameScope
  | gitCommitLocal
  deriving DecidableEq

def StepKind.text : StepKind → String
  | decision => "decision"
  | check => "check"
  | action => "action"
  | publication => "publication"

def StepOutcome.text : StepOutcome → String
  | approved => "approved"
  | rejected => "rejected"
  | changesRequested => "changes-requested"
  | cancelled => "cancelled"
  | passed => "passed"
  | failed => "failed"
  | completed => "completed"
  | unknown => "unknown"

def Effect.text : Effect → String
  | none => "none"
  | operatorCapture => "operator.capture"
  | artifactWritePair => "artifact.write-pair"
  | ticketQueue => "ticket.queue"
  | sourceScoped => "source.scoped"
  | checkScoped => "check.scoped"
  | gitLocal => "git.local"
  | reviewClaim => "review.claim"

def PackagePermission.text : PackagePermission → String
  | artifactPublishPair => "artifact.publish-pair"
  | ticketQueueAdvance => "ticket.queue.advance"
  | sourceEditScoped => "source.edit-scoped"
  | checkExecuteScoped => "check.execute-scoped"
  | repairSameScope => "repair.same-scope"
  | gitCommitLocal => "git.commit-local"

/-- `STEP_OUTCOMES`. -/
def stepOutcomes : StepKind → List StepOutcome
  | .decision => [.approved, .rejected, .changesRequested, .cancelled]
  | .check => [.passed, .failed, .unknown]
  | .action | .publication => [.completed, .failed, .unknown]

/-- `PACKAGE_PERMISSIONS`. -/
def packagePermissions : List PackagePermission :=
  [.artifactPublishPair, .ticketQueueAdvance, .sourceEditScoped, .checkExecuteScoped, .repairSameScope,
    .gitCommitLocal]

structure OutputDeclaration where
  name : String
  schemaVersion : String
  deriving DecidableEq

inductive InputSource where
  | context (field : String)
  | output (stepId output : String)
  deriving DecidableEq

structure InputReference extends OutputDeclaration where
  source : InputSource
  deriving DecidableEq

inductive Predicate where
  | always
  | eq (field value : String)
  | isIn (field : String) (values : List String)
  | all (predicates : List Predicate)
  | any (predicates : List Predicate)

structure Dependency where
  stepId : String
  outcome : StepOutcome
  deriving DecidableEq

structure Verification where
  id : String
  inputs : List String

inductive FailureStrategy where
  | stop | reconcile | operatorRetry
  deriving DecidableEq

def FailureStrategy.text : FailureStrategy → String
  | stop => "stop"
  | reconcile => "reconcile"
  | operatorRetry => "operator-retry"

structure WorkflowStep where
  id : String
  order : ℤ
  title : String
  description : Option String
  kind : StepKind
  owner : String
  dependsOn : List Dependency
  when : Predicate
  inputs : List InputReference
  /-- The operation's id; its version is `v1`. -/
  operation : String
  authorization : List PackagePermission
  effects : List Effect
  outputs : List OutputDeclaration
  verification : List Verification
  transitions : List (StepOutcome × String)
  strategy : FailureStrategy
  correctionOwner : String

structure WorkflowDefinition where
  workflowId : String
  version : String
  requiredCapabilities : List String
  steps : List WorkflowStep

/-! ## Operations -/

structure OperationContract where
  id : String
  kind : StepKind
  owner : String
  capability : String
  effects : List Effect
  permissions : List PackagePermission
  inputSchemas : List String
  outputSchema : String
  verifier : String

/-- `OPERATIONS`; the version of each is `v1`. -/
def operations : List OperationContract :=
  [⟨"decision.package", .decision, "operator", "operator.foreground", [.operatorCapture], [],
      ["pa-review-bundle/v1"], "pa-decision/v1", "decision.issued"⟩,
    ⟨"publication.pair", .publication, "tickets", "artifact.paired-publication", [.artifactWritePair],
      [.artifactPublishPair], ["pa-review-bundle/v1", "pa-decision/v1"], "pa-publication-pair/v1",
      "publication.exact-pair"⟩,
    ⟨"ticket.queue", .action, "tickets", "ticket.queue", [.ticketQueue], [.ticketQueueAdvance],
      ["pa-publication-pair/v1", "pa-decision/v1"], "pa-ticket-queue-result/v1", "ticket.queue-observed"⟩,
    ⟨"source.local", .action, "execution", "execution.scoped-local", [.sourceScoped, .gitLocal],
      [.sourceEditScoped, .repairSameScope, .gitCommitLocal], ["pa-review-bundle/v1", "pa-decision/v1"],
      "pa-execution-result/v1", "execution.native"⟩,
    ⟨"check.matrix", .check, "validation", "validation.matrix", [.checkScoped], [.checkExecuteScoped],
      ["pa-review-bundle/v1", "pa-decision/v1"], "pa-validation-result/v1", "validation.native"⟩]

def operationContract (id : String) : Option OperationContract := operations.find? (·.id == id)

/-- `CONTEXT_FIELDS`. -/
def contextFields : List (String × String) :=
  [("repository.key", "pa-string/v1"), ("ticket", "pa-string/v1"), ("route.team", "pa-string/v1"),
    ("route.mode", "pa-string/v1"), ("handoff.type", "pa-string/v1"), ("runtime", "pa-string/v1"),
    ("bundle", "pa-review-bundle/v1")]

/-- `PREDICATE_FIELDS`. -/
def predicateFields : List String := (contextFields.map (·.1)).filter (· ≠ "bundle")

/-! ## Values -/

abbrev Row := List (String × Json)

def object (required optional : List String) : Json → Option Row
  | .obj row =>
    if (required.all fun key => (row.lookup key).isSome) = true ∧
        (row.all fun f => required.contains f.1 || optional.contains f.1) = true then some row
    else none
  | _ => none

/-- `read(row[key])`; no reader accepts an absent property. -/
def fieldOf {α : Type} (row : Row) (key : String) (read : Json → Option α) : Option α := (row.lookup key).bind read

/-- `/[\p\x7bCc\x7d\p\x7bCf\x7d]/u`; a text has no surrogates. -/
def isControlOrFormat (c : Char) : Bool :=
  let n := c.toNat
  n < 0x20 || (0x7f ≤ n && n ≤ 0x9f) || n == 0xad || (0x600 ≤ n && n ≤ 0x605) || n == 0x61c || n == 0x6dd ||
    n == 0x70f || (0x890 ≤ n && n ≤ 0x891) || n == 0x8e2 || n == 0x180e || (0x200b ≤ n && n ≤ 0x200f) ||
    (0x202a ≤ n && n ≤ 0x202e) || (0x2060 ≤ n && n ≤ 0x2064) || (0x2066 ≤ n && n ≤ 0x206f) || n == 0xfeff ||
    (0xfff9 ≤ n && n ≤ 0xfffb) || n == 0x110bd || n == 0x110cd || (0x13430 ≤ n && n ≤ 0x1343f) ||
    (0x1bca0 ≤ n && n ≤ 0x1bca3) || (0x1d173 ≤ n && n ≤ 0x1d17a) || n == 0xe0001 ||
    (0xe0020 ≤ n && n ≤ 0xe007f)

/-- `text(value, pattern, max)`. -/
def text (pattern : String → Bool) (max : ℕ) : Json → Option String
  | .str s =>
    if s ≠ "" ∧ utf16Length s ≤ max ∧ trimmed s = true ∧ s.toList.any isControlOrFormat = false ∧
        pattern s = true then some s
    else none
  | _ => none

/-- `text(value)`. -/
def anyText : Json → Option String := text (fun _ => true) 4096

/-- `/^[a-z][a-z0-9.-]{0,127}$/`. -/
def isId (s : String) : Bool :=
  s.toList.head?.any isLower && s.toList.length ≤ 128 &&
    s.toList.all fun c => isLower c || isDigit c || c == '.' || c == '-'

/-- `text(value, ID)`. -/
def idText : Json → Option String := text isId 4096

/-- `/^[a-z][a-z0-9-]*\/v[1-9][0-9]*$/`. -/
def isSchemaVersion (s : String) : Bool :=
  match split s '/' with
  | [name, version] =>
    name.toList.head?.any isLower && (name.toList.all fun c => isLower c || isDigit c || c == '-') &&
      match version.toList with
      | 'v' :: d :: digits => isDigit d && d != '0' && digits.all isDigit
      | _ => false
  | _ => false

def array {α : Type} (parse : Json → Option α) (max : ℕ) : Json → Option (List α)
  | .arr values => if values.length ≤ max then values.mapM parse else none
  | _ => none

def unique {α : Type} [DecidableEq α] (values : List α) : Option (List α) :=
  if values.Nodup then some values else none

/-- `oneOf`, of choices that are written as texts. -/
def oneOf {α : Type} (text : α → String) (choices : List α) : Json → Option α
  | .str s => choices.find? fun choice => text choice == s
  | _ => none

def oneOfTexts (choices : List String) : Json → Option String := oneOf id choices

/-- `literal`. -/
def literal (expected : String) (value : Json) : Option String := (Json.literal expected value).map fun _ => expected

/-- `if (p) reject()`. -/
def rejectIf (p : Prop) [Decidable p] : Option Unit := if p then none else some ()

/-! ## Steps -/

/-- `predicate`, with `depth` levels left. -/
def predicate : ℕ → Json → Option Predicate
  | _, .bool true => some .always
  | 0, _ => none
  | depth + 1, value => do
    match value.field "op" with
    | some (.str "eq") => do
      let r ← object ["op", "field", "value"] [] value
      return .eq (← fieldOf r "field" (oneOfTexts predicateFields)) (← fieldOf r "value" anyText)
    | some (.str "in") => do
      let r ← object ["op", "field", "values"] [] value
      let values ← (← fieldOf r "values" (array anyText 16)) |> unique
      rejectIf (values = [])
      return .isIn (← fieldOf r "field" (oneOfTexts predicateFields)) values
    | _ => do
      let r ← object ["op", "predicates"] [] value
      let predicates ← fieldOf r "predicates" (array (predicate depth) 16)
      rejectIf (predicates.isEmpty = true)
      let op ← fieldOf r "op" (oneOfTexts ["all", "any"])
      return if op = "all" then .all predicates else .any predicates

/-- The name and the schema version of a row. -/
def declaration (r : Row) : Option OutputDeclaration := do
  return ⟨← fieldOf r "name" idText, ← fieldOf r "schemaVersion" (text isSchemaVersion 4096)⟩

def output (value : Json) : Option OutputDeclaration := do
  let r ← object ["name", "schemaVersion"] [] value
  declaration r

def input (value : Json) : Option InputReference := do
  match value.field "source" with
  | some (.str "context") => do
    let r ← object ["name", "schemaVersion", "source", "field"] [] value
    let common ← declaration r
    return { common with source := .context (← fieldOf r "field" anyText) }
  | _ => do
    let r ← object ["name", "schemaVersion", "source", "stepId", "output"] [] value
    let common ← declaration r
    let _ ← fieldOf r "source" (literal "output")
    return { common with source := .output (← fieldOf r "stepId" idText) (← fieldOf r "output" idText) }

/-- All outcomes: `Object.values(STEP_OUTCOMES).flat()`. -/
def allOutcomes : List StepOutcome :=
  [StepKind.decision, .check, .action, .publication].flatMap stepOutcomes

def dependency (value : Json) : Option Dependency := do
  let dep ← object ["stepId", "outcome"] [] value
  return ⟨← fieldOf dep "stepId" idText, ← fieldOf dep "outcome" (oneOf StepOutcome.text allOutcomes)⟩

/-- A verification of the operation, on all of the inputs. -/
def verification (contract : OperationContract) (inputs : List InputReference) (value : Json) :
    Option Verification := do
  let verifier ← object ["id", "version", "inputs"] [] value
  let id ← fieldOf verifier "id" (literal contract.verifier)
  let names ← (← fieldOf verifier "inputs" (array idText 256)) |> unique
  rejectIf (names.length ≠ inputs.length ∨ (names.any fun name => inputs.all fun i => i.name != name) = true)
  let _ ← fieldOf verifier "version" (literal "v1")
  return ⟨id, names⟩

/-- The declarations of a step describe its operation exactly. -/
def declares (contract : OperationContract) (authorization : List PackagePermission) (effects : List Effect)
    (inputs : List InputReference) (outputs : List OutputDeclaration) : Prop :=
  authorization.length = contract.permissions.length ∧
    (contract.permissions.all fun p => authorization.contains p) = true ∧
    effects.length = contract.effects.length ∧ inputs.length = contract.inputSchemas.length ∧
    (contract.inputSchemas.all fun s => (inputs.filter fun i => i.schemaVersion == s).length == 1) = true ∧
    outputs.map (·.schemaVersion) = [contract.outputSchema]

instance (contract : OperationContract) (authorization : List PackagePermission) (effects : List Effect)
    (inputs : List InputReference) (outputs : List OutputDeclaration) :
    Decidable (declares contract authorization effects inputs outputs) := by
  unfold declares
  infer_instance

/-- The keys of a step. -/
def stepKeys : List String :=
  ["id", "order", "title", "kind", "owner", "dependsOn", "when", "inputs", "operation", "authorization", "effects",
    "outputs", "verification", "transitions", "failurePolicy"]

/-- `integer(value, min, max)`. -/
def integer (min max : ℤ) : Json → Option ℤ
  | .num n => if min ≤ n ∧ n ≤ max then some n else none
  | _ => none

def step (value : Json) : Option WorkflowStep := do
  let r ← object stepKeys ["description"] value
  let kind ← fieldOf r "kind" (oneOf StepKind.text [.decision, .check, .action, .publication])
  let op ← fieldOf r "operation" (object ["id", "version"] [])
  let operation ← fieldOf op "id" idText
  let _ ← fieldOf op "version" (literal "v1")
  let contract ← operationContract operation
  rejectIf (contract.kind ≠ kind)
  let owner ← fieldOf r "owner" (literal contract.owner)
  let transitions ← fieldOf r "transitions" (object ((stepOutcomes kind).map StepOutcome.text) [])
  let inputs ← fieldOf r "inputs" (array input 256)
  let _ ← unique (inputs.map (·.name))
  let outputs ← fieldOf r "outputs" (array output 256)
  let _ ← unique (outputs.map (·.name))
  let authorization ← (← fieldOf r "authorization" (array (oneOf PackagePermission.text packagePermissions) 256)) |> unique
  let effects ← (← fieldOf r "effects" (array (oneOf Effect.text contract.effects) 256)) |> unique
  -- Declarations must exactly describe the operation; omission cannot hide an effect or permission.
  rejectIf (¬ declares contract authorization effects inputs outputs)
  let verification ← fieldOf r "verification" (array (verification contract inputs) 256)
  rejectIf (verification.length ≠ 1)
  let failure ← fieldOf r "failurePolicy" (object ["strategy", "correctionOwner"] [])
  let id ← fieldOf r "id" idText
  let order ← fieldOf r "order" (integer 1 256)
  let title ← fieldOf r "title" (text (fun _ => true) 256)
  let description ← match r.lookup "description" with
    | none => some none
    | some v => (anyText v).map some
  let dependsOn ← fieldOf r "dependsOn" (array dependency 256)
  let when ← fieldOf r "when" (predicate 9)
  let targets ← (stepOutcomes kind).mapM fun outcome => do
    let target ← fieldOf transitions outcome.text idText
    return (outcome, target)
  let strategy ← fieldOf failure "strategy" (oneOf FailureStrategy.text [.stop, .reconcile, .operatorRetry])
  let correctionOwner ← fieldOf failure "correctionOwner" idText
  return { id, order, title, description, kind, owner, dependsOn, when, inputs, operation, authorization, effects,
           outputs, verification, transitions := targets, strategy, correctionOwner }

/-! ## Definitions -/

/-- `byId.get(id)`. -/
def byId (steps : List WorkflowStep) (id : String) : Option WorkflowStep := steps.find? (·.id == id)

/-- The steps that a step depends on. -/
def dependencies (steps : List WorkflowStep) (id : String) : Option (List String) :=
  (byId steps id).map fun s => s.dependsOn.map (·.stepId)

/-- `["completed", "blocked", "cancelled"]`. -/
def endings : List String := ["completed", "blocked", "cancelled"]

/-- The producer of a dependency can have its outcome. -/
def dependencyOk (steps : List WorkflowStep) (d : Dependency) : Bool :=
  (byId steps d.stepId).any fun producer => (stepOutcomes producer.kind).contains d.outcome

/-- An input is of the context, or an output of a prior step. -/
def inputOk (steps : List WorkflowStep) (prior : List String) (i : InputReference) : Bool :=
  match i.source with
  | .context field => contextFields.lookup field == some i.schemaVersion
  | .output stepId output => prior.contains stepId &&
      (byId steps stepId).any fun producer =>
        producer.outputs.any fun o => o.name == output && o.schemaVersion == i.schemaVersion

/-- A transition ends the workflow or leads to a step that depends on it. -/
def transitionOk (steps : List WorkflowStep) (s : WorkflowStep) (t : StepOutcome × String) : Bool :=
  if endings.contains t.2 then t.1 != .unknown || t.2 == "blocked"
  else t.1 != .unknown && (byId steps t.2).any fun successor =>
    successor.dependsOn.any fun d => d.stepId == s.id && d.outcome == t.1

/-- One round of the loop over the steps, with the `ancestorCache`. -/
def checkStep (steps : List WorkflowStep) (cache : Cache String) (s : WorkflowStep) : Option (Cache String) := do
  let _ ← unique (s.dependsOn.map (·.stepId))
  let prior ← ancestors (dependencies steps) (steps.length + 1) [] cache s.id
  rejectIf (s.dependsOn.all (dependencyOk steps) = false)
  rejectIf (s.inputs.all (inputOk steps prior.1) = false)
  rejectIf (s.transitions.all (transitionOk steps s) = false)
  return prior.2

/-- The checks of the steps. -/
def checkSteps (steps : List WorkflowStep) : Option (Cache String) := do
  rejectIf (steps = [])
  let _ ← unique (steps.map (·.id))
  let _ ← unique (steps.map (·.order))
  rejectIf ((steps.any fun s => endings.contains s.id) = true)
  steps.foldlM (checkStep steps) fun _ => none

/-- A definition, of the value of its JSON. -/
def definition (value : Json) : Option WorkflowDefinition := do
  let r ← object ["schemaVersion", "workflowId", "version", "requiredCapabilities", "steps"] [] value
  let _ ← fieldOf r "schemaVersion" (literal "pa-workflow-definition/v1")
  let steps ← fieldOf r "steps" (array step 256)
  let _ ← checkSteps steps
  let requiredCapabilities ← (← fieldOf r "requiredCapabilities" (array idText 256)) |> unique
  rejectIf ((steps.any fun s => (operationContract s.operation).all fun contract =>
    !requiredCapabilities.contains contract.capability) = true)
  return ⟨← fieldOf r "workflowId" idText, ← fieldOf r "version" idText, requiredCapabilities, steps⟩

def parseWorkflowDefinition (double : String → Json) (bytes : Bytes) : Option WorkflowDefinition :=
  (strictJson double bytes).bind definition

end PaPlatform.Workflow
