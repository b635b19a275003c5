/-
  The JSON of custody commands.

  `parseCommand` of what `toJson` writes is the command again, provided that
  the inventory of a `settle` passes its own checks; `parseCommand` accepts no
  other inventory.  `sha256` stands for the hash function of the platform.
-/
import PaPlatform.Custody.Parse

namespace PaPlatform.Custody

open Js

/-! ## Plans -/

def PhaseExecutionPlan.keys : List String := ["phaseId", "scope", "paths", "requirements",
  "prerequisites", "checks", "size", "complexity", "rationale"]

@[simp] theorem PhaseExecutionPlan.exactObject_keys {values : List Json} (h : values.length = 9) :
    Json.exactObject keys (.obj (keys.zip values)) = some values :=
  Json.exactObject_zip (by decide +kernel) h.symm

def PhaseExecutionPlan.toJson (p : PhaseExecutionPlan) : Json :=
  .obj (keys.zip [.ofChecked p.phaseId, .ofChecked p.scope, .ofNames p.paths,
    .ofNames p.requirements, .arr (p.prerequisites.1.map SourceVersion.toJson), .ofNames p.checks,
    .ofChecked p.size, .ofChecked p.complexity, .ofChecked p.rationale])

/-- The reader for `prerequisites`. -/
def parsePrerequisites (value : Json) : Option {l : List SourceVersion // l.length ≤ 64} := do
  let l ← Json.items parseSourceVersion value
  if h : l.length ≤ 64 then some ⟨l, h⟩ else none

/-- `parseExecutionPlan`. -/
def parseExecutionPlan (value : Json) : Option PhaseExecutionPlan := do
  let [phaseId, scope, paths, requirements, prerequisites, checks, size, complexity, rationale] ←
    Json.exactObject PhaseExecutionPlan.keys value | none
  return ⟨← workflowText phaseId, ← workflowText scope, ← Json.names ticketPathOk paths,
    ← Json.names textOk requirements, ← parsePrerequisites prerequisites,
    ← Json.names checkNameOk checks, ← workflowText size, ← workflowText complexity,
    ← workflowText rationale⟩

@[simp] theorem parsePrerequisites_arr (l : {l : List SourceVersion // l.length ≤ 64}) :
    parsePrerequisites (.arr (l.1.map SourceVersion.toJson)) = some l := by
  simp [parsePrerequisites, Json.items_arr parseSourceVersion_toJson, l.2]

@[simp] theorem parseExecutionPlan_toJson (p : PhaseExecutionPlan) :
    parseExecutionPlan p.toJson = some p := by
  simp only [parseExecutionPlan, PhaseExecutionPlan.toJson, PhaseExecutionPlan.exactObject_keys,
    List.length_cons, List.length_nil, Option.bind_eq_bind, Option.bind_some, Option.pure_def,
    workflowText_ofChecked, Json.names_ofNames, parsePrerequisites_arr]

/-! ## Failures -/

def ExecutionFailure.keys : List String := ["check", "command", "exitCode", "candidateSha", "output"]

@[simp] theorem ExecutionFailure.exactObject_keys {values : List Json} (h : values.length = 5) :
    Json.exactObject keys (.obj (keys.zip values)) = some values :=
  Json.exactObject_zip (by decide +kernel) h.symm

def ExecutionFailure.toJson (f : ExecutionFailure) : Json :=
  .obj (keys.zip [.ofChecked f.check, .ofChecked f.command, .num f.exitCode.1,
    .ofChecked f.candidateSha, f.output.toJson])

/-- The reader for `exitCode`. -/
def parseExitCode : Json → Option {n : ℤ // -1 ≤ n ∧ n ≤ 255 ∧ n ≠ 0}
  | .num n => if h : -1 ≤ n ∧ n ≤ 255 ∧ n ≠ 0 then some ⟨n, h⟩ else none
  | _ => none

/-- `parseFailure`. -/
def parseFailure (value : Json) : Option ExecutionFailure := do
  let [check, command, exitCode, candidateSha, output] ←
    Json.exactObject ExecutionFailure.keys value | none
  return ⟨← workflowText check, ← Json.checked commandTextOk command, ← parseExitCode exitCode,
    ← workflowGitSha candidateSha, ← parseSourceVersion output⟩

@[simp] theorem parseExitCode_num (n : {n : ℤ // -1 ≤ n ∧ n ≤ 255 ∧ n ≠ 0}) :
    parseExitCode (.num n.1) = some n := dif_pos n.2

@[simp] theorem parseFailure_toJson (f : ExecutionFailure) : parseFailure f.toJson = some f := by
  simp [parseFailure, ExecutionFailure.toJson]

@[simp] theorem nullable_parseFailure (o : Option ExecutionFailure) :
    Json.nullable parseFailure (.ofOption ExecutionFailure.toJson o) = some o :=
  Json.nullable_ofOption parseFailure_toJson (by simp [ExecutionFailure.toJson]) o

/-! ## Recoveries -/

def ExecutionRecovery.keys : List String :=
  ["originalFailure", "diagnostic", "remedy", "rationale", "recheck"]

@[simp] theorem ExecutionRecovery.exactObject_keys {values : List Json} (h : values.length = 5) :
    Json.exactObject keys (.obj (keys.zip values)) = some values :=
  Json.exactObject_zip (by decide +kernel) h.symm

def ExecutionRecovery.toJson (r : ExecutionRecovery) : Json :=
  .obj (keys.zip [r.originalFailure.toJson, .ofOption SourceVersion.toJson r.diagnostic,
    .ofOption SourceVersion.toJson r.remedy, .ofOption .ofChecked r.rationale, r.recheck.toJson])

/-- The reader for `recovery`. -/
def parseRecovery (value : Json) : Option ExecutionRecovery := do
  let [originalFailure, diagnostic, remedy, rationale, recheck] ←
    Json.exactObject ExecutionRecovery.keys value | none
  return ⟨← parseSourceVersion originalFailure, ← Json.nullable parseSourceVersion diagnostic,
    ← Json.nullable parseSourceVersion remedy, ← nullableText rationale, ← parseFailure recheck⟩

@[simp] theorem parseRecovery_toJson (r : ExecutionRecovery) : parseRecovery r.toJson = some r := by
  simp [parseRecovery, ExecutionRecovery.toJson]

/-! ## Inventories -/

def PathClassification.text : PathClassification → String
  | .ticketProduced => "ticket-produced"
  | .ticketPreserved => "ticket-preserved"

def InventoryPath.keys : List String := ["path", "classification"]

@[simp] theorem InventoryPath.exactObject_keys {values : List Json} (h : values.length = 2) :
    Json.exactObject keys (.obj (keys.zip values)) = some values :=
  Json.exactObject_zip (by decide +kernel) h.symm

def InventoryPath.toJson (p : InventoryPath) : Json :=
  .obj (keys.zip [.ofChecked p.path, .str p.classification.text])

/-- The reader for `classification`. -/
def parseClassification : Json → Option PathClassification
  | .str "ticket-produced" => some .ticketProduced
  | .str "ticket-preserved" => some .ticketPreserved
  | _ => none

/-- The reader for an item of `paths`. -/
def parseInventoryPath (value : Json) : Option InventoryPath := do
  let [path, classification] ← Json.exactObject InventoryPath.keys value | none
  return ⟨← Json.checked ticketPathOk path, ← parseClassification classification⟩

@[simp] theorem parseClassification_text (c : PathClassification) :
    parseClassification (.str c.text) = some c := by
  cases c <;> rfl

@[simp] theorem parseInventoryPath_toJson (p : InventoryPath) :
    parseInventoryPath p.toJson = some p := by
  simp [parseInventoryPath, InventoryPath.toJson]

/-- The paths that a status entry names; an ignored or unmerged entry or an
    improper path has none. -/
def entryPaths (entry : RepositoryGitStatusEntry) : Option (List TicketPath) := do
  Json.check (entry.kind ≠ .ignored ∧ entry.kind ≠ .unmerged)
  let path ← Json.checked ticketPathOk (.str entry.path)
  match entry.source with
  | none => return [path]
  | some (source, _) => return [path, ← Json.checked ticketPathOk (.str source)]

/-- The distinct paths of a status output, sorted. -/
def statusPaths (raw : Bytes) : Option (List String) := do
  let entries ← (parseRepositoryGitStatus raw).toOption
  let paths ← entries.mapM entryPaths
  return sortStrings (paths.flatten.map (·.1)).eraseDups

variable (sha256 : Bytes → Sha256)

/-- The checks of `parseExecutionRecoveryInventory` across its fields. -/
def ExecutionRecoveryInventory.Consistent (i : ExecutionRecoveryInventory) : Prop :=
  utf16Length i.porcelainV2Base64 ≤ 32768 ∧ i.paths.length ≤ 128 ∧
    base64Text (base64Decode i.porcelainV2Base64) = i.porcelainV2Base64 ∧
    sha256 (snapshotBytes i.branch.1 i.headSha.1 (base64Decode i.porcelainV2Base64)) =
      i.snapshotSha256 ∧
    statusPaths (base64Decode i.porcelainV2Base64) =
      some (sortStrings (i.paths.map fun p => p.path.1))

instance (i : ExecutionRecoveryInventory) : Decidable (i.Consistent sha256) :=
  inferInstanceAs (Decidable (_ ∧ _))

def ExecutionRecoveryInventory.keys : List String :=
  ["branch", "headSha", "porcelainV2Base64", "snapshotSha256", "paths", "evidence"]

@[simp] theorem ExecutionRecoveryInventory.exactObject_keys {values : List Json}
    (h : values.length = 6) : Json.exactObject keys (.obj (keys.zip values)) = some values :=
  Json.exactObject_zip (by decide +kernel) h.symm

def ExecutionRecoveryInventory.toJson (i : ExecutionRecoveryInventory) : Json :=
  .obj (keys.zip [.ofChecked i.branch, .ofChecked i.headSha, .str i.porcelainV2Base64,
    .ofChecked i.snapshotSha256, .arr (i.paths.map InventoryPath.toJson), i.evidence.toJson])

/-- `parseExecutionRecoveryInventory`. -/
def parseExecutionRecoveryInventory (value : Json) : Option ExecutionRecoveryInventory := do
  let [branch, headSha, porcelainV2Base64, snapshotSha256, paths, evidence] ←
    Json.exactObject ExecutionRecoveryInventory.keys value | none
  let inventory := ⟨← workflowText branch, ← workflowGitSha headSha,
    ← Json.string porcelainV2Base64, ← workflowSha snapshotSha256,
    ← Json.items parseInventoryPath paths, ← parseSourceVersion evidence⟩
  Json.check (inventory.Consistent sha256)
  return inventory

variable {sha256}

theorem parseExecutionRecoveryInventory_consistent {value : Json} {i : ExecutionRecoveryInventory}
    (h : parseExecutionRecoveryInventory sha256 value = some i) : i.Consistent sha256 := by
  simp only [parseExecutionRecoveryInventory, Option.bind_eq_bind, Option.bind_eq_some_iff] at h
  obtain ⟨values, -, h⟩ := h
  split at h
  · simp only [Option.pure_def, Option.bind_eq_some_iff, Option.some.injEq, Json.check_eq_some] at h
    obtain ⟨_, -, _, -, _, -, _, -, _, -, _, -, ⟨⟩, hc, rfl⟩ := h
    exact hc
  · cases h

theorem parseExecutionRecoveryInventory_toJson {i : ExecutionRecoveryInventory}
    (hi : i.Consistent sha256) : parseExecutionRecoveryInventory sha256 i.toJson = some i := by
  simp [parseExecutionRecoveryInventory, ExecutionRecoveryInventory.toJson,
    Json.items_arr parseInventoryPath_toJson, Json.check_pos hi]

/-! ## Operations -/

def ExecutionOperation.keys : List String := ["id", "kind", "check", "intent"]

@[simp] theorem ExecutionOperation.exactObject_keys {values : List Json} (h : values.length = 4) :
    Json.exactObject keys (.obj (keys.zip values)) = some values :=
  Json.exactObject_zip (by decide +kernel) h.symm

def ExecutionOperation.toJson (o : ExecutionOperation) : Json :=
  .obj (keys.zip [.ofChecked o.id, .str o.kind.text, .ofOption .ofChecked o.check,
    .ofOption SourceVersion.toJson o.intent])

/-- The reader for `kind`. -/
def parseOperationKind : Json → Option ExecutionOperationKind
  | .str "write" => some .write
  | .str "edit" => some .edit
  | .str "shell" => some .shell
  | .str "check" => some .check
  | .str "feature-update" => some .featureUpdate
  | .str "launch" => some .launch
  | _ => none

@[simp] theorem parseOperationKind_text (k : ExecutionOperationKind) :
    parseOperationKind (.str k.text) = some k := by
  cases k <;> rfl

/-- `parseOperation`. -/
def parseOperation (value : Json) : Option ExecutionOperation := do
  let [id, kind, check, intent] ← Json.exactObject ExecutionOperation.keys value | none
  let id ← workflowText id
  let kind ← parseOperationKind kind
  let check ← nullableText check
  let intent ← Json.nullable parseSourceVersion intent
  if h : (kind = .check ↔ check.isSome) ∧ (kind = .featureUpdate → intent.isSome) then
    some ⟨id, kind, check, intent, h.1, h.2⟩
  else none

@[simp] theorem parseOperation_toJson (o : ExecutionOperation) :
    parseOperation o.toJson = some o := by
  have h : (o.kind = .check ↔ o.check.isSome) ∧ (o.kind = .featureUpdate → o.intent.isSome) :=
    ⟨o.check_iff, o.update_intent⟩
  simp only [parseOperation, ExecutionOperation.toJson, ExecutionOperation.exactObject_keys,
    List.length_cons, List.length_nil, Option.bind_eq_bind, Option.bind_some,
    workflowText_ofChecked, parseOperationKind_text, nullableText_ofOption,
    nullable_parseSourceVersion, dif_pos h]

/-! ## Commands -/

def Executor.text : Executor → String
  | .orchestratorDirect => "orchestrator-direct"
  | .implementChild => "implement-child"
  | .reviewReserved => "review-reserved"

def RestartAction.text : RestartAction → String
  | .restart => "restart"
  | .restartIntent => "restart-intent"
  | .restartLaunch => "restart-launch"

def AcceptanceKind.text : AcceptanceKind → String
  | .review => "review"
  | .ci => "ci"
  | .uat => "uat"
  | .integration => "integration"

/-- The reader for `executor`. -/
def parseExecutor : Json → Option Executor
  | .str "orchestrator-direct" => some .orchestratorDirect
  | .str "implement-child" => some .implementChild
  | .str "review-reserved" => some .reviewReserved
  | _ => none

/-- The reader for `kind` of an acceptance. -/
def parseAcceptanceKind : Json → Option AcceptanceKind
  | .str "review" => some .review
  | .str "ci" => some .ci
  | .str "uat" => some .uat
  | .str "integration" => some .integration
  | _ => none

@[simp] theorem parseExecutor_text (e : Executor) : parseExecutor (.str e.text) = some e := by
  cases e <;> rfl

@[simp] theorem parseAcceptanceKind_text (k : AcceptanceKind) :
    parseAcceptanceKind (.str k.text) = some k := by
  cases k <;> rfl

namespace ExecutionCommand

/-- The text of `action`. -/
def action : ExecutionCommand → String
  | plan _ => "plan"
  | advance _ _ => "advance"
  | select _ _ _ => "select"
  | restart a _ _ => a.text
  | begin _ => "begin"
  | finish _ _ _ _ => "finish"
  | settle _ _ => "settle"
  | attempt _ => "attempt"
  | resolve _ => "resolve"
  | candidate _ _ => "candidate"
  | accept _ _ => "accept"

/-- The fields of a command after `action`. -/
def fields : ExecutionCommand → List (String × Json)
  | plan p => [("plan", p.toJson)]
  | advance p evidence => [("plan", p.toJson), ("evidence", evidence.toJson)]
  | select executor holder handover =>
    [("executor", .str executor.text), ("holder", holder.toJson), ("handover", handover.toJson)]
  | restart _ previousOwner evidence =>
    [("previousOwner", previousOwner.toJson), ("evidence", evidence.toJson)]
  | begin operation => [("operation", operation.toJson)]
  | finish operationId evidence failure candidateSha =>
    [("operationId", .ofChecked operationId), ("evidence", evidence.toJson),
      ("failure", .ofOption ExecutionFailure.toJson failure)] ++
    (candidateSha.map fun sha => ("candidateSha", Json.ofChecked sha)).toList
  | settle evidence inventory => [("evidence", evidence.toJson), ("inventory", inventory.toJson)]
  | attempt recovery => [("recovery", recovery.toJson)]
  | resolve evidence => [("evidence", evidence.toJson)]
  | candidate candidateSha mapping =>
    [("candidateSha", .ofChecked candidateSha), ("mapping", mapping.toJson)]
  | accept kind evidence => [("kind", .str kind.text), ("evidence", evidence.toJson)]

def toJson (c : ExecutionCommand) : Json := .obj (("action", .str c.action) :: c.fields)

end ExecutionCommand

section
variable (sha256 : Bytes → Sha256)

/-- The commands of the restart family. -/
def parseRestart (action : RestartAction) (value : Json) : Option ExecutionCommand := do
  let [_, previousOwner, evidence] ←
    Json.exactObject ["action", "previousOwner", "evidence"] value | none
  return .restart action (← parseHolder previousOwner) (← parseSourceVersion evidence)

/-- The optional field `candidateSha` of a `finish`. -/
def parseFinish (value : Json) : Option ExecutionCommand :=
  match Json.field "candidateSha" value with
  | none => do
    let [_, operationId, evidence, failure] ←
      Json.exactObject ["action", "operationId", "evidence", "failure"] value | none
    return .finish (← workflowText operationId) (← parseSourceVersion evidence)
      (← Json.nullable parseFailure failure) none
  | some _ => do
    let [_, operationId, evidence, failure, candidateSha] ←
      Json.exactObject ["action", "operationId", "evidence", "failure", "candidateSha"] value | none
    return .finish (← workflowText operationId) (← parseSourceVersion evidence)
      (← Json.nullable parseFailure failure) (some (← workflowGitSha candidateSha))

/-- `parseCommand`, for a given text of `action`. -/
def parseAction (value : Json) : String → Option ExecutionCommand
  | "plan" => do
    let [_, plan] ← Json.exactObject ["action", "plan"] value | none
    return .plan (← parseExecutionPlan plan)
  | "advance" => do
    let [_, plan, evidence] ← Json.exactObject ["action", "plan", "evidence"] value | none
    return .advance (← parseExecutionPlan plan) (← parseSourceVersion evidence)
  | "select" => do
    let [_, executor, holder, handover] ←
      Json.exactObject ["action", "executor", "holder", "handover"] value | none
    return .select (← parseExecutor executor) (← parseHolder holder) (← parseSourceVersion handover)
  | "restart" => parseRestart .restart value
  | "restart-intent" => parseRestart .restartIntent value
  | "restart-launch" => parseRestart .restartLaunch value
  | "begin" => do
    let [_, operation] ← Json.exactObject ["action", "operation"] value | none
    return .begin (← parseOperation operation)
  | "finish" => parseFinish value
  | "settle" => do
    let [_, evidence, inventory] ← Json.exactObject ["action", "evidence", "inventory"] value | none
    return .settle (← parseSourceVersion evidence)
      (← parseExecutionRecoveryInventory sha256 inventory)
  | "attempt" => do
    let [_, recovery] ← Json.exactObject ["action", "recovery"] value | none
    return .attempt (← parseRecovery recovery)
  | "resolve" => do
    let [_, evidence] ← Json.exactObject ["action", "evidence"] value | none
    return .resolve (← parseSourceVersion evidence)
  | "candidate" => do
    let [_, candidateSha, mapping] ← Json.exactObject ["action", "candidateSha", "mapping"] value
      | none
    return .candidate (← workflowGitSha candidateSha) (← parseSourceVersion mapping)
  | "accept" => do
    let [_, kind, evidence] ← Json.exactObject ["action", "kind", "evidence"] value | none
    return .accept (← parseAcceptanceKind kind) (← parseSourceVersion evidence)
  | _ => none

/-- `parseCommand`. -/
def parseCommand (value : Json) : Option ExecutionCommand := do
  parseAction sha256 value (← Json.string (← Json.field "action" value))

/-- The inventory of a `settle` passes its checks. -/
def ExecutionCommand.Consistent : ExecutionCommand → Prop
  | .settle _ inventory => inventory.Consistent sha256
  | _ => True

end

theorem parseCommand_toJson {c : ExecutionCommand} (hc : c.Consistent sha256) :
    parseCommand sha256 c.toJson = some c := by
  have haction : parseCommand sha256 c.toJson = parseAction sha256 c.toJson c.action := rfl
  rw [haction, ExecutionCommand.toJson]
  cases c with
  | restart a =>
    cases a <;> simp [parseAction, ExecutionCommand.action, ExecutionCommand.fields,
      Json.exactObject, List.lookup, RestartAction.text, parseRestart]
  | finish id evidence failure candidate =>
    cases candidate <;> simp [parseAction, ExecutionCommand.action, ExecutionCommand.fields,
      Json.exactObject, List.lookup, parseFinish, Json.field]
  | settle =>
    simp [parseAction, ExecutionCommand.action, ExecutionCommand.fields, Json.exactObject,
      List.lookup, parseExecutionRecoveryInventory_toJson hc]
  | _ =>
    simp [parseAction, ExecutionCommand.action, ExecutionCommand.fields, Json.exactObject,
      List.lookup]

theorem parseRestart_consistent {value : Json} {a : RestartAction} {c : ExecutionCommand}
    (h : parseRestart a value = some c) : c.Consistent sha256 := by
  simp only [parseRestart, Option.bind_eq_bind, Option.bind_eq_some_iff] at h
  obtain ⟨values, -, h⟩ := h
  split at h
  · simp only [Option.pure_def, Option.bind_eq_some_iff, Option.some.injEq] at h
    obtain ⟨_, -, _, -, rfl⟩ := h
    trivial
  · cases h

theorem parseFinish_consistent {value : Json} {c : ExecutionCommand} (h : parseFinish value = some c) :
    c.Consistent sha256 := by
  unfold parseFinish at h
  split at h
  all_goals
    simp only [Option.bind_eq_bind, Option.bind_eq_some_iff] at h
    obtain ⟨values, -, h⟩ := h
    split at h
    · simp only [Option.pure_def, Option.bind_eq_some_iff, Option.some.injEq] at h
      obtain ⟨_, -, _, -, _, -, h⟩ := h
      first
      | obtain rfl := h; trivial
      | obtain ⟨_, -, rfl⟩ := h; trivial
    · cases h

theorem parseAction_consistent {value : Json} {action : String} {c : ExecutionCommand}
    (h : parseAction sha256 value action = some c) : c.Consistent sha256 := by
  unfold parseAction at h
  split at h
  case h_4 | h_5 | h_6 => exact parseRestart_consistent h
  case h_8 => exact parseFinish_consistent h
  case h_14 => cases h
  all_goals
    simp only [Option.bind_eq_bind, Option.bind_eq_some_iff] at h
    obtain ⟨values, -, h⟩ := h
    split at h
    case h_2 => cases h
    simp only [Option.pure_def, Option.bind_eq_some_iff, Option.some.injEq] at h
    -- One or more fields, of which only an inventory has something to say.
    first
    | obtain ⟨_, -, i, hi, rfl⟩ := h; exact parseExecutionRecoveryInventory_consistent hi
    | obtain ⟨_, -, rfl⟩ := h; trivial
    | obtain ⟨_, -, _, -, rfl⟩ := h; trivial
    | obtain ⟨_, -, _, -, _, -, rfl⟩ := h; trivial

theorem parseCommand_consistent {value : Json} {c : ExecutionCommand}
    (h : parseCommand sha256 value = some c) : c.Consistent sha256 := by
  simp only [parseCommand, Option.bind_eq_bind, Option.bind_eq_some_iff] at h
  obtain ⟨_, -, action, -, h⟩ := h
  exact parseAction_consistent h

end PaPlatform.Custody
