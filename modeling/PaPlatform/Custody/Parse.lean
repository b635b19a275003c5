/-
  The readers of `deploy/execution-custody.ts` and the JSON they read.

  A reader returns `none` where the source throws.  Each value is written by
  `toJson` with its fields in the order of the source's object literals, and is
  read back by its reader.
-/
import PaPlatform.Custody.Types
import PaPlatform.Deploy.GitStatus

namespace PaPlatform.Custody

open Js

/-! ## Holders -/

def ProcessFingerprint.keys : List String := ["pid", "startTimeTicks", "bootId"]

@[simp] theorem ProcessFingerprint.exactObject_keys {values : List Json} (h : values.length = 3) :
    Json.exactObject keys (.obj (keys.zip values)) = some values :=
  Json.exactObject_zip (by decide +kernel) h.symm

def ProcessFingerprint.toJson (p : ProcessFingerprint) : Json :=
  .obj (keys.zip [.num p.pid.1, .ofChecked p.startTimeTicks, .ofChecked p.bootId])

def ExecutionHolder.keys : List String := ["deploymentId", "process"]

@[simp] theorem ExecutionHolder.exactObject_keys {values : List Json} (h : values.length = 2) :
    Json.exactObject keys (.obj (keys.zip values)) = some values :=
  Json.exactObject_zip (by decide +kernel) h.symm

def ExecutionHolder.toJson (h : ExecutionHolder) : Json :=
  .obj (keys.zip [.ofChecked h.deploymentId, h.process.toJson])

/-- `parseHolder`. -/
def parseHolder (value : Json) : Option ExecutionHolder := do
  let [deploymentId, process] ← Json.exactObject ExecutionHolder.keys value | none
  let [pid, startTimeTicks, bootId] ← Json.exactObject ProcessFingerprint.keys process | none
  return ⟨← Json.checked deploymentIdOk deploymentId, ← Json.bounded 1 2147483647 pid,
    ← Json.checked ticksOk startTimeTicks, ← workflowText bootId⟩

@[simp] theorem parseHolder_toJson (h : ExecutionHolder) : parseHolder h.toJson = some h := by
  simp [parseHolder, ExecutionHolder.toJson, ProcessFingerprint.toJson]

/-! ## Bounds and bindings -/

def ExecutionBounds.keys : List String := ["startedAt", "deadlineAt", "runtimeMinutes",
  "consecutiveNoProgress", "replacementsUsed", "reviewCap", "reviewsUsed", "unresolvedFailureRef"]

@[simp] theorem ExecutionBounds.exactObject_keys {values : List Json} (h : values.length = 8) :
    Json.exactObject keys (.obj (keys.zip values)) = some values :=
  Json.exactObject_zip (by decide +kernel) h.symm

def ExecutionBounds.toJson (b : ExecutionBounds) : Json :=
  .obj (keys.zip [.ofChecked b.startedAt, .ofChecked b.deadlineAt, .num b.runtimeMinutes,
    .num b.consecutiveNoProgress, .num b.replacementsUsed, .num b.reviewCap, .num b.reviewsUsed,
    .ofOption .ofChecked b.unresolvedFailureRef])

/-- `parseExecutionBounds`. -/
def parseExecutionBounds (value : Json) : Option ExecutionBounds := do
  let [startedAt, deadlineAt, runtimeMinutes, consecutiveNoProgress, replacementsUsed, reviewCap,
    reviewsUsed, unresolvedFailureRef] ← Json.exactObject ExecutionBounds.keys value | none
  let runtimeMinutes ← Json.natural 1 240 runtimeMinutes
  let startedAt ← workflowTimestamp startedAt
  let deadlineAt ← workflowTimestamp deadlineAt
  let consecutiveNoProgress ← Json.natural 0 3 consecutiveNoProgress
  let unresolvedFailureRef ← nullableText unresolvedFailureRef
  Json.check (deadlineAt.ms - startedAt.ms = runtimeMinutes * 60000 ∧
    (0 < consecutiveNoProgress → unresolvedFailureRef.isSome))
  let reviewCap ← Json.natural 1 3 reviewCap
  let replacementsUsed ← Json.natural 0 3 replacementsUsed
  let reviewsUsed ← Json.natural 0 reviewCap reviewsUsed
  return ⟨startedAt, deadlineAt, runtimeMinutes, consecutiveNoProgress, replacementsUsed, reviewCap,
    reviewsUsed, unresolvedFailureRef⟩

theorem parseExecutionBounds_accepted {value : Json} {b : ExecutionBounds}
    (h : parseExecutionBounds value = some b) : b.Accepted := by
  simp only [parseExecutionBounds, Option.bind_eq_bind, Option.bind_eq_some_iff] at h
  obtain ⟨values, -, h⟩ := h
  split at h
  · simp only [Option.pure_def, Option.bind_eq_some_iff, Option.some.injEq, Json.check_eq_some] at h
    obtain ⟨runtime, h1, _, -, _, -, noProgress, h2, _, -, ⟨⟩, ⟨h3, h4⟩, cap, h5, replacements, h6,
      reviews, h7, rfl⟩ := h
    exact ⟨(Json.natural_eq_some h1).1, (Json.natural_eq_some h1).2, (Json.natural_eq_some h2).2,
      h3, h4, (Json.natural_eq_some h5).1, (Json.natural_eq_some h5).2, (Json.natural_eq_some h6).2,
      (Json.natural_eq_some h7).2⟩
  · cases h

theorem parseExecutionBounds_toJson {b : ExecutionBounds} (hb : b.Accepted) :
    parseExecutionBounds b.toJson = some b := by
  obtain ⟨h1, h2, h3, h4, h5, h6, h7, h8, h9⟩ := hb
  have hcheck := Json.check_pos (p := b.deadlineAt.ms - b.startedAt.ms = b.runtimeMinutes * 60000 ∧
    (0 < b.consecutiveNoProgress → b.unresolvedFailureRef.isSome)) ⟨h4, h5⟩
  simp [parseExecutionBounds, ExecutionBounds.toJson,
    Json.natural_num, hcheck, h1, h2, h3, h6, h7, h8, h9]

theorem parseExecutionBounds_toJson_iff {b : ExecutionBounds} :
    parseExecutionBounds b.toJson = some b ↔ b.Accepted :=
  ⟨parseExecutionBounds_accepted, parseExecutionBounds_toJson⟩

def ExecutionBinding.keys : List String := ["schemaVersion", "operationId", "lineageId", "repoKey",
  "repoRoot", "worktreeRoot", "ticket", "branch", "initialHeadSha", "owner", "bounds"]

@[simp] theorem ExecutionBinding.exactObject_keys {values : List Json} (h : values.length = 11) :
    Json.exactObject keys (.obj (keys.zip values)) = some values :=
  Json.exactObject_zip (by decide +kernel) h.symm

def ExecutionBinding.toJson (b : ExecutionBinding) : Json :=
  .obj (keys.zip [.str "execution-binding/v1", .ofChecked b.operationId, .ofChecked b.lineageId,
    .ofChecked b.repoKey, .ofChecked b.repoRoot, .ofChecked b.worktreeRoot, .ofChecked b.ticket,
    .ofChecked b.branch, .ofChecked b.initialHeadSha, b.owner.toJson, b.bounds.toJson])

/-- `parseExecutionBinding`. -/
def parseExecutionBinding (value : Json) : Option ExecutionBinding := do
  let [schemaVersion, operationId, lineageId, repoKey, repoRoot, worktreeRoot, ticket, branch,
    initialHeadSha, owner, bounds] ← Json.exactObject ExecutionBinding.keys value | none
  let ticket ← workflowText ticket
  let branch ← workflowText branch
  let repoRoot ← workflowPath repoRoot
  let worktreeRoot ← workflowPath worktreeRoot
  Json.literal "execution-binding/v1" schemaVersion
  Json.check (repoRoot ≠ worktreeRoot ∧ ticketOk ticket.1 = true ∧
    branchOk ticket.1 branch.1 = true)
  return ⟨← workflowSha operationId, ← workflowText lineageId, ← workflowText repoKey, repoRoot,
    worktreeRoot, ticket, branch, ← workflowGitSha initialHeadSha, ← parseHolder owner,
    ← parseExecutionBounds bounds⟩

theorem parseExecutionBinding_accepted {value : Json} {b : ExecutionBinding}
    (h : parseExecutionBinding value = some b) : b.Accepted := by
  simp only [parseExecutionBinding, Option.bind_eq_bind, Option.bind_eq_some_iff] at h
  obtain ⟨values, -, h⟩ := h
  split at h
  · simp only [Option.pure_def, Option.bind_eq_some_iff, Option.some.injEq, Json.check_eq_some] at h
    obtain ⟨ticket, -, branch, -, repoRoot, -, worktreeRoot, -, ⟨⟩, -, ⟨⟩, ⟨h1, h2, h3⟩, _, -, _, -,
      _, -, _, -, _, -, bounds, hb, rfl⟩ := h
    exact ⟨h1, h2, h3, parseExecutionBounds_accepted hb⟩
  · cases h

theorem parseExecutionBinding_toJson {b : ExecutionBinding} (hb : b.Accepted) :
    parseExecutionBinding b.toJson = some b := by
  obtain ⟨h1, h2, h3, h4⟩ := hb
  have hcheck := Json.check_pos (p := b.repoRoot ≠ b.worktreeRoot ∧ ticketOk b.ticket.1 = true ∧
    branchOk b.ticket.1 b.branch.1 = true) ⟨h1, h2, h3⟩
  simp only [parseExecutionBinding, ExecutionBinding.toJson, ExecutionBinding.exactObject_keys,
    List.length_cons, List.length_nil, Option.bind_eq_bind, Option.bind_some, Option.pure_def,
    workflowText_ofChecked, workflowPath_ofChecked, workflowSha_ofChecked,
    workflowGitSha_ofChecked, parseHolder_toJson, Json.literal_str, hcheck,
    parseExecutionBounds_toJson h4]

end PaPlatform.Custody
