/-
  Runs of the custody journal, and the operation records that
  `readExecutionJournal` keeps while it replays them.
-/
import PaPlatform.Custody.Step

namespace PaPlatform.Custody

open Js Guard

/-- What the journal says of one event: who issued which command at what time. -/
structure ExecutionInput where
  actor : ExecutionHolder
  command : ExecutionCommand
  recordedAt : Timestamp
  deriving DecidableEq

/-- `transition`, on an event of the journal. -/
def step (s : ExecutionState) (e : ExecutionInput) : Except WorkflowFailure ExecutionState :=
  transition s e.actor e.command e.recordedAt

/-- The accepted events of a lineage, oldest first. -/
abbrev History := List (Run.Step ExecutionState ExecutionInput)

/-- The runs of the lineage of `binding`. -/
abbrev Lineage (binding : ExecutionBinding) (recordedAt : Timestamp) (h : History)
    (s : ExecutionState) : Prop :=
  Run.Reaches step (initialState binding recordedAt) h s

theorem step_applied {s s' : ExecutionState} {e : ExecutionInput} (h : step s e = .ok s') :
    Applied s e.actor e.recordedAt e.command s' := (transition_applied h).2

/-- The operation that a command begins. -/
def ExecutionCommand.begins : ExecutionCommand → Option ExecutionOperation
  | .begin operation => some operation
  | _ => none

/-- The id of the operation that a command finishes. -/
def ExecutionCommand.finishes : ExecutionCommand → Option Text
  | .finish operationId _ _ _ => some operationId
  | _ => none

/-! ## Operation records -/

structure OperationFinish where
  sequence : ℕ
  evidence : SourceVersion
  deriving DecidableEq

structure ExecutionOperationRecord where
  operation : ExecutionOperation
  actor : ExecutionHolder
  beginSequence : ℕ
  finish : Option OperationFinish
  deriving DecidableEq

/-- The update of `operations` in the loop of `readExecutionJournal`. -/
def recordOperation (operations : List ExecutionOperationRecord) (sequence : ℕ)
    (e : ExecutionInput) : Except WorkflowFailure (List ExecutionOperationRecord) :=
  match e.command with
  | .begin operation => .ok (operations ++ [⟨operation, e.actor, sequence, none⟩])
  | .finish operationId evidence _ _ => do
    let index ← require (operations.findIdx? (·.operation.id = operationId)) .workflow
    let begun ← require operations[index]? .workflow
    throwIf (begun.finish.isSome ∨ begun.actor ≠ e.actor) .workflow
    return operations.set index { begun with finish := some ⟨sequence, evidence⟩ }
  | _ => .ok operations

/-- One round of the loop of `readExecutionJournal`, on a parsed event. -/
def replayStep (r : ExecutionState × List ExecutionOperationRecord) (e : ExecutionInput) :
    Except WorkflowFailure (ExecutionState × List ExecutionOperationRecord) := do
  let state ← step r.1 e
  let operations ← recordOperation r.2 (r.1.sequence + 1) e
  return (state, operations)

theorem lineage_of_isOk (binding : ExecutionBinding) (recordedAt : Timestamp)
    (es : List ExecutionInput)
    (hok : (Run.exec step (initialState binding recordedAt) es).isOk = true) :
    ∃ h s, Lineage binding recordedAt h s ∧ h.map (·.event) = es := by
  cases he : Run.exec step (initialState binding recordedAt) es with
  | error k => rw [he] at hok; cases hok
  | ok s =>
    obtain ⟨h, hr, hm⟩ := Run.reaches_of_exec he
    exact ⟨h, s, hr, hm⟩

/-! ## A sample lineage -/

namespace Sample

def sha : Sha256 := ⟨String.ofList (List.replicate 64 '0'), by decide⟩

def headSha : GitSha := ⟨String.ofList (List.replicate 40 '0'), by decide⟩

def otherSha : GitSha := ⟨String.ofList (List.replicate 40 '1'), by decide⟩

theorem version_ok : textOk "v1" = true := by decide

def source : SourceVersion := ⟨⟨"evidence", by decide⟩, ⟨"v1", version_ok⟩, sha⟩

def start : Timestamp := ⟨"2026-01-01T00:00:00.000Z", by decide⟩

def deadline : Timestamp := ⟨"2026-01-01T02:00:00.000Z", by decide⟩

def launcher : ExecutionHolder where
  deploymentId := ⟨"d-00000a", by decide⟩
  process := ⟨⟨1, by decide⟩, ⟨"100", by decide⟩, ⟨"boot", by decide⟩⟩

def successor : ExecutionHolder where
  deploymentId := ⟨"d-00000b", by decide⟩
  process := ⟨⟨2, by decide⟩, ⟨"200", by decide⟩, ⟨"boot", by decide⟩⟩

def binding : ExecutionBinding where
  operationId := sha
  lineageId := ⟨"lineage", by decide⟩
  repoKey := ⟨"repo", by decide⟩
  repoRoot := ⟨"/repo", by decide⟩
  worktreeRoot := ⟨"/worktree", by decide⟩
  ticket := ⟨"PA-1", by decide⟩
  branch := ⟨"feature/PA-1-x", by decide⟩
  initialHeadSha := headSha
  owner := launcher
  bounds := ⟨start, deadline, 120, 0, 0, 3, 0, none⟩

theorem binding_accepted : binding.Accepted :=
  ⟨by decide, by decide, by decide, by decide, by decide, by decide, by decide, by decide,
    by decide, by decide, by decide, by decide⟩

def plan : PhaseExecutionPlan where
  phaseId := ⟨"phase-1", by decide⟩
  scope := ⟨"scope", by decide⟩
  paths := ⟨[⟨"src", by decide⟩], by decide⟩
  requirements := ⟨[⟨"requirement", by decide⟩], by decide⟩
  prerequisites := ⟨[], by decide⟩
  checks := ⟨[⟨"lint", by decide⟩], by decide⟩
  size := ⟨"small", by decide⟩
  complexity := ⟨"low", by decide⟩
  rationale := ⟨"rationale", by decide⟩

/-- An operation for the check `lint`. -/
def lint : ExecutionOperation where
  id := ⟨"op-1", by decide⟩
  kind := .check
  check := some ⟨"lint", by decide⟩
  intent := none
  check_iff := by decide
  update_intent := by decide

theorem lint_check : lint.check.isSome = true := rfl

theorem command_ok : commandTextOk "make lint" = true := by decide

theorem exitCode_ok : (-1 : ℤ) ≤ 1 ∧ (1 : ℤ) ≤ 255 ∧ (1 : ℤ) ≠ 0 := by decide

/-- An event of `launcher`. -/
def event (command : ExecutionCommand) : ExecutionInput := ⟨launcher, command, start⟩

/-- Plan, take the direct custody and begin the check. -/
def opened : List ExecutionInput :=
  [event (.plan plan), event (.select .orchestratorDirect launcher source), event (.begin lint)]

/-- `opened`, then the check passes. -/
def passed : List ExecutionInput := opened ++ [event (.finish lint.id source none none)]

example : (Run.exec step (initialState binding start) passed).isOk = true := by decide

end Sample

end PaPlatform.Custody
