/-
  The data of `deploy/execution-custody.ts`: holders, custody, bounds, plans,
  commands and the execution state.

  The values inside a command carry the checks that `parseCommand` makes.  A
  binding and its bounds are plain records with the predicate `Accepted`, so
  that the results say which of them need an accepted binding.
-/
import PaPlatform.Deploy.Values
import PaPlatform.Lib.Record
import Mathlib.Logic.Function.Basic

namespace PaPlatform.Custody

open Js

/-! ## Holders and custody -/

/-- `/^\d+$/`, on a text. -/
def ticksOk (s : String) : Bool := textOk s && allOf isDigit s.toList

structure ProcessFingerprint where
  pid : Bounded 1 2147483647
  startTimeTicks : Checked ticksOk
  bootId : Text
  deriving DecidableEq

structure ExecutionHolder where
  deploymentId : Checked deploymentIdOk
  process : ProcessFingerprint
  deriving DecidableEq

inductive Executor where
  | orchestratorDirect
  | implementChild
  | reviewReserved
  deriving DecidableEq

/-- The custody states in which a holder is optional. -/
inductive Suspension where
  | settling
  | uncertainBlocked
  deriving DecidableEq

inductive ExecutionCustody where
  | idle
  | held (executor : Executor) (holder : ExecutionHolder) (inFlightOperation : Option Text)
  | suspended (state : Suspension) (holder : Option ExecutionHolder)
      (inFlightOperation : Option Text)
  deriving DecidableEq

namespace ExecutionCustody

def holder : ExecutionCustody → Option ExecutionHolder
  | idle => none
  | held _ h _ => some h
  | suspended _ h _ => h

def inFlightOperation : ExecutionCustody → Option Text
  | idle => none
  | held _ _ o => o
  | suspended _ _ o => o

/-- `{ ...custody, inFlightOperation: operation }`; an idle custody has no
    operation to replace. -/
def withOperation : ExecutionCustody → Option Text → ExecutionCustody
  | idle, _ => idle
  | held e h _, o => held e h o
  | suspended s h _, o => suspended s h o

@[simp] theorem holder_held (e h o) : (held e h o).holder = some h := rfl

@[simp] theorem inFlightOperation_held (e h o) : (held e h o).inFlightOperation = o := rfl

@[simp] theorem holder_idle : idle.holder = none := rfl

@[simp] theorem inFlightOperation_idle : idle.inFlightOperation = none := rfl

@[simp] theorem withOperation_held (e h o o') : (held e h o).withOperation o' = held e h o' := rfl

end ExecutionCustody

/-! ## Bounds and bindings -/

structure ExecutionBounds where
  startedAt : Timestamp
  deadlineAt : Timestamp
  runtimeMinutes : ℕ
  consecutiveNoProgress : ℕ
  replacementsUsed : ℕ
  reviewCap : ℕ
  reviewsUsed : ℕ
  unresolvedFailureRef : Option Text
  deriving DecidableEq

/-- The check of `parseExecutionBounds`. -/
structure ExecutionBounds.Accepted (b : ExecutionBounds) : Prop where
  runtime_pos : 1 ≤ b.runtimeMinutes
  runtime_le : b.runtimeMinutes ≤ 240
  noProgress_le : b.consecutiveNoProgress ≤ 3
  deadline : b.deadlineAt.ms - b.startedAt.ms = b.runtimeMinutes * 60000
  failure_ref : 0 < b.consecutiveNoProgress → b.unresolvedFailureRef.isSome
  cap_pos : 1 ≤ b.reviewCap
  cap_le : b.reviewCap ≤ 3
  replacements_le : b.replacementsUsed ≤ 3
  reviews_le : b.reviewsUsed ≤ b.reviewCap

structure ExecutionBinding where
  operationId : Sha256
  lineageId : Text
  repoKey : Text
  repoRoot : AbsolutePath
  worktreeRoot : AbsolutePath
  ticket : Text
  branch : Text
  initialHeadSha : GitSha
  owner : ExecutionHolder
  bounds : ExecutionBounds
  deriving DecidableEq

/-- The check of `parseExecutionBinding`. -/
structure ExecutionBinding.Accepted (b : ExecutionBinding) : Prop where
  roots : b.repoRoot ≠ b.worktreeRoot
  ticket : ticketOk b.ticket.1 = true
  branch : branchOk b.ticket.1 b.branch.1 = true
  bounds : b.bounds.Accepted

/-! ## Plans -/

/-- The check of `ticketPath`. -/
def ticketPathOk (s : String) : Bool :=
  textOk s && !startsWith s "/" &&
    !(s.toList.any fun c => "\\*?[]\x7b\x7d".toList.contains c) &&
    (split s '/').all fun part => part != "" && part != "." && part != ".." && part != ".git"

abbrev TicketPath := Checked ticketPathOk

/-- The prefix of the check names that stand for other kinds of operation. -/
def operationPrefix : String := "@operation:"

/-- The check of the names of a plan's checks. -/
def checkNameOk (s : String) : Bool := textOk s && !startsWith s operationPrefix

structure PhaseExecutionPlan where
  phaseId : Text
  scope : Text
  paths : Names ticketPathOk
  requirements : Names textOk
  prerequisites : {l : List SourceVersion // l.length ≤ 64}
  checks : Names checkNameOk
  size : Text
  complexity : Text
  rationale : Text
  deriving DecidableEq

/-- The names of a plan's checks. -/
def PhaseExecutionPlan.checkNames (p : PhaseExecutionPlan) : List String := p.checks.1.map (·.1)

/-! ## Failures and recoveries -/

/-- The check of `parseExecutionCommandText`. -/
def commandTextOk (s : String) : Bool :=
  !blank s && s.utf8ByteSize ≤ 16384 && !(s.toList.any fun c =>
    let n := c.toNat
    n ≤ 8 || n == 11 || n == 12 || (14 ≤ n && n ≤ 31) || n == 127)

structure ExecutionFailure where
  check : Text
  command : Checked commandTextOk
  exitCode : {n : ℤ // -1 ≤ n ∧ n ≤ 255 ∧ n ≠ 0}
  candidateSha : GitSha
  output : SourceVersion
  deriving DecidableEq

structure ExecutionRecovery where
  originalFailure : SourceVersion
  diagnostic : Option SourceVersion
  remedy : Option SourceVersion
  rationale : Option Text
  recheck : ExecutionFailure
  deriving DecidableEq

inductive PathClassification where
  | ticketProduced
  | ticketPreserved
  deriving DecidableEq

structure InventoryPath where
  path : TicketPath
  classification : PathClassification
  deriving DecidableEq

structure ExecutionRecoveryInventory where
  branch : Text
  headSha : GitSha
  porcelainV2Base64 : String
  snapshotSha256 : Sha256
  paths : List InventoryPath
  evidence : SourceVersion
  deriving DecidableEq

/-! ## Operations and commands -/

inductive ExecutionOperationKind where
  | write
  | edit
  | shell
  | check
  | featureUpdate
  | launch
  deriving DecidableEq

/-- The text of an operation kind. -/
def ExecutionOperationKind.text : ExecutionOperationKind → String
  | .write => "write"
  | .edit => "edit"
  | .shell => "shell"
  | .check => "check"
  | .featureUpdate => "feature-update"
  | .launch => "launch"

/-- `sourceMutation`. -/
def sourceMutation (kind : ExecutionOperationKind) : Bool := kind != .check && kind != .featureUpdate

structure ExecutionOperation where
  id : Text
  kind : ExecutionOperationKind
  check : Option Text
  intent : Option SourceVersion
  check_iff : kind = .check ↔ check.isSome
  update_intent : kind = .featureUpdate → intent.isSome
  deriving DecidableEq

/-- The commands of the restart family. -/
inductive RestartAction where
  | restart
  | restartIntent
  | restartLaunch
  deriving DecidableEq

inductive AcceptanceKind where
  | review
  | ci
  | uat
  | integration
  deriving DecidableEq

inductive ExecutionCommand where
  | plan (plan : PhaseExecutionPlan)
  | advance (plan : PhaseExecutionPlan) (evidence : SourceVersion)
  | select (executor : Executor) (holder : ExecutionHolder) (handover : SourceVersion)
  | restart (action : RestartAction) (previousOwner : ExecutionHolder) (evidence : SourceVersion)
  | begin (operation : ExecutionOperation)
  | finish (operationId : Text) (evidence : SourceVersion) (failure : Option ExecutionFailure)
      (candidateSha : Option GitSha)
  | settle (evidence : SourceVersion) (inventory : ExecutionRecoveryInventory)
  | attempt (recovery : ExecutionRecovery)
  | resolve (evidence : SourceVersion)
  | candidate (candidateSha : GitSha) (mapping : SourceVersion)
  | accept (kind : AcceptanceKind) (evidence : SourceVersion)
  deriving DecidableEq

/-! ## The execution state -/

structure PendingRestart where
  actor : ExecutionHolder
  previousOwner : ExecutionHolder
  evidence : SourceVersion
  sequence : ℕ
  deriving DecidableEq

structure RestartLaunch where
  actor : ExecutionHolder
  evidence : SourceVersion
  sequence : ℕ
  deriving DecidableEq

structure ExecutionState where
  binding : ExecutionBinding
  activeOwner : ExecutionHolder
  retiredOwners : List ExecutionHolder
  pendingRestart : Option PendingRestart
  restartLaunch : Option RestartLaunch
  sequence : ℕ
  recordedAt : Timestamp
  plan : Option PhaseExecutionPlan
  custody : ExecutionCustody
  bounds : ExecutionBounds
  candidateSha : GitSha
  operation : Option ExecutionOperation
  usedOperationIds : List String
  originalFailure : Option ExecutionFailure
  recoveryPending : Bool
  diagnosticDigests : List Sha256
  remedyDigests : List Sha256
  passedChecks : Record SourceVersion
  actionPasses : Record SourceVersion
  acceptance : AcceptanceKind → Option SourceVersion

/-- `initialState`. -/
def initialState (binding : ExecutionBinding) (recordedAt : Timestamp) : ExecutionState where
  binding
  activeOwner := binding.owner
  retiredOwners := []
  pendingRestart := none
  restartLaunch := none
  sequence := 0
  recordedAt
  plan := none
  custody := .idle
  bounds := binding.bounds
  candidateSha := binding.initialHeadSha
  operation := none
  usedOperationIds := []
  originalFailure := none
  recoveryPending := false
  diagnosticDigests := []
  remedyDigests := []
  passedChecks := ∅
  actionPasses := ∅
  acceptance := fun _ => none

end PaPlatform.Custody
