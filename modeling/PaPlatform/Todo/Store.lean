/-
  The session task list of `pi-extension/todo.ts`, and the snapshots that
  `deploy/task-snapshot.ts` accepts.

  A task id is a natural number: no run makes 2^53 tasks.
-/
import PaPlatform.Lib.Dfs
import PaPlatform.Lib.Guard
import PaPlatform.Registry.Operations

namespace PaPlatform.Todo

open Js Guard
open Registry (trim)

inductive DeploymentTaskStatus where
  | pending
  | inProgress
  | completed
  | cancelled
  deriving DecidableEq, Repr

def DeploymentTaskStatus.text : DeploymentTaskStatus → String
  | pending => "pending"
  | inProgress => "in_progress"
  | completed => "completed"
  | cancelled => "cancelled"

structure DeploymentTask where
  id : ℕ
  text : String
  status : DeploymentTaskStatus
  order : ℕ
  dependencies : List ℕ
  deriving DecidableEq

/-- The task with an id: the first one in the list. -/
def find (tasks : List DeploymentTask) (id : ℕ) : Option DeploymentTask :=
  tasks.find? (·.id == id)

/-! ## Snapshots -/

/-- The dependencies of an id; a later task with the id hides an earlier one. -/
def dependenciesOf (tasks : List DeploymentTask) (id : ℕ) : List ℕ :=
  (find tasks.reverse id).elim [] (·.dependencies)

/-- The ids that the search may meet. -/
def mentioned (tasks : List DeploymentTask) : List ℕ :=
  tasks.map (·.id) ++ tasks.flatMap (·.dependencies)

/-- `hasDeploymentTaskDependencyCycle`. -/
def hasDeploymentTaskDependencyCycle (tasks : List DeploymentTask) : Bool :=
  Dfs.hasCycle (dependenciesOf tasks)
    (((mentioned tasks).dedup.map fun id => (dependenciesOf tasks id).length + 2).sum) (tasks.map (·.id))

inductive DeploymentTaskSnapshotErrorKind where
  | malformed
  | unsupportedVersion
  | deploymentMismatch
  | oversized
  deriving DecidableEq, Repr

structure DeploymentTaskSnapshotError where
  kind : DeploymentTaskSnapshotErrorKind
  message : String
  deriving DecidableEq

/-- Without the constant schema version. -/
structure DeploymentTaskSnapshot where
  deploymentId : String
  updatedAt : String
  tasks : List DeploymentTask
  nextId : ℕ

def malformed (message : String) : DeploymentTaskSnapshotError := ⟨.malformed, message⟩

/-- `isIsoTimestamp`. -/
def isIsoTimestamp (value : String) : Bool :=
  (dateParse value).any fun milliseconds => toISOString milliseconds == value

/-- `validateTask`, of a task at `index`. -/
def validateTask (task : DeploymentTask) (index : ℕ) : Except DeploymentTaskSnapshotError Unit := do
  throwIf (¬ 1 ≤ task.id) (malformed s!"task at index {index} has an invalid id")
  throwIf (trim task.text = "") (malformed s!"task #{task.id} has invalid text")
  throwIf (¬ 1 ≤ task.order) (malformed s!"task #{task.id} has an invalid order")
  throwIf (¬ ∀ d ∈ task.dependencies, 1 ≤ d) (malformed s!"task #{task.id} has invalid dependencies")

/-- The ids in their order: a task at `index`, after the ids `seen`. -/
def validateOrder : List DeploymentTask → ℕ → List ℕ → Except DeploymentTaskSnapshotError Unit
  | [], _, _ => return ()
  | task :: tasks, index, seen => do
    throwIf (task.id ∈ seen) (malformed s!"task #{task.id} is duplicated")
    throwIf (task.order ≠ index + 1) (malformed "tasks must be stored in complete order")
    validateOrder tasks (index + 1) (task.id :: seen)

/-- The dependencies of a task, after the dependencies `seen`. -/
def validateDependencies (ids : List ℕ) (id : ℕ) :
    List ℕ → List ℕ → Except DeploymentTaskSnapshotError Unit
  | [], _ => return ()
  | dependency :: dependencies, seen => do
    throwIf (dependency ∈ seen) (malformed s!"task #{id} has duplicate dependencies")
    throwIf (dependency = id) (malformed s!"task #{id} cannot depend on itself")
    throwIf (dependency ∉ ids) (malformed s!"task #{id} has unknown dependency #{dependency}")
    validateDependencies ids id dependencies (dependency :: seen)

/-- `validateDeploymentTaskSnapshot`, of a candidate with typed fields. -/
def validateDeploymentTaskSnapshot (value : DeploymentTaskSnapshot) (expectedDeploymentId : String) :
    Except DeploymentTaskSnapshotError DeploymentTaskSnapshot := do
  throwIf (value.deploymentId = "") (malformed "deploymentId must be a non-empty string")
  throwIf (value.deploymentId ≠ expectedDeploymentId) ⟨.deploymentMismatch,
    "Deployment task snapshot ID does not match " ++ expectedDeploymentId⟩
  throwIf (isIsoTimestamp value.updatedAt = false) (malformed "updatedAt must be an ISO timestamp")
  throwIf (¬ 1 ≤ value.nextId) (malformed "nextId must be a positive integer")
  value.tasks.zipIdx.forM fun task => validateTask task.1 task.2
  validateOrder value.tasks 0 []
  value.tasks.forM fun task =>
    validateDependencies (value.tasks.map (·.id)) task.id task.dependencies []
  throwIf (value.nextId ≤ (value.tasks.map (·.id)).foldl max 0)
    (malformed "nextId must be greater than every task ID")
  throwIf (1 < (value.tasks.filter (·.status == .inProgress)).length)
    (malformed "only one task may be in progress")
  throwIf (hasDeploymentTaskDependencyCycle value.tasks = true)
    (malformed "task dependencies must not contain a cycle")
  return value

/-- `createDeploymentTaskSnapshot`. -/
def createDeploymentTaskSnapshot (deploymentId updatedAt : String) (tasks : List DeploymentTask)
    (nextId : ℕ) : Except DeploymentTaskSnapshotError DeploymentTaskSnapshot :=
  validateDeploymentTaskSnapshot ⟨deploymentId, updatedAt, tasks, nextId⟩ deploymentId

/-! ## The store -/

inductive TodoAction where
  | list
  | add
  | update
  | start
  | complete
  | cancel
  | reorder
  deriving DecidableEq, Repr

def TodoAction.text : TodoAction → String
  | list => "list"
  | add => "add"
  | update => "update"
  | start => "start"
  | complete => "complete"
  | cancel => "cancel"
  | reorder => "reorder"

structure TodoInput where
  action : TodoAction
  id : Option ℕ
  text : Option String
  dependencies : Option (List ℕ)
  beforeId : Option ℕ

/-- What `TodoParams` accepts. -/
def TodoInput.Valid (i : TodoInput) : Prop :=
  (∀ id ∈ i.id, 1 ≤ id) ∧ (∀ ids ∈ i.dependencies, ∀ d ∈ ids, 1 ≤ d) ∧ ∀ id ∈ i.beforeId, 1 ≤ id

structure TodoDetails where
  action : TodoAction
  tasks : List DeploymentTask
  nextId : ℕ
  error : Option String
  deriving DecidableEq

structure TodoStore where
  tasks : List DeploymentTask
  nextId : ℕ
  deriving DecidableEq

/-- `new TodoStore()`. -/
def TodoStore.empty : TodoStore := ⟨[], 1⟩

/-- `normalizedText`. -/
def normalizedText (value : Option String) : Option String :=
  (value.map trim).filter (· != "")

/-- `uniqueIds`: each id at its first place. -/
def uniqueIds : List ℕ → List ℕ
  | [] => []
  | id :: ids => id :: (uniqueIds ids).filter (· != id)

/-- `unknownDependency`. -/
def unknownDependency (ids : List ℕ) (tasks : List DeploymentTask) : Option ℕ :=
  ids.find? fun id => !tasks.any (·.id == id)

/-- `incompleteDependency`. -/
def incompleteDependency (task : DeploymentTask) (tasks : List DeploymentTask) : Option ℕ :=
  task.dependencies.find? fun id => (find tasks id).map (·.status) != some .completed

/-- `isTerminal`. -/
def isTerminal (status : DeploymentTaskStatus) : Bool := status == .completed || status == .cancelled

/-- `normalizeOrder`. -/
def normalizeOrder (tasks : List DeploymentTask) : List DeploymentTask :=
  tasks.zipIdx.map fun task => { task.1 with order := task.2 + 1 }

/-- Change the task that `find` returns. -/
def assign (tasks : List DeploymentTask) (id : ℕ) (f : DeploymentTask → DeploymentTask) :
    List DeploymentTask :=
  tasks.modify (tasks.findIdx (·.id == id)) f

/-- The dependencies that `add` and `update` accept for a task. -/
def checkDependencies (id : ℕ) (dependencies : List ℕ) (tasks : List DeploymentTask) :
    Except String (List ℕ) := do
  throwIf (id ∈ uniqueIds dependencies) s!"Task #{id} cannot depend on itself"
  (unknownDependency (uniqueIds dependencies) tasks).elim (.ok (uniqueIds dependencies)) fun invalid =>
    .error s!"Dependency #{invalid} not found"

/-- No dependency of the task is incomplete. -/
def checkUnblocked (task : DeploymentTask) (tasks : List DeploymentTask) : Except String Unit :=
  (incompleteDependency task tasks).elim (.ok ()) fun blocked =>
    .error s!"Dependency #{blocked} is not completed"

/-- The task is not terminal. -/
def checkOpen (task : DeploymentTask) (changed : String) : Except String Unit :=
  throwIf (isTerminal task.status = true)
    s!"Task #{task.id} is {task.status.text} and cannot be {changed}"

/-- `add`. -/
def add (s : TodoStore) (i : TodoInput) : Except String TodoStore := do
  let text ← require (normalizedText i.text) "text is required for add"
  let dependencies ← checkDependencies s.nextId (i.dependencies.getD []) s.tasks
  return ⟨s.tasks ++ [⟨s.nextId, text, .pending, s.tasks.length + 1, dependencies⟩], s.nextId + 1⟩

/-- The dependencies of `update`: the text is changed already. -/
def updateDependencies (task : DeploymentTask) (tasks : List DeploymentTask) (dependencies : List ℕ) :
    Except String (List DeploymentTask) := do
  let dependencies ← checkDependencies task.id dependencies tasks
  let candidate := assign tasks task.id fun task => { task with dependencies := dependencies }
  throwIf (hasDeploymentTaskDependencyCycle candidate = true) "Dependency cycle detected"
  return candidate

/-- `update`. -/
def update (tasks : List DeploymentTask) (task : DeploymentTask) (i : TodoInput) :
    Except String (List DeploymentTask) := do
  checkOpen task "updated"
  throwIf (i.text.isNone = true ∧ i.dependencies.isNone = true)
    "text or dependencies is required for update"
  let tasks ← i.text.elim (.ok tasks) fun text => do
    let text ← require (normalizedText (some text)) "text must not be empty"
    return assign tasks task.id fun task => { task with text := text }
  i.dependencies.elim (.ok tasks) (updateDependencies task tasks)

/-- `start`. -/
def start (tasks : List DeploymentTask) (task : DeploymentTask) : Except String (List DeploymentTask) := do
  checkOpen task "started"
  checkUnblocked task tasks
  let tasks := tasks.map fun item => if item.status = .inProgress then { item with status := .pending } else item
  return assign tasks task.id fun task => { task with status := .inProgress }

/-- `complete`. -/
def complete (tasks : List DeploymentTask) (task : DeploymentTask) :
    Except String (List DeploymentTask) := do
  checkOpen task "completed"
  checkUnblocked task tasks
  return assign tasks task.id fun task => { task with status := .completed }

/-- `cancel`. -/
def cancel (tasks : List DeploymentTask) (task : DeploymentTask) : Except String (List DeploymentTask) := do
  checkOpen task "cancelled"
  return assign tasks task.id fun task => { task with status := .cancelled }

/-- `reorder`. -/
def reorder (tasks : List DeploymentTask) (task : DeploymentTask) (i : TodoInput) :
    Except String (List DeploymentTask) := do
  checkOpen task "reordered"
  throwIf (i.beforeId = i.id) s!"Task #{task.id} cannot be reordered before itself"
  i.beforeId.elim (.ok ()) fun before =>
    throwIf (tasks.any (·.id == before) = false) s!"Task #{before} not found"
  let rest := tasks.eraseIdx (tasks.findIdx (·.id == task.id))
  let at_ := i.beforeId.elim rest.length fun before => rest.findIdx (·.id == before)
  return rest.insertIdx at_ ((tasks[tasks.findIdx (·.id == task.id)]?).getD task)

/-- The candidate of an action other than `list`. -/
def candidate (s : TodoStore) (i : TodoInput) : Except String TodoStore :=
  if i.action = .add then add s i
  else do
    let id ← require i.id s!"id is required for {i.action.text}"
    let task ← require (find s.tasks id) s!"Task #{id} not found"
    let tasks ← match i.action with
      | .update => update s.tasks task i
      | .start => start s.tasks task
      | .complete => complete s.tasks task
      | .cancel => cancel s.tasks task
      | _ => reorder s.tasks task i
    return ⟨tasks, s.nextId⟩

namespace TodoStore

/-- `snapshot`. -/
def snapshot (s : TodoStore) (action : TodoAction) (error : Option String) : TodoDetails :=
  ⟨action, s.tasks, s.nextId, error⟩

/-- `left.order - right.order || left.id - right.id` is not positive. -/
def taskLe (left right : DeploymentTask) : Bool :=
  left.order < right.order || left.order == right.order && left.id ≤ right.id

/-- `restore`. -/
def restore (details : Option TodoDetails) : TodoStore :=
  match details.filter fun d => decide (1 ≤ d.nextId) with
  | none => empty
  | some d => ⟨d.tasks.mergeSort taskLe, d.nextId⟩

/-- `apply`: what it returns, and the store after it. -/
def apply (s : TodoStore) (i : TodoInput) : TodoDetails × TodoStore :=
  if i.action = .list then (s.snapshot .list none, s)
  else
    match candidate s i with
    | .error message => (s.snapshot i.action (some message), s)
    | .ok s' =>
      let s' : TodoStore := ⟨normalizeOrder s'.tasks, s'.nextId⟩
      (s'.snapshot i.action none, s')

end TodoStore

end PaPlatform.Todo
