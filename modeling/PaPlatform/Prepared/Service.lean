/-
  `PreparedWorkflowService` of `deploy/prepared-workflow.ts`.

  The state is the directory, with the answers that the callbacks are going to
  give: those of the host, of its locks, and of the publication boundaries.  A
  callback that throws ends the call, as a crash there does; what was published
  stays.  The trace remembers what the host was asked to do, and what came of
  it.
-/
import PaPlatform.Prepared.Order
import PaPlatform.Prepared.NativeRetry

namespace PaPlatform.Prepared

open Js Guard Effect

/-! ## The world -/

/-- The answer of a callback.  A value that is not JSON is rejected by every
    reader, as if the callback threw. -/
inductive Answer where
  | throws
  | undefined
  | value (value : Json)

def Answer.json : Answer → Option Json
  | value v => some v
  | _ => none

def Answer.isThrow : Answer → Bool
  | throws => true
  | _ => false

def Answer.isUndefined : Answer → Bool
  | undefined => true
  | _ => false

inductive Operation where
  | request
  | retry
  | consume
  deriving DecidableEq

structure PreparationStatus where
  operationId : Sha256
  state : PreparationState
  attempt : ℕ
  completedActions : List PreparationAction
  receipt : Option PreparedReceipt
  failure : Option SourceVersion

/-- The journal in memory. -/
structure Live where
  intent : WorkflowIntent
  events : List PreparationEvent
  replay : PreparationReplay

/-- What the trace remembers: the beginning of a call, an answer of `inspect`, a
    call of `perform` with the directory at that time, an `append` that
    returned, a call that returned. -/
inductive Entry where
  | called (operation : Operation) (c : PreparationContract)
  | inspected (c : PreparationContract) (action : PreparationAction) (answer : Answer)
  | performed (c : PreparationContract) (action : PreparationAction) (directory : Directory)
  | appended (c : PreparationContract) (event : PreparationEvent) (live : Live)
      (directory : Directory)
  | returned (operation : Operation) (c : PreparationContract) (evidence : Option SourceVersion)
      (status : PreparationStatus) (directory : Directory)

structure World where
  directory : Directory
  /-- The answer of the `n`-th callback. -/
  answers : ℕ → Answer
  asked : ℕ
  trace : List Entry

abbrev Engine := Eff World WorkflowFailure

/-- A callback. -/
def ask : Engine Answer := do
  let w ← get
  set { w with asked := w.asked + 1 }
  failIf ((w.answers w.asked).isThrow = true) .workflow
  return w.answers w.asked

def remember (entry : Entry) : Engine PUnit := modify fun w => { w with trace := w.trace ++ [entry] }

def change (g : Directory → Directory) : Engine PUnit :=
  modify fun w => { w with directory := g w.directory }

/-- `workflowTimestamp(this.host.now())`. -/
def now : Engine Timestamp := do
  let answer ← ask
  demand (answer.json.bind workflowTimestamp) .workflow

/-- `withPreparedWorkflowLocks`: each lock runs the action once, or throws
    before or after it. -/
def locked {α : Type} (action : Engine α) : Engine α := do
  let _ ← ask
  let _ ← ask
  let result ← action
  let _ ← ask
  let _ ← ask
  return result

/-- `reaffirm`. -/
def reaffirm : Engine PUnit := do
  let _ ← ask
  change Directory.sync

/-- `ProtectedWorkflowStore.publish`, with a callback at each boundary. -/
def publish (name : RecordName) (value : Json) : Engine PUnit := do
  failIf (maxProtectedWorkflowBytes < value.stringify.utf8ByteSize + 1) .workflow
  failIf (¬ name.inRange) .workflow
  let w ← get
  match w.directory.file? name with
  | some f =>
    failIf (f.linked = true ∨ f.value.stringify ≠ value.stringify) .workflow
    reaffirm
  | none =>
    change Directory.addTemporary
    let _ ← ask -- file-synced
    change fun d => d.link name value
    let _ ← ask -- linked
    change fun d => d.unlink name
    let _ ← ask -- temporary-unlinked
    change Directory.sync
    let _ ← ask -- directory-synced

/-! ## The engine -/

/-- `parsePreparationOutcome`; `none` inside is the state `absent`. -/
def parsePreparationOutcome (value : Json) : Option (Option (EffectResult × SourceVersion)) :=
  match value.field "state" with
  | some (.str "absent") => (Json.exactObject ["state"] value).map fun _ => none
  | _ => do
    let [state, evidence] ← Json.exactObject ["state", "evidence"] value | none
    let result ← parseEffectResult state
    return some (result, ← parseSourceVersion evidence)

/-- The answer `{ state: "absent" }` of `inspect`. -/
def Answer.isAbsent (answer : Answer) : Prop :=
  answer.json.bind parsePreparationOutcome = some none

section
variable (sha256 : Bytes → Sha256)

/-- `#status`. -/
def statusOf (c : PreparationContract) (r : PreparationReplay) : PreparationStatus :=
  let state := if r.pending.isSome then .uncertainBlocked else r.state
  { operationId := preparationIdentity sha256 c
    state
    attempt := r.attempt
    completedActions := preparationActions.filter fun action => (r.results action).isSome
    receipt := if state = .ready ∨ state = .consumed then r.receipt else none
    failure := r.failure }

/-- `status`. -/
def status (c : PreparationContract) (d : Directory) : Except WorkflowFailure PreparationStatus := do
  let loaded ← load sha256 d c
  return statusOf sha256 c loaded.replay

variable (c : PreparationContract)

/-- The event that `append` builds. -/
def nextEvent (live : Live) (kind : EventKind) (action : Option PreparationAction)
    (evidence : Option SourceVersion) (receipt : Option PreparedReceipt)
    (consumer : Option SourceVersion) (recordedAt : Timestamp) : PreparationEvent where
  operationId := preparationIdentity sha256 live.intent.contract
  sequence := live.events.length + 1
  previousSha256 := workflowDigest sha256
    (lastLink sha256 (live.intent.link sha256) live.events).record.stringify
  kind
  action
  evidence
  receipt
  consumer
  recordedAt

/-- The `append` of `#run`. -/
def append (live : Live) (kind : EventKind) (action : Option PreparationAction)
    (evidence : Option SourceVersion) (receipt : Option PreparedReceipt)
    (consumer : Option SourceVersion) : Engine Live := do
  let recordedAt ← now
  let event ← demand (parsePreparationEvent sha256
    ((nextEvent sha256 live kind action evidence receipt consumer recordedAt).toJson sha256)) .workflow
  failIf (event.recordedAt.before
    (lastLink sha256 (live.intent.link sha256) live.events).time = true) .workflow
  -- the probe: nothing is published that the replay rejects
  let replay ← applyPreparationEvent c live.replay event
  publish ⟨event.operationId, .transaction event.sequence⟩ (event.toJson sha256)
  let live : Live := ⟨live.intent, live.events ++ [event], replay⟩
  let w ← get
  remember (.appended c event live w.directory)
  return live

/-- The start of an action, unless it is pending. -/
def start (live : Live) (action : PreparationAction) (evidence : Option SourceVersion) :
    Engine Live := do
  if live.replay.pending.isSome then return live
  else
    let consumer := if action = .consume then evidence else none
    if action = .ready then
      let answer ← ask -- resolveReceipt
      let receipt ← demand (answer.json.bind (parsePreparedReceipt sha256)) .workflow
      append sha256 c live .started (some action) none (some receipt) consumer
    else append sha256 c live .started (some action) none none consumer

/-- The observation of an action: `inspect`, then `perform` if there is
    positively no effect. -/
def observe (action : PreparationAction) : Engine (EffectResult × SourceVersion) := do
  let answer ← ask -- inspect
  remember (.inspected c action answer)
  let outcome ← demand (answer.json.bind parsePreparationOutcome) .workflow
  match outcome with
  | some result => return result
  | none =>
    let w ← get
    remember (.performed c action w.directory)
    let answer ← ask -- perform
    let outcome ← demand (answer.json.bind parsePreparationOutcome) .workflow
    demand outcome .workflow

/-- One round of the loop of `#run`. -/
def round (live : Live) (action : PreparationAction) (evidence : Option SourceVersion) :
    Engine (Live × EffectResult) := do
  let live ← start sha256 c live action evidence
  let outcome ← observe c action
  let live ← append sha256 c live (.result outcome.1) (some action) (some outcome.2) none none
  return (live, outcome.1)

/-- The loop of `#run`, for at most `fuel` rounds. -/
def loop (operation : Operation) (evidence : Option SourceVersion) : ℕ → Live → Engine Live
  | fuel, live =>
    match nextPreparationAction live.replay with
    | none => return live
    | some action =>
      if action = .consume ∧ operation ≠ .consume then return live
      else
        match fuel with
        | 0 => throw .workflow
        | fuel + 1 => do
          let (live, result) ← round sha256 c live action evidence
          if result = .observed then loop operation evidence fuel live else return live

/-- The retry of `#run`.  A native record is checked against the failed attempt
    under the lock. -/
def retry (live : Live) (evidence : Option SourceVersion) : Engine Live := do
  match evidence with
  | some source =>
    if source.version.1 = nativeRetryVersion then
      let w ← get
      let native ← demand (resolveNativePreparationRetry sha256 w.directory source) .workflow
      failIf (native.operationId ≠ preparationIdentity sha256 c ∨
        native.preparationAttempt ≠ live.replay.attempt ∨
        some native.failureSha256 ≠ live.replay.failure.map (·.sha256) ∨
        native.capturedAt.before (lastLink sha256 (live.intent.link sha256) live.events).time =
          true) .workflow
      let time ← now
      failIf (time.before native.capturedAt = true) .workflow
      append sha256 c live .retry none evidence none none
    else append sha256 c live .retry none evidence none none
  | none => append sha256 c live .retry none evidence none none

/-- The journal at the start of `#run`: loaded and made durable, or requested
    now. -/
def openJournal (operation : Operation) : Engine Live := do
  let w ← get
  let loaded ← load sha256 w.directory c
  match loaded.intent with
  | some intent =>
    reaffirm
    return ⟨intent, loaded.events, loaded.replay⟩
  | none =>
    failIf (operation ≠ .request) .workflow
    let createdAt ← now
    let intent : WorkflowIntent := ⟨c, createdAt⟩
    publish (intentName sha256 c) (intent.toJson sha256)
    return ⟨intent, loaded.events, { loaded.replay with state := .preparing, attempt := 1 }⟩

/-- What `#run` does with an open journal. -/
def advance (operation : Operation) (evidence : Option SourceVersion) (live : Live) :
    Engine Live := do
  match operation with
  | .consume =>
    if live.replay.state = .consumed then
      failIf (live.replay.consumer ≠ evidence) .workflow
      return live
    else
      failIf (live.replay.state ≠ .ready ∨
        (live.replay.pending = some .consume ∧ live.replay.consumer ≠ evidence)) .workflow
      loop sha256 c operation evidence preparationActions.length live
  | .request =>
    if live.replay.state ≠ .preparing then return live
    else loop sha256 c operation evidence preparationActions.length live
  | .retry =>
    let live ← retry sha256 c live evidence
    if live.replay.state ≠ .preparing then return live
    else loop sha256 c operation evidence preparationActions.length live

/-- `#run`, on a parsed contract. -/
def run (operation : Operation) (evidence : Option SourceVersion) : Engine PreparationStatus := do
  remember (.called operation c)
  let answer ← ask -- authorize
  failIf (answer.isUndefined = false) .workflow
  let live ← locked do
    let live ← openJournal sha256 c operation
    advance sha256 c operation evidence live
  let w ← get
  remember (.returned operation c evidence (statusOf sha256 c live.replay) w.directory)
  return statusOf sha256 c live.replay

end

/-! ## Runs -/

/-- A call of the service, with its arguments. -/
inductive Request where
  | request (contract : Json)
  | retry (contract nativeRequest : Json)
  | consume (contract authenticatedLineage : Json)

/-- What happens to the directory: a call of the service, a publication by
    another owner of the directory, a loss of power. -/
inductive Step where
  | call (request : Request)
  | other (name : RecordName) (value : Json)
  | losePower (kept : RecordName → Option Bool)

section
variable (sha256 : Bytes → Sha256)

def Request.perform : Request → Engine PreparationStatus
  | .request contract => do
    let c ← demand (parsePreparationContract contract) .workflow
    run sha256 c .request none
  | .retry contract nativeRequest => do
    let evidence ← demand (parseSourceVersion nativeRequest) .workflow
    let c ← demand (parsePreparationContract contract) .workflow
    run sha256 c .retry (some evidence)
  | .consume contract authenticatedLineage => do
    let evidence ← demand (parseSourceVersion authenticatedLineage) .workflow
    let c ← demand (parsePreparationContract contract) .workflow
    run sha256 c .consume (some evidence)

def Step.apply : Step → World → World
  | .call request, w => (outcome (request.perform sha256) w).2
  | .other name value, w => (outcome (publish name value) w).2
  | .losePower kept, w => { w with directory := w.directory.losePower kept }

/-- The world after a sequence of steps. -/
def World.after (w : World) (steps : List Step) : World := steps.foldl (fun w step => step.apply sha256 w) w

/-- The world at the start of a run. -/
def World.start (d : Directory) (answers : ℕ → Answer) : World := ⟨d, answers, 0, []⟩

end

/-! ## A sample run -/

namespace Sample

def sha : Sha256 := ⟨String.ofList (List.replicate 64 'a'), by decide⟩

def source (ref : Text) : SourceVersion := ⟨ref, ⟨"v2", by decide⟩, sha⟩

def requirements : Text := ⟨"matrix", by decide⟩

def contract : PreparationContract where
  repoKey := ⟨"project", by decide⟩
  repoRoot := ⟨"/project", by decide⟩
  ticket := ⟨"PB-2", by decide⟩
  branch := ⟨"feature/PB-2-x", by decide⟩
  integrationTarget := ⟨"main", by decide⟩
  approvalBaseSha := ⟨String.ofList (List.replicate 40 'a'), by decide⟩
  requirements := source requirements
  uat := source ⟨"uat", by decide⟩
  promotionEvidence := ⟨"promotion", by decide⟩
  signoffEvidence := ⟨"signoff", by decide⟩
  finalChecks := source ⟨"checks", by decide⟩
  matrix := source requirements
  matrixApprovalEvidence := ⟨"approval", by decide⟩
  repoKey_ok := by decide
  ticket_ok := by decide
  branch_ok := by decide
  uat_ne := by decide
  matrix_eq := rfl

/-- `now`, and the four boundaries of a publication. -/
def publication : List Answer :=
  [.value (.str "2026-01-01T00:00:00.000Z"), .undefined, .undefined, .undefined, .undefined]

/-- The host admits the request, and the reservation is absent; its `perform`
    throws. -/
def reserving : List Answer :=
  [.undefined, .undefined, .undefined] ++ publication ++ publication ++
    [.value (.obj [("state", .str "absent")])]

/-- A host that gives these answers and then throws. -/
def host (answers : List Answer) (n : ℕ) : Answer := answers.getD n .throws

/-- A request in a directory with `others` foreign names. -/
def requested (others : ℕ) : World :=
  (World.start ⟨[], others⟩ (host reserving)).after (fun _ => sha) [.call (.request contract.toJson)]

end Sample

end PaPlatform.Prepared
