/-
  The sessions of `agent-api/ws/session-hub.ts`: every call of `SessionManager`,
  every event of a child process, and the termination timers.

  A session object outlives its entry in the map of sessions, because the
  handlers of its child keep it.  What only the proofs read stands in fields of
  its own: whether the process runs, whether the child closed, and the sinks
  that were attached when the session ended.
-/
import PaPlatform.Lib.Run
import PaPlatform.Hub.Lines

namespace PaPlatform.Hub

open Js Units

inductive RuntimeName where
  | opencode
  | pi
  deriving DecidableEq, Repr

/-- The id `s<time>-<number>`, in base 36. -/
structure SessionId where
  time : ℕ
  number : ℕ
  deriving DecidableEq

def SessionId.text (id : SessionId) : Units :=
  units (String.ofList ('s' :: Nat.toDigits 36 id.time ++ '-' :: Nat.toDigits 36 id.number))

structure SessionRecord where
  id : SessionId
  model : Units
  stopping : Bool
  startedAt : ℕ
  deploymentId : Units
  runtime : RuntimeName

/-- A stream sink, an object of a client. -/
abbrev Sink := ℕ

/-- A child process.  The exit code of a child that a signal ended stays null. -/
structure ChildProcess where
  exitCode : Option ℤ
  killed : Bool
  timer : Bool
  sigkill : Bool
  running : Bool
  closed : Bool
  deriving DecidableEq

/-- `spawn`: `launched` says that there is a process. -/
def ChildProcess.spawned (launched : Bool) : ChildProcess := ⟨none, false, false, false, launched, false⟩

/-- `child.kill`: whether the signal is sent is the system's answer. -/
def ChildProcess.kill (c : ChildProcess) (sent : Bool) : ChildProcess :=
  { c with killed := c.killed || (c.running && sent) }

/-- The callback of the termination timer. -/
def ChildProcess.escalate (c : ChildProcess) (sent : Bool) : ChildProcess :=
  if c.exitCode = none ∧ c.killed = false then { c.kill sent with timer := false, sigkill := true }
  else { c with timer := false }

/-- What a session that was spawned has. -/
structure Stream where
  child : ChildProcess
  sinks : List Sink
  carry : Carry
  secrets : List Units
  ended : Option (List Sink)

structure ActiveSession where
  record : SessionRecord
  stream : Option Stream
  terminated : Bool
  terminateReason : Option TerminateReason

/-- The options of a hub that its sessions are made with. -/
structure SessionManagerOptions where
  maxSessions : ℕ
  defaultModel : Units
  env : Env
  normalizer : Normalizer
  maxPromptLength : ℕ
  binaryPath : Units
  runtimes : RuntimeName → Bool
  runtimeNormalizers : RuntimeName → Option Normalizer
  secretValues : Option (List Units)
  double : Units → Number

structure SessionSpawnOptions where
  model : Option Units
  prompt : String
  sessionId : Option Units
  deploymentId : Option Units
  env : Env
  runtime : Option Units

/-- Why no session is made. -/
inductive Refusal where
  | maxSessions
  | promptLength (max : ℕ)
  | otherRuntime (known : RuntimeName)
  | unsupportedRuntime
  | noAdapter (runtime : RuntimeName)
  | notFound (binaryPath : Units)
  | spawnFailed (message : Units)

/-- An event that was sent to a sink of a session. -/
structure Delivery where
  session : SessionId
  sink : Sink
  event : SessionStreamEvent

structure SessionManager where
  nextId : ℕ
  sessions : List SessionId
  objects : SessionId → Option ActiveSession
  nativeSessionRuntimes : Units → Option RuntimeName
  sent : List Delivery
  notified : List SessionId

/-- `new SessionManager(opts)`. -/
def SessionManager.new : SessionManager := ⟨1, [], fun _ => none, fun _ => none, [], []⟩

namespace SessionManager

variable (o : SessionManagerOptions) (h : SessionManager)

/-- The object of a session is changed. -/
def put (id : SessionId) (s : ActiveSession) : SessionManager := { h with objects := Function.update h.objects id (some s) }

/-- `this.sessions.get(id)`. -/
def get (id : SessionId) : Option ActiveSession := if id ∈ h.sessions then h.objects id else none

/-- `this.sessions.delete(id)`. -/
def delete (id : SessionId) : SessionManager := { h with sessions := h.sessions.filter (· ≠ id) }

/-- `emitEvent`, of a session with these sinks. -/
def emit (id : SessionId) (sinks : List Sink) (e : SessionStreamEvent) : SessionManager :=
  { h with sent := h.sent ++ sinks.map fun sink => ⟨id, sink, e⟩ }

/-- `emitEvent`, of one event after another. -/
def emitData (id : SessionId) (sinks : List Sink) (data : List Value) : SessionManager :=
  data.foldl (fun h v => h.emit id sinks (.event v)) h

/-- `this.atCapacity()`. -/
def atCapacity : Bool := o.maxSessions ≤ h.sessions.length

/-! ## New sessions -/

/-- `assertSupportedRuntime`. -/
def supportedRuntime (runtime : Units) : Option RuntimeName :=
  if runtime = units "pi" then some .pi else if runtime = units "opencode" then some .opencode else none

/-- The outcome of `spawn`. -/
inductive Spawned where
  | child (launched : Bool)
  | notFound
  | failed (message : Units)

/-- `this.nativeSessionRuntimes.set`, of a bounded id. -/
def setNative (id : Option Units) (runtime : RuntimeName) : SessionManager :=
  match id with
  | some id => if isBoundedNativeSessionId id then
      { h with nativeSessionRuntimes := Function.update h.nativeSessionRuntimes id (some runtime) } else h
  | none => h

/-- `this.nativeSessionRuntimes.delete`. -/
def deleteNative (id : Option Units) : SessionManager :=
  match id with
  | some id => if id = [] then h else
      { h with nativeSessionRuntimes := Function.update h.nativeSessionRuntimes id none }
  | none => h

/-- `createSession`, at `time`. -/
def createSession (time : ℕ) (opts : SessionSpawnOptions) (sink : Sink) (spawned : Spawned) :
    Except Refusal SessionRecord × SessionManager :=
  match (opts.runtime.elim (some .opencode) supportedRuntime : Option RuntimeName) with
  | none => (.error .unsupportedRuntime, h)
  | some runtime =>
    if runtime ≠ .opencode ∧ o.runtimes runtime = false then (.error (.noAdapter runtime), h)
    else
      let id : SessionId := ⟨time, h.nextId⟩
      let h := { h with nextId := h.nextId + 1 }
      let record : SessionRecord :=
        { id := id
          model := opts.model.getD o.defaultModel
          stopping := false
          startedAt := time
          deploymentId := opts.deploymentId.getD (units "session-" ++ id.text)
          runtime := runtime }
      let native := opts.sessionId <|> if runtime = .pi then some id.text else none
      let h := h.setNative native runtime
      match spawned with
      | .notFound => (.error (.notFound o.binaryPath), h.deleteNative native)
      | .failed message => (.error (.spawnFailed message), h.deleteNative native)
      | .child launched =>
        let secrets := (o.secretValues.getD (collectSecrets o.env)) ++ collectSecrets (o.env.merge opts.env)
        let stream : Stream := ⟨.spawned launched, [sink], .empty, secrets.eraseDups, none⟩
        (.ok record, { h.put id ⟨record, some stream, false, none⟩ with sessions := h.sessions ++ [id] })

/-- `validatePromptLength`. -/
def promptTooLong (prompt : String) : Bool := o.maxPromptLength < prompt.utf8ByteSize

/-- `start`. -/
def start (time : ℕ) (opts : SessionSpawnOptions) (sink : Sink) (spawned : Spawned) :
    Except Refusal SessionRecord × SessionManager :=
  if h.atCapacity o then (.error .maxSessions, h)
  else if promptTooLong o opts.prompt then (.error (.promptLength o.maxPromptLength), h)
  else h.createSession o time opts sink spawned

/-- `resume`, of the native session `sessionId`. -/
def resume (time : ℕ) (sessionId : Units) (opts : SessionSpawnOptions) (sink : Sink) (spawned : Spawned) :
    Except Refusal SessionRecord × SessionManager :=
  if h.atCapacity o then (.error .maxSessions, h)
  else if promptTooLong o opts.prompt then (.error (.promptLength o.maxPromptLength), h)
  else
    match h.nativeSessionRuntimes sessionId with
    | some known =>
      if opts.runtime.elim (some RuntimeName.opencode) supportedRuntime = some known then
        h.createSession o time { opts with sessionId := some sessionId } sink spawned
      else (.error (.otherRuntime known), h)
    | none => h.createSession o time { opts with sessionId := some sessionId } sink spawned

/-- `register`. -/
def register (time : ℕ) (deploymentId : Units) (model runtime : Option Units) :
    Except Refusal SessionRecord × SessionManager :=
  match (runtime.elim (some .opencode) supportedRuntime : Option RuntimeName) with
  | none => (.error .unsupportedRuntime, h)
  | some runtime =>
    if h.atCapacity o then (.error .maxSessions, h)
    else
      let id : SessionId := ⟨time, h.nextId⟩
      let record : SessionRecord := ⟨id, model.getD o.defaultModel, false, time, deploymentId, runtime⟩
      (.ok record, { h.put id ⟨record, none, false, none⟩ with
        nextId := h.nextId + 1, sessions := h.sessions ++ [id] })

/-! ## Subscriptions -/

/-- `subscribe`: a deploy session has no stream. -/
def subscribe (id : SessionId) (sink : Sink) : SessionManager :=
  match h.get id with
  | some s =>
    match s.stream with
    | some t =>
      let sinks := if sink ∈ t.sinks then t.sinks else t.sinks ++ [sink]
      h.put id { s with stream := some { t with sinks := sinks } }
    | none => h
  | none => h

/-- The function that `subscribe` returns. -/
def unsubscribe (id : SessionId) (sink : Sink) : SessionManager :=
  match h.objects id with
  | some s =>
    match s.stream with
    | some t => h.put id { s with stream := some { t with sinks := t.sinks.filter (· ≠ sink) } }
    | none => h
  | none => h

/-! ## Endings -/

/-- `finalize`: the ended session keeps the sinks it had. -/
def finalize (id : SessionId) (s : ActiveSession) (t : Stream) : SessionManager :=
  if id ∈ h.sessions then
    { (h.delete id).put id { s with stream := some { t with sinks := [], ended := some t.sinks } } with
      notified := h.notified ++ [id] }
  else h.put id { s with stream := some t }

/-- `terminate`: `sent` is the answer of the system to `SIGTERM`. -/
def terminate (id : SessionId) (reason : TerminateReason) (sent : Bool) : SessionManager :=
  match h.objects id with
  | none => h
  | some s =>
    if s.terminated then h
    else
      let s : ActiveSession := { s with terminated := true
                                        terminateReason := some reason
                                        record := { s.record with stopping := true } }
      match s.stream with
      | none => h.put id s
      | some t =>
        if t.child.exitCode ≠ none ∨ t.child.killed = true then
          (h.put id s).emit id t.sinks (.end_ none (some reason))
        else h.put id { s with stream := some { t with child := { t.child.kill sent with timer := true } } }

/-- `stop` and `disconnect`. -/
def stop (id : SessionId) (reason : TerminateReason) (sent : Bool) : SessionManager :=
  if id ∈ h.sessions then (h.terminate id reason sent).delete id else h

/-- `cleanup`. -/
def cleanup (sent : SessionId → Bool) : SessionManager :=
  { h.sessions.foldl (fun h id => h.terminate id .cleanup (sent id)) h with sessions := [] }

/-! ## Events of a child -/

/-- What the lines of a session are read with. -/
def reader (s : ActiveSession) (t : Stream) : LineReader :=
  ⟨(o.runtimeNormalizers s.record.runtime).getD o.normalizer, s.record.deploymentId, t.secrets⟩

/-- A piece of output, read by `handle`. -/
def handleOutput (handle : LineReader → Carry → Bytes → List Value × Carry) (id : SessionId)
    (s : ActiveSession) (t : Stream) (chunk : Bytes) : SessionManager :=
  if s.terminated then h
  else
    let (data, carry) := handle (reader o s t) t.carry chunk
    (h.put id { s with stream := some { t with carry := carry } }).emitData id t.sinks data

/-- `handleError`. -/
def handleError (id : SessionId) (s : ActiveSession) (t : Stream) (message : Units) : SessionManager :=
  if s.terminated then h else (h.emit id t.sinks (.error message)).finalize id s t

/-- `handleClose`. -/
def handleClose (id : SessionId) (s : ActiveSession) (t : Stream) (code : Option ℤ) : SessionManager :=
  let (data, carry) := closeOutput o.double (reader o s t) t.carry
  let t : Stream := { t with carry := carry, child := { t.child with closed := true } }
  let h := (h.emitData id t.sinks data).setNative carry.sessionIdParser.captured s.record.runtime
  if s.terminated then
    h.put id { s with stream := some { t with ended := t.ended <|> some t.sinks } }
  else (h.emit id t.sinks (.end_ (some (code.getD 0)) s.terminateReason)).finalize id s t

end SessionManager

/-! ## Runs -/

/-- What happens to a hub. -/
inductive Event where
  | start (time : ℕ) (opts : SessionSpawnOptions) (sink : Sink) (spawned : SessionManager.Spawned)
  | resume (time : ℕ) (sessionId : Units) (opts : SessionSpawnOptions) (sink : Sink) (spawned : SessionManager.Spawned)
  | register (time : ℕ) (deploymentId : Units) (model runtime : Option Units)
  | subscribe (id : SessionId) (sink : Sink)
  | unsubscribe (id : SessionId) (sink : Sink)
  | stop (id : SessionId) (sent : Bool)
  | disconnect (id : SessionId) (sent : Bool)
  | cleanup (sent : SessionId → Bool)
  | stdout (id : SessionId) (chunk : Bytes)
  | stderr (id : SessionId) (chunk : Bytes)
  | exit (id : SessionId) (code : Option ℤ)
  | error (id : SessionId) (message : Units)
  | close (id : SessionId) (code : Option ℤ)
  | timer (id : SessionId) (sent : Bool)

/-- The session object and the stream of a child. -/
def SessionManager.child (h : SessionManager) (id : SessionId) : Option (ActiveSession × Stream) :=
  (h.objects id).bind fun s => s.stream.map fun t => (s, t)

/-- An event of the child of `id`, which must be as `p` says. -/
def SessionManager.onChild (h : SessionManager) (id : SessionId) (p : ChildProcess → Bool)
    (f : ActiveSession → Stream → SessionManager) : Except Unit SessionManager :=
  match h.child id with
  | some (s, t) => if p t.child then .ok (f s t) else .error ()
  | none => .error ()

/-- A child that closed sends nothing more, and it closes after its process ended.
    A child that was not launched may get an exit code, too. -/
def step (o : SessionManagerOptions) (h : SessionManager) : Event → Except Unit SessionManager
  | .start time opts sink spawned => .ok (h.start o time opts sink spawned).2
  | .resume time sessionId opts sink spawned => .ok (h.resume o time sessionId opts sink spawned).2
  | .register time deploymentId model runtime => .ok (h.register o time deploymentId model runtime).2
  | .subscribe id sink => .ok (h.subscribe id sink)
  | .unsubscribe id sink => .ok (h.unsubscribe id sink)
  | .stop id sent => .ok (h.stop id .stopped sent)
  | .disconnect id sent => .ok (h.stop id .disconnect sent)
  | .cleanup sent => .ok (h.cleanup sent)
  | .stdout id chunk =>
    h.onChild id (fun c => !c.closed) fun s t => h.handleOutput o (handleStdout o.double) id s t chunk
  | .stderr id chunk =>
    h.onChild id (fun c => !c.closed) fun s t => h.handleOutput o (handleStderr o.double) id s t chunk
  | .exit id code => h.onChild id (fun c => c.exitCode.isNone && !c.closed) fun s t =>
    h.put id { s with stream := some { t with child := { t.child with running := false, exitCode := code } } }
  | .error id message => h.onChild id (fun c => !c.closed) fun s t => h.handleError id s t message
  | .close id code =>
    h.onChild id (fun c => !c.closed && !c.running) fun s t => h.handleClose o id s t code
  | .timer id sent => h.onChild id (fun c => c.timer) fun s t =>
    h.put id { s with stream := some { t with child := t.child.escalate sent } }

/-- The runs of a hub. -/
abbrev Reaches (o : SessionManagerOptions) : List (Run.Step SessionManager Event) → SessionManager → Prop :=
  Run.Reaches (step o) .new

/-- The events that a sink received for a session. -/
def SessionManager.received (h : SessionManager) (id : SessionId) (sink : Sink) : List SessionStreamEvent :=
  h.sent.filterMap fun d => if d.session = id ∧ d.sink = sink then some d.event else none

end PaPlatform.Hub
