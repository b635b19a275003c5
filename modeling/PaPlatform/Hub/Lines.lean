/-
  What the agent session hub (`agent-api/ws/session-hub.ts`) makes of the output
  of a child: carry buffers, lines, events, and the native session id.

  The normalizer is an option of the hub.  A number that is not a safe integer is
  read as the platform reads it (`double`).
-/
import PaPlatform.Lib.JsonText

namespace PaPlatform.Hub

open Js Units

/-! ## Redaction -/

/-- What follows a word in any case. -/
def afterWord (word : String) (s : Units) : Option Units :=
  if (units word).isPrefixOf (s.map lower) then some (s.drop (units word).length) else none

/-- What follows `api[_-]?key`. -/
def afterApiKey (s : Units) : Option Units := do
  let rest ← afterWord "api" s
  match rest with
  | u :: rest => if u = unit '_' ∨ u = unit '-' then afterWord "key" rest else afterWord "key" (u :: rest)
  | [] => none

/-- What follows `(?:token|secret|password|api[_-]?key|authorization)`. -/
def afterSecretWord (s : Units) : Option Units :=
  afterWord "token" s <|> afterWord "secret" s <|> afterWord "password" s <|> afterApiKey s <|>
    afterWord "authorization" s

/-- `SECRET_KEY.test(key)`. -/
def secretKey (key : Units) : Bool := key.tails.any fun s => (afterSecretWord s).isSome

/-- What follows `\s*`, and what follows `\S*`. -/
def skipSpaces (s : Units) : Units := s.dropWhile isSpace

def skipWord (s : Units) : Units := s.dropWhile fun u => !isSpace u

/-- What follows `\s*(?::|=|\s)\s*\S+`: without a colon or an equals sign before
    the value, the last space separates. -/
def afterAssignment (s : Units) : Option Units :=
  match skipSpaces s with
  | [] => none
  | u :: rest =>
    if (u = unit ':' ∨ u = unit '=') ∧ skipSpaces rest ≠ [] then some (skipWord (skipSpaces rest))
    else if (u :: rest).length < s.length then some (skipWord (u :: rest))
    else none

/-- What follows `\s+\S+`. -/
def afterBearer (s : Units) : Option Units :=
  let rest := skipSpaces s
  if rest ≠ [] ∧ rest.length < s.length then some (skipWord rest) else none

/-- What follows `[\w-]+`. -/
def afterToken (s : Units) : Option Units :=
  let rest := s.dropWhile fun u => Units.isAlnum u || u == unit '_' || u == unit '-'
  if rest.length < s.length then some rest else none

/-- The length of a match at the start of `s`, from what follows it. -/
def matchLength (s : Units) (rest : Option Units) : Option ℕ := rest.map fun rest => s.length - rest.length

/-- `SECRET_TEXT`. -/
def secretText : List (Units → Option ℕ) :=
  [fun s => matchLength s (afterSecretWord s >>= afterAssignment),
    fun s => matchLength s (afterWord "bearer" s >>= afterBearer),
    fun s => matchLength s (afterWord "sk-" s >>= afterToken)]

def redacted : Units := units "[REDACTED]"

/-- `redact`. -/
def redact (value : Units) (secrets : List Units) : Units :=
  secretText.foldl (fun s find => replaceAll find redacted s)
    (secrets.foldl (fun s secret => if secret = [] then s else replacePart secret redacted s) value)

/-- An environment: the names are distinct. -/
abbrev Env := List (Units × Option Units)

/-- `{ ...base, ...extra }`. -/
def Env.merge (base extra : Env) : Env :=
  base.map (fun e => (e.1, (extra.lookup e.1).getD e.2)) ++ extra.filter fun e => (base.lookup e.1).isNone

/-- `collectSecrets`. -/
def collectSecrets (env : Env) : List Units :=
  env.filterMap fun e => e.2.filter fun value => secretKey e.1 && 8 ≤ value.length

/-! ## Events -/

/-- What a normalizer returns, without its time. -/
structure ActivityEvent where
  deployId : Value
  kind : Units
  source : Value
  body : Units
  partType : Option Units
  metadata : Option Value

/-- A normalizer, of a value, a deployment and its secrets; `none` if it throws. -/
abbrev Normalizer := Value → Units → List Units → Option ActivityEvent

inductive TerminateReason where
  | stopped
  | disconnect
  | cleanup
  deriving DecidableEq, Repr

/-- An event of a session stream, without its time. -/
inductive SessionStreamEvent where
  | event (data : Value)
  | error (message : Units)
  | end_ (exitCode : Option ℤ) (reason : Option TerminateReason)

/-- The event ends the stream. -/
def SessionStreamEvent.Terminal : SessionStreamEvent → Prop
  | event _ => False
  | error _ | end_ _ _ => True

def maxStreamCarry : ℕ := 8192

def maxEventBody : ℕ := 500

def maxSerializedEvent : ℕ := 8192

def maxStderr : ℕ := 2000

/-- A text event. -/
def textEvent (body : Units) : Value := .obj [(units "kind", .str (units "text")), (units "body", .str body)]

/-- `activityEventToData`. -/
def activityEventToData (e : ActivityEvent) : Value :=
  .obj ([(units "deployId", e.deployId), (units "kind", .str e.kind), (units "source", e.source),
    (units "body", .str e.body)] ++ (e.partType.map fun t => (units "partType", Value.str t)).toList ++
    (e.metadata.map fun m => (units "metadata", m)).toList)

/-- A text cut to `max` units, with dots. -/
def shortened (s : Units) (max : ℕ) : Units := s.take (max - 3) ++ units "..."

mutual

/-- `boundedValue`. -/
def boundedValue (secrets : List Units) : Value → Value
  | .str s =>
    let safe := redact s secrets
    .str (if maxEventBody < safe.length then shortened safe maxEventBody else safe)
  | .arr items => .arr (boundedItems secrets items)
  | .obj fields => .obj (boundedFields secrets fields)
  | v => v

def boundedItems (secrets : List Units) : List Value → List Value
  | [] => []
  | v :: items => boundedValue secrets v :: boundedItems secrets items

def boundedFields (secrets : List Units) : List (Units × Value) → List (Units × Value)
  | [] => []
  | (key, v) :: fields =>
    (key, if secretKey key then .str redacted else boundedValue secrets v) :: boundedFields secrets fields

end

/-- `boundedRecord`. -/
def boundedRecord (value : Value) (secrets : List Units) : Value :=
  let bounded := boundedValue secrets value
  if bounded.stringify.length ≤ maxSerializedEvent then bounded
  else textEvent (shortened bounded.stringify maxEventBody)

/-! ## The native session id -/

/-- `["':=\s]`. -/
def isIdSeparator (u : UInt16) : Bool :=
  u == unit '"' || u == unit '\'' || u == unit ':' || u == unit '=' || isSpace u

/-- `[a-zA-Z0-9_-]`. -/
def isIdUnit (u : UInt16) : Bool := Units.isAlnum u || u == unit '_' || u == unit '-'

/-- The id after `["':=\s]+`. -/
def idAfterSeparator (s : Units) : Option Units :=
  let rest := s.dropWhile isIdSeparator
  if rest.length < s.length ∧ rest.takeWhile isIdUnit ≠ [] then some (rest.takeWhile isIdUnit) else none

/-- `session(?:ID|Id|_id)?["':=\s]+([a-zA-Z0-9_-]+)` at the start of a text. -/
def matchSessionId (s : Units) : Option Units :=
  if (units "session").isPrefixOf s then
    let rest := s.drop 7
    if (units "ID").isPrefixOf rest ∨ (units "Id").isPrefixOf rest then idAfterSeparator (rest.drop 2)
    else if (units "_id").isPrefixOf rest then idAfterSeparator (rest.drop 3)
    else idAfterSeparator rest
  else none

/-- `raw[a] ?? raw[b] ?? …`, of the own properties. -/
def firstField (fields : List (Units × Value)) (keys : List String) : Option Value :=
  keys.firstM fun key => (fields.lookup (units key)).filter fun v => match v with
    | .null => false
    | _ => true

section
variable (double : Units → Number)

/-- `parseSessionIdLine`. -/
def parseSessionIdLine (line : Units) : Option Units :=
  match Value.parse double line with
  | none | some .null => line.tails.findSome? matchSessionId
  | some (.obj fields) =>
    match firstField fields ["sessionID", "sessionId", "session_id", "id"] with
    | some (.str session) => if session = [] then none else some session
    | _ => none
  | some _ => none

/-- `createSessionIdParser`. -/
structure SessionIdParser where
  pending : Units
  captured : Option Units
  deriving DecidableEq

def createSessionIdParser : SessionIdParser := ⟨[], none⟩

namespace SessionIdParser

def inspect (captured : Option Units) (line : Units) : Option Units :=
  if captured.isSome ∨ blank line then captured else parseSessionIdLine double line

def write (p : SessionIdParser) (text : Units) : SessionIdParser :=
  if p.captured.isSome then p
  else
    let lines := split (p.pending ++ text) '\n'
    ⟨lines.getLastD [], lines.dropLast.foldl (inspect double) none⟩

def flush (p : SessionIdParser) : SessionIdParser :=
  ⟨[], if p.captured.isNone ∧ p.pending ≠ [] then inspect double none p.pending else p.captured⟩

end SessionIdParser

/-- `isBoundedNativeSessionId`. -/
def isBoundedNativeSessionId (value : Units) : Bool :=
  value.length ≤ 256 && !value.isEmpty &&
    value.all fun u => Units.isAlnum u || u == unit '.' || u == unit '_' || u == unit ':' || u == unit '-'

/-! ## The output of a child -/

/-- What the lines of a session are read with. -/
structure LineReader where
  normalizer : Normalizer
  deploymentId : Units
  secrets : List Units

/-- What is carried from one piece of output to the next. -/
structure Carry where
  sessionIdParser : SessionIdParser
  stdoutBuffer : Units
  stderrBuffer : Units
  deriving DecidableEq

def Carry.empty : Carry := ⟨createSessionIdParser, [], []⟩

variable (r : LineReader)

/-- `processLine`: the data of the events it emits. -/
def processLine (p : SessionIdParser) (line : Units) : List Value × SessionIdParser :=
  if blank line then ([], p)
  else
    match Value.parse double line with
    | none => ([textEvent ((redact line r.secrets).take maxEventBody)], p)
    | some raw =>
      match r.normalizer raw r.deploymentId r.secrets with
      | some e =>
        ([activityEventToData { e with body := (redact e.body r.secrets).take maxEventBody }], p.write double line)
      | none => ([boundedRecord raw r.secrets], p.write double line)

/-- `processLine`, of one line after another. -/
def processLines (p : SessionIdParser) : List Units → List Value × SessionIdParser
  | [] => ([], p)
  | line :: lines =>
    let (events, p) := processLine double r p line
    let (later, p) := processLines p lines
    (events ++ later, p)

/-- `handleStdout`. -/
def handleStdout (c : Carry) (chunk : Bytes) : List Value × Carry :=
  let lines := split (tail (c.stdoutBuffer ++ Units.decodeUtf8 chunk) maxStreamCarry) '\n'
  let (events, p) := processLines double r c.sessionIdParser lines.dropLast
  (events, { c with sessionIdParser := p, stdoutBuffer := lines.getLastD [] })

/-- `handleStderr`. -/
def handleStderr (c : Carry) (chunk : Bytes) : List Value × Carry :=
  let lines := split (tail (redact (c.stderrBuffer ++ Units.decodeUtf8 chunk) r.secrets) maxStderr) '\n'
  let (events, p) := processLines double r c.sessionIdParser lines.dropLast
  (events, { c with sessionIdParser := p, stderrBuffer := lines.getLastD [] })

/-- The leftover output that `handleClose` processes, and the captured id. -/
def closeOutput (c : Carry) : List Value × Carry :=
  let (fromStdout, p) := processLine double r c.sessionIdParser c.stdoutBuffer
  let (fromStderr, p) := processLine double r p c.stderrBuffer
  (fromStdout ++ fromStderr, ⟨p.flush double, [], []⟩)

end

end PaPlatform.Hub
