/-
  Results of operations (`operations/result.ts`): the snapshot of a JavaScript value,
  the validator, and the parser and the serializer built from them.

  What is outside of the module is a parameter: how numbers are rounded, which texts
  are dates, and the scanner for sensitive texts.
-/
import PaPlatform.Lib.Unicode
import PaPlatform.Validation.ReviewContract

namespace PaPlatform.Operations

open Js Units Guard

open Validation.Review (Input unpaired trimmed parseReviewEvidenceJson)

inductive OperationResultErrorCode where
  | json | utf8 | size | field | invariant | sensitive | redactionUnavailable | outputReferenceRequired
  deriving DecidableEq

abbrev Accepted (α : Type) := Except OperationResultErrorCode α

def reject {α : Type} : Accepted α := .error .field

/-! ## JavaScript values -/

/-- A value: `ν` are its numbers and `ρ` its references to objects. -/
inductive JsValue (ν ρ : Type) where
  | null
  | bool (b : Bool)
  | num (n : ν)
  | str (s : Units)
  | object (ref : ρ)
  /-- `undefined`, a function, a symbol or a bigint -/
  | other

/-- An own property of an object. -/
inductive Descriptor (ν ρ : Type) where
  | data (value : JsValue ν ρ) (enumerable : Bool)
  | accessor

inductive Prototype where
  | null | object | other
  deriving DecidableEq

/-- What an object answers.  A proxy can give another length each time. -/
structure JsObject (ν ρ : Type) where
  isArray : Bool
  prototype : Prototype
  /-- An own key is a symbol. -/
  hasSymbols : Bool
  /-- `v.length`, at each of its reads -/
  length : ℕ → ℕ
  /-- The own properties, in the order of the object. -/
  descriptors : List (Units × Descriptor ν ρ)

/-- `Number.isFinite(n)`: any other number is written as `null`. -/
def isFinite (n : Number) : Bool := n.text != units "null"

/-! ## Snapshots -/

section snapshot

variable {ν ρ : Type} (number : ν → Number) (heap : ρ → JsObject ν ρ)

/-- The items of an array at some indices. -/
def visitItems (visit : JsValue ν ρ → ℤ → Accepted (Value × ℤ)) (descriptors : List (Units × Descriptor ν ρ)) :
    List ℕ → ℤ → Accepted (List Value × ℤ)
  | [], budget => .ok ([], budget)
  | i :: is, budget =>
    match descriptors.lookup (decimal i) with
    | some (.data v _) => do
      let x ← visit v budget
      let xs ← visitItems visit descriptors is x.2
      return (x.1 :: xs.1, xs.2)
    | _ => reject

/-- The properties of an object, added to a result. -/
def visitFields (visit : JsValue ν ρ → ℤ → Accepted (Value × ℤ)) :
    List (Units × Descriptor ν ρ) → List (Units × Value) → ℤ → Accepted (List (Units × Value) × ℤ)
  | [], result, budget => .ok (result, budget)
  | (key, d) :: ds, result, budget =>
    match d with
    | .data v true => do
      throwIf (unpaired key = true) .field
      throwIf (budget - byteLength key < 0) .size
      let x ← visit v (budget - byteLength key)
      visitFields visit ds (Value.set key x.1 result) x.2
    | _ => reject

/-- `visit(v, depth)`, with `65 - depth` levels left, and the budget after it. -/
def visit : ℕ → JsValue ν ρ → ℤ → Accepted (Value × ℤ)
  | 0, _, _ => .error .size
  | levels + 1, v, before =>
    let budget := before - 1
    if budget < 0 then .error .size
    else
      match v with
      | .null => .ok (.null, budget)
      | .bool b => .ok (.bool b, budget)
      | .num n => if isFinite (number n) then .ok (.num (number n), budget) else reject
      | .str s => do
        throwIf (budget - byteLength s < 0) .size
        throwIf (unpaired s = true) .utf8
        return (.str s, budget - byteLength s)
      | .other => reject
      | .object ref => do
        let o := heap ref
        throwIf (o.isArray = false ∧ o.prototype = .other) .field
        throwIf (o.hasSymbols = true) .field
        if o.isArray then
          throwIf (65536 < o.length 0 ∨ o.descriptors.length ≠ o.length 1 + 1) .field
          let items ← visitItems (visit levels) o.descriptors (List.range (o.length 2)) budget
          return (.arr items.1, items.2)
        else
          let fields ← visitFields (visit levels) o.descriptors [] budget
          return (.obj fields.1, fields.2)

/-- Data-only snapshot: no getters, prototypes, symbols, cycles or unbounded object graphs. -/
def snapshot (value : JsValue ν ρ) : Accepted Value := (visit number heap 65 value 1048576).map (·.1)

end snapshot

/-- A plain value as a JavaScript value, whose arrays and objects are their own references. -/
def js : Value → JsValue Number Value
  | .null => .null
  | .bool b => .bool b
  | .num n => .num n
  | .str s => .str s
  | v => .object v

/-- The properties of the items of an array. -/
def itemDescriptors (items : List Value) : List (Units × Descriptor Number Value) :=
  items.zipIdx.map fun x => (decimal x.2, .data (js x.1) true)

/-- The arrays and the objects of plain values. -/
def plainObject : Value → JsObject Number Value
  | .arr items => ⟨true, .object, false, fun _ => items.length,
      itemDescriptors items ++ [(units "length", .data (.num (.int items.length)) false)]⟩
  | .obj fields => ⟨false, .null, false, fun _ => 0, fields.map fun f => (f.1, .data (js f.2) true)⟩
  | _ => ⟨false, .null, false, fun _ => 0, []⟩

/-- The snapshot of a plain value. -/
def snapshotPlain (value : Value) : Accepted Value := snapshot id plainObject (js value)

/-! ## Fields -/

/-- An own property of a row. -/
def own (r : List (Units × Value)) (key : String) : Option Value := r.lookup (units key)

def row (value : Option Value) (keys : List String) : Accepted (List (Units × Value)) :=
  match value with
  | some (.obj r) => do
    throwIf (r.length ≠ keys.length ∨ keys.any (fun key => (own r key).isNone) = true) .field
    return r
  | _ => reject

/-- `[\u0000-\u0008\u000b\u000c\u000e-\u001f\u007f]`. -/
def isRawControl (u : UInt16) : Bool :=
  u ≤ 0x08 || u == 0x0b || u == 0x0c || (0x0e ≤ u && u ≤ 0x1f) || u == 0x7f

def hasControl (multiline : Bool) (s : Units) : Bool :=
  if multiline then s.any isRawControl else (codePoints s).any fun c => Units.isControl c || Units.isFormat c

def text (value : Option Value) (max : ℕ) (multiline : Bool) : Accepted Units :=
  match value with
  | some (.str s) => do
    throwIf (max < byteLength s ∨ unpaired s = true ∨ hasControl multiline s = true) .field
    throwIf (multiline = false ∧ (s = [] ∨ trimmed s = false)) .field
    return s
  | _ => reject

/-- `text(value, max)`. -/
def line (value : Option Value) (max : ℕ) : Accepted Units := text value max false

def choice {α : Type} (all : List α) (name : α → String) (value : Option Value) : Accepted α :=
  match value with
  | some (.str s) => require (all.find? fun a => units (name a) == s) .field
  | _ => reject

def bool : Option Value → Accepted Bool
  | some (.bool b) => .ok b
  | _ => reject

/-- A field that may be `null`. -/
def nullable {α : Type} (parse : Option Value → Accepted α) : Option Value → Accepted (Option α)
  | some .null => .ok none
  | value => (parse value).map some

/-- `/^[0-9a-f]{64}$/`. -/
def isSha (s : Units) : Bool := s.length = 64 && s.all fun u => Units.isDigit u || within 'a' 'f' u

/-- Letters, digits, dots, underscores, colons, slashes and hyphens: one to 256, first a letter or a digit. -/
def isId (s : Units) : Bool :=
  s.head?.any Units.isAlnum && s.length ≤ 256 && s.all fun u => Units.isAlnum u || [unit '.', unit '_', unit ':', unit '/', unit '-'].contains u

/-- `/^[A-Z][A-Z0-9_]{0,127}$/`. -/
def isCode (s : Units) : Bool :=
  s.head?.any (within 'A' 'Z') && s.length ≤ 128 && s.all fun u => within 'A' 'Z' u || Units.isDigit u || u == unit '_'

/-- `/^SIG[A-Z0-9]+$/`. -/
def isSignal (s : Units) : Bool :=
  (units "SIG").isPrefixOf s && 4 ≤ s.length && (s.drop 3).all fun u => within 'A' 'Z' u || Units.isDigit u

/-- A line that satisfies a pattern. -/
def lineOf (value : Option Value) (max : ℕ) (pattern : Units → Bool) : Accepted Units := do
  let s ← line value max
  throwIf (pattern s = false) .field
  return s

def digest : Option Value → Accepted (Option Units) := nullable fun value => lineOf value 64 isSha

def list {α : Type} (parse : Option Value → Accepted α) : Option Value → Accepted (List α)
  | some (.arr items) => do
    throwIf (128 < items.length) .field
    items.mapM fun x => parse (some x)
  | _ => reject

/-! ## Parts -/

inductive Freshness where
  | current | stale | unverified
  deriving DecidableEq

def Freshness.all : List Freshness := [.current, .stale, .unverified]

def Freshness.name : Freshness → String
  | .current => "current"
  | .stale => "stale"
  | .unverified => "unverified"

structure OperationEvidence where
  owner : Units
  ref : Units
  version : Option Units
  sha256 : Option Units
  freshness : Freshness
  scope : Units
  deriving DecidableEq

def evidence (value : Option Value) : Accepted OperationEvidence := do
  let r ← row value ["owner", "ref", "version", "sha256", "freshness", "scope"]
  let owner ← line (own r "owner") 128
  let ref ← line (own r "ref") 2048
  let version ← nullable (line · 128) (own r "version")
  let sha256 ← digest (own r "sha256")
  let freshness ← choice Freshness.all Freshness.name (own r "freshness")
  let scope ← line (own r "scope") 2048
  throwIf (freshness ≠ .unverified ∧ sha256 = none) .invariant
  return { owner, ref, version, sha256, freshness, scope }

inductive Severity where
  | info | minor | major | critical
  deriving DecidableEq

def Severity.all : List Severity := [.info, .minor, .major, .critical]

def Severity.name : Severity → String
  | .info => "info"
  | .minor => "minor"
  | .major => "major"
  | .critical => "critical"

structure OperationFinding where
  code : Units
  severity : Severity
  explanation : Units
  correctionOwner : Units
  nextAction : Units
  deriving DecidableEq

def finding (value : Option Value) : Accepted OperationFinding := do
  let r ← row value ["code", "severity", "explanation", "correctionOwner", "nextAction"]
  let code ← lineOf (own r "code") 128 isCode
  let severity ← choice Severity.all Severity.name (own r "severity")
  let explanation ← line (own r "explanation") 4096
  let correctionOwner ← line (own r "correctionOwner") 128
  let nextAction ← line (own r "nextAction") 4096
  return { code, severity, explanation, correctionOwner, nextAction }

inductive Cleanup where
  | settled | unknown | notApplicable
  deriving DecidableEq

def Cleanup.all : List Cleanup := [.settled, .unknown, .notApplicable]

def Cleanup.name : Cleanup → String
  | .settled => "settled"
  | .unknown => "unknown"
  | .notApplicable => "not-applicable"

structure OperationProcess where
  exitCode : Option ℕ
  signal : Option Units
  timedOut : Bool
  aborted : Bool
  cleanup : Cleanup
  deriving DecidableEq

/-- A safe integer from 0 to 2147483647. -/
def exitStatus : Option Value → Accepted ℕ
  | some (.num (.int n)) => if 0 ≤ n ∧ n ≤ 2147483647 then .ok n.toNat else reject
  | _ => reject

def processFacts (value : Option Value) : Accepted OperationProcess := do
  let r ← row value ["exitCode", "signal", "timedOut", "aborted", "cleanup"]
  let exitCode ← nullable exitStatus (own r "exitCode")
  let signal ← nullable (lineOf · 32 isSignal) (own r "signal")
  throwIf (exitCode ≠ none ∧ signal ≠ none) .invariant
  let timedOut ← bool (own r "timedOut")
  let aborted ← bool (own r "aborted")
  let cleanup ← choice Cleanup.all Cleanup.name (own r "cleanup")
  return { exitCode, signal, timedOut, aborted, cleanup }

structure OperationScope where
  source : Units
  inputSha256 : Option Units
  description : Units
  deriving DecidableEq

structure OperationOutput where
  text : Units
  truncated : Bool
  fullEvidenceRef : Option OperationEvidence
  deriving DecidableEq

def maxOperationTextBytes : ℕ := 51200

def maxOperationTextLines : ℕ := 2000

/-- `s.split("\n").length`. -/
def lineCount (s : Units) : ℕ := s.count (unit '\n') + 1

def output (value : Option Value) : Accepted OperationOutput := do
  let o ← row value ["text", "truncated", "fullEvidenceRef"]
  let s ← text (own o "text") maxOperationTextBytes true
  let truncated ← bool (own o "truncated")
  let fullEvidenceRef ← nullable evidence (own o "fullEvidenceRef")
  throwIf (maxOperationTextLines < lineCount s) .size
  throwIf (truncated = true ∧ fullEvidenceRef = none) .outputReferenceRequired
  return { text := s, truncated, fullEvidenceRef }

inductive OperationPayload where
  | inline (value : Value)
  | reference (evidence : OperationEvidence)

/-- The value is a string with this text. -/
def isText (value : Option Value) (s : String) : Bool :=
  match value with
  | some (.str t) => t == units s
  | _ => false

/-- `(value as Row)?.kind === "inline"`. -/
def isInline : Option Value → Bool
  | some (.obj r) => isText (own r "kind") "inline"
  | _ => false

def payload (value : Option Value) : Accepted OperationPayload := do
  let p ← row value (if isInline value then ["kind", "value"] else ["kind", "evidence"])
  if isText (own p "kind") "inline" then
    let value ← require (own p "value") .field
    let value ← snapshotPlain value
    return .inline value
  else if isText (own p "kind") "reference" then
    let e ← evidence (own p "evidence")
    return .reference e
  else reject

/-! ## Results -/

inductive OperationCompletion where
  | completed | cancelled | timedOut | error
  deriving DecidableEq

def OperationCompletion.all : List OperationCompletion := [.completed, .cancelled, .timedOut, .error]

def OperationCompletion.name : OperationCompletion → String
  | .completed => "completed"
  | .cancelled => "cancelled"
  | .timedOut => "timed-out"
  | .error => "error"

inductive OperationOutcome where
  | passed | failed | warning | unknown | skipped
  deriving DecidableEq

def OperationOutcome.all : List OperationOutcome := [.passed, .failed, .warning, .unknown, .skipped]

def OperationOutcome.name : OperationOutcome → String
  | .passed => "passed"
  | .failed => "failed"
  | .warning => "warning"
  | .unknown => "unknown"
  | .skipped => "skipped"

inductive Enforcement where
  | allowed | denied
  deriving DecidableEq

def Enforcement.all : List Enforcement := [.allowed, .denied]

def Enforcement.name : Enforcement → String
  | .allowed => "allowed"
  | .denied => "denied"

inductive Capability where
  | available | unavailable
  deriving DecidableEq

def Capability.all : List Capability := [.available, .unavailable]

def Capability.name : Capability → String
  | .available => "available"
  | .unavailable => "unavailable"

structure OperationResult where
  operationId : Units
  kind : Units
  observedAt : Units
  scope : OperationScope
  completion : OperationCompletion
  outcome : OperationOutcome
  enforcement : Enforcement
  capability : Capability
  required : Bool
  findings : List OperationFinding
  process : Option OperationProcess
  evidence : List OperationEvidence
  output : OperationOutput
  payload : Option OperationPayload

def operationResultVersion : String := "pa-operation-result/v1"

def maxOperationResultBytes : ℕ := 65536

/-! ## Objects -/

/-- `null`, or a value. -/
def orNull (value : Option Value) : Value := value.getD .null

def named {α : Type} (name : α → String) (a : α) : Value := .str (units (name a))

def OperationEvidence.value (e : OperationEvidence) : Value :=
  .obj [(units "owner", .str e.owner), (units "ref", .str e.ref), (units "version", orNull (e.version.map .str)),
    (units "sha256", orNull (e.sha256.map .str)), (units "freshness", named Freshness.name e.freshness),
    (units "scope", .str e.scope)]

def OperationFinding.value (f : OperationFinding) : Value :=
  .obj [(units "code", .str f.code), (units "severity", named Severity.name f.severity),
    (units "explanation", .str f.explanation), (units "correctionOwner", .str f.correctionOwner),
    (units "nextAction", .str f.nextAction)]

def OperationProcess.value (p : OperationProcess) : Value :=
  .obj [(units "exitCode", orNull (p.exitCode.map fun n => .num (.int n))), (units "signal", orNull (p.signal.map .str)),
    (units "timedOut", .bool p.timedOut), (units "aborted", .bool p.aborted),
    (units "cleanup", named Cleanup.name p.cleanup)]

def OperationScope.value (s : OperationScope) : Value :=
  .obj [(units "source", .str s.source), (units "inputSha256", orNull (s.inputSha256.map .str)),
    (units "description", .str s.description)]

def OperationOutput.value (o : OperationOutput) : Value :=
  .obj [(units "text", .str o.text), (units "truncated", .bool o.truncated),
    (units "fullEvidenceRef", orNull (o.fullEvidenceRef.map (·.value)))]

def OperationPayload.value : OperationPayload → Value
  | .inline value => .obj [(units "kind", .str (units "inline")), (units "value", value)]
  | .reference e => .obj [(units "kind", .str (units "reference")), (units "evidence", e.value)]

def OperationResult.value (r : OperationResult) : Value :=
  .obj [(units "schemaVersion", .str (units operationResultVersion)), (units "operationId", .str r.operationId),
    (units "kind", .str r.kind), (units "observedAt", .str r.observedAt), (units "scope", r.scope.value),
    (units "completion", named OperationCompletion.name r.completion),
    (units "outcome", named OperationOutcome.name r.outcome),
    (units "enforcement", named Enforcement.name r.enforcement),
    (units "capability", named Capability.name r.capability), (units "required", .bool r.required),
    (units "findings", .arr (r.findings.map (·.value))), (units "process", orNull (r.process.map (·.value))),
    (units "evidence", .arr (r.evidence.map (·.value))), (units "output", r.output.value),
    (units "payload", orNull (r.payload.map (·.value)))]

def resultKeys : List String :=
  ["schemaVersion", "operationId", "kind", "observedAt", "scope", "completion", "outcome", "enforcement",
    "capability", "required", "findings", "process", "evidence", "output", "payload"]

/-! ## Validation -/

/-- What the module is given: the rounding of numbers, the dates that are their own ISO string,
    and the scanner of `loadSensitivePatterns()`, unless it throws. -/
structure Platform where
  double : Units → Number
  isIsoDate : Units → Bool
  patterns : Option (Units → Bool)

mutual

/-- The strings of a value: its own, and its keys. -/
def strings : Value → List Units
  | .str s => [s]
  | .arr items => stringsOfItems 0 items
  | .obj fields => stringsOfFields fields
  | _ => []

def stringsOfItems : ℕ → List Value → List Units
  | _, [] => []
  | i, x :: xs => decimal i :: (strings x ++ stringsOfItems (i + 1) xs)

def stringsOfFields : List (Units × Value) → List Units
  | [] => []
  | (k, x) :: fs => k :: (strings x ++ stringsOfFields fs)

end

variable (platform : Platform)

def sensitive (value : Value) : Accepted Unit :=
  match platform.patterns with
  | none => .error .redactionUnavailable
  | some scan => throwIf ((strings value).any scan = true) .sensitive

/-- A process without an exit of its own. -/
def OperationProcess.incomplete (p : OperationProcess) : Bool :=
  p.exitCode.isNone || p.signal.isSome || p.timedOut || p.aborted || p.cleanup == .unknown

/-- What a passed check needs. -/
def OperationResult.proven (r : OperationResult) : Bool :=
  r.completion == .completed && r.enforcement == .allowed && r.capability == .available &&
    r.process.all (fun p => !p.incomplete && p.exitCode == some 0) &&
    r.evidence.any fun e => e.scope == r.scope.source && e.freshness == .current

def OperationResult.invariants (r : OperationResult) : Accepted Unit := do
  throwIf (r.process.any (·.aborted) = true ∧ r.completion ≠ .cancelled ∨
    r.process.any (·.timedOut) = true ∧ r.completion ≠ .timedOut ∧ r.completion ≠ .cancelled) .invariant
  throwIf (r.outcome = .passed ∧ r.proven = false) .invariant
  throwIf ((r.outcome ≠ .passed ∨ r.enforcement = .denied ∨ r.capability = .unavailable ∨
    r.completion ≠ .completed) ∧ r.findings = []) .invariant

def scope (value : Option Value) : Accepted (List (Units × Value)) := row value ["source", "inputSha256", "description"]

def validate (value : Value) : Accepted OperationResult := do
  let r ← row (some value) resultKeys
  throwIf (isText (own r "schemaVersion") operationResultVersion = false) .field
  let operationId ← line (own r "operationId") 256
  let kind ← line (own r "kind") 256
  throwIf (isId operationId = false ∨ isId kind = false) .field
  let observedAt ← line (own r "observedAt") 32
  throwIf (platform.isIsoDate observedAt = false) .field
  let s ← scope (own r "scope")
  let output ← output (own r "output")
  let payload ← nullable payload (own r "payload")
  let source ← line (own s "source") 2048
  let inputSha256 ← digest (own s "inputSha256")
  let description ← line (own s "description") 4096
  let completion ← choice OperationCompletion.all OperationCompletion.name (own r "completion")
  let outcome ← choice OperationOutcome.all OperationOutcome.name (own r "outcome")
  let enforcement ← choice Enforcement.all Enforcement.name (own r "enforcement")
  let capability ← choice Capability.all Capability.name (own r "capability")
  let required ← bool (own r "required")
  let findings ← list finding (own r "findings")
  let process ← nullable processFacts (own r "process")
  let evidence ← list evidence (own r "evidence")
  let result : OperationResult := {
    operationId, kind, observedAt, scope := { source, inputSha256, description }, completion, outcome, enforcement,
    capability, required, findings, process, evidence, output, payload }
  result.invariants
  sensitive platform result.value
  return result

/-- Validate a bounded transport envelope. -/
def parseOperationResult (input : Input) : Accepted OperationResult := do
  throwIf (input.unpaired = true) .utf8
  throwIf (maxOperationResultBytes < input.toBytes.length) .size
  match parseReviewEvidenceJson platform.double input.toBytes (units "operation-result") with
  | .ok value => validate platform value
  | .error _ => .error .json

/-- The text of a result that is a value of a heap. -/
def serializeOperationResult {ν ρ : Type} (number : ν → Number) (heap : ρ → JsObject ν ρ) (result : JsValue ν ρ) :
    Accepted Units := do
  let value ← snapshot number heap result
  let r ← validate platform value
  let encoded := r.value.stringify
  throwIf (maxOperationResultBytes < byteLength encoded) .size
  return encoded

end PaPlatform.Operations
