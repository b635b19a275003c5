/-
  The handoff of a validation run (`validation/schema.ts`): a value of untrusted
  JSON is rebuilt field by field, its manifest is hashed in a canonical form, and
  it is compared with the values of the launcher.

  The hash and the order of strings by locale are parameters.
-/
import PaPlatform.Lib.Guard
import PaPlatform.Lib.JsonSame

namespace PaPlatform.Validation

open Js Units Guard

/-! ## Diagnostics -/

structure ValidationDiagnostic where
  condition : Units
  source : Units
  reason : Units
  correction : Units
  resumeAction : Units
  deriving DecidableEq

def validationDiagnostic (source reason : Units) : ValidationDiagnostic where
  condition := units "validation preflight rejected"
  source := source
  reason := reason
  correction := units ("Provide a strict handoff whose complete bindings, paths, limits, environment, " ++
    "and safety decisions agree with trusted authority.")
  resumeAction := units "Create a new authorized run; do not retry or resume this handoff."

abbrev Checked (α : Type) := Except ValidationDiagnostic α

def fail {α : Type} (source reason : Units) : Checked α := .error (validationDiagnostic source reason)

/-- `if (p) fail(source, reason)`. -/
def failIf (p : Prop) [Decidable p] (source : Units) (reason : String) : Checked Unit :=
  throwIf p (validationDiagnostic source (units reason))

/-! ## Data -/

structure ValidationRepositoryBinding where
  repoKey : Units
  canonicalRoot : Units
  worktreeRoot : Units
  deriving DecidableEq

structure ValidationMatrixBinding where
  source : Units
  authoritySha256 : Units
  approvalEvidence : Units
  deriving DecidableEq

structure ValidationArtifactSpec where
  path : Units
  expectedSha256 : Option Units
  deriving DecidableEq

structure ValidationCommandSpec where
  id : Units
  command : Units
  cwd : Units
  timeoutSeconds : ℤ
  maxOutputBytes : ℤ
  artifacts : List ValidationArtifactSpec
  deriving DecidableEq

/-- A plain object from names to strings, in the order of its properties. -/
abbrev Environment := List (Units × Units)

structure ValidationManifest where
  ticketId : Units
  branch : Units
  featureSha : Units
  matrix : ValidationMatrixBinding
  repository : ValidationRepositoryBinding
  environment : Environment
  commands : List ValidationCommandSpec
  deriving DecidableEq

structure AuthenticatedRepositoryEvidence extends ValidationRepositoryBinding where
  ticketId : Units
  branch : Units
  featureSha : Units
  deriving DecidableEq

structure ValidationHandoff where
  manifestSha256 : Units
  manifest : ValidationManifest
  repositoryEvidence : AuthenticatedRepositoryEvidence
  protectedEnvironment : Environment
  deriving DecidableEq

structure ValidationAuthorityBinding where
  ticketId : Units
  branch : Units
  featureSha : Units
  matrixSource : Units
  matrixAuthoritySha256 : Units
  matrixApprovalEvidence : Units
  repository : ValidationRepositoryBinding
  protectedEnvironment : Environment

def manifestSchemaVersion : String := "pa-validation-manifest/v1"

def handoffSchemaVersion : String := "pa-validation-handoff/v1"

def minTimeoutSeconds : ℕ := 1

def maxTimeoutSeconds : ℕ := 1800

def minOutputBytes : ℕ := 1048576

def maxOutputBytes : ℕ := 1073741824

/-! ## Checks -/

/-- `/^[0-9a-f]{length}$/`. -/
def isHex (length : ℕ) (s : Units) : Bool :=
  s.length == length && s.all fun u => Units.isDigit u || within 'a' 'f' u

/-- `ENVIRONMENT_NAME.test(name)`. -/
def isEnvironmentName : Units → Bool
  | [] => false
  | u :: rest =>
    (within 'A' 'Z' u || within 'a' 'z' u || u == unit '_') && rest.all fun u => Units.isAlnum u || u == unit '_'

/-- `COMMAND_ID.test(id)`. -/
def isCommandId : Units → Bool
  | [] => false
  | u :: rest => Units.isAlnum u && rest.length ≤ 127 &&
    rest.all fun u => Units.isAlnum u || u == unit '.' || u == unit '_' || u == unit '-'

/-- An own property of an object. -/
def own (fields : List (Units × Value)) (k : String) : Option Value := fields.lookup (units k)

def objectAt (input : Option Value) (path : Units) (keys optional : List String) :
    Checked (List (Units × Value)) :=
  match input with
  | some (.obj fields) =>
    match (fields.map (·.1)).find? fun k => !(keys.map units).contains k with
    | some k => fail path (units "contains unknown field " ++ k)
    | none =>
      match keys.find? fun k => !optional.contains k && (own fields k).isNone with
      | some k => fail path (units ("is missing field " ++ k))
      | none => .ok fields
  | _ => fail path (units "must be an object")

def arrayAt (input : Option Value) (path : Units) : Checked (List Value) :=
  match input with
  | some (.arr items) => .ok items
  | _ => fail path (units "must be an array")

def stringAt (input : Option Value) (path : Units) : Checked Units :=
  match input with
  | some (.str s) => .ok s
  | _ => fail path (units "must be a string")

/-- `[minimum,maximum]`. -/
def interval (minimum maximum : ℕ) : Units :=
  unit '[' :: (decimal minimum ++ unit ',' :: (decimal maximum ++ [unit ']']))

def boundedStringAt (input : Option Value) (path : Units) (minimum maximum : ℕ) : Checked Units := do
  let value ← stringAt input path
  throwIf (value.length < minimum ∨ maximum < value.length)
    (validationDiagnostic path (units "length must be in " ++ interval minimum maximum))
  failIf (value.contains 0) path "must not contain NUL"
  return value

def absolutePathAt (input : Option Value) (path : Units) : Checked Units := do
  let value ← boundedStringAt input path 1 4096
  failIf (value.head? ≠ some (unit '/')) path "must be an absolute path"
  failIf (value.contains 0) path "must not contain NUL"
  return value

def sha256At (input : Option Value) (path : Units) : Checked Units := do
  let value ← stringAt input path
  failIf (isHex 64 value = false) path "must be 64 lowercase hexadecimal characters"
  return value

def integerAt (input : Option Value) (path : Units) (minimum maximum : ℕ) : Checked ℤ :=
  match input with
  | some (.num (.int n)) =>
    if n < minimum ∨ maximum < n then fail path (units "must be an integer in " ++ interval minimum maximum)
    else .ok n
  | _ => fail path (units "must be an integer in " ++ interval minimum maximum)

def literalAt (input : Option Value) (expected : String) (path : Units) : Checked Unit :=
  match input with
  | some (.str s) => failIf (s ≠ units expected) path ("must equal " ++ expected)
  | _ => fail path (units ("must equal " ++ expected))

/-- `if (input !== true) fail(path, "must be true")`. -/
def trueAt (input : Option Value) (path : Units) : Checked Unit :=
  match input with
  | some (.bool true) => .ok ()
  | _ => fail path (units "must be true")

/-- The one name that has a setter on `Object.prototype`. -/
def proto : Units := units "__proto__"

/-- `result[name] = value`, on a plain object and for a name that is no array index:
    the setter of `__proto__` ignores a string. -/
def assign (result : Environment) (name value : Units) : Environment :=
  if name = proto then result
  else if result.any (·.1 == name) then result.map fun e => if e.1 = name then (name, value) else e
  else result ++ [(name, value)]

def stringMapFrom (path : Units) (result : Environment) : List (Units × Value) → Checked Environment
  | [] => .ok result
  | (name, rawValue) :: entries => do
    failIf (isEnvironmentName name = false) (path ++ unit '.' :: name) "has an invalid environment variable name"
    let value ← stringAt (some rawValue) (path ++ unit '.' :: name)
    failIf (value.contains 0) (path ++ unit '.' :: name) "must not contain NUL"
    stringMapFrom path (assign result name value) entries

def stringMapAt (input : Option Value) (path : Units) : Checked Environment :=
  match input with
  | some (.obj fields) => stringMapFrom path [] fields
  | _ => fail path (units "must be an object")

/-! ## Parsing -/

/-- `items.map((item, index) => f(item, index))`, from an index. -/
def parseEach {α : Type} (f : ℕ → Value → Checked α) : ℕ → List Value → Checked (List α)
  | _, [] => .ok []
  | index, item :: items => do
    let a ← f index item
    let as ← parseEach f (index + 1) items
    return a :: as

/-- `path[index]`. -/
def item (path : Units) (index : ℕ) : Units := path ++ unit '[' :: (decimal index ++ [unit ']'])

/-- `path.name`. -/
def dot (path : Units) (name : String) : Units := path ++ units ("." ++ name)

def parseMatrix (input : Option Value) : Checked ValidationMatrixBinding := do
  let path := units "manifest.matrix"
  let matrix ← objectAt input path ["source", "authoritySha256", "approvalEvidence"] []
  let source ← boundedStringAt (own matrix "source") (dot path "source") 1 2048
  let authoritySha256 ← sha256At (own matrix "authoritySha256") (dot path "authoritySha256")
  let approvalEvidence ← boundedStringAt (own matrix "approvalEvidence") (dot path "approvalEvidence") 1 2048
  return { source, authoritySha256, approvalEvidence }

def repositoryKeys : List String := ["repoKey", "canonicalRoot", "worktreeRoot"]

def parseRepository (input : Option Value) (path : Units) : Checked ValidationRepositoryBinding := do
  let repository ← objectAt input path repositoryKeys []
  let repoKey ← boundedStringAt (own repository "repoKey") (dot path "repoKey") 1 256
  let canonicalRoot ← absolutePathAt (own repository "canonicalRoot") (dot path "canonicalRoot")
  let worktreeRoot ← absolutePathAt (own repository "worktreeRoot") (dot path "worktreeRoot")
  return { repoKey, canonicalRoot, worktreeRoot }

def parseRepositoryEvidence (input : Option Value) : Checked AuthenticatedRepositoryEvidence := do
  let path := units "handoff.repositoryEvidence"
  let evidence ← objectAt input path
    (repositoryKeys ++ ["ticketId", "branch", "featureSha", "authenticated"]) []
  trueAt (own evidence "authenticated") (dot path "authenticated")
  let featureSha ← stringAt (own evidence "featureSha") (dot path "featureSha")
  failIf (isHex 40 featureSha = false) (dot path "featureSha") "must be 40 lowercase hexadecimal characters"
  let repository ← parseRepository (some (.obj (repositoryKeys.filterMap fun k =>
    (own evidence k).map fun x => (units k, x)))) path
  let ticketId ← boundedStringAt (own evidence "ticketId") (dot path "ticketId") 1 128
  let branch ← boundedStringAt (own evidence "branch") (dot path "branch") 1 512
  return { repository with ticketId, branch, featureSha }

/-- `input === undefined ? undefined : sha256At(input, path)`. -/
def optionalSha256At (input : Option Value) (path : Units) : Checked (Option Units) :=
  match input with
  | none => .ok none
  | some sha => (sha256At (some sha) path).map some

def parseArtifact (path : Units) (index : ℕ) (artifact : Value) : Checked ValidationArtifactSpec := do
  let artifactPath := item (dot path "artifacts") index
  let value ← objectAt (some artifact) artifactPath ["path", "expectedSha256"] ["expectedSha256"]
  let expectedSha256 ← optionalSha256At (own value "expectedSha256") (dot artifactPath "expectedSha256")
  let path ← absolutePathAt (own value "path") (dot artifactPath "path")
  return { path, expectedSha256 }

def parseCommand (index : ℕ) (input : Value) : Checked ValidationCommandSpec := do
  let path := item (units "manifest.commands") index
  let command ← objectAt (some input) path
    ["id", "command", "cwd", "timeoutSeconds", "maxOutputBytes", "artifacts"] []
  let id ← stringAt (own command "id") (dot path "id")
  failIf (isCommandId id = false) (dot path "id") "has invalid characters or length"
  let commandText ← boundedStringAt (own command "command") (dot path "command") 1 1000000
  failIf (commandText.contains 0) (dot path "command") "must not contain NUL"
  let timeoutSeconds ← integerAt (own command "timeoutSeconds") (dot path "timeoutSeconds")
    minTimeoutSeconds maxTimeoutSeconds
  let maxOutputBytes ← integerAt (own command "maxOutputBytes") (dot path "maxOutputBytes")
    minOutputBytes maxOutputBytes
  let rawArtifacts ← arrayAt (own command "artifacts") (dot path "artifacts")
  let artifacts ← parseEach (parseArtifact path) 0 rawArtifacts
  failIf (¬ (artifacts.map (·.path)).Nodup) (dot path "artifacts") "artifact paths must be unique"
  let cwd ← absolutePathAt (own command "cwd") (dot path "cwd")
  return { id, command := commandText, cwd, timeoutSeconds, maxOutputBytes, artifacts }

def parseManifest (input : Option Value) : Checked ValidationManifest := do
  let path := units "manifest"
  let manifest ← objectAt input path
    ["schemaVersion", "ticketId", "branch", "featureSha", "matrix", "repository", "environment", "commands"] []
  literalAt (own manifest "schemaVersion") manifestSchemaVersion (dot path "schemaVersion")
  let ticketId ← boundedStringAt (own manifest "ticketId") (dot path "ticketId") 1 128
  let branch ← boundedStringAt (own manifest "branch") (dot path "branch") 1 512
  let featureSha ← stringAt (own manifest "featureSha") (dot path "featureSha")
  failIf (isHex 40 featureSha = false) (dot path "featureSha") "must be 40 lowercase hexadecimal characters"
  let matrix ← parseMatrix (own manifest "matrix")
  let repository ← parseRepository (own manifest "repository") (dot path "repository")
  let environment ← stringMapAt (own manifest "environment") (dot path "environment")
  failIf (environment = []) (dot path "environment") "must be a complete non-empty environment map"
  let rawCommands ← arrayAt (own manifest "commands") (dot path "commands")
  failIf (rawCommands = []) (dot path "commands") "must contain at least one command"
  failIf (1000 < rawCommands.length) (dot path "commands") "must contain at most 1000 commands"
  let commands ← parseEach parseCommand 0 rawCommands
  failIf (¬ (commands.map (·.id)).Nodup) (dot path "commands") "command ids must be unique"
  return { ticketId, branch, featureSha, matrix, repository, environment, commands }

def parseValidationHandoff (input : Value) : Checked ValidationHandoff := do
  let path := units "handoff"
  let handoff ← objectAt (some input) path
    ["schemaVersion", "manifestSha256", "manifest", "repositoryEvidence", "protectedEnvironment"] []
  literalAt (own handoff "schemaVersion") handoffSchemaVersion (dot path "schemaVersion")
  let manifestSha256 ← sha256At (own handoff "manifestSha256") (dot path "manifestSha256")
  let manifest ← parseManifest (own handoff "manifest")
  let repositoryEvidence ← parseRepositoryEvidence (own handoff "repositoryEvidence")
  let protectedEnvironment ← stringMapAt (own handoff "protectedEnvironment") (dot path "protectedEnvironment")
  failIf (protectedEnvironment = []) (dot path "protectedEnvironment") "must not be empty"
  return { manifestSha256, manifest, repositoryEvidence, protectedEnvironment }

/-! ## Values -/

/-- An object with these fields. -/
def object (fields : List (String × Value)) : Value := .obj (fields.map fun f => (units f.1, f.2))

def ValidationRepositoryBinding.fields (r : ValidationRepositoryBinding) : List (String × Value) :=
  [("repoKey", .str r.repoKey), ("canonicalRoot", .str r.canonicalRoot), ("worktreeRoot", .str r.worktreeRoot)]

def ValidationRepositoryBinding.toValue (r : ValidationRepositoryBinding) : Value := object r.fields

def ValidationMatrixBinding.toValue (m : ValidationMatrixBinding) : Value :=
  object [("source", .str m.source), ("authoritySha256", .str m.authoritySha256),
    ("approvalEvidence", .str m.approvalEvidence)]

def ValidationArtifactSpec.toValue (a : ValidationArtifactSpec) : Value :=
  object (("path", .str a.path) :: a.expectedSha256.toList.map fun sha => ("expectedSha256", .str sha))

def ValidationCommandSpec.toValue (c : ValidationCommandSpec) : Value :=
  object [("id", .str c.id), ("command", .str c.command), ("cwd", .str c.cwd),
    ("timeoutSeconds", .num (.int c.timeoutSeconds)), ("maxOutputBytes", .num (.int c.maxOutputBytes)),
    ("artifacts", .arr (c.artifacts.map ValidationArtifactSpec.toValue))]

def Environment.toValue (e : Environment) : Value := .obj (e.map fun f => (f.1, .str f.2))

def ValidationManifest.toValue (m : ValidationManifest) : Value :=
  object [("schemaVersion", .str (units manifestSchemaVersion)), ("ticketId", .str m.ticketId),
    ("branch", .str m.branch), ("featureSha", .str m.featureSha), ("matrix", m.matrix.toValue),
    ("repository", m.repository.toValue), ("environment", m.environment.toValue),
    ("commands", .arr (m.commands.map ValidationCommandSpec.toValue))]

def AuthenticatedRepositoryEvidence.toValue (e : AuthenticatedRepositoryEvidence) : Value :=
  object (e.fields ++ [("ticketId", .str e.ticketId), ("branch", .str e.branch),
    ("featureSha", .str e.featureSha), ("authenticated", .bool true)])

def ValidationHandoff.toValue (h : ValidationHandoff) : Value :=
  object [("schemaVersion", .str (units handoffSchemaVersion)), ("manifestSha256", .str h.manifestSha256),
    ("manifest", h.manifest.toValue), ("repositoryEvidence", h.repositoryEvidence.toValue),
    ("protectedEnvironment", h.protectedEnvironment.toValue)]

/-! ## The digest -/

/-- `texts.join(",")`. -/
def join (texts : List Units) : Units := [unit ','].intercalate texts

mutual

/-- `canonicalJson`, for the order `le` of `localeCompare`. -/
def canonicalJson (le : Units → Units → Bool) : Value → Units
  | .arr items => unit '[' :: (join (canonicalItems le items) ++ [unit ']'])
  | .obj fields => 0x7b :: (join ((Value.sortFields le (canonicalEntries le fields)).map fun e =>
      Value.quote e.1 ++ unit ':' :: e.2) ++ [0x7d])
  | v => v.stringify

def canonicalItems (le : Units → Units → Bool) : List Value → List Units
  | [] => []
  | x :: xs => canonicalJson le x :: canonicalItems le xs

/-- The entries of an object, each with the text of its value. -/
def canonicalEntries (le : Units → Units → Bool) : List (Units × Value) → List (Units × Units)
  | [] => []
  | (k, x) :: fs => (k, canonicalJson le x) :: canonicalEntries le fs

end

section
variable (le : Units → Units → Bool) (sha256 : Bytes → Units)

/-- What is hashed for a manifest. -/
def digestInput (manifest : ValidationManifest) : Bytes := encodeUtf8 (canonicalJson le manifest.toValue)

def digestValidationManifest (manifest : ValidationManifest) : Units := sha256 (digestInput le manifest)

/-! ## Authority -/

/-- `equal`. -/
def equal (actual expected : Units) (path : String) : Checked Unit :=
  failIf (actual ≠ expected) (units path) "does not match trusted authority"

def equalRepository (actual expected : ValidationRepositoryBinding) (path : String) : Checked Unit := do
  equal actual.repoKey expected.repoKey (path ++ ".repoKey")
  equal actual.canonicalRoot expected.canonicalRoot (path ++ ".canonicalRoot")
  equal actual.worktreeRoot expected.worktreeRoot (path ++ ".worktreeRoot")

def mapsEqual (left right : Environment) : Bool :=
  let leftKeys := (left.map (·.1)).mergeSort Value.unitsLe
  let rightKeys := (right.map (·.1)).mergeSort Value.unitsLe
  leftKeys.length == rightKeys.length &&
    (leftKeys.zip rightKeys).all fun k => k.1 == k.2 && left.lookup k.1 == right.lookup k.1

/-- The protected names, each of which the manifest has with the same value. -/
def protect (environment : Environment) : Environment → Checked Unit
  | [] => .ok ()
  | (name, value) :: entries => do
    failIf (environment.lookup name ≠ some value) (units "manifest.environment." ++ name)
      "cannot omit or override protected identity"
    protect environment entries

def assertValidationAuthority (handoff : ValidationHandoff) (expected : ValidationAuthorityBinding) :
    Checked Unit := do
  let manifest := handoff.manifest
  equal manifest.ticketId expected.ticketId "authority.ticketId"
  equal manifest.branch expected.branch "authority.branch"
  equal manifest.featureSha expected.featureSha "authority.featureSha"
  equal manifest.matrix.source expected.matrixSource "authority.matrixSource"
  equal manifest.matrix.authoritySha256 expected.matrixAuthoritySha256 "authority.matrixAuthoritySha256"
  equal manifest.matrix.approvalEvidence expected.matrixApprovalEvidence "authority.matrixApprovalEvidence"
  equalRepository manifest.repository expected.repository "authority.repository"
  let evidence := handoff.repositoryEvidence
  equalRepository evidence.toValidationRepositoryBinding expected.repository "repositoryEvidence"
  equal evidence.ticketId expected.ticketId "repositoryEvidence.ticketId"
  equal evidence.branch expected.branch "repositoryEvidence.branch"
  equal evidence.featureSha expected.featureSha "repositoryEvidence.featureSha"
  failIf (digestValidationManifest le sha256 manifest ≠ handoff.manifestSha256) (units "handoff.manifestSha256")
    "does not bind the complete canonical manifest"
  failIf (mapsEqual handoff.protectedEnvironment expected.protectedEnvironment = false)
    (units "handoff.protectedEnvironment") "does not exactly match trusted protected identity"
  protect manifest.environment expected.protectedEnvironment

end

end PaPlatform.Validation
