/-
  Review objectives and matrices (`validation/review-contract.ts`): fail-first
  parsers over the reader of review evidence.
-/
import PaPlatform.Lib.Pattern
import PaPlatform.Validation.ReviewReader

namespace PaPlatform.Validation.Review

open Js Units Guard

/-! ## Patterns -/

namespace Grammar

open Pattern

def digit : Pattern := unit isDigit

def upper : Pattern := unit (within 'A' 'Z')

def lower : Pattern := unit (within 'a' 'z')

def char (c : Char) : Pattern := unit (· == Js.unit c)

/-- `[0-9a-f]`. -/
def hex : Pattern := anyOf [digit, unit (within 'a' 'f')]

/-- `[A-Za-z0-9.-]`. -/
def label : Pattern := anyOf [unit isAlnum, char '.', char '-']

/-- `[0-9]+\.[0-9]+\.[0-9]+`. -/
def release : Pattern := chain [plus digit, char '.', plus digit, char '.', plus digit]

/-- `[A-Z][A-Z0-9]*-[0-9]+`. -/
def ticket : Pattern := chain [upper, star (anyOf [upper, digit]), char '-', plus digit]

/-- `[a-z][a-z0-9.-]{0,127}`. -/
def decisionName : Pattern := chain [lower, upTo 127 (anyOf [lower, digit, char '.', char '-'])]

/-- `c-[0-9]{17}`. -/
def comment : Pattern := chain [word "c-", exactly 17 digit]

def matrixApproval : Pattern :=
  alt comment (chain [word "workflow-decision:", decisionName, char ':', decisionName, char ':', exactly 64 hex])

def authorization : Pattern :=
  chain [word "review-auth:", exactly 8 hex, char '-', exactly 4 hex, char '-', char '4', exactly 3 hex, char '-',
    anyOf [char '8', char '9', char 'a', char 'b'], exactly 3 hex, char '-', exactly 12 hex]

/-- A branch of a ticket: letters, digits, dots, underscores, slashes and hyphens. -/
def branch : Pattern :=
  chain [word "feature/", ticket, char '-', unit isAlnum,
    star (anyOf [unit isAlnum, char '.', char '_', char '/', char '-'])]

/-- `[a-z][a-z0-9-]*`. -/
def platformName : Pattern := chain [lower, star (anyOf [lower, digit, char '-'])]

/-- `[a-z0-9][a-z0-9-]*`. -/
def repositoryKey : Pattern := chain [anyOf [lower, digit], star (anyOf [lower, digit, char '-'])]

/-- `(?:@[a-z0-9._-]+\/)?[a-z0-9][a-z0-9._-]*`. -/
def dependencyName : Pattern :=
  chain [opt (chain [char '@', plus (anyOf [lower, digit, char '.', char '_', char '-']), char '/']),
    anyOf [lower, digit], star (anyOf [lower, digit, char '.', char '_', char '-'])]

def dependencyVersion : Pattern :=
  chain [release, opt (seq (char '-') (plus label)), opt (seq (char '+') (plus label))]

end Grammar

open Grammar

/-- `SHA`. -/
def isSha : Units → Bool := isHex 40

/-- `DIGEST`. -/
def isDigest : Units → Bool := isHex 64

/-- A unit that `.` matches. -/
def isDot (u : UInt16) : Bool := !(u == 0x0a || u == 0x0d || u == 0x2028 || u == 0x2029)

/-- `TICKET`: a ticket of at most 64 units. -/
def isTicket (s : Units) : Bool := 1 ≤ s.length && s.length ≤ 64 && s.all isDot && Grammar.ticket.full s

inductive ReviewTool where
  | node | npm | pnpm | corepack | pi | git | bash | nix
  deriving DecidableEq

def ReviewTool.text : ReviewTool → String
  | node => "node"
  | npm => "npm"
  | pnpm => "pnpm"
  | corepack => "corepack"
  | pi => "pi"
  | git => "git"
  | bash => "bash"
  | nix => "nix"

def reviewTools : List ReviewTool := [.node, .npm, .pnpm, .corepack, .pi, .git, .bash, .nix]

/-- `TOOL_VERSION[tool]`. -/
def toolVersion : ReviewTool → Pattern
  | .node => .chain [char 'v', release, .opt (.seq (char '-') (.plus label))]
  | .git => .chain [.word "git version ", release, .opt (.seq (.anyOf [char '.', char '-']) (.plus label))]
  | .bash => .chain [.word "GNU bash, version ", release, .star (.unit fun u => !(u == 0x0a || u == 0x0d))]
  | .nix => .chain [.word "nix (Nix) ", release, .opt (.seq (.anyOf [char '.', char '-']) (.plus label))]
  | .npm | .pnpm | .corepack | .pi => .chain [release, .opt (.seq (char '-') (.plus label))]

/-! ## Data -/

inductive ReviewProfile where
  | nodePnpm | npmSubprojects | nonNodeNix
  deriving DecidableEq

def ReviewProfile.text : ReviewProfile → String
  | nodePnpm => "node-pnpm/v1"
  | npmSubprojects => "npm-subprojects/v1"
  | nonNodeNix => "non-node-nix/v1"

def reviewProfiles : List ReviewProfile := [.nodePnpm, .npmSubprojects, .nonNodeNix]

inductive ReviewPrerequisite where
  | platform (os arch : Units)
  | tool (name : ReviewTool) (version : Units)
  | dependency (root name version : Units)
  | operatorGate (id ticket : Units)
  deriving DecidableEq

/-- Without the constant `schemaVersion`. -/
structure ReviewObjective where
  ticket : Units
  branch : Units
  featureSha : Units
  matrixSource : Units
  matrixAuthoritySha256 : Units
  matrixApprovalEvidence : Units
  reviewAuthorizationId : Units
  prerequisiteEvidence : List (Units × Units)
  deriving DecidableEq

structure ReviewRepository where
  key : Units
  root : Units
  baseSha : Units
  branch : Units
  deriving DecidableEq

structure ReviewCommand where
  id : Units
  command : Units
  cwd : Units
  timeoutSeconds : ℤ
  maxOutputBytes : ℤ
  deriving DecidableEq

inductive EnvironmentValue where
  | binding (value : Units)
  | literal (value : Units)
  deriving DecidableEq

/-- Without `schemaVersion` and `passCriteria`, which are constants. -/
structure ReviewMatrix where
  source : Units
  repository : ReviewRepository
  profile : ReviewProfile
  prerequisites : List ReviewPrerequisite
  environment : List (String × EnvironmentValue)
  commands : List ReviewCommand
  commandCount : ℤ
  outputs : List Units
  deriving DecidableEq

def reviewObjectiveSchemaVersion : String := "pa-review-objective/v1"

def reviewMatrixSchemaVersion : String := "pa-review-matrix/v1"

def maxReviewCommands : ℕ := 1000

def reviewSourcePrefix : String := "requirements:agent-teams/requirements/artifacts/"

/-! ## Fields -/

abbrev Row := List (Units × Value)

/-- `object(input, path)`. -/
def object (input : Option Value) (path : Units) : Reviewed Row :=
  match input with
  | some (.obj row) => .ok row
  | _ => fail .field path "must be an object"

/-- `if (Object.keys(row).some((key) => !keys.includes(key)))`. -/
def hasUnknown (row : Row) (keys : List String) : Bool := row.any fun f => !(keys.map units).contains f.1

/-- `object(input, path, keys)`. -/
def objectOf (input : Option Value) (path : Units) (keys : List String) : Reviewed Row := do
  let row ← object input path
  match keys.find? fun key => (own row key).isNone with
  | some key => fail .field (dot path key) "required field is missing"
  | none =>
    failIf (hasUnknown row keys = true) .field path "contains an unknown field"
    return row

/-- `s === s.trim()`. -/
def trimmed (s : Units) : Bool := !(s.head?.any Units.isSpace) && !(s.getLast?.any Units.isSpace)

def str (input : Option Value) (path : Units) (pattern : Units → Bool) (max : ℕ) : Reviewed Units :=
  match input with
  | some (.str s) => do
    failIf (s.length < 1 ∨ max < s.length ∨ s.contains 0 = true) .field path
      "must be a nonempty bounded string without NUL"
    failIf (trimmed s = false ∨ pattern s = false) .field path "does not match the exact field grammar"
    return s
  | _ => fail .field path "must be a nonempty bounded string without NUL"

/-- `str(input, path)`. -/
def strAny (input : Option Value) (path : Units) : Reviewed Units := str input path (fun _ => true) 4096

/-- `str(input, path, pattern)`. -/
def strOf (input : Option Value) (path : Units) (pattern : Units → Bool) : Reviewed Units :=
  str input path pattern 4096

def integer (input : Option Value) (path : Units) (min max : ℕ) : Reviewed ℤ :=
  match input with
  | some (.num (.int n)) =>
    if n < min ∨ max < n then fail .field path s!"must be an integer in [{min},{max}]" else .ok n
  | _ => fail .field path s!"must be an integer in [{min},{max}]"

/-- `input === expected`, for a literal. -/
def isLiteral (input : Option Value) (expected : Value) : Bool :=
  match input, expected with
  | some (.str s), .str t => s == t
  | some (.num m), .num n => m == n
  | some (.bool b), .bool c => b == c
  | _, _ => false

def literal (input : Option Value) (path : Units) (expected : Value) : Reviewed Unit :=
  failIf (isLiteral input expected = false) .field path "must equal the required contract literal"

def version (input : Option Value) (path : Units) (expected : String) : Reviewed Unit := do
  failIf (input.isNone = true) .legacyMigration path "legacy unversioned authority requires explicit migration"
  failIf (isLiteral input (.str (units expected)) = false) .version path "schema version is unsupported"

def relativePath (input : Option Value) (path : Units) : Reviewed Units := do
  let s ← strAny input path
  if s = units "." then return s
  else do
    failIf (s.head? = some (unit '/') ∨ s.contains (unit '\\') = true ∨ s.contains (unit ':') = true ∨
        (split s '/').any (fun part => part == [] || part == units "." || part == units "..") = true) .source path
      "must be one contained relative path without aliases or traversal"
    return s

/-- The names of a path after the names before it. -/
def resolveNames (names : List Units) : List Units → List Units
  | [] => names
  | name :: rest =>
    if name = [] ∨ name = units "." then resolveNames names rest
    else if name = units ".." then resolveNames names.dropLast rest
    else resolveNames (names ++ [name]) rest

/-- `resolve(s)`, for a path that begins with a slash. -/
def resolve (s : Units) : Units := unit '/' :: [unit '/'].intercalate (resolveNames [] (split s '/'))

def absolutePath (input : Option Value) (path : Units) : Reviewed Units := do
  let s ← strAny input path
  failIf (s.head? ≠ some (unit '/') ∨ s.contains (unit '\\') = true ∨ resolve s ≠ s) .source path
    "must be an exact absolute path without aliases"
  return s

/-- `` !s.startsWith(`feature/${ticket}-`) ``, for a ticket that is known. -/
def otherTicket (ticket : Option Units) (s : Units) : Bool :=
  match ticket with
  | some t => !(units "feature/" ++ t ++ [unit '-']).isPrefixOf s
  | none => false

def branch (input : Option Value) (path : Units) (ticket : Option Units) : Reviewed Units := do
  let s ← str input path (fun _ => true) 512
  failIf (Grammar.branch.full s = false ∨ includes s (units "..") = true ∨ includes s (units "//") = true ∨
      s.getLast? = some (unit '/') ∨
      (split s '/').any (fun part => part.getLast? == some (unit '.') || (units ".lock").isSuffixOf part) = true ∨
      otherTicket ticket s = true) .field path "must be an exact ticket-linked feature branch"
  return s

def matrixSourceAt (input : Option Value) (path : Units) : Reviewed Units := do
  let s ← str input path (fun _ => true) 2048
  failIf ((units "requirements:").isPrefixOf s = false) .legacyMigration path
    "bare or generic doc-ref sources are not protected requirements authority"
  failIf ((units reviewSourcePrefix).isPrefixOf s = false ∨ (units ".md").isSuffixOf s = false) .source path
    "requires the exact requirements artifact prefix and Markdown extension"
  let _ ← relativePath (some (.str (s.drop (units "requirements:").length))) path
  return s

def parseReviewMatrixSource (input : Option Value) : Reviewed Units := matrixSourceAt input (units "matrixSource")

def list (input : Option Value) (path : Units) (max : ℕ) : Reviewed (List Value) :=
  match input with
  | some (.arr items) => do
    failIf (max < items.length) .field path s!"must be an array of at most {max} entries"
    return items
  | _ => fail .field path s!"must be an array of at most {max} entries"

/-- `input.map((v, i) => f(v, i))`, from an index. -/
def mapEach {α β : Type} (f : ℕ → α → Reviewed β) : ℕ → List α → Reviewed (List β)
  | _, [] => .ok []
  | index, a :: rest => do
    let b ← f index a
    let bs ← mapEach f (index + 1) rest
    return b :: bs

/-- `row[key] = x`, for an object without a prototype. -/
def setOwn {α : Type} (key : Units) (x : α) (row : List (Units × α)) : List (Units × α) :=
  if row.any (·.1 == key) then row.map fun f => if f.1 = key then (key, x) else f
  else row.takeWhile (fun f => !Value.after key f.1) ++ (key, x) :: row.dropWhile fun f => !Value.after key f.1

/-! ## The objective -/

def objectiveFields : List String :=
  ["schemaVersion", "ticket", "branch", "featureSha", "matrixSource", "matrixAuthoritySha256",
    "matrixApprovalEvidence", "reviewAuthorizationId", "prerequisiteEvidence"]

def objective (name : String) : Units := dot (units "objective") name

/-- `objective.prerequisiteEvidence[index].name`. -/
def evidencePath (index : ℕ) (name : String) : Units := dot (item (objective "prerequisiteEvidence") index) name

/-- The entries of an object, sorted by their keys. -/
def sortedEntries (row : Row) : Row := Value.sortFields Value.unitsLe row

def parseEvidence : ℕ → List (Units × Units) → Row → Reviewed (List (Units × Units))
  | _, evidence, [] => .ok evidence
  | index, evidence, (key, v) :: rest => do
    let _ ← strOf (some (.str key)) (evidencePath index "id") isCommandId
    let comment ← strOf (some v) (evidencePath index "commentId") Grammar.comment.full
    parseEvidence (index + 1) (setOwn key comment evidence) rest

section

variable (double : Units → Number)

def parseReviewObjective (input : Input) : Reviewed ReviewObjective := do
  let root ← json double input maxReviewObjectiveBytes (units "objective")
  let r ← object (some root) (units "objective")
  version (own r "schemaVersion") (objective "schemaVersion") reviewObjectiveSchemaVersion
  let _ ← objectOf (some (.obj r)) (units "objective") objectiveFields
  let ticket ← strOf (own r "ticket") (objective "ticket") isTicket
  let evidence ← object (own r "prerequisiteEvidence") (objective "prerequisiteEvidence")
  let prerequisiteEvidence ← parseEvidence 0 [] (sortedEntries evidence)
  let branch ← branch (own r "branch") (objective "branch") (some ticket)
  let featureSha ← strOf (own r "featureSha") (objective "featureSha") isSha
  let matrixSource ← matrixSourceAt (own r "matrixSource") (objective "matrixSource")
  let matrixAuthoritySha256 ← strOf (own r "matrixAuthoritySha256") (objective "matrixAuthoritySha256") isDigest
  let matrixApprovalEvidence ← strOf (own r "matrixApprovalEvidence") (objective "matrixApprovalEvidence")
    Grammar.matrixApproval.full
  let reviewAuthorizationId ← strOf (own r "reviewAuthorizationId") (objective "reviewAuthorizationId")
    Grammar.authorization.full
  return { ticket, branch, featureSha, matrixSource, matrixAuthoritySha256, matrixApprovalEvidence,
           reviewAuthorizationId, prerequisiteEvidence }

end

/-! ## The matrix -/

def matrixFields : List String :=
  ["schemaVersion", "source", "repository", "profile", "prerequisites", "environment", "commands", "commandCount",
    "outputs", "passCriteria"]

def matrix (name : String) : Units := dot (units "matrix") name

/-- A member of an enumeration. -/
def memberOf {α : Type} (members : List α) (text : α → String) (input : Option Value) : Option α :=
  members.find? fun a => isLiteral input (.str (units (text a)))

def parseReviewPrerequisite (index : ℕ) (input : Value) : Reviewed ReviewPrerequisite := do
  let p := item (matrix "prerequisites") index
  let r ← object (some input) p
  if isLiteral (own r "kind") (.str (units "platform")) then do
    let _ ← objectOf (some (.obj r)) p ["kind", "os", "arch"]
    let os ← strOf (own r "os") (dot p "os") platformName.full
    let arch ← strOf (own r "arch") (dot p "arch") platformName.full
    return .platform os arch
  else if isLiteral (own r "kind") (.str (units "tool")) then do
    let _ ← objectOf (some (.obj r)) p ["kind", "name", "version"]
    match memberOf reviewTools ReviewTool.text (own r "name") with
    | none => fail .profile (dot p "name") "tool is unsupported; no probe may be guessed"
    | some name =>
      let version ← strOf (own r "version") (dot p "version") (toolVersion name).full
      return .tool name version
  else if isLiteral (own r "kind") (.str (units "dependency")) then do
    let _ ← objectOf (some (.obj r)) p ["kind", "root", "name", "version"]
    let root ← relativePath (own r "root") (dot p "root")
    let name ← strOf (own r "name") (dot p "name") dependencyName.full
    let version ← strOf (own r "version") (dot p "version") dependencyVersion.full
    return .dependency root name version
  else if isLiteral (own r "kind") (.str (units "operatorGate")) then do
    let _ ← objectOf (some (.obj r)) p ["kind", "id", "ticket"]
    let id ← strOf (own r "id") (dot p "id") isCommandId
    let ticket ← strOf (own r "ticket") (dot p "ticket") isTicket
    return .operatorGate id ticket
  else fail .profile (dot p "kind") "prerequisite kind is unsupported"

def ReviewPrerequisite.identity : ReviewPrerequisite → Units
  | tool name _ => units "tool:" ++ units name.text
  | dependency root name _ => units "dependency:" ++ root ++ unit ':' :: name
  | operatorGate id _ => units "gate:" ++ id
  | platform _ _ => units "platform"

def ReviewPrerequisite.toolName : ReviewPrerequisite → Option ReviewTool
  | tool name _ => some name
  | _ => none

def ReviewProfile.required : ReviewProfile → List ReviewTool
  | nodePnpm => [.node, .corepack, .pnpm]
  | npmSubprojects => [.node, .npm]
  | nonNodeNix => [.nix]

/-- A dependency or a tool of Node. -/
def ReviewPrerequisite.isNode : ReviewPrerequisite → Bool
  | dependency _ _ _ => true
  | tool name _ => [ReviewTool.node, .corepack, .pnpm, .npm].contains name
  | _ => false

def repositoryFields : List String := ["key", "root", "baseSha", "branch"]

/-- `matrix.repository.name`. -/
def repositoryPath (name : String) : Units := dot (matrix "repository") name

def parseReviewRepository (input : Option Value) : Reviewed ReviewRepository := do
  let repo ← objectOf input (matrix "repository") repositoryFields
  let key ← strOf (own repo "key") (repositoryPath "key") repositoryKey.full
  let root ← absolutePath (own repo "root") (repositoryPath "root")
  let baseSha ← strOf (own repo "baseSha") (repositoryPath "baseSha") isSha
  let branch ← branch (own repo "branch") (repositoryPath "branch") none
  return { key, root, baseSha, branch }

/-- The prerequisites, checked against the profile. -/
def parsePrerequisites (profile : ReviewProfile) (input : Option Value) : Reviewed (List ReviewPrerequisite) := do
  let items ← list input (matrix "prerequisites") 1000
  let prerequisites ← mapEach parseReviewPrerequisite 0 items
  let identities := prerequisites.map ReviewPrerequisite.identity
  failIf (identities.dedup.length ≠ identities.length) .field (matrix "prerequisites")
    "prerequisite identities must be unique"
  let tools := prerequisites.filterMap ReviewPrerequisite.toolName
  failIf (identities.contains (units "platform") = false ∨
      profile.required.any (fun tool => !tools.contains tool) = true) .profile (matrix "prerequisites")
    "profile requires one platform and its declared exact tool versions"
  failIf (profile = .nonNodeNix ∧ prerequisites.any ReviewPrerequisite.isNode = true) .profile (matrix "prerequisites")
    "non-Node profile must not invent Node dependencies or tool requirements"
  return prerequisites

def environmentFields : List String := reviewEnvironmentBindings.map (·.1) ++ reviewLiteralEnvironmentNames

/-- `matrix.environment.name`. -/
def environmentPath (name : String) : Units := dot (matrix "environment") name

def parseBinding (env : Row) (name binding : String) : Reviewed (String × EnvironmentValue) := do
  let v ← objectOf (own env name) (environmentPath name) ["binding"]
  literal (own v "binding") (dot (environmentPath name) "binding") (.str (units binding))
  return (name, .binding (units binding))

def parseLiteral (env : Row) (pattern : Units → Bool) (name : String) : Reviewed (String × EnvironmentValue) := do
  let v ← objectOf (own env name) (environmentPath name) ["literal"]
  let value ← strOf (own v "literal") (dot (environmentPath name) "literal") pattern
  return (name, .literal value)

/-- The text of a literal. -/
def literalText (environment : List (String × EnvironmentValue)) (name : String) : Option Value :=
  match environment.lookup name with
  | some (.literal value) => some (.str value)
  | _ => none

def parseEnvironment (input : Option Value) : Reviewed (List (String × EnvironmentValue)) := do
  let env ← objectOf input (matrix "environment") environmentFields
  let bindings ← mapEach (fun _ b => parseBinding env b.1 b.2) 0 reviewEnvironmentBindings
  let literals ← mapEach (fun _ name => parseLiteral env (fun _ => true) name) 0 reviewLiteralEnvironmentNames
  let _ ← strOf (literalText (bindings ++ literals) "PA_TICKET_ID") (dot (environmentPath "PA_TICKET_ID") "literal")
    isTicket
  return bindings ++ literals

/-- The check of a command's text. -/
def commandText (input : Option Value) (path : Units) : Reviewed Units :=
  match input with
  | some (.str s) => do
    failIf (blank s = true ∨ s.contains 0 = true ∨ includes s (units "review-auth:") = true) .field path
      "must be nonempty shell text without NUL or protected review authorization"
    return s
  | _ => fail .field path "must be nonempty shell text without NUL or protected review authorization"

def commandFields : List String := ["id", "command", "cwd", "timeoutSeconds", "maxOutputBytes"]

/-- `matrix.commands[index]`. -/
def commandPath (index : ℕ) : Units := item (matrix "commands") index

def parseReviewCommand (index : ℕ) (input : Value) : Reviewed ReviewCommand := do
  let cp := commandPath index
  let c ← objectOf (some input) cp commandFields
  let command ← commandText (own c "command") (dot cp "command")
  let id ← strOf (own c "id") (dot cp "id") isCommandId
  let cwd ← relativePath (own c "cwd") (dot cp "cwd")
  let timeoutSeconds ← integer (own c "timeoutSeconds") (dot cp "timeoutSeconds") minTimeoutSeconds maxTimeoutSeconds
  let maxOutputBytes ← integer (own c "maxOutputBytes") (dot cp "maxOutputBytes") minOutputBytes maxOutputBytes
  return { id, command, cwd, timeoutSeconds, maxOutputBytes }

def parseCommands (input : Option Value) : Reviewed (List ReviewCommand) := do
  let items ← list input (matrix "commands") maxReviewCommands
  let commands ← mapEach parseReviewCommand 0 items
  failIf (commands = [] ∨ (commands.map (·.id)).dedup.length ≠ commands.length) .field (matrix "commands")
    "requires 1–1000 commands with unique ordered IDs"
  return commands

/-- An output that does not describe its command. -/
def isForeignOutput (output : Units) (command : ReviewCommand) : Bool :=
  !(command.id ++ units ": ").isPrefixOf output || output.length ≤ command.id.length + 2

/-- `matrix.outputs[index]`. -/
def outputPath (index : ℕ) : Units := item (matrix "outputs") index

def parseOutputs (commands : List ReviewCommand) (input : Option Value) : Reviewed (List Units) := do
  let items ← list input (matrix "outputs") 1000
  let outputs ← mapEach (fun i v => strAny (some v) (outputPath i)) 0 items
  failIf (outputs.length ≠ commands.length ∨
      (outputs.zip commands).any (fun p => isForeignOutput p.1 p.2) = true) .field (matrix "outputs")
    "requires one nonempty output description per ordered command ID"
  return outputs

/-- The pass criteria, in their order. -/
def passCriteria : List (String × Value) :=
  [("completionPercent", .num (.int 100)), ("exitCode", .num (.int 0)), ("critical", .num (.int 0)),
    ("major", .num (.int 0)), ("minorRationaleRequired", .bool true)]

/-- `matrix.passCriteria.name`. -/
def criterion (pc : Row) (c : String × Value) : Reviewed Unit :=
  literal (own pc c.1) (dot (matrix "passCriteria") c.1) c.2

def parsePassCriteria (input : Option Value) : Reviewed Unit := do
  let pc ← objectOf input (matrix "passCriteria") (passCriteria.map (·.1))
  let _ ← mapEach (fun _ c => criterion pc c) 0 passCriteria

section

variable (double : Units → Number)

def parseReviewMatrix (input : Input) : Reviewed ReviewMatrix := do
  let root ← json double input maxReviewArtifactBytes (units "matrix")
  let r ← object (some root) (units "matrix")
  version (own r "schemaVersion") (matrix "schemaVersion") reviewMatrixSchemaVersion
  let _ ← objectOf (some (.obj r)) (units "matrix") matrixFields
  let source ← matrixSourceAt (own r "source") (matrix "source")
  let repository ← parseReviewRepository (own r "repository")
  match memberOf reviewProfiles ReviewProfile.text (own r "profile") with
  | none => fail .profile (matrix "profile") "profile version is unsupported"
  | some profile => do
    let prerequisites ← parsePrerequisites profile (own r "prerequisites")
    let environment ← parseEnvironment (own r "environment")
    let commands ← parseCommands (own r "commands")
    let commandCount ← integer (own r "commandCount") (matrix "commandCount") 1 maxReviewCommands
    failIf (commandCount ≠ commands.length) .field (matrix "commandCount")
      "must equal the complete ordered command array length"
    let outputs ← parseOutputs commands (own r "outputs")
    parsePassCriteria (own r "passCriteria")
    return { source, repository, profile, prerequisites, environment, commands, commandCount, outputs }

end

end PaPlatform.Validation.Review
