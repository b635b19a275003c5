/-
  Review bundles, evidence references and retained resources: the contracts of
  `workflows/contracts.ts` and `parseWorkflowResources` of `workflows/resources.ts`.
-/
import PaPlatform.Deploy.Correlation
import PaPlatform.Workflow.Definition

namespace PaPlatform.Workflow

open Js

/-- A list without repetitions. -/
abbrev Distinct (α : Type) := {l : List α // l.Nodup}

/-- `unique(array(value, parse))`. -/
def distinct {α : Type} [DecidableEq α] (parse : Json → Option α) (value : Json) : Option (Distinct α) := do
  let values ← array parse 256 value
  if h : values.Nodup then return ⟨values, h⟩ else none

/-! ## References -/

structure EvidenceRef where
  ref : String
  version : String
  sha256 : String
  deriving DecidableEq

/-- `text(value, SHA256)`. -/
def shaText : Json → Option String := text (hexOk 64) 4096

/-- `text(value, GIT_SHA)`. -/
def gitShaText : Json → Option String := text (hexOk 40) 4096

def evidenceRef (value : Json) : Option EvidenceRef := do
  let r ← object ["schemaVersion", "ref", "version", "sha256"] [] value
  let _ ← fieldOf r "schemaVersion" (literal "pa-workflow-evidence-ref/v1")
  return ⟨← fieldOf r "ref" anyText, ← fieldOf r "version" anyText, ← fieldOf r "sha256" shaText⟩

/-- `workflowTicket`. -/
def workflowTicket : Json → Option String := text isCanonicalTicketId 4096

/-- The check of `relativePath`. -/
def isRelativePath (path : String) : Bool :=
  !startsWith path "/" && !includes path "\\" && !includes path ":" &&
    (split path '/').all fun p => p != "" && p != "." && p != ".." && p != ".git"

def relativePath : Json → Option String := text isRelativePath 4096

/-- `/^requirements:agent-teams\/requirements\/artifacts\/.+\.md$/`. -/
def isMatrixSource (s : String) : Bool :=
  let start := "requirements:agent-teams/requirements/artifacts/"
  startsWith s start && endsWith s ".md" && start.toList.length + 4 ≤ s.toList.length &&
    s.toList.all fun c => c != '\n' && c != '\r' && c.toNat != 0x2028 && c.toNat != 0x2029

structure CommandReference where
  matrixSource : String
  matrixSha256 : String
  commandId : String
  deriving DecidableEq

def commandReference (value : Json) : Option CommandReference := do
  let r ← object ["matrixSource", "matrixSha256", "commandId"] [] value
  return ⟨← fieldOf r "matrixSource" (text isMatrixSource 4096), ← fieldOf r "matrixSha256" shaText,
    ← fieldOf r "commandId" idText⟩

/-! ## Review bundles -/

structure Repository where
  key : String
  root : String
  deriving DecidableEq

structure Route where
  team : String
  mode : String
  deriving DecidableEq

inductive HandoffType where
  | fresh
  | amendment (featureSha : String)
  deriving DecidableEq

structure Handoff where
  type : HandoffType
  baseSha : String
  branch : String
  deriving DecidableEq

def HandoffType.text : HandoffType → String
  | fresh => "fresh"
  | amendment _ => "amendment"

def HandoffType.isFresh : HandoffType → Bool
  | fresh => true
  | amendment _ => false

structure WorkflowRef where
  id : String
  version : String
  sha256 : String
  deriving DecidableEq

structure Scope where
  requirements : Distinct String
  acceptanceCriteria : Distinct String
  files : Distinct String
  directories : Distinct String
  newPaths : Distinct String
  checks : List CommandReference
  excludedEffects : Distinct String

structure ReviewBundle where
  subjectId : String
  revision : ℤ
  requirements : EvidenceRef
  uat : EvidenceRef
  matrix : EvidenceRef
  repository : Repository
  ticket : String
  route : Route
  handoff : Handoff
  workflow : WorkflowRef
  scope : Scope
  requestedPermissions : Distinct PackagePermission

/-- A feature branch: a project, a number and a name, with hyphens between them. -/
def isFeatureBranch (s : String) : Bool :=
  startsWith s "feature/" &&
    let name := s.toList.drop 8
    let project := name.takeWhile fun c => isUpper c || isDigit c
    project.head?.any isUpper &&
      match name.drop project.length with
      | '-' :: rest =>
        let number := rest.takeWhile isDigit
        !number.isEmpty &&
          match rest.drop number.length with
          | '-' :: c :: rest => isAlnum c && rest.all fun c => isAlnum c || c == '.' || c == '_' || c == '/' || c == '-'
          | _ => false
      | _ => false

/-- The branch of a ticket. -/
def branchOk (ticket branch : String) : Bool :=
  isFeatureBranch branch && startsWith branch ("feature/" ++ ticket ++ "-") && !includes branch ".." &&
    !includes branch "//" && !endsWith branch "/" &&
    (split branch '/').all fun p => !endsWith p ".lock" && !endsWith p "."

/-- A name and a number, with a hyphen between them. -/
def isNumbered (name s : String) : Bool := startsWith s (name ++ "-") && allOf isDigit (s.toList.drop (name.length + 1))

/-- The artifact of a reference, under its namespace. -/
def artifactOk (space : String) (e : EvidenceRef) : Bool :=
  startsWith e.ref (space ++ "agent-teams/requirements/artifacts/") && endsWith e.ref ".md" &&
    (relativePath (.str (String.ofList (e.ref.toList.drop space.toList.length)))).isSome

/-- The root is absolute and has no empty or dotted part. -/
def rootOk (root : String) : Bool :=
  startsWith root "/" && !includes root "\\" &&
    ((split root '/').drop 1).all fun p => p != "" && p != "." && p != ".."

def handoff (value : Json) : Option Handoff := do
  let fresh := match value.field "type" with
    | some (.str s) => s == "fresh"
    | _ => false
  let h ← object (if fresh then ["type", "baseSha", "branch", "branchAction"]
    else ["type", "baseSha", "branch", "featureSha", "branchAction"]) [] value
  let branch ← fieldOf h "branch" anyText
  let baseSha ← fieldOf h "baseSha" gitShaText
  if fresh then
    let _ ← fieldOf h "branchAction" (literal "create")
    return ⟨.fresh, baseSha, branch⟩
  else
    let _ ← fieldOf h "type" (literal "amendment")
    let featureSha ← fieldOf h "featureSha" gitShaText
    let _ ← fieldOf h "branchAction" (literal "reuse")
    return ⟨.amendment featureSha, baseSha, branch⟩

def scope (matrix : EvidenceRef) (value : Json) : Option Scope := do
  let s ← object ["requirements", "acceptanceCriteria", "files", "directories", "newPaths", "checks", "excludedEffects"]
    [] value
  let checks ← fieldOf s "checks" (array commandReference 256)
  let _ ← unique (checks.map (·.commandId))
  rejectIf ((checks.any fun c => c.matrixSource != matrix.ref || c.matrixSha256 != matrix.sha256) = true)
  return {
    requirements := ← fieldOf s "requirements" (distinct (text (isNumbered "FR") 4096))
    acceptanceCriteria := ← fieldOf s "acceptanceCriteria" (distinct (text (isNumbered "AC") 4096))
    files := ← fieldOf s "files" (distinct relativePath)
    directories := ← fieldOf s "directories" (distinct relativePath)
    newPaths := ← fieldOf s "newPaths" (distinct relativePath)
    checks
    excludedEffects := ← fieldOf s "excludedEffects" (distinct idText) }

def bundle (value : Json) : Option ReviewBundle := do
  let r ← object ["schemaVersion", "subjectId", "revision", "requirements", "uat", "matrix", "repository", "ticket",
    "route", "handoff", "workflow", "scope", "requestedPermissions"] [] value
  let _ ← fieldOf r "schemaVersion" (literal "pa-review-bundle/v1")
  let repository ← fieldOf r "repository" (object ["key", "root"] [])
  let route ← fieldOf r "route" (object ["team", "mode"] [])
  let ticket ← fieldOf r "ticket" workflowTicket
  let handoff ← fieldOf r "handoff" handoff
  rejectIf (branchOk ticket handoff.branch = false)
  let w ← fieldOf r "workflow" (object ["id", "version", "sha256"] [])
  let root ← fieldOf repository "root" anyText
  rejectIf (rootOk root = false)
  let requirements ← fieldOf r "requirements" evidenceRef
  let uat ← fieldOf r "uat" evidenceRef
  let matrix ← fieldOf r "matrix" evidenceRef
  rejectIf (artifactOk "requirements:" requirements = false ∨ artifactOk "uat:" uat = false)
  rejectIf (matrix.ref ≠ requirements.ref ∨ requirements.ref.toList.drop 13 = uat.ref.toList.drop 4)
  let scope ← fieldOf r "scope" (scope matrix)
  return {
    subjectId := ← fieldOf r "subjectId" idText
    revision := ← fieldOf r "revision" (integer 1 9007199254740991)
    requirements, uat, matrix
    repository := ⟨← fieldOf repository "key" idText, root⟩
    ticket
    route := ⟨← fieldOf route "team" idText, ← fieldOf route "mode" idText⟩
    handoff
    workflow := ⟨← fieldOf w "id" idText, ← fieldOf w "version" idText, ← fieldOf w "sha256" shaText⟩
    scope
    requestedPermissions :=
      ← fieldOf r "requestedPermissions" (distinct (oneOf PackagePermission.text packagePermissions)) }

def parseReviewBundle (double : String → Json) (bytes : Bytes) : Option ReviewBundle :=
  (strictJson double bytes).bind bundle

/-! ## Resources -/

structure ResourceFile where
  path : String
  sha256 : String
  deriving DecidableEq

structure WorkflowResources where
  configRoot : String
  configRevision : String
  repositoryKey : String
  workflowSha256 : String
  registrySha256 : String
  routes : List Route
  files : List ResourceFile
  absentReferences : Distinct String
  deriving DecidableEq

/-- The check of `managedPath`. -/
def isManagedPath (path : String) : Bool :=
  isRelativePath path && ((split path '/').all fun part => part.toLower != ".git") &&
    ((["contracts/", "workflows/", "teams/", "skills/", "docs/", "primers/", "policies/"].any (startsWith path ·)) ||
      ["IDENTITY.md", "README.md", "CLAUDE.md"].contains path)

def managedPath : Json → Option String := text isManagedPath 4096

def route (value : Json) : Option Route := do
  let row ← object ["team", "mode"] [] value
  return ⟨← fieldOf row "team" idText, ← fieldOf row "mode" idText⟩

def resourceFile (value : Json) : Option ResourceFile := do
  let row ← object ["path", "sha256"] [] value
  return ⟨← fieldOf row "path" managedPath, ← fieldOf row "sha256" shaText⟩

def resources (value : Json) : Option WorkflowResources := do
  let r ← object ["schemaVersion", "configRoot", "configRevision", "repositoryKey", "workflowSha256", "registrySha256",
    "routes", "files", "absentReferences"] [] value
  let configRoot ← fieldOf r "configRoot" anyText
  rejectIf (normalizedAbsolute configRoot = false)
  let routes ← fieldOf r "routes" (array route 4)
  let _ ← unique (routes.map fun r => r.team ++ "/" ++ r.mode)
  let files ← fieldOf r "files" (array resourceFile 256)
  let absentReferences ← fieldOf r "absentReferences" (distinct managedPath)
  rejectIf (routes = [] ∨ files = [] ∨ 256 < files.length + absentReferences.1.length ∨
    (absentReferences.1.any fun path => files.any fun f => f.path == path) = true)
  let _ ← unique (files.map (·.path))
  let _ ← fieldOf r "schemaVersion" (literal "pa-workflow-resources/v1")
  return {
    configRoot
    configRevision := ← fieldOf r "configRevision" gitShaText
    repositoryKey := ← fieldOf r "repositoryKey" idText
    workflowSha256 := ← fieldOf r "workflowSha256" shaText
    registrySha256 := ← fieldOf r "registrySha256" shaText
    routes, files, absentReferences }

def parseWorkflowResources (double : String → Json) (bytes : Bytes) : Option WorkflowResources :=
  (strictJson double bytes).bind resources

/-- `JSON.stringify(resources)`. -/
def WorkflowResources.json (r : WorkflowResources) : Json :=
  .obj [("schemaVersion", .str "pa-workflow-resources/v1"), ("configRoot", .str r.configRoot),
    ("configRevision", .str r.configRevision), ("repositoryKey", .str r.repositoryKey),
    ("workflowSha256", .str r.workflowSha256), ("registrySha256", .str r.registrySha256),
    ("routes", .arr (r.routes.map fun route => .obj [("team", .str route.team), ("mode", .str route.mode)])),
    ("files", .arr (r.files.map fun f => .obj [("path", .str f.path), ("sha256", .str f.sha256)])),
    ("absentReferences", .arr (r.absentReferences.1.map .str))]

end PaPlatform.Workflow
