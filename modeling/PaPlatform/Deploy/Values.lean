/-
  The checked values of `deploy/prepared-workflow.ts`: texts, digests, paths,
  timestamps and source versions.

  Each value is a string together with the check that its reader makes, so a
  value that the reader rejects cannot be built.  A reader returns `none`
  where the source throws `workflowError()`.
-/
import PaPlatform.Lib.Json
import PaPlatform.Lib.Text

namespace PaPlatform

open Js

/-- The codes of `executionFailure` that the modelled functions throw. -/
inductive ExecutionFailureCode where
  | phasePrerequisite
  | scopeEscalation
  deriving DecidableEq, Repr

/-- What the modelled functions throw: `workflowError()`, or
    `executionFailure(code)`. -/
inductive WorkflowFailure where
  | workflow
  | execution (code : ExecutionFailureCode)
  deriving DecidableEq, Repr

/-! ## Texts -/

/-- `/[\u0000-\u001f\u007f-\u009f]/`. -/
def isControl (c : Char) : Bool := c.toNat < 32 || (127 ≤ c.toNat && c.toNat ≤ 159)

/-- The check of `workflowText`. -/
def textOk (s : String) : Bool :=
  !s.isEmpty && utf16Length s ≤ 4096 && trimmed s && !s.toList.any isControl

/-- The check of `workflowSha`. -/
def shaOk (length : ℕ) (s : String) : Bool :=
  textOk s && s.toList.length == length && s.toList.all isHex

/-- A normalized absolute path: `isAbsolute(path) && resolve(path) === path`. -/
def pathOk (s : String) : Bool :=
  textOk s && (s == "/" ||
    match split s '/' with
    | "" :: parts => !parts.isEmpty && parts.all fun part => part != "" && part != "." && part != ".."
    | _ => false)

/-- The check of `workflowTimestamp`. -/
def timestampOk (s : String) : Bool :=
  textOk s && (dateParse s).any fun ms => toISOString ms == s

abbrev Text := Checked textOk

abbrev Sha256 := Checked (shaOk 64)

abbrev GitSha := Checked (shaOk 40)

abbrev AbsolutePath := Checked pathOk

abbrev Timestamp := Checked timestampOk

/-- `Date.parse`. -/
def Timestamp.ms (t : Timestamp) : ℤ := (dateParse t.1).getD 0

/-- `a < b`, on the texts of timestamps. -/
def Timestamp.before (a b : Timestamp) : Bool := !stringLe b.1 a.1

/-- `workflowText`. -/
def workflowText : Json → Option Text := Json.checked textOk

/-- `workflowSha(value)` and `workflowSha(value, 40)`. -/
def workflowSha : Json → Option Sha256 := Json.checked (shaOk 64)

def workflowGitSha : Json → Option GitSha := Json.checked (shaOk 40)

/-- `workflowPath`. -/
def workflowPath : Json → Option AbsolutePath := Json.checked pathOk

/-- `workflowTimestamp`. -/
def workflowTimestamp : Json → Option Timestamp := Json.checked timestampOk

/-- `nullableText`. -/
def nullableText : Json → Option (Option Text) := Json.nullable workflowText

/-- `workflowDigest`, of a text.  `sha256` is the hash function of the platform. -/
def workflowDigest (sha256 : Bytes → Sha256) (text : String) : Sha256 := sha256 text.toUTF8.toList

/-! ## Tickets, deployments and branches -/

/-- `/^[A-Z][A-Z0-9]*-\d+$/`. -/
def ticketOk (s : String) : Bool :=
  match split s '-' with
  | [project, number] =>
    (project.toList.head?.any isUpper) && project.toList.all (fun c => isUpper c || isDigit c) &&
      allOf isDigit number.toList
  | _ => false

/-- `/^[A-Za-z0-9][A-Za-z0-9._-]*$/`. -/
def repoKeyOk (s : String) : Bool :=
  (s.toList.head?.any isAlnum) &&
    s.toList.all fun c => isAlnum c || c == '.' || c == '_' || c == '-'

/-- `/^d-[0-9a-f]{6}$/`. -/
def deploymentIdOk (s : String) : Bool :=
  match s.toList with
  | 'd' :: '-' :: cs => cs.length == 6 && cs.all isHex
  | _ => false

/-- A branch of `ticket` that
    `/[\s~^:?*\[\\]|\.\.|@\{|\/\/|\/$|\.lock$/` does not match. -/
def branchOk (ticket branch : String) : Bool :=
  startsWith branch ("feature/" ++ ticket ++ "-") &&
    !(branch.toList.any fun c => isSpace c || "~^:?*[\\".toList.contains c) &&
    !includes branch ".." && !includes branch "@\x7b" && !includes branch "//" &&
    !endsWith branch "/" && !endsWith branch ".lock"

/-! ## Source versions -/

structure SourceVersion where
  ref : Text
  version : Text
  sha256 : Sha256
  deriving DecidableEq

/-- The keys of a source version. -/
def SourceVersion.keys : List String := ["ref", "version", "sha256"]

@[simp] theorem SourceVersion.exactObject_keys {values : List Json} (h : values.length = 3) :
    Json.exactObject keys (.obj (keys.zip values)) = some values :=
  Json.exactObject_zip (by decide +kernel) h.symm

def SourceVersion.toJson (s : SourceVersion) : Json :=
  .obj (keys.zip [.ofChecked s.ref, .ofChecked s.version, .ofChecked s.sha256])

def parseSourceVersion (value : Json) : Option SourceVersion := do
  let [ref, version, sha256] ← Json.exactObject SourceVersion.keys value | none
  return ⟨← workflowText ref, ← workflowText version, ← workflowSha sha256⟩

@[simp] theorem workflowText_ofChecked (t : Text) : workflowText (.ofChecked t) = some t :=
  Json.checked_ofChecked t

@[simp] theorem workflowSha_ofChecked (t : Sha256) : workflowSha (.ofChecked t) = some t :=
  Json.checked_ofChecked t

@[simp] theorem workflowGitSha_ofChecked (t : GitSha) : workflowGitSha (.ofChecked t) = some t :=
  Json.checked_ofChecked t

@[simp] theorem workflowPath_ofChecked (t : AbsolutePath) : workflowPath (.ofChecked t) = some t :=
  Json.checked_ofChecked t

@[simp] theorem workflowTimestamp_ofChecked (t : Timestamp) :
    workflowTimestamp (.ofChecked t) = some t := Json.checked_ofChecked t

@[simp] theorem nullableText_ofOption (o : Option Text) :
    nullableText (.ofOption .ofChecked o) = some o := Json.nullable_checked o

@[simp] theorem parseSourceVersion_toJson (s : SourceVersion) :
    parseSourceVersion s.toJson = some s := by
  simp [parseSourceVersion, SourceVersion.toJson]

@[simp] theorem nullable_parseSourceVersion (o : Option SourceVersion) :
    Json.nullable parseSourceVersion (.ofOption SourceVersion.toJson o) = some o :=
  Json.nullable_ofOption parseSourceVersion_toJson (by simp [SourceVersion.toJson]) o

end PaPlatform
