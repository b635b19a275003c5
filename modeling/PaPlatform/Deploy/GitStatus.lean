/-
  `parseRepositoryGitStatus` of `deploy/repository-admission.ts`: the records
  of `git status --porcelain=v2 -z`.

  A failed parse carries the text of the source's error.
-/
import PaPlatform.Lib.Guard
import PaPlatform.Lib.Text

namespace PaPlatform

open Js Guard

inductive RepositoryGitStatusKind where
  | ordinary
  | renameOrCopy
  | unmerged
  | untracked
  | ignored
  deriving DecidableEq

structure RepositoryGitStatusEntry where
  recordIndex : ℕ
  kind : RepositoryGitStatusKind
  xy : String
  path : String
  pathBase64 : String
  /-- `sourcePath` and `sourcePathBase64`. -/
  source : Option (String × String)
  deriving DecidableEq

/-- `splitNulFields`: the fields before each NUL. -/
def splitNulFields (raw : Bytes) : Except String (List Bytes) := do
  let fields := (raw.splitOn 0).dropLast
  throwIf ([] ∈ fields) "repository-admission: porcelain-v2 contains an empty record"
  return fields

/-- The bytes after the first `n` spaces. -/
def afterSpaces : ℕ → Bytes → Option Bytes
  | 0, record => some record
  | n + 1, record =>
    match record.dropWhile (· ≠ 0x20) with
    | [] => none
    | _ :: rest => afterSpaces n rest

/-- `toString("ascii")`. -/
def asciiText (bytes : Bytes) : String := String.ofList (bytes.map fun b => Char.ofNat (b.toNat % 128))

/-- `asciiField`: the field after `tokenIndex` spaces and before the next. -/
def asciiField (record : Bytes) (tokenIndex : ℕ) : Except String String := do
  let rest ← require (afterSpaces tokenIndex record)
    "repository-admission: malformed porcelain-v2 fixed fields"
  throwIf ((0x20 : UInt8) ∉ rest) "repository-admission: malformed porcelain-v2 fixed fields"
  return asciiText (rest.takeWhile (· ≠ 0x20))

/-- `trailingField`: everything after `separatorCount` spaces. -/
def trailingField (record : Bytes) (separatorCount : ℕ) : Except String Bytes := do
  let path ← require (afterSpaces separatorCount record)
    "repository-admission: malformed porcelain-v2 path field"
  throwIf (path = []) "repository-admission: empty porcelain-v2 path is forbidden"
  return path

/-- `new TextDecoder("utf-8", { fatal: true }).decode`: it drops one leading
    byte order mark. -/
def decodeUtf8 (bytes : Bytes) : Option String :=
  (String.fromUTF8? ⟨bytes.toArray⟩).map fun text =>
    match text.toList with
    | c :: cs => if c.toNat = 0xfeff then String.ofList cs else text
    | [] => text

/-- `decodeGitPath`. -/
def decodeGitPath (path : Bytes) : Except String String :=
  require (decodeUtf8 path)
    "repository-admission: non-UTF-8 Git paths cannot be safely approved for mutation"

/-- `bytes.toString("base64")`. -/
def base64Text (bytes : Bytes) : String := String.ofList (base64Encode bytes)

/-- The kind, status field, path and source path of a record.  `following` are
    the fields after it; a rename or copy takes its source path from them. -/
def recordFields (record : Bytes) (following : List Bytes) :
    Except String (RepositoryGitStatusKind × String × Bytes × Option Bytes) :=
  match record.head?.map (Char.ofNat ·.toNat) with
  | some '1' => do
    let xy ← asciiField record 1
    let path ← trailingField record 8
    return (.ordinary, xy, path, none)
  | some '2' => do
    let xy ← asciiField record 1
    let path ← trailingField record 9
    let source ← require following.head?
      "repository-admission: porcelain-v2 rename/copy source path is incomplete"
    return (.renameOrCopy, xy, path, some source)
  | some 'u' => do
    let xy ← asciiField record 1
    let path ← trailingField record 10
    return (.unmerged, xy, path, none)
  | some '?' => do
    let path ← trailingField record 1
    return (.untracked, "??", path, none)
  | some '!' => do
    let path ← trailingField record 1
    return (.ignored, "!!", path, none)
  | _ => .error "repository-admission: unsupported or malformed porcelain-v2 status record"

/-- The loop of `parseRepositoryGitStatus`, from the entry `index` on. -/
def parseRecords (index : ℕ) : List Bytes → Except String (List RepositoryGitStatusEntry)
  | [] => .ok []
  | record :: following => do
    let (kind, xy, pathBytes, sourceBytes) ← recordFields record following
    let path ← decodeGitPath pathBytes
    match sourceBytes with
    | none =>
      let rest ← parseRecords (index + 1) following
      return ⟨index, kind, xy, path, base64Text pathBytes, none⟩ :: rest
    | some bytes =>
      let sourcePath ← decodeGitPath bytes
      -- An empty source path is dropped from the entry.
      let source := if sourcePath = "" then none else some (sourcePath, base64Text bytes)
      match following with
      | [] => .error "repository-admission: porcelain-v2 rename/copy source path is incomplete"
      | _ :: following =>
        let rest ← parseRecords (index + 1) following
        return ⟨index, kind, xy, path, base64Text pathBytes, source⟩ :: rest

/-- `parseRepositoryGitStatus`. -/
def parseRepositoryGitStatus (raw : Bytes) : Except String (List RepositoryGitStatusEntry) := do
  if raw = [] then
    return []
  throwIf (raw.getLast? ≠ some 0)
    "repository-admission: incomplete porcelain-v2 status is not NUL terminated"
  let fields ← splitNulFields raw
  parseRecords 1 fields

/-- A length as eight bytes, the most significant first. -/
def lengthBytes (n : ℕ) : Bytes :=
  [56, 48, 40, 32, 24, 16, 8, 0].map fun shift => UInt8.ofNat (n >>> shift)

/-- What `repositoryGitSnapshotDigest` hashes. -/
def snapshotBytes (branch head : String) (rawStatus : Bytes) : Bytes :=
  [branch.toUTF8.toList, head.toUTF8.toList, rawStatus].flatMap fun field =>
    lengthBytes field.length ++ field

example : (parseRepositoryGitStatus "? a b\x002 R. N... 1 2 3 4 5 R100 new\x00old\x00".toUTF8.toList).map
    (·.map fun e => (e.kind, e.xy, e.path, e.source.map (·.1))) =
    .ok [(.untracked, "??", "a b", none), (.renameOrCopy, "R.", "new", some "old")] := by decide +kernel

end PaPlatform
