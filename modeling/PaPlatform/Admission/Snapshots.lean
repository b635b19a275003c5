/-
  The Git snapshots of `deploy/repository-admission.ts`.

  A snapshot is complete when it carries the porcelain status bytes, the entries
  that they parse to and the digest of branch, head and bytes.
-/
import PaPlatform.Deploy.GitStatus
import PaPlatform.Capacity.Records

namespace PaPlatform.Admission

open Js Guard
open Capacity (ProcessFingerprint bounded stringLimit isAbsolute isFingerprint fingerprintsEqual)

/-- What a call throws or reports in place of a success.  Neither undoes what the
    call wrote before. -/
inductive Refusal where
  /-- An exception, with its message. -/
  | thrown (message : String)
  /-- A `rejected` result: its `evidenceState` or `category`, and the reason. -/
  | rejected (category reason : String)
  /-- Any other `status`. -/
  | status (status : String)
  deriving DecidableEq, Repr

/-! ## Fields -/

/-- The first units of a text, up to `max` of them. -/
def takeUnits (max : ℕ) : List Char → List Char
  | [] => []
  | c :: cs =>
    let n := utf16Length (String.singleton c)
    if n ≤ max then c :: takeUnits (max - n) cs else []

/-- `boundedField`. -/
def boundedField (value : String) (max : ℕ) : String :=
  if utf16Length value ≤ max then value
  else String.ofList (takeUnits (max - 3) value.toList ++ ['.', '.', '.'])

/-- `boundedRequired`. -/
def boundedRequired (value label : String) : Except Refusal String :=
  let text := boundedField (Registry.trim value) stringLimit
  if text = "" then .error (.thrown ("repository-admission: " ++ label ++ " is required"))
  else .ok text

/-- `validTimestamp`. -/
def validTimestamp (value : String) : Bool := utf16Length value ≤ 64 && (dateParse value).isSome

/-- `secureStringsEqual`. -/
def secureStringsEqual (expected observed : String) : Bool := expected == observed

/-- `normalizedTeam`. -/
def normalizedTeam (team : String) : String :=
  ((split (Registry.trim team) '/').headD "").toLower

/-- `assertCanonicalRoot`. -/
def assertCanonicalRoot (value : String) : Except Refusal String :=
  if normalizedAbsolute value then .ok value
  else .error (.thrown
    "repository-admission: canonical repository root must be an exact absolute normalized path")

/-! ## Paths -/

/-- `validRepositoryRelativePath`: `path` has no empty, `.` or `..` component. -/
def validRepositoryRelativePath (path : String) : Bool :=
  path != "" && !path.toList.contains (Char.ofNat 0) && !isAbsolute path &&
    !path.toList.contains '\\' &&
    (split path '/').all fun part => part != "" && part != "." && part != ".."

/-- `isExactPathArray`. -/
def isExactPathArray (paths : List String) : Bool :=
  !paths.isEmpty && paths.all validRepositoryRelativePath && decide paths.Nodup

/-- `containsGlobSyntax`. -/
def containsGlobSyntax (path : String) : Bool :=
  path.toList.any fun c => "*?[]\x7b\x7d".toList.contains c

/-! ## Snapshots -/

structure RepositoryGitSnapshot where
  branch : String
  head : String
  stagedCount : ℕ
  unstagedCount : ℕ
  untrackedCount : ℕ
  dirty : Bool
  statusSummary : String
  statusPorcelainV2Base64 : Option String
  statusRecordCount : Option ℕ
  statusEntries : Option (List RepositoryGitStatusEntry)
  digestSha256 : Option String
  deriving DecidableEq

/-- `repositoryGitSnapshotsEqual`. -/
def repositoryGitSnapshotsEqual (left right : RepositoryGitSnapshot) : Bool := left == right

/-- `MAX_GIT_STATUS_SUMMARY_CHARS`. -/
def maxGitStatusSummaryChars : ℕ := 1024

/-- `canonicalBase64Matches`. -/
def canonicalBase64Matches (value decoded : String) : Bool :=
  base64Text (base64Decode value) == value &&
    (decodeGitPath (base64Decode value)).toOption == some decoded

/-- `isGitStatusEntry`. -/
def isGitStatusEntry (e : RepositoryGitStatusEntry) : Bool :=
  0 < e.recordIndex && utf16Length e.xy == 2 && canonicalBase64Matches e.pathBase64 e.path &&
    e.source.all fun source => canonicalBase64Matches source.2 source.1

/-- An entry that is neither untracked nor ignored and whose status field has a
    change at `i`. -/
def changedAt (i : ℕ) (e : RepositoryGitStatusEntry) : Bool :=
  e.kind != .untracked && e.kind != .ignored && (e.xy.toList[i]?.getD '.') != '.'

/-- The counts of staged, unstaged and untracked entries. -/
def countEntries (entries : List RepositoryGitStatusEntry) : ℕ × ℕ × ℕ :=
  (entries.countP (changedAt 0), entries.countP (changedAt 1),
    entries.countP fun e => e.kind == .untracked)

def anyChange (entries : List RepositoryGitStatusEntry) : Bool :=
  entries.any fun e => e.kind != .ignored

section
variable (sha256 : Bytes → Sha256)

/-- `repositoryGitSnapshotDigest`. -/
def repositoryGitSnapshotDigest (branch head : String) (rawStatus : Bytes) : String :=
  (sha256 (snapshotBytes branch head rawStatus)).1

/-- The checks of `isCompleteGitSnapshot` on the four complete fields. -/
def completeFields (s : RepositoryGitSnapshot) (porcelain : String) (count : ℕ)
    (entries : List RepositoryGitStatusEntry) (digest : String) : Bool :=
  let raw := base64Decode porcelain
  hexOk 64 digest && base64Text raw == porcelain &&
    (parseRepositoryGitStatus raw).toOption == some entries && entries.length == count &&
    entries.all isGitStatusEntry &&
    (s.stagedCount, s.unstagedCount, s.untrackedCount) == countEntries entries &&
    s.dirty == anyChange entries && digest == repositoryGitSnapshotDigest sha256 s.branch s.head raw

/-- `isCompleteGitSnapshot`. -/
def isCompleteGitSnapshot (s : RepositoryGitSnapshot) : Bool :=
  match s.statusPorcelainV2Base64, s.statusRecordCount, s.statusEntries, s.digestSha256 with
  | some porcelain, some count, some entries, some digest =>
    completeFields sha256 s porcelain count entries digest
  | _, _, _, _ => false

/-- `isGitSnapshot`. -/
def isGitSnapshot (s : RepositoryGitSnapshot) : Bool :=
  bounded s.branch && bounded s.head &&
    s.dirty == (0 < s.stagedCount || 0 < s.unstagedCount || 0 < s.untrackedCount) &&
    utf16Length s.statusSummary ≤ maxGitStatusSummaryChars &&
    (s.statusPorcelainV2Base64.isNone && s.statusRecordCount.isNone && s.statusEntries.isNone &&
        s.digestSha256.isNone ||
      isCompleteGitSnapshot sha256 s)

/-! ## Capture -/

/-- What the Git commands of one moment print; a command that fails is `none`. -/
structure GitReads where
  /-- `git symbolic-ref --quiet --short HEAD`. -/
  symbolicRef : Option String
  /-- `git rev-parse HEAD`. -/
  head : Option String
  /-- `git status --porcelain=v2 --untracked-files=all -z`. -/
  status : Option Bytes
  /-- `git rev-parse --verify refs/remotes/origin/<branch>`. -/
  remoteHead : String → Option String
  /-- `git diff --name-only --no-renames -z <old> <new> --`. -/
  changedPaths : String → String → Option Bytes
  /-- `git merge-base --is-ancestor <old> <new>`. -/
  isAncestor : String → String → Bool

/-- A line of `statusSummary`. -/
def summaryLine (e : RepositoryGitStatusEntry) : String :=
  e.xy ++ " " ++ Json.quote e.path ++
    e.source.elim "" fun source => " <- " ++ Json.quote source.1

/-- `captureRepositoryGitSnapshot`. -/
def captureRepositoryGitSnapshot (git : GitReads) : Except Refusal RepositoryGitSnapshot := do
  let branch := boundedField (Registry.trim (git.symbolicRef.getD "")) stringLimit
  let branch := if branch = "" then "(detached)" else branch
  let head ← require git.head (.thrown "git rev-parse HEAD failed")
  let head := boundedField (Registry.trim head) stringLimit
  let rawStatus ← require git.status (.thrown "git status failed")
  let entries ← (parseRepositoryGitStatus rawStatus).mapError .thrown
  let counts := countEntries entries
  return {
    branch := branch
    head := head
    stagedCount := counts.1
    unstagedCount := counts.2.1
    untrackedCount := counts.2.2
    dirty := anyChange entries
    statusSummary := boundedField ("\n".intercalate (entries.map summaryLine)) maxGitStatusSummaryChars
    statusPorcelainV2Base64 := some (base64Text rawStatus)
    statusRecordCount := some entries.length
    statusEntries := some entries
    digestSha256 := some (repositoryGitSnapshotDigest sha256 branch head rawStatus) }

end

end PaPlatform.Admission
