/-
  The NUL-delimited readers of the Git context (`pi-extension/git-context-state.ts`):
  commits of `git log -z` and changes of `git diff --numstat -z`.

  They give back the commits and the changes that Git has written.
-/
import PaPlatform.Lib.Guard
import PaPlatform.Lib.JsonRound
import PaPlatform.Lib.Separated

namespace PaPlatform.GitContext

open Js Units Guard Separated

/-! ## Commits -/

structure GitCommitRow where
  hash : Units
  message : Units
  author : Units
  date : Units
  deriving DecidableEq

inductive ReadError where
  | log | record | rename | count
  deriving DecidableEq

/-- `if (fields.at(-1) === "") fields.pop()`. -/
def withoutLast (fields : List Units) : List Units := if fields.getLast? = some [] then fields.dropLast else fields

/-- The commits in groups of four fields. -/
def commitRows : List Units → Except ReadError (List GitCommitRow)
  | [] => .ok []
  | hash :: message :: author :: date :: rest => (commitRows rest).map (⟨hash, message, author, date⟩ :: ·)
  | _ => .error .log

def parseGitLog (output : Units) : Except ReadError (List GitCommitRow) :=
  if output = [] then .ok [] else commitRows (withoutLast (output.splitOn 0))

/-! ## Changes -/

structure GitFileRow where
  path : Units
  oldPath : Option Units
  displayPath : Units
  additions : Option Number
  deletions : Option Number
  binary : Bool
  deriving DecidableEq

section

variable (double : Units → Number)

/-- `Number(s)`, for decimal digits. -/
def toNumber (s : Units) : Number :=
  if Value.ofDecimal s < 2 ^ 53 then .int (Value.ofDecimal s) else double s

def parseNumstatCount (s : Units) : Except ReadError Number :=
  if s ≠ [] ∧ s.all Units.isDigit then .ok (toNumber double s) else .error .count

/-- What is before the first tab, and after it. -/
def cutTab (s : Units) : Option (Units × Units) :=
  if s.contains (unit '\t') then
    some (s.takeWhile (· != unit '\t'), (s.dropWhile (· != unit '\t')).drop 1)
  else none

/-- The counts of a header: none for a binary file. -/
def parseCounts (additionsText deletionsText : Units) : Except ReadError (Option (Number × Number)) :=
  if additionsText = units "-" ∨ deletionsText = units "-" then .ok none
  else do
    let additions ← parseNumstatCount double additionsText
    let deletions ← parseNumstatCount double deletionsText
    return some (additions, deletions)

def fileRow (path : Units) (oldPath : Option Units) (displayPath : Units) (counts : Option (Number × Number)) :
    GitFileRow :=
  { path, oldPath, displayPath, additions := counts.map (·.1), deletions := counts.map (·.2),
    binary := counts.isNone }

/-- `` `${oldPath} → ${newPath}` ``. -/
def renamedPath (oldPath newPath : Units) : Units := oldPath ++ [0x20, 0x2192, 0x20] ++ newPath

def fileRows : List Units → Except ReadError (List GitFileRow)
  | [] => .ok []
  | header :: rest =>
    match (cutTab header).bind fun a => (cutTab a.2).map fun d => (a.1, d.1, d.2) with
    | none => .error .record
    | some (additionsText, deletionsText, inlinePath) => do
      let counts ← parseCounts double additionsText deletionsText
      if inlinePath ≠ [] then
        (fileRows rest).map (fileRow inlinePath none inlinePath counts :: ·)
      else
        match rest with
        | oldPath :: newPath :: rest =>
          if oldPath = [] ∨ newPath = [] then .error .rename
          else (fileRows rest).map (fileRow newPath (some oldPath) (renamedPath oldPath newPath) counts :: ·)
        | _ => .error .rename

/-- Parse `git diff --numstat -z`, including its three-token rename representation. -/
def parseGitNumstat (output : Units) : Except ReadError (List GitFileRow) :=
  if output = [] then .ok [] else fileRows double (withoutLast (output.splitOn 0))

end

/-! ## What Git writes -/

/-- A path: not empty, without NUL. -/
structure GitPath where
  text : Units
  nonempty : text ≠ []
  noNul : 0 ∉ text

/-- A change: its line counts unless it is binary, its path, and its old path if it is a rename. -/
structure ChangeRecord where
  counts : Option (ℕ × ℕ)
  path : GitPath
  oldPath : Option GitPath

def countsText : Option (ℕ × ℕ) → Units
  | none => unit '-' :: unit '\t' :: unit '-' :: [unit '\t']
  | some (additions, deletions) => decimal additions ++ unit '\t' :: (decimal deletions ++ [unit '\t'])

/-- The tokens of a change in `git diff --numstat -z`. -/
def ChangeRecord.tokens (r : ChangeRecord) : List Units :=
  match r.oldPath with
  | none => [countsText r.counts ++ r.path.text]
  | some old => [countsText r.counts, old.text, r.path.text]

/-- Each token is followed by NUL. -/
def encodeNumstat (records : List ChangeRecord) : Units := (records.flatMap (·.tokens)).flatMap (· ++ [0])

/-- The row of a change. -/
def ChangeRecord.row (double : Units → Number) (r : ChangeRecord) : GitFileRow where
  path := r.path.text
  oldPath := r.oldPath.map (·.text)
  displayPath := r.oldPath.elim r.path.text fun old => renamedPath old.text r.path.text
  additions := r.counts.map fun c => toNumber double (decimal c.1)
  deletions := r.counts.map fun c => toNumber double (decimal c.2)
  binary := r.counts.isNone

/-- A commit: fields without NUL, and a date. -/
structure Commit where
  row : GitCommitRow
  noNul : 0 ∉ row.hash ∧ 0 ∉ row.message ∧ 0 ∉ row.author ∧ 0 ∉ row.date
  dated : row.date ≠ []

def Commit.fields (c : Commit) : List Units := [c.row.hash, c.row.message, c.row.author, c.row.date]

/-- The fields with NUL between them, or also after the last one. -/
def encodeLog (terminated : Bool) (commits : List Commit) : Units :=
  if terminated then (commits.flatMap (·.fields)).flatMap (· ++ [0]) else [0].intercalate (commits.flatMap (·.fields))

/-! ## Reading commits -/

variable {fields : List Units} {commits : List Commit} {double : Units → Number} {n : ℕ} {s rest : Units}

theorem mem_fields {f : Units} (h : f ∈ commits.flatMap (·.fields)) : 0 ∉ f := by
  obtain ⟨c, -, hf⟩ := List.mem_flatMap.1 h
  simp only [Commit.fields, List.mem_cons, List.not_mem_nil, or_false] at hf
  rcases hf with rfl | rfl | rfl | rfl
  · exact c.noNul.1
  · exact c.noNul.2.1
  · exact c.noNul.2.2.1
  · exact c.noNul.2.2.2

theorem commitRows_fields : commitRows (commits.flatMap (·.fields)) = .ok (commits.map (·.row)) := by
  induction commits with
  | nil => rfl
  | cons c commits ih =>
    show (commitRows (commits.flatMap (·.fields))).map _ = _
    rw [ih]
    rfl

theorem withoutLast_empty : withoutLast (fields ++ [[]]) = fields := by
  unfold withoutLast
  rw [if_pos (by simp), List.dropLast_concat]

/-- The last field of the last commit is its date. -/
theorem withoutLast_dated : withoutLast (commits.flatMap (·.fields)) = commits.flatMap (·.fields) := by
  unfold withoutLast
  rcases List.eq_nil_or_concat commits with rfl | ⟨front, c, rfl⟩
  · rfl
  · rw [if_neg]
    intro h
    simp only [List.concat_eq_append, List.flatMap_append, List.flatMap_cons, List.flatMap_nil, List.append_nil,
      Commit.fields, List.getLast?_append, List.getLast?_cons_cons, List.getLast?_singleton, Option.some_or,
      Option.some.injEq] at h
    exact c.dated h

/-- **Commits are read back.** -/
theorem parseGitLog_encode (terminated : Bool) (commits : List Commit) :
    parseGitLog (encodeLog terminated commits) = .ok (commits.map (·.row)) := by
  have hnul : ∀ f ∈ commits.flatMap (·.fields), (0 : UInt16) ∉ f := fun f hf => mem_fields hf
  unfold parseGitLog
  cases commits with
  | nil => cases terminated <;> rfl
  | cons c commits =>
    cases terminated with
    | true =>
      have hsplit := splitOn_terminated hnul
      rw [encodeLog, if_pos rfl, hsplit, withoutLast_empty, commitRows_fields, if_neg]
      simp [Commit.fields]
    | false =>
      have hne : (c :: commits).flatMap (·.fields) ≠ [] := by simp [Commit.fields]
      have hsplit := List.splitOn_intercalate 0 hnul hne
      have hlog : encodeLog false (c :: commits) = [0].intercalate ((c :: commits).flatMap (·.fields)) := rfl
      rw [hlog, hsplit, withoutLast_dated, commitRows_fields, if_neg]
      intro hempty
      rw [hempty] at hsplit
      exact absurd hsplit (by simp [Commit.fields])

/-! ## Reading changes -/

theorem cutTab_append (h : unit '\t' ∉ s) : cutTab (s ++ unit '\t' :: rest) = some (s, rest) := by
  have hne : ∀ u ∈ s, (u != unit '\t') = true := by
    intro u hu
    rw [bne_iff_ne]
    rintro rfl
    exact h hu
  unfold cutTab
  rw [if_pos (by simp), List.takeWhile_append_of_pos hne, List.dropWhile_append_of_pos hne]
  simp

theorem not_mem_decimal {u : UInt16} (h : Units.isDigit u = false) : u ∉ decimal n := by
  intro hu
  rw [Value.decimal_digits n u hu] at h
  cases h

theorem parseNumstatCount_decimal : parseNumstatCount double (decimal n) = .ok (toNumber double (decimal n)) := by
  unfold parseNumstatCount
  rw [if_pos ⟨Value.decimal_ne_nil n, List.all_eq_true.2 (Value.decimal_digits n)⟩]

theorem decimal_ne_dash : decimal n ≠ units "-" := by
  intro h
  have hmem : (0x2d : UInt16) ∈ decimal n := by
    rw [h]
    decide
  exact not_mem_decimal (by decide) hmem

/-- The header of a change, with its path. -/
theorem header_cut (counts : Option (ℕ × ℕ)) (path : Units) : ∃ a d,
    ((cutTab (countsText counts ++ path)).bind fun a => (cutTab a.2).map fun d => (a.1, d.1, d.2)) =
      some (a, d, path) ∧
    parseCounts double a d = .ok (counts.map fun c => (toNumber double (decimal c.1), toNumber double (decimal c.2))) := by
  cases counts with
  | none =>
    refine ⟨[unit '-'], [unit '-'], ?_, rfl⟩
    have htext : countsText none ++ path = [unit '-'] ++ unit '\t' :: ([unit '-'] ++ unit '\t' :: path) := rfl
    rw [htext, cutTab_append (by decide), Option.bind_some, cutTab_append (by decide)]
    rfl
  | some c =>
    obtain ⟨additions, deletions⟩ := c
    refine ⟨decimal additions, decimal deletions, ?_, ?_⟩
    · have htext : countsText (some (additions, deletions)) ++ path =
          decimal additions ++ unit '\t' :: (decimal deletions ++ unit '\t' :: path) := by
        simp [countsText]
      rw [htext, cutTab_append (not_mem_decimal (by decide)), Option.bind_some,
        cutTab_append (not_mem_decimal (by decide))]
      rfl
    · unfold parseCounts
      rw [if_neg (not_or.2 ⟨decimal_ne_dash, decimal_ne_dash⟩), parseNumstatCount_decimal, parseNumstatCount_decimal]
      rfl

variable {r : ChangeRecord} {records : List ChangeRecord} {tokens : List Units}

/-- One change is read, and the tokens after it are left. -/
theorem fileRows_tokens : fileRows double (r.tokens ++ tokens) = (fileRows double tokens).map (r.row double :: ·) := by
  obtain ⟨counts, path, oldPath⟩ := r
  cases oldPath with
  | none =>
    obtain ⟨a, d, hcut, hcounts⟩ := @header_cut double counts path.text
    show fileRows double ((countsText counts ++ path.text) :: tokens) = _
    rw [fileRows.eq_def]
    dsimp only
    rw [hcut]
    dsimp only
    rw [hcounts, ok_bind, if_pos path.nonempty]
    cases counts <;> rfl
  | some old =>
    obtain ⟨a, d, hcut, hcounts⟩ := @header_cut double counts []
    rw [List.append_nil] at hcut
    show fileRows double (countsText counts :: old.text :: path.text :: tokens) = _
    rw [fileRows.eq_def]
    dsimp only
    rw [hcut]
    dsimp only
    rw [hcounts, ok_bind, if_neg (by simp), if_neg (not_or.2 ⟨old.nonempty, path.nonempty⟩)]
    cases counts <;> rfl

theorem fileRows_records : fileRows double (records.flatMap (·.tokens)) = .ok (records.map (·.row double)) := by
  induction records with
  | nil => rfl
  | cons r records ih =>
    rw [List.flatMap_cons, fileRows_tokens, ih]
    rfl

theorem zero_not_mem_counts (counts : Option (ℕ × ℕ)) : 0 ∉ countsText counts := by
  cases counts with
  | none => decide
  | some c =>
    intro h
    simp only [countsText, List.mem_append, List.mem_cons, List.not_mem_nil, or_false] at h
    rcases h with h | h | h | h
    · exact not_mem_decimal (by decide) h
    · exact absurd h (by decide)
    · exact not_mem_decimal (by decide) h
    · exact absurd h (by decide)

theorem mem_tokens {t : Units} (h : t ∈ r.tokens) : 0 ∉ t := by
  unfold ChangeRecord.tokens at h
  split at h
  · rw [List.mem_singleton.1 h, List.mem_append, not_or]
    exact ⟨zero_not_mem_counts _, r.path.noNul⟩
  · next old _ =>
    simp only [List.mem_cons, List.not_mem_nil, or_false] at h
    rcases h with rfl | rfl | rfl
    · exact zero_not_mem_counts _
    · exact old.noNul
    · exact r.path.noNul

/-- **Changes are read back.** -/
theorem parseGitNumstat_encode (double : Units → Number) (records : List ChangeRecord) :
    parseGitNumstat double (encodeNumstat records) = .ok (records.map (·.row double)) := by
  have hnul : ∀ t ∈ records.flatMap (·.tokens), (0 : UInt16) ∉ t := by
    intro t ht
    obtain ⟨r, -, ht⟩ := List.mem_flatMap.1 ht
    exact mem_tokens ht
  unfold parseGitNumstat encodeNumstat
  split_ifs with hempty
  · cases records with
    | nil => rfl
    | cons r records =>
      exfalso
      unfold ChangeRecord.tokens at hempty
      rw [List.flatMap_cons, List.flatMap_append] at hempty
      split at hempty <;> simp at hempty
  · rw [splitOn_terminated hnul, withoutLast_empty, fileRows_records]

/-- **The NUL-delimited readers invert the encoding.** -/
theorem readers_invert (double : Units → Number) :
    (∀ records, parseGitNumstat double (encodeNumstat records) = .ok (records.map (·.row double))) ∧
    ∀ terminated commits, parseGitLog (encodeLog terminated commits) = .ok (commits.map (·.row)) :=
  ⟨parseGitNumstat_encode double, parseGitLog_encode⟩

end PaPlatform.GitContext
