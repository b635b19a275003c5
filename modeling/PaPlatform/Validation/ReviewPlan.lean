/-
  The matrix authority of a plan (`validation/review-contract.ts`): the section of a
  Markdown text from its one matrix heading to the next heading, as bytes.

  The hash is a parameter.
-/
import PaPlatform.Validation.ReviewInspect

namespace PaPlatform.Validation.Review

open Js Units Guard Effect

/-! ## Lines -/

structure Line where
  text : Units
  start : ℕ
  stop : ℕ
  deriving DecidableEq

/-- The text of a line without its line feed. -/
def lineText (content : Bytes) : Units :=
  Units.decodeUtf8 (if content.getLast? = some 13 then content.dropLast else content)

def linesFrom : ℕ → ℕ → Bytes → List Line
  | 0, _, _ => []
  | fuel + 1, start, b =>
    if b = [] then []
    else
      let content := b.takeWhile (· != 10)
      match b.dropWhile (· != 10) with
      | [] => [⟨lineText content, start, start + content.length⟩]
      | _ :: rest => ⟨lineText content, start, start + content.length + 1⟩ ::
          linesFrom fuel (start + content.length + 1) rest

def lines (b : Bytes) : List Line := linesFrom b.length 0 b

/-! ## Marks -/

/-- An open fence: its marker, and how long it is. -/
abbrev Fence := Option (UInt16 × ℕ)

/-- A line without its indent of at most three blanks. -/
def unindented (text : Units) : Option Units :=
  let indent := text.takeWhile (· == unit ' ')
  if 3 < indent.length then none else some (text.drop indent.length)

/-- The marker at the start of a line, how long it is, and what comes after it. -/
def fenceMarker (text : Units) : Option (UInt16 × ℕ × Units) :=
  (unindented text).bind fun s =>
    match s with
    | [] => none
    | u :: _ =>
      let run := s.takeWhile (· == u)
      if (u = unit '`' ∨ u = unit '~') ∧ 3 ≤ run.length then some (u, run.length, s.drop run.length) else none

/-- A fence delimiter: its info has no line terminator. -/
def delimiter (text : Units) : Option (UInt16 × ℕ × Units) := (fenceMarker text).filter fun d => d.2.2.all isDot

def isBlank (u : UInt16) : Bool := u == unit ' ' || u == unit '\t'

/-- The level of a heading, and its text. -/
def heading (text : Units) : Option (ℕ × Units) :=
  (unindented text).bind fun s =>
    let level := (s.takeWhile (· == unit '#')).length
    let rest := s.drop level
    let blanks := rest.takeWhile isBlank
    let title := if blanks.length < rest.length then rest.drop blanks.length else rest.drop (blanks.length - 1)
    if 1 ≤ level ∧ level ≤ 6 ∧ blanks ≠ [] ∧ (blanks.length < rest.length ∨ 2 ≤ blanks.length) ∧ title.all isDot then
      some (level, title)
    else none

/-- Without the units at the end that satisfy `p`. -/
def dropEnd (p : UInt16 → Bool) (s : Units) : Units := (s.reverse.dropWhile p).reverse

/-- `title.replace(/[ \t]+#+[ \t]*$/, "")`. -/
def withoutClosing (title : Units) : Units :=
  let text := dropEnd isBlank title
  let body := dropEnd (· == unit '#') text
  if body.length < text.length ∧ body.getLast?.any isBlank = true then dropEnd isBlank body else title

/-- `s.trim()`. -/
def trim (s : Units) : Units := dropEnd Units.isSpace (trimStart s)

def matrixTitle : Units := units "Full Validation Matrix"

def matrixHeading : Units := units "### Full Validation Matrix"

/-- A heading with the title of the matrix. -/
def isMatrixHeading (text : Units) : Bool :=
  (delimiter text).isNone && (heading text).any fun h => trim (withoutClosing h.2) == matrixTitle

/-- The fence after a line. -/
def fenceAfter (fence : Fence) (text : Units) : Fence :=
  match delimiter text, fence with
  | none, _ => fence
  | some (marker, length, _), none => some (marker, length)
  | some (marker, length, info), some opened =>
    if marker = opened.1 ∧ opened.2 ≤ length ∧ trim info = [] then none else fence

/-- What a line adds to `starts` and to `headings`. -/
structure Mark where
  isMatrix : Bool
  isHeading : Bool
  deriving DecidableEq

/-- A heading of level 1 to 3 outside of a fence. -/
def isBoundary (fence : Fence) (text : Units) : Bool :=
  (delimiter text).isNone && fence.isNone && (heading text).any fun h => h.1 ≤ 3

/-- One round of the loop over the lines. -/
def markLine (fence : Fence) (text : Units) : Reviewed Mark := do
  failIf (isMatrixHeading text = true ∧ (fence ≠ none ∨ text ≠ matrixHeading)) .boundary
    (units "artifact.matrixHeading") "matrix heading is fenced or has ambiguous spelling/level"
  return ⟨isMatrixHeading text, isBoundary fence text⟩

/-- The marks of the lines, and the fence after them. -/
def markLines : Fence → List Units → Reviewed (List Mark × Fence)
  | fence, [] => .ok ([], fence)
  | fence, text :: rest => do
    let mark ← markLine fence text
    let marks ← markLines (fenceAfter fence text) rest
    return (mark :: marks.1, marks.2)

/-- The places of the marks that satisfy `p`. -/
def places (p : Mark → Bool) (marks : List Mark) : List ℕ := (marks.zipIdx.filter fun m => p m.1).map (·.2)

/-! ## The plan -/

/-- `error.relatedErrors = …`. -/
structure PlanThrown where
  thrown : Thrown
  relatedErrors : List ReviewContractError
  deriving DecidableEq

structure ReviewMatrixPlan where
  source : Units
  authorityBytes : Bytes
  digest : Units
  matrix : ReviewMatrix
  preambleBytes : Bytes
  deriving DecidableEq

def plain {α : Type} (x : Reviewed α) : Except PlanThrown α := x.mapError fun thrown => ⟨thrown, []⟩

/-- `input.slice(start, stop)`. -/
def slice (input : Bytes) (start stop : ℕ) : Bytes := (input.take stop).drop start

/-- Where a line starts. -/
def startOf (all : List Line) (index : ℕ) : ℕ := (all[index]?.map (·.start)).getD 0

/-- `` /^```(?:bash|sh|shell)$/ ``. -/
def isShellFence (text : Units) : Bool := [units "```bash", units "```sh", units "```shell"].contains text

/-- `/^(?:\*\*)?Matrix Source:/`. -/
def isSourceLine (text : Units) : Bool :=
  (units "Matrix Source:").isPrefixOf text || (units "**Matrix Source:").isPrefixOf text

/-- Where the JSON of a section is. -/
def payloadRange (lines : List Line) : Reviewed (ℕ × ℕ) := do
  let delimiters := lines.filter fun line => (fenceMarker line.text).isSome
  failIf (delimiters = [] ∨ (delimiters.any (·.text == units "```json") = false ∧
      delimiters.any (fun line => isShellFence line.text) = true)) .legacyMigration (units "artifact.matrix")
    "legacy prose/inline/fenced-shell commands require a new versioned JSON matrix"
  match delimiters with
  | [first, last] => do
    failIf (first.text ≠ units "```json" ∨ last.text ≠ units "```") .fence (units "artifact.matrix")
      "requires exactly one unambiguous json fence"
    return (first.stop, last.start)
  | _ => fail .fence (units "artifact.matrix") "requires exactly one unambiguous json fence"

/-- The source of a section, against the selected source. -/
def checkSource (lines : List Line) (matrix : ReviewMatrix) (source : Units) : Reviewed Unit := do
  failIf ((lines.filter fun line => isSourceLine line.text).map (·.text) ≠ [units "Matrix Source: " ++ source]) .binding
    (units "artifact.matrixSource") "matrix source line must agree exactly with the selected prefixed source"
  failIf (matrix.source ≠ source) .binding (units "matrix.source")
    "does not agree exactly with selected ticket/objective/approval/repository evidence"

section

variable (double : Units → Number) (sha256 : Bytes → Units)

/-- `parseReviewMatrix(payload)`; an error also has all errors of the matrix. -/
def parsePayload (payload : Bytes) : Except PlanThrown ReviewMatrix :=
  (parseReviewMatrix double (.bytes payload)).mapError fun thrown =>
    ⟨thrown, (outcome (inspectReviewMatrix double (.bytes payload)) []).2⟩

/-- The matrix in the lines of a section. -/
def parseSection (input : Bytes) (lines : List Line) (source : Units) : Except PlanThrown ReviewMatrix := do
  let range ← plain (payloadRange lines)
  let matrix ← parsePayload double (slice input range.1 range.2)
  plain (checkSource lines matrix source)
  return matrix

/-- The line of the matrix heading, and the line of the heading after its section. -/
def boundaries (all : List Line) : Reviewed (ℕ × ℕ) := do
  let marks ← markLines none (all.map (·.text))
  failIf (marks.2 ≠ none) .fence (units "artifact") "contains an unclosed Markdown fence"
  match places Mark.isMatrix marks.1 with
  | [start] =>
    match (places Mark.isHeading marks.1).find? (start < ·) with
    | some terminal => return (start, terminal)
    | none => fail .boundary (units "artifact.matrixBoundary") "requires a following level-1-to-3 heading"
  | _ => fail .boundary (units "artifact.matrixHeading") "requires exactly one Full Validation Matrix heading"

/-- Raw plan syntax and authority bytes only; no approval-header claim. -/
def parseReviewMatrixPlan (input : Bytes) (source : Units) : Except PlanThrown ReviewMatrixPlan := do
  let _ ← plain (parseReviewMatrixSource (some (.str source)))
  let _ ← plain (text (.bytes input) maxReviewArtifactBytes (units "artifact"))
  let all := lines input
  let range ← plain (boundaries all)
  let authorityBytes := slice input (startOf all range.1) (startOf all range.2)
  let matrix ← parseSection double input ((all.take range.2).drop (range.1 + 1)) source
  return { source, authorityBytes, digest := sha256 authorityBytes, matrix,
           preambleBytes := slice input 0 (startOf all range.1) }

end

end PaPlatform.Validation.Review
