/-
  `parseReviewEvidenceJson` of `validation/review-contract.ts`: a reader of JSON
  that rejects what is not UTF-8, duplicate keys and deep nesting.

  How the text of a number that is not a plain safe integer is rounded is left
  to the platform (`double`).
-/
import PaPlatform.Lib.Json
import PaPlatform.Lib.Text

namespace PaPlatform.Workflow

open Js

/-- `ws`. -/
def skipWhite (s : List Char) : List Char := s.dropWhile fun c => c == '\t' || c == '\r' || c == '\n' || c == ' '

/-! ## Strings -/

def hexValue (c : Char) : Option ℕ :=
  if isDigit c then some (c.toNat - 48)
  else if 'a' ≤ c ∧ c ≤ 'f' then some (c.toNat - 87)
  else if 'A' ≤ c ∧ c ≤ 'F' then some (c.toNat - 55)
  else none

/-- The unit of a `\u` escape, and the text after it. -/
def readUnit : List Char → Option (ℕ × List Char)
  | 'u' :: a :: b :: c :: d :: rest => do
    return (((← hexValue a) * 16 + (← hexValue b)) * 256 + (← hexValue c) * 16 + (← hexValue d), rest)
  | _ => none

/-- The character of an escape, and the text after it.  A surrogate counts only
    as a part of a pair. -/
def readEscape (s : List Char) : Option (Char × List Char) :=
  match s with
  | '"' :: rest => some ('"', rest)
  | '\\' :: rest => some ('\\', rest)
  | '/' :: rest => some ('/', rest)
  | 'b' :: rest => some (Char.ofNat 8, rest)
  | 'f' :: rest => some (Char.ofNat 12, rest)
  | 'n' :: rest => some ('\n', rest)
  | 'r' :: rest => some ('\r', rest)
  | 't' :: rest => some ('\t', rest)
  | _ => do
    let (high, rest) ← readUnit s
    if high < 0xd800 ∨ 0xe000 ≤ high then some (Char.ofNat high, rest)
    else
      match rest with
      | '\\' :: rest => do
        let (low, rest) ← readUnit rest
        if high < 0xdc00 ∧ 0xdc00 ≤ low ∧ low < 0xe000 then
          some (Char.ofNat (0x10000 + (high - 0xd800) * 0x400 + (low - 0xdc00)), rest)
        else none
      | _ => none

/-- A string up to its closing quote, and the text after it. -/
def readString : ℕ → List Char → Option (List Char × List Char)
  | 0, _ => none
  | _ + 1, [] => none
  | n + 1, c :: rest =>
    if c = '"' then some ([], rest)
    else if c = '\\' then do
      let (char, rest) ← readEscape rest
      let (chars, rest) ← readString n rest
      return (char :: chars, rest)
    else if c.toNat < 32 then none
    else do
      let (chars, rest) ← readString n rest
      return (c :: chars, rest)

/-! ## Numbers -/

/-- `(?:\.[0-9]+)?`. -/
def readFraction : List Char → List Char × List Char
  | '.' :: rest =>
    if (rest.takeWhile isDigit).isEmpty then ([], '.' :: rest)
    else ('.' :: rest.takeWhile isDigit, rest.dropWhile isDigit)
  | s => ([], s)

/-- `(?:[eE][+-]?[0-9]+)?`. -/
def readExponent (s : List Char) : List Char × List Char :=
  match s with
  | [] => ([], [])
  | e :: rest =>
    let sign := rest.takeWhile fun c => c == '+' || c == '-'
    let digits := (rest.drop sign.length).takeWhile isDigit
    if (e = 'e' ∨ e = 'E') ∧ sign.length ≤ 1 ∧ digits ≠ [] then
      (e :: sign ++ digits, rest.drop (sign.length + digits.length))
    else ([], s)

section
variable (double : String → Json)

/-- `-?(?:0|[1-9][0-9]*)` with a fraction and an exponent. -/
def readNumber (s : List Char) : Option (Json × List Char) :=
  let sign := s.take 1 |>.filter (· == '-')
  let unsigned := s.drop sign.length
  let integral := if unsigned.head? = some '0' then ['0'] else unsigned.takeWhile isDigit
  if integral = [] then none
  else
    let (fraction, rest) := readFraction (unsigned.drop integral.length)
    let (exponent, rest) := readExponent rest
    let n := Nat.ofDigits 10 (integral.map fun c => c.toNat - 48).reverse
    if fraction = [] ∧ exponent = [] ∧ n < 2 ^ 53 then some (.num (if sign = [] then n else -n), rest)
    else some (double (String.ofList (sign ++ integral ++ fraction ++ exponent)), rest)

/-- `true`, `false`, `null` or a number. -/
def readToken (s : List Char) : Option (Json × List Char) :=
  if "true".toList.isPrefixOf s then some (.bool true, s.drop 4)
  else if "false".toList.isPrefixOf s then some (.bool false, s.drop 5)
  else if "null".toList.isPrefixOf s then some (.null, s.drop 4)
  else readNumber double s

/-! ## Values -/

mutual

/-- `value`: a value inside `depth` brackets, and the text after it. -/
def readValue : ℕ → ℕ → List Char → Option (Json × List Char)
  | 0, _, _ => none
  | n + 1, depth, s =>
    if 64 < depth then none
    else
      match skipWhite s with
      | '"' :: rest => do
        let (chars, rest) ← readString (rest.length + 1) rest
        return (.str (String.ofList chars), rest)
      | '\x7b' :: rest =>
        match skipWhite rest with
        | '\x7d' :: rest => some (.obj [], rest)
        | rest => readFields n depth [] rest
      | '[' :: rest =>
        match skipWhite rest with
        | ']' :: rest => some (.arr [], rest)
        | rest => readItems n depth [] rest
      | s => readToken double s

/-- The fields of an object after `row`. -/
def readFields : ℕ → ℕ → List (String × Json) → List Char → Option (Json × List Char)
  | 0, _, _, _ => none
  | n + 1, depth, row, s =>
    match skipWhite s with
    | '"' :: rest => do
      let (chars, rest) ← readString (rest.length + 1) rest
      let key := String.ofList chars
      match skipWhite rest with
      | ':' :: rest =>
        if (row.lookup key).isSome then none
        else do
          let (x, rest) ← readValue n (depth + 1) rest
          match skipWhite rest with
          | '\x7d' :: rest => some (.obj (row ++ [(key, x)]), rest)
          | ',' :: rest => readFields n depth (row ++ [(key, x)]) rest
          | _ => none
      | _ => none
    | _ => none

/-- The items of an array after `values`. -/
def readItems : ℕ → ℕ → List Json → List Char → Option (Json × List Char)
  | 0, _, _, _ => none
  | n + 1, depth, values, s => do
    let (x, rest) ← readValue n (depth + 1) s
    match skipWhite rest with
    | ']' :: rest => some (.arr (values ++ [x]), rest)
    | ',' :: rest => readItems n depth (values ++ [x]) rest
    | _ => none

end

/-- A text that is one JSON object. -/
def readJson (s : List Char) : Option Json :=
  if (s.dropWhile isSpace).head? = some '\x7b' then do
    let (x, rest) ← readValue double (s.length + 1) 0 s
    if skipWhite rest = [] then some x else none
  else none

/-- `strictJson`, with `MAX_WORKFLOW_BYTES`. -/
def strictJson (bytes : Bytes) : Option Json :=
  if 1048576 < bytes.length ∨ [0xef, 0xbb, 0xbf].isPrefixOf bytes then none
  else (String.fromUTF8? ⟨bytes.toArray⟩).bind fun text => readJson double text.toList

end

end PaPlatform.Workflow
