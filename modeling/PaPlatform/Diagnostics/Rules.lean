/-
  The rules of the redaction audit (`diagnostics.ts`).

  A text that is an object or an array is judged by its keys and its strings; any
  other text is judged as it is, by regular expressions.
-/
import PaPlatform.Lib.JsonText
import PaPlatform.Lib.Pattern

namespace PaPlatform.Diagnostics

open Js Js.Units

def maxMatchedText : ℕ := 2000

inductive PiRedactionRuleId where
  | configuredValue
  | credentialShapedText
  | credentialNamedKey
  | bearer
  | skValue
  | reasoningSignature
  | encryptedContent
  deriving DecidableEq, Inhabited

structure PiRedactionMatch where
  ruleId : PiRedactionRuleId
  matchedText : Units
  originalLength : ℕ
  truncated : Bool
  deriving DecidableEq, Inhabited

def toMatch (ruleId : PiRedactionRuleId) (matchedText : Units) : PiRedactionMatch where
  ruleId := ruleId
  matchedText := matchedText.take maxMatchedText
  originalLength := matchedText.length
  truncated := maxMatchedText < matchedText.length

/-! ## The patterns -/

/-- A text without regard to case, of ASCII letters in lower case. -/
def letters : Units → Pattern
  | [] => .empty
  | [u] => .unit fun v => lower v == u
  | u :: rest => .seq (.unit fun v => lower v == u) (letters rest)

/-- `thinking[_-]?signature`, of two words. -/
def joined (left right : String) : Pattern :=
  .chain [letters (units left), .opt (.unit fun u => u == unit '_' || u == unit '-'), letters (units right)]

/-- `.` of a regular expression. -/
def isDot (u : UInt16) : Bool := !(u == 0x0a || u == 0x0d || u == 0x2028 || u == 0x2029)

def isQuote (u : UInt16) : Bool := u == unit '"' || u == unit '\''

def spaces : Pattern := .star (.unit Units.isSpace)

def visible : Pattern := .plus (.unit fun u => !Units.isSpace u)

/-- `"(?:\\.|[^"\\])*"?`, of a quote. -/
def quoted (quote : UInt16) : Pattern :=
  .chain [.unit (· == quote),
    .star (.alt (.seq (.unit (· == unit '\\')) (.unit isDot)) (.unit fun u => u != quote && u != unit '\\')),
    .opt (.unit (· == quote))]

/-- A name with its value. -/
def reasoningPattern (name : Pattern) : Pattern :=
  .chain [name, .opt (.unit isQuote), spaces, .unit (fun u => u == unit ':' || u == unit '='), spaces,
    .anyOf [quoted (unit '"'), quoted (unit '\''), visible]]

def secretKey : Pattern :=
  .anyOf [letters (units "token"), letters (units "secret"), letters (units "password"), joined "api" "key",
    letters (units "authorization")]

def reasoningKey : Pattern := joined "thinking" "signature"

def encryptedKey : Pattern := joined "encrypted" "content"

def credentialPattern : Pattern :=
  .chain [secretKey, spaces, .unit (fun u => u == unit ':' || u == unit '=' || Units.isSpace u), spaces, visible]

def bearerPattern : Pattern := .chain [letters (units "bearer"), .plus (.unit Units.isSpace), visible]

/-- `[\w-]`. -/
def isWordOrHyphen (u : UInt16) : Bool := Units.isAlnum u || u == unit '_' || u == unit '-'

def skPattern : Pattern := .seq (letters (units "sk-")) (.plus (.unit isWordOrHyphen))

def textRules : List (PiRedactionRuleId × Pattern) :=
  [(.reasoningSignature, reasoningPattern reasoningKey), (.encryptedContent, reasoningPattern encryptedKey),
    (.credentialShapedText, credentialPattern), (.bearer, bearerPattern), (.skValue, skPattern)]

/-! ## Texts -/

/-- The matches in a text from left to right, after `skip` units: `find` is the length of the match
    at the start of a text. -/
def matchesFrom (find : Units → Option ℕ) : ℕ → Units → List Units
  | _, [] => []
  | skip + 1, _ :: rest => matchesFrom find skip rest
  | 0, u :: rest =>
    match find (u :: rest) with
    | some (length + 1) => (u :: rest).take (length + 1) :: matchesFrom find length rest
    | _ => matchesFrom find 0 rest

def occurrences (part s : Units) : List Units := matchesFrom (findPart part) 0 s

/-- A value of a reasoning or an encrypted member, with its rule. -/
abbrev ReasoningValue := PiRedactionRuleId × Units

def detectText (value : Units) (configured : List Units) (reasoningValues : List ReasoningValue) :
    List PiRedactionMatch :=
  (configured.flatMap fun secret => (occurrences secret value).map (toMatch .configuredValue)) ++
    (reasoningValues.flatMap fun reasoning => (occurrences reasoning.2 value).map (toMatch reasoning.1)) ++
    textRules.flatMap fun rule => (matchesFrom rule.2.find 0 value).map (toMatch rule.1)

/-! ## Structured values -/

/-- The rule of a key whose value is not shown. -/
def reasoningRule (key : Units) : Option PiRedactionRuleId :=
  if reasoningKey.full key then some .reasoningSignature
  else if encryptedKey.full key then some .encryptedContent
  else none

/-- `pattern.test(key)`. -/
def test (pattern : Pattern) (key : Units) : Bool := key.tails.any fun rest => (pattern.find rest).isSome

/-- The rule of a key. -/
def keyRule (key : Units) : Option PiRedactionRuleId :=
  (reasoningRule key).or (if test secretKey key then some .credentialNamedKey else none)

def structuredMatchText (key : Units) (value : Value) : Units :=
  ((Value.obj [(key, value)]).stringify.drop 1).dropLast

mutual

def stringValues : Value → List Units
  | .str s => [s]
  | .arr items => stringValuesOfItems items
  | .obj fields => stringValuesOfFields fields
  | _ => []

def stringValuesOfItems : List Value → List Units
  | [] => []
  | x :: xs => stringValues x ++ stringValuesOfItems xs

def stringValuesOfFields : List (Units × Value) → List Units
  | [] => []
  | (_, x) :: fs => stringValues x ++ stringValuesOfFields fs

end

/-- Add the entries whose value is not found yet. -/
def addFound : List ReasoningValue → List ReasoningValue → List ReasoningValue
  | found, [] => found
  | found, entry :: entries =>
    addFound (if found.any (·.2 == entry.2) then found else found ++ [entry]) entries

section

variable (configured : List Units)

mutual

def sensitiveReasoningValues : Value → List ReasoningValue
  | .arr items => sensitiveOfItems items
  | .obj fields => sensitiveOfFields [] fields
  | _ => []

def sensitiveOfItems : List Value → List ReasoningValue
  | [] => []
  | x :: xs => sensitiveReasoningValues x ++ sensitiveOfItems xs

/-- The members of an object, after those with the values `found`. -/
def sensitiveOfFields : List ReasoningValue → List (Units × Value) → List ReasoningValue
  | found, [] => found
  | found, (key, item) :: fs =>
    match reasoningRule key with
    | some ruleId => sensitiveOfFields (addFound found
        (((stringValues item).filter fun text => text != [] && !configured.contains text).map (ruleId, ·))) fs
    | none => sensitiveOfFields (addFound found (sensitiveReasoningValues item)) fs

end

variable (reasoningValues : List ReasoningValue)

mutual

/-- The values of a parsed text are distinct objects, so that `seen` never holds one of them. -/
def visitDetectorValue : Value → List PiRedactionMatch
  | .str s => detectText s configured reasoningValues
  | .arr items => visitItems items
  | .obj fields => visitFields fields
  | _ => []

def visitItems : List Value → List PiRedactionMatch
  | [] => []
  | x :: xs => visitDetectorValue x ++ visitItems xs

def visitFields : List (Units × Value) → List PiRedactionMatch
  | [] => []
  | (key, item) :: fs =>
    (match keyRule key with
      | some ruleId => [toMatch ruleId (structuredMatchText key item)]
      | none => visitDetectorValue item) ++ visitFields fs

end

end

/-- An object or an array. -/
def isStructured : Value → Bool
  | .arr _ | .obj _ => true
  | _ => false

/-- The matches in a text. -/
def detectPiRedactionMatches (double : Units → Number) (value : Units) (configured : List Units) : List PiRedactionMatch :=
  let activeConfigured := configured.filter (· ≠ [])
  match (Value.parse double value).filter isStructured with
  | some structured =>
    visitDetectorValue activeConfigured (sensitiveReasoningValues activeConfigured structured) structured
  | none => detectText value activeConfigured []

end PaPlatform.Diagnostics
