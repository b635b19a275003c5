/-
  The streaming auditor (`StreamingPiRedactionAuditor`).

  A line of at most 8192 units is judged whole; a longer one is given to matchers
  that go on from chunk to chunk.
-/
import PaPlatform.Diagnostics.Rules
import PaPlatform.Lib.Utf8

namespace PaPlatform.Diagnostics

open Js Js.Units

open Value (isHigh isLow)

def maxStreamLine : ℕ := 8192

/-! ## The matchers -/

structure MatchCapture where
  text : Units
  length : ℕ
  deriving DecidableEq

namespace MatchCapture

def empty : MatchCapture := ⟨[], 0⟩

def append (c : MatchCapture) (value : Units) : MatchCapture where
  text := if c.text.length < maxMatchedText then c.text ++ value.take (maxMatchedText - c.text.length) else c.text
  length := c.length + value.length

def toMatch (c : MatchCapture) (ruleId : PiRedactionRuleId) : PiRedactionMatch :=
  ⟨ruleId, c.text, c.length, maxMatchedText < c.length⟩

end MatchCapture

/-- `for (const character of value)`: the characters of a chunk, of one unit or a surrogate pair. -/
def characters : Units → List Units
  | [] => []
  | [u] => [[u]]
  | u :: v :: rest => if isHigh u && isLow v then [u, v] :: characters rest else [u] :: characters (v :: rest)

/-- Drop units from the front until the text is accepted or empty. -/
def shrink (accepted : Units → Bool) : Units → Units
  | [] => []
  | u :: rest => if accepted (u :: rest) then u :: rest else shrink accepted rest

/-- `character.toLowerCase()`.  It is compared with ASCII texts only, so a character is kept
    when its lower case has no ASCII letter. -/
def lowerUnit (u : UInt16) : Units :=
  if u = 0x212a then [unit 'k'] else if u = 0x130 then [unit 'i', 0x307] else [lower u]

def lowerCase (s : Units) : Units := s.flatMap lowerUnit

inductive TokenRuleKind where
  | credential
  | bearer
  | sk
  | reasoning
  | json
  deriving DecidableEq

/-- An ASCII text that is neither empty nor long. -/
def isKeyword (keyword : Units) : Bool := keyword != [] && keyword.length ≤ maxMatchedText && keyword.all (· < 0x80)

structure TokenRule where
  ruleId : PiRedactionRuleId
  keywords : List Units
  kind : TokenRuleKind
  keywords_ok : keywords.all isKeyword = true

inductive Quote where
  | double
  | single
  deriving DecidableEq

def Quote.text : Quote → Units
  | double => [unit '"']
  | single => [unit '\'']

/-- The state of a matcher for a rule, with the fields that are set in it. -/
inductive TokenRuleState where
  | keyPrefix (candidate : Units)
  | afterKey (capture : MatchCapture)
  | spacing (capture : MatchCapture)
  | afterDelimiter (capture : MatchCapture)
  | value (capture : MatchCapture)
  | quotedValue (capture : MatchCapture) (quote : Quote) (escaped : Bool)
  deriving DecidableEq

def isWhitespace (character : Units) : Bool := character.any Units.isSpace

def isWordCharacter (character : Units) : Bool := character.any isWordOrHyphen

namespace TokenRule

variable (rule : TokenRule)

/-- A step gives the next state and the matches that it emits. -/
abbrev Step := TokenRuleState × List PiRedactionMatch

def start : TokenRuleState := .keyPrefix []

def consumePrefix (candidate character : Units) : Step :=
  let candidate := shrink (fun s => rule.keywords.any (lowerCase s).isPrefixOf) (candidate ++ character)
  if rule.keywords.contains (lowerCase candidate) then (.afterKey (MatchCapture.empty.append candidate), [])
  else (.keyPrefix candidate, [])

/-- `abandon`, then the character again. -/
def abandon (character : Units) : Step := rule.consumePrefix [] character

def consumeSpacing (capture : MatchCapture) (character : Units) : Step :=
  match rule.kind with
  | .reasoning | .json =>
    if isWhitespace character then (.spacing (capture.append character), [])
    else if character = [unit ':'] ∨ rule.kind = .reasoning ∧ character = [unit '='] then
      (.afterDelimiter (capture.append character), [])
    else rule.abandon character
  | _ =>
    if isWhitespace character then (.spacing (capture.append character), [])
    else if rule.kind = .credential ∧ (character = [unit ':'] ∨ character = [unit '=']) then
      (.afterDelimiter (capture.append character), [])
    else (.value (capture.append character), [])

def consumeAfterKey (capture : MatchCapture) (character : Units) : Step :=
  match rule.kind with
  | .sk => if isWordCharacter character then (.value (capture.append character), []) else rule.abandon character
  | .bearer => if isWhitespace character then (.spacing (capture.append character), []) else rule.abandon character
  | .credential | .json =>
    if isWhitespace character then (.spacing (capture.append character), [])
    else if character = [unit ':'] ∨ rule.kind = .credential ∧ character = [unit '='] then
      (.afterDelimiter (capture.append character), [])
    else rule.abandon character
  | .reasoning =>
    if character = Quote.double.text ∨ character = Quote.single.text then (.spacing (capture.append character), [])
    else rule.consumeSpacing capture character

/-- The quote that a quoted value begins with. -/
def quoteOf (character : Units) : Option Quote :=
  if rule.kind = .reasoning ∨ rule.kind = .json then [Quote.double, .single].find? (·.text == character) else none

def consumeAfterDelimiter (capture : MatchCapture) (character : Units) : Step :=
  if isWhitespace character then (.afterDelimiter (capture.append character), [])
  else
    match rule.quoteOf character with
    | some quote => (.quotedValue (capture.append character) quote false, [])
    | none => (.value (capture.append character), [])

def consumeValue (capture : MatchCapture) (character : Units) : Step :=
  if if rule.kind = .sk then isWordCharacter character else !isWhitespace character then
    (.value (capture.append character), [])
  else
    -- `finish`, then the character again
    let next := rule.consumePrefix [] character
    (next.1, capture.toMatch rule.ruleId :: next.2)

def consumeQuotedValue (capture : MatchCapture) (quote : Quote) (escaped : Bool) (character : Units) : Step :=
  let capture := capture.append character
  if escaped then (.quotedValue capture quote false, [])
  else if character = [unit '\\'] then (.quotedValue capture quote true, [])
  else if character = quote.text then (start, [capture.toMatch rule.ruleId])
  else (.quotedValue capture quote escaped, [])

def consume : TokenRuleState → Units → Step
  | .keyPrefix candidate, character => rule.consumePrefix candidate character
  | .afterKey capture, character => rule.consumeAfterKey capture character
  | .spacing capture, character => rule.consumeSpacing capture character
  | .afterDelimiter capture, character => rule.consumeAfterDelimiter capture character
  | .value capture, character => rule.consumeValue capture character
  | .quotedValue capture quote escaped, character => rule.consumeQuotedValue capture quote escaped character

/-- The match at the end of a line. -/
def finish : TokenRuleState → List PiRedactionMatch
  | .value capture | .quotedValue capture _ _ => [capture.toMatch rule.ruleId]
  | _ => []

end TokenRule

/-- A matcher with its state: the tail of a literal text, or the state of a rule. -/
inductive Matcher where
  | literal (text tail : Units)
  | token (rule : TokenRule) (state : TokenRuleState)

namespace Matcher

/-- The loop over one character. -/
def consume : Matcher → Units → Matcher × List PiRedactionMatch
  | .literal text tail, character =>
    let tail := shrink (·.isPrefixOf text) (tail ++ character)
    if tail = text then (.literal text [], [toMatch .configuredValue text]) else (.literal text tail, [])
  | .token rule state, character => ((.token rule (rule.consume state character).1), (rule.consume state character).2)

/-- The loop over characters. -/
def consumeAll : Matcher → List Units → Matcher × List PiRedactionMatch
  | m, [] => (m, [])
  | m, character :: rest =>
    let next := m.consume character
    let last := next.1.consumeAll rest
    (last.1, next.2 ++ last.2)

def push (m : Matcher) (value : Units) : Matcher × List PiRedactionMatch := m.consumeAll (characters value)

/-- What `flush` emits. -/
def flush : Matcher → List PiRedactionMatch
  | .literal _ _ => []
  | .token rule state => rule.finish state

def reset : Matcher → Matcher
  | .literal text _ => .literal text []
  | .token rule _ => .token rule TokenRule.start

def bufferedCharacterCount : Matcher → ℕ
  | .literal _ tail => tail.length
  | .token _ (.keyPrefix candidate) => candidate.length
  | .token _ (.afterKey capture) | .token _ (.spacing capture) | .token _ (.afterDelimiter capture)
  | .token _ (.value capture) | .token _ (.quotedValue capture _ _) => capture.text.length

end Matcher

/-! ## The auditor -/

structure Auditor where
  line : Units
  incremental : Bool
  matchers : List Matcher
  /-- What is recorded so far. -/
  recorded : List PiRedactionMatch

def shapedKeys : List Units := ["token", "secret", "password", "api_key", "api-key", "apikey", "authorization"].map units

def tokenRules : List TokenRule :=
  [⟨.credentialShapedText, shapedKeys, .credential, rfl⟩, ⟨.bearer, [units "bearer"], .bearer, rfl⟩,
    ⟨.skValue, [units "sk-"], .sk, rfl⟩,
    ⟨.reasoningSignature, ["thinking_signature", "thinking-signature", "thinkingsignature"].map units, .reasoning, rfl⟩,
    ⟨.encryptedContent, ["encrypted_content", "encrypted-content", "encryptedcontent"].map units, .reasoning, rfl⟩,
    ⟨.credentialNamedKey, shapedKeys.map fun key => unit '"' :: (key ++ [unit '"']), .json, rfl⟩]

namespace Auditor

def create (configured : List Units) : Auditor where
  line := []
  incremental := false
  matchers := (configured.filter (· ≠ [])).map (.literal · []) ++ tokenRules.map (.token · TokenRule.start)
  recorded := []

def bufferedCharacterCount (a : Auditor) : ℕ := a.line.length + (a.matchers.map (·.bufferedCharacterCount)).sum

def pushIncremental (a : Auditor) (value : Units) : Auditor :=
  { a with matchers := a.matchers.map fun m => (m.push value).1,
           recorded := a.recorded ++ a.matchers.flatMap fun m => (m.push value).2 }

def resetIncremental (a : Auditor) : Auditor :=
  { a with matchers := a.matchers.map (·.reset), incremental := false, line := [] }

/-- The line so far is given to the matchers. -/
def startIncremental (a : Auditor) : Auditor := { a.pushIncremental a.line with incremental := true, line := [] }

def pushLinePart (a : Auditor) (part : Units) : Auditor :=
  if part = [] then a
  else if a.incremental then a.pushIncremental part
  else if part.length ≤ maxStreamLine - a.line.length then { a with line := a.line ++ part }
  else a.startIncremental.pushIncremental part

/-- The matchers are flushed and reset. -/
def flushIncremental (a : Auditor) : Auditor :=
  { a with recorded := a.recorded ++ a.matchers.flatMap Matcher.flush }.resetIncremental

section

variable (double : Units → Number) (configured : List Units)

/-- The line is judged whole. -/
def observe (a : Auditor) (line : Units) : Auditor :=
  { a with recorded := a.recorded ++ detectPiRedactionMatches double line configured, line := [] }

/-- A line feed. -/
def endLine (a : Auditor) : Auditor :=
  if a.incremental then (a.pushIncremental [0x0a]).flushIncremental else a.observe double configured (a.line ++ [0x0a])

/-- The parts of a chunk between its line feeds. -/
def pushParts : Auditor → List Units → Auditor
  | a, [] => a
  | a, [part] => a.pushLinePart part
  | a, part :: parts => pushParts ((a.pushLinePart part).endLine double configured) parts

def push (a : Auditor) (chunk : Units) : Auditor := a.pushParts double configured (chunk.splitOn 0x0a)

def flush (a : Auditor) : Auditor :=
  if a.incremental then a.flushIncremental
  else if a.line ≠ [] then a.observe double configured a.line
  else a

/-- The chunks are pushed. -/
def pushAll (chunks : List Units) : Auditor := chunks.foldl (push double configured) (create configured)

end

end Auditor

end PaPlatform.Diagnostics
