/-
  The reader of review evidence (`validation/review-contract.ts`): bounded UTF-8,
  then JSON without duplicate keys, lone surrogates and deep nesting.

  How the text of a number is rounded is left to the platform (`double`).
-/
import PaPlatform.Lib.JsonNumbers
import PaPlatform.Lib.Utf8Strict
import PaPlatform.Validation.Schema

namespace PaPlatform.Validation.Review

open Js Units Guard

/-! ## Errors -/

inductive ReviewContractErrorCode where
  | size | utf8 | json | duplicateKey | field | version | legacyMigration | source | io | boundary | fence | binding
  | profile | sensitive
  deriving DecidableEq

structure ReviewContractError where
  code : ReviewContractErrorCode
  diagnostic : ValidationDiagnostic
  deriving DecidableEq

def correction : ReviewContractErrorCode → String
  | .legacyMigration => "Publish a new versioned requirements artifact and obtain durable approval of its exact " ++
      "source and raw digest; preserve historical artifacts and accounting."
  | _ => "Provide the exact supported v1 field grammar and matching durable evidence; do not normalize or repair " ++
      "authority."

/-- `new ReviewContractError(code, source, reason)`. -/
def reviewContractError (code : ReviewContractErrorCode) (source reason : Units) : ReviewContractError where
  code
  diagnostic := {
    condition := units "protected review contract rejected"
    source
    reason
    correction := units (correction code)
    resumeAction := units ("Rerun observational preflight. Static compatibility is not launch authorization or a " ++
      "review-cap extension.") }

/-- What a call throws: `JSON.parse` has an error of its own. -/
inductive Thrown where
  | review (error : ReviewContractError)
  | syntaxError
  deriving DecidableEq

abbrev Reviewed (α : Type) := Except Thrown α

def fail {α : Type} (code : ReviewContractErrorCode) (path : Units) (reason : String) : Reviewed α :=
  .error (.review (reviewContractError code path (units reason)))

/-- `if (p) fail(code, path, reason)`. -/
def failIf (p : Prop) [Decidable p] (code : ReviewContractErrorCode) (path : Units) (reason : String) :
    Reviewed Unit :=
  throwIf p (.review (reviewContractError code path (units reason)))

/-! ## Text -/

inductive Input where
  | string (s : Units)
  | bytes (b : Bytes)

/-- `Buffer.from(input, "utf8")`. -/
def Input.toBytes : Input → Bytes
  | string s => encodeUtf8 s
  | bytes b => b

/-- The code points of a string have a surrogate. -/
def unpaired : Units → Bool
  | [] => false
  | [u] => isSurrogate u
  | u :: v :: rest => if Value.isHigh u && Value.isLow v then unpaired rest else isSurrogate u || unpaired (v :: rest)

def Input.unpaired : Input → Bool
  | string s => Review.unpaired s
  | bytes _ => false

def byteOrderMark : Bytes := [0xef, 0xbb, 0xbf]

def text (input : Input) (limit : ℕ) (path : Units) : Reviewed Units := do
  failIf (limit < input.toBytes.length) .size path (s!"must not exceed {limit} bytes")
  failIf (byteOrderMark.isPrefixOf input.toBytes = true) .utf8 path
    "UTF-8 BOM is not supported; authority must not be normalized"
  failIf (input.unpaired = true) .utf8 path "must not contain unpaired Unicode surrogates"
  match decodeStrict input.toBytes with
  | some s => return s
  | none => fail .utf8 path "must be valid UTF-8"

/-! ## JSON -/

def maxReviewObjectiveBytes : ℕ := 65536

def maxReviewArtifactBytes : ℕ := 1048576

/-- `Object.keys(REVIEW_ENVIRONMENT_BINDINGS)`, with the bindings. -/
def reviewEnvironmentBindings : List (String × String) :=
  [("PA_REPO", "worktreeRoot"), ("PA_FEATURE_SHA", "featureSha"), ("PA_MATRIX_SOURCE", "matrixSource"),
    ("PA_MATRIX_AUTHORITY_SHA256", "matrixAuthoritySha256"),
    ("PA_MATRIX_APPROVAL_EVIDENCE", "matrixApprovalEvidence"), ("PATH", "trustedPath")]

def reviewLiteralEnvironmentNames : List String := ["PA_TICKET_ID", "CI", "HOME", "LANG", "TZ"]

def jsonFields : List String :=
  ["schemaVersion", "ticket", "branch", "featureSha", "matrixSource", "matrixAuthoritySha256",
    "matrixApprovalEvidence", "reviewAuthorizationId", "prerequisiteEvidence", "source", "repository",
    "key", "root", "baseSha", "profile", "prerequisites", "kind", "os", "arch", "name", "version",
    "id", "environment", "binding", "literal", "commands", "command", "cwd", "timeoutSeconds",
    "maxOutputBytes", "commandCount", "outputs", "passCriteria", "completionPercent", "exitCode",
    "critical", "major", "minorRationaleRequired", "gateId", "installedRuntime", "binary",
    "packageName", "packageVersion", "sourceSha", "mergedConfigSha", "pap232Evidence", "pap235Evidence"] ++
    reviewEnvironmentBindings.map (·.1) ++ reviewLiteralEnvironmentNames

/-- `s.trimStart()`. -/
def trimStart (s : Units) : Units := s.dropWhile isSpace

open Value (skipSpace parseIntegral parseFraction parseExponent parse set)

/-- The rest of a string literal, with its closing quote. -/
def scan : Units → Option (Units × Units)
  | [] => none
  | u :: rest =>
    if u = 0x5c then
      match rest with
      | [] => none
      | v :: rest => (scan rest).map fun p => (u :: v :: p.1, p.2)
    else if u = 0x22 then some ([u], rest)
    else (scan rest).map fun p => (u :: p.1, p.2)

/-- `-?(?:0|[1-9][0-9]*)(?:\.[0-9]+)?(?:[eE][+-]?[0-9]+)?`. -/
def numberToken (s : Units) : Option (Units × Units) :=
  let sign : Units := if s.head? = some 0x2d then [0x2d] else []
  (parseIntegral (s.drop sign.length)).map fun i =>
    let fraction := (parseFraction i.2).getD ([], i.2)
    let exponent := (parseExponent fraction.2).getD ([], fraction.2)
    (sign ++ i.1 ++ fraction.1 ++ exponent.1, exponent.2)

/-- `true`, `false`, `null` or a number, as text. -/
def token (s : Units) : Option (Units × Units) :=
  if (units "true").isPrefixOf s then some (units "true", s.drop 4)
  else if (units "false").isPrefixOf s then some (units "false", s.drop 5)
  else if (units "null").isPrefixOf s then some (units "null", s.drop 4)
  else numberToken s

section

variable (double : Units → Number) (path : Units)

def malformed {α : Type} : Reviewed α := fail .json path "contains malformed JSON or excessive nesting"

/-- A string, after its opening quote. -/
def string (s : Units) : Reviewed (Units × Units) :=
  match scan s with
  | none => malformed path
  | some (literal, rest) =>
    match parse double (0x22 :: literal) with
    | some (.str value) => if unpaired value then malformed path else .ok (value, rest)
    | _ => malformed path

/-- `location[index]`. -/
def itemAt (location : Units) (index : ℕ) : Units := item location index

/-- The location of a member. -/
def safeChild (location key : Units) : Units :=
  let child := location ++ unit '.' :: (if (jsonFields.map units).contains key then key else units "fields")
  if child.length ≤ 256 then child else path ++ units ".nestedFields"

mutual

/-- `value(depth, location)`. -/
def value : ℕ → ℕ → Units → Units → Reviewed (Value × Units)
  | 0, _, _, _ => malformed path
  | fuel + 1, depth, location, s =>
    if 64 < depth then malformed path
    else
      match skipSpace s with
      | [] => malformed path
      | u :: rest =>
        if u = 0x22 then (string double path rest).map fun p => (.str p.1, p.2)
        else if u = 0x7b then
          match skipSpace rest with
          | 0x7d :: rest => .ok (.obj [], rest)
          | rest => do
            let row ← member fuel depth location [] rest
            let row ← members fuel depth location row.1 row.2
            return (.obj row.1, row.2)
        else if u = 0x5b then
          match skipSpace rest with
          | 0x5d :: rest => .ok (.arr [], rest)
          | rest => do
            let x ← value fuel (depth + 1) (itemAt location 0) rest
            let xs ← items fuel depth location 1 x.2
            return (.arr (x.1 :: xs.1), xs.2)
        else
          match token (u :: rest) with
          | none => malformed path
          | some (text, rest) =>
            match parse double text with
            | some x => .ok (x, rest)
            | none => .error .syntaxError

/-- The items of an array from an index. -/
def items : ℕ → ℕ → Units → ℕ → Units → Reviewed (List Value × Units)
  | 0, _, _, _, _ => malformed path
  | fuel + 1, depth, location, index, s =>
    match skipSpace s with
    | 0x5d :: rest => .ok ([], rest)
    | 0x2c :: rest => do
      let x ← value fuel (depth + 1) (itemAt location index) rest
      let xs ← items fuel depth location (index + 1) x.2
      return (x.1 :: xs.1, xs.2)
    | _ => malformed path

/-- A key and its value, added to a row. -/
def member : ℕ → ℕ → Units → List (Units × Value) → Units → Reviewed (List (Units × Value) × Units)
  | 0, _, _, _, _ => malformed path
  | fuel + 1, depth, location, row, s =>
    match skipSpace s with
    | 0x22 :: rest => do
      let key ← string double path rest
      match skipSpace key.2 with
      | 0x3a :: rest => do
        failIf (row.any (·.1 == key.1) = true) .duplicateKey (safeChild path location key.1)
          "contains a duplicate JSON object key"
        let x ← value fuel (depth + 1) (safeChild path location key.1) rest
        return (set key.1 x.1 row, x.2)
      | _ => malformed path
    | _ => malformed path

/-- The later members of an object. -/
def members : ℕ → ℕ → Units → List (Units × Value) → Units → Reviewed (List (Units × Value) × Units)
  | 0, _, _, _, _ => malformed path
  | fuel + 1, depth, location, row, s =>
    match skipSpace s with
    | 0x7d :: rest => .ok (row, rest)
    | 0x2c :: rest => do
      let row ← member fuel depth location row rest
      members fuel depth location row.1 row.2
    | _ => malformed path

end

end

section

variable (double : Units → Number)

/-- Bounded JSON reader: duplicate keys are rejected before object construction. -/
def json (input : Input) (limit : ℕ) (path : Units) : Reviewed Value := do
  let s ← text input limit path
  failIf ((trimStart s).head? ≠ some 0x7b) .legacyMigration path
    "requires one versioned JSON object, not legacy prose or Markdown"
  let result ← value double path (s.length + 1) 0 path s
  if skipSpace result.2 = [] then return result.1 else malformed path

def parseReviewEvidenceJson (input : Bytes) (source : Units) : Reviewed Value :=
  json double (.bytes input) maxReviewArtifactBytes source

end

/-! ## Strings -/

variable {double : Units → Number} {path : Units}

theorem unpaired_eq_false {s : Units} : unpaired s = false ↔ WellFormed s := by
  induction s using unpaired.induct with
  | case1 => exact ⟨fun _ => .nil, fun _ => rfl⟩
  | case2 u =>
    refine ⟨fun h => .unit h .nil, fun h => ?_⟩
    cases h with
    | unit hu _ => exact hu
  | case3 u v rest hp ih =>
    rw [unpaired, if_pos hp, ih]
    rw [Bool.and_eq_true] at hp
    refine ⟨fun h => .pair hp.1 hp.2 h, fun h => ?_⟩
    cases h with
    | unit hu _ => simp [isSurrogate, hp.1] at hu
    | pair _ _ hs => exact hs
  | case4 u v rest hp ih =>
    rw [unpaired, if_neg hp, Bool.or_eq_false_iff, ih]
    refine ⟨fun h => .unit h.1 h.2, fun h => ?_⟩
    cases h with
    | unit hu hs => exact ⟨hu, hs⟩
    | pair hu hv _ => exact absurd (by rw [hu, hv]; rfl) hp

theorem scan_cons {u : UInt16} {rest : Units} (h1 : u ≠ 0x5c) (h2 : u ≠ 0x22) :
    scan (u :: rest) = (scan rest).map fun p => (u :: p.1, p.2) := by
  rw [scan.eq_def]
  dsimp only
  rw [if_neg h1, if_neg h2]

theorem scan_quote {rest : Units} : scan (0x22 :: rest) = some ([0x22], rest) := by
  rw [scan.eq_def]
  rfl

theorem scan_escape {v : UInt16} {rest : Units} :
    scan (0x5c :: v :: rest) = (scan rest).map fun p => (0x5c :: v :: p.1, p.2) := by
  rw [scan.eq_def]
  rfl

theorem scan_append {s lit rest : Units} (h : scan s = some (lit, rest)) : s = lit ++ rest := by
  fun_induction scan s generalizing lit with
  | case1 => simp at h
  | case2 => simp at h
  | case3 v t ih =>
    simp only [Option.map_eq_some_iff, Prod.mk.injEq, Prod.exists] at h
    obtain ⟨lit', rest', hp, rfl, rfl⟩ := h
    rw [ih hp]
    rfl
  | case4 t =>
    simp only [Option.some.injEq, Prod.mk.injEq] at h
    rw [← h.1, h.2]
    rfl
  | case5 u t h1 h2 ih =>
    simp only [Option.map_eq_some_iff, Prod.mk.injEq, Prod.exists] at h
    obtain ⟨lit', rest', hp, rfl, rfl⟩ := h
    rw [ih hp]
    rfl

/-- A hexadecimal digit does not end a string. -/
theorem hexValue_ne {u : UInt16} {n : ℕ} (h : Value.hexValue u = some n) : u ≠ 0x5c ∧ u ≠ 0x22 := by
  constructor
  · rintro rfl
    simp [Value.hexValue, show isDigit 0x5c = false from rfl, show within 'a' 'f' 0x5c = false from rfl,
      show within 'A' 'F' 0x5c = false from rfl] at h
  · rintro rfl
    simp [Value.hexValue, show isDigit 0x22 = false from rfl, show within 'a' 'f' 0x22 = false from rfl,
      show within 'A' 'F' 0x22 = false from rfl] at h

theorem scan_hex {a b c d v : UInt16} {rest : Units} (h : Value.hexUnits a b c d = some v) :
    scan (a :: b :: c :: d :: rest) = (scan rest).map fun p => (a :: b :: c :: d :: p.1, p.2) := by
  simp only [Value.hexUnits, Option.bind_eq_bind, Option.bind_eq_some_iff] at h
  obtain ⟨_, ha, _, hb, _, hc, _, hd, _⟩ := h
  rw [scan_cons (hexValue_ne ha).1 (hexValue_ne ha).2, scan_cons (hexValue_ne hb).1 (hexValue_ne hb).2,
    scan_cons (hexValue_ne hc).1 (hexValue_ne hc).2, scan_cons (hexValue_ne hd).1 (hexValue_ne hd).2]
  simp only [Option.map_map, Function.comp_def]

theorem parseString_hex {a b c d : UInt16} {rest : Units} :
    Value.parseString (0x5c :: 0x75 :: a :: b :: c :: d :: rest) = (Value.hexUnits a b c d).bind fun v =>
      (Value.parseString rest).map fun p => (v :: p.1, p.2) := by
  rw [Value.parseString.eq_def]
  rfl

theorem parseString_short {rest : Units} (h : rest.length < 4) : Value.parseString (0x5c :: 0x75 :: rest) = none := by
  rw [Value.parseString.eq_def]
  rcases rest with _ | ⟨a, _ | ⟨b, _ | ⟨c, _ | ⟨d, rest⟩⟩⟩⟩
  · rfl
  · rfl
  · rfl
  · rfl
  · simp only [List.length_cons] at h
    omega

theorem short_of_ne {s : Units} (h : ∀ a b c d rest, s = a :: b :: c :: d :: rest → False) : s.length < 4 := by
  rcases s with _ | ⟨a, _ | ⟨b, _ | ⟨c, _ | ⟨d, s⟩⟩⟩⟩
  · exact Nat.zero_lt_succ 3
  · exact Nat.lt_of_sub_eq_succ rfl
  · exact Nat.lt_of_sub_eq_succ rfl
  · exact Nat.lt_of_sub_eq_succ rfl
  · exact absurd rfl (h a b c d s)

theorem parseString_quote {rest : Units} : Value.parseString (0x22 :: rest) = some ([], rest) := by
  rw [Value.parseString.eq_def]
  rfl

theorem parseString_letter {e : UInt16} {rest : Units} (he : e ≠ 0x75) :
    Value.parseString (0x5c :: e :: rest) = (Value.unescape e).bind fun v =>
      (Value.parseString rest).map fun p => (v :: p.1, p.2) := by
  rw [Value.parseString.eq_def]
  show (if e = 0x75 then _ else _) = _
  rw [if_neg he]

theorem parseString_control {u : UInt16} {rest : Units} (h1 : u ≠ 0x22) (h2 : u ≠ 0x5c) (h3 : u < 0x20) :
    Value.parseString (u :: rest) = none := by
  rw [Value.parseString.eq_def]
  dsimp only
  rw [if_neg h1, if_neg h2, if_pos h3]

/-- The literal that is scanned is the string that is parsed. -/
theorem parseString_scan {s lit rest : Units} (h : scan s = some (lit, rest)) :
    Value.parseString s = (Value.parseString lit).map fun q => (q.1, rest) := by
  induction s using Value.parseString.induct generalizing lit rest with
  | case1 => simp [scan] at h
  | case2 t =>
    rw [scan_quote] at h
    simp only [Option.some.injEq, Prod.mk.injEq] at h
    obtain ⟨rfl, rfl⟩ := h
    rw [parseString_quote, parseString_quote]
    rfl
  | case3 => simp [scan] at h
  | case4 a b c d t hq ih =>
    rw [scan_escape, Option.map_eq_some_iff] at h
    obtain ⟨⟨lit', rest'⟩, hp, h⟩ := h
    simp only [Prod.mk.injEq] at h
    obtain ⟨rfl, rfl⟩ := h
    cases hx : Value.hexUnits a b c d with
    | some v =>
      rw [scan_hex hx, Option.map_eq_some_iff] at hp
      obtain ⟨⟨lit'', rest''⟩, hp, h⟩ := hp
      simp only [Prod.mk.injEq] at h
      obtain ⟨rfl, rfl⟩ := h
      rw [parseString_hex, parseString_hex, hx, ih hp]
      simp only [Option.bind_some, Option.map_map, Function.comp_def]
    | none =>
      rw [parseString_hex, hx, Option.bind_none]
      have ha := scan_append hp
      rcases Nat.lt_or_ge lit'.length 4 with hl | hl
      · rw [parseString_short hl]
        rfl
      · rcases lit' with _ | ⟨a', _ | ⟨b', _ | ⟨c', _ | ⟨d', lit'⟩⟩⟩⟩ <;>
          simp only [List.length_cons, List.length_nil] at hl
        · omega
        · omega
        · omega
        · omega
        · simp only [List.cons_append, List.cons.injEq] at ha
          obtain ⟨rfl, rfl, rfl, rfl, -⟩ := ha
          rw [parseString_hex, hx]
          rfl
  | case5 t hne hq =>
    rw [scan_escape, Option.map_eq_some_iff] at h
    obtain ⟨⟨lit', rest'⟩, hp, h⟩ := h
    simp only [Prod.mk.injEq] at h
    obtain ⟨rfl, rfl⟩ := h
    have ht := short_of_ne hne
    have hl : lit'.length ≤ t.length := by
      rw [scan_append hp, List.length_append]
      omega
    rw [parseString_short ht, parseString_short (by omega)]
    rfl
  | case6 e t he hq ih =>
    rw [scan_escape, Option.map_eq_some_iff] at h
    obtain ⟨⟨lit', rest'⟩, hp, h⟩ := h
    simp only [Prod.mk.injEq] at h
    obtain ⟨rfl, rfl⟩ := h
    rw [parseString_letter he, parseString_letter he, ih hp]
    cases Value.unescape e with
    | none => rfl
    | some v => simp only [Option.bind_some, Option.map_map, Function.comp_def]
  | case7 u t h1 h2 h3 =>
    rw [scan_cons h2 h1, Option.map_eq_some_iff] at h
    obtain ⟨⟨lit', rest'⟩, hp, h⟩ := h
    simp only [Prod.mk.injEq] at h
    obtain ⟨rfl, rfl⟩ := h
    rw [parseString_control h1 h2 h3, parseString_control h1 h2 h3]
    rfl
  | case8 u t h1 h2 h3 ih =>
    rw [scan_cons h2 h1, Option.map_eq_some_iff] at h
    obtain ⟨⟨lit', rest'⟩, hp, h⟩ := h
    simp only [Prod.mk.injEq] at h
    obtain ⟨rfl, rfl⟩ := h
    rw [Value.parseString_plain h1 h2 h3, Value.parseString_plain h1 h2 h3, ih hp]
    simp only [Option.map_map, Function.comp_def]

theorem scan_of_parseString {s k rest : Units} (h : Value.parseString s = some (k, rest)) :
    ∃ lit, scan s = some (lit, rest) := by
  induction s using Value.parseString.induct generalizing k rest with
  | case1 => simp [Value.parseString] at h
  | case2 t =>
    simp only [parseString_quote, Option.some.injEq, Prod.mk.injEq] at h
    exact ⟨_, by rw [scan_quote, h.2]⟩
  | case3 => simp [Value.parseString] at h
  | case4 a b c d t hq ih =>
    simp only [parseString_hex, Option.bind_eq_some_iff, Option.map_eq_some_iff, Prod.mk.injEq, Prod.exists] at h
    obtain ⟨v, hx, k', rest', hp, rfl, rfl⟩ := h
    obtain ⟨lit, hs⟩ := ih hp
    exact ⟨_, by rw [scan_escape, scan_hex hx, hs]; rfl⟩
  | case5 t hne hq =>
    have ht := short_of_ne hne
    simp [parseString_short ht] at h
  | case6 e t he hq ih =>
    simp only [parseString_letter he, Option.bind_eq_some_iff, Option.map_eq_some_iff, Prod.mk.injEq,
      Prod.exists] at h
    obtain ⟨v, -, k', rest', hp, rfl, rfl⟩ := h
    obtain ⟨lit, hs⟩ := ih hp
    exact ⟨_, by rw [scan_escape, hs]; rfl⟩
  | case7 u t h1 h2 h3 => simp [parseString_control h1 h2 h3] at h
  | case8 u t h1 h2 h3 ih =>
    simp only [Value.parseString_plain h1 h2 h3, Option.map_eq_some_iff, Prod.mk.injEq, Prod.exists] at h
    obtain ⟨k', rest', hp, rfl, rfl⟩ := h
    obtain ⟨lit, hs⟩ := ih hp
    exact ⟨_, by rw [scan_cons h2 h1, hs]; rfl⟩

/-- What is scanned is a literal as a whole. -/
theorem scan_literal {s lit rest : Units} (h : scan s = some (lit, rest)) : scan lit = some (lit, []) := by
  fun_induction scan s generalizing lit with
  | case1 => simp at h
  | case2 => simp at h
  | case3 v t ih =>
    simp only [Option.map_eq_some_iff, Prod.mk.injEq, Prod.exists] at h
    obtain ⟨lit', rest', hp, rfl, rfl⟩ := h
    rw [scan_escape, ih hp]
    rfl
  | case4 t =>
    simp only [Option.some.injEq, Prod.mk.injEq] at h
    rw [← h.1, scan_quote]
  | case5 u t h1 h2 ih =>
    simp only [Option.map_eq_some_iff, Prod.mk.injEq, Prod.exists] at h
    obtain ⟨lit', rest', hp, rfl, rfl⟩ := h
    rw [scan_cons h1 h2, ih hp]
    rfl

/-- `JSON.parse` of a literal. -/
theorem parse_literal {s lit rest : Units} (h : scan s = some (lit, rest)) :
    parse double (0x22 :: lit) = (Value.parseString lit).map fun q => .str q.1 := by
  have hl := parseString_scan (scan_literal h)
  have hv : Value.parseValue double ((0x22 :: lit).length + 1) (0x22 :: lit) =
      (Value.parseString lit).map fun p => (.str p.1, p.2) := by
    rw [Value.parseValue]
    rfl
  rw [parse, hv, hl]
  cases Value.parseString lit <;> rfl

theorem string_eq_ok {s k rest : Units} :
    string double path s = .ok (k, rest) ↔ Value.parseString s = some (k, rest) ∧ WellFormed k := by
  unfold string
  cases hs : scan s with
  | none =>
    refine ⟨fun h => by simp [malformed, fail] at h, fun h => ?_⟩
    obtain ⟨lit, hl⟩ := scan_of_parseString h.1
    rw [hs] at hl
    cases hl
  | some p =>
    obtain ⟨lit, t⟩ := p
    dsimp only
    rw [parse_literal hs, parseString_scan hs]
    cases Value.parseString lit with
    | none => simp [malformed, fail]
    | some q =>
      dsimp only [Option.map_some]
      rw [← unpaired_eq_false]
      split_ifs with hu
      · simp only [malformed, fail, reduceCtorEq, Option.some.injEq, Prod.mk.injEq, false_iff, not_and]
        rintro ⟨rfl, -⟩
        rw [hu]
        decide
      · simp only [Except.ok.injEq, Option.some.injEq, Prod.mk.injEq]
        refine ⟨fun h => ⟨h, ?_⟩, And.left⟩
        rw [← h.1]
        exact Bool.not_eq_true _ ▸ hu

/-! ## Tokens -/

/-- A number is not over. -/
def Stuck (rest : Units) : Prop := ∃ u t, rest = u :: t ∧ (u = 0x2e ∨ u = 0x65 ∨ u = 0x45)

/-- The first unit of a number. -/
def Leads (t : Units) : Prop := ∃ u l, t = u :: l ∧ (isDigit u = true ∨ u = 0x2d)

/-- A token for a number is a number, and it is the one that is parsed unless it is
    not over. -/
theorem numberToken_eq_some {s t rest : Units} (h : numberToken s = some (t, rest)) :
    ∃ n, Value.parseNumber double t = some (n, []) ∧ Leads t ∧
      (Value.parseNumber double s = some (n, rest) ∨ Value.parseNumber double s = none ∧ Stuck rest) := by
  unfold numberToken at h
  simp only [Option.map_eq_some_iff, Prod.mk.injEq, Prod.exists] at h
  obtain ⟨i, s1, hi, rfl, rfl⟩ := h
  generalize hsign : (if s.head? = some 0x2d then [0x2d] else [] : Units) = sign at hi ⊢
  have hs : sign = [] ∨ sign = [0x2d] := by
    rw [← hsign]
    split_ifs
    · exact Or.inr rfl
    · exact Or.inl rfl
  have hparse : Value.parseNumber double s = Value.parseUnsigned double (sign ≠ []) (s.drop sign.length) := by
    rw [Value.parseNumber_eq, ← hsign]
    split_ifs <;> rfl
  obtain ⟨-, hd, hi'⟩ := Value.parseIntegral_eq_some hi
  have hleads : ∀ tail, Leads (sign ++ i ++ tail) := by
    intro tail
    obtain ⟨u, l, rfl, hu⟩ := hd
    rcases hs with rfl | rfl
    · exact ⟨u, l ++ tail, rfl, Or.inl hu⟩
    · exact ⟨0x2d, u :: (l ++ tail), rfl, Or.inr rfl⟩
  rw [hparse, Value.parseUnsigned_eq, hi, Option.bind_some]
  dsimp only
  cases hf : parseFraction s1 with
  | none =>
    obtain ⟨r, rfl⟩ := Value.parseFraction_eq_none hf
    have he : parseExponent (0x2e :: r) = some ([], 0x2e :: r) := rfl
    simp only [Option.getD_none, he, Option.getD_some]
    refine ⟨_, Value.parseNumber_token hs hi' hd (Or.inl rfl) (Or.inl rfl), ?_, Or.inr ⟨rfl, _, _, rfl, Or.inl rfl⟩⟩
    rw [List.append_assoc]
    exact hleads _
  | some f =>
    obtain ⟨f, s2⟩ := f
    have hff := Value.parseFraction_eq_some hf
    simp only [Option.getD_some, Option.bind_some]
    cases he : parseExponent s2 with
    | none =>
      obtain ⟨u, r, rfl, hu⟩ := Value.parseExponent_eq_none he
      simp only [Option.getD_none]
      refine ⟨_, Value.parseNumber_token hs hi' hd hff (Or.inl rfl), ?_, Or.inr ⟨rfl, u, r, rfl, Or.inr hu⟩⟩
      rw [List.append_assoc]
      exact hleads _
    | some e =>
      obtain ⟨e, s3⟩ := e
      simp only [Option.getD_some]
      refine ⟨_, Value.parseNumber_token hs hi' hd hff (Value.parseExponent_eq_some he), ?_, Or.inl rfl⟩
      rw [List.append_assoc]
      exact hleads _

theorem numberToken_of_parseNumber {s rest : Units} {n : Number} (h : Value.parseNumber double s = some (n, rest)) :
    ∃ t, numberToken s = some (t, rest) := by
  cases ht : numberToken s with
  | some p =>
    obtain ⟨m, -, -, hm | hm⟩ := @numberToken_eq_some double s p.1 p.2 ht
    · rw [h] at hm
      cases hm
      exact ⟨_, rfl⟩
    · rw [h] at hm
      cases hm.1
  | none =>
    unfold numberToken at ht
    rw [Option.map_eq_none_iff] at ht
    rw [Value.parseNumber_eq] at h
    split_ifs at h ht with hs
    · rw [Value.parseUnsigned_eq, show s.drop 1 = s.drop ([0x2d] : Units).length from rfl, ht] at h
      cases h
    · rw [Value.parseUnsigned_eq, show s = s.drop ([] : Units).length from rfl, ht] at h
      cases h

theorem not_isPrefixOf_of_leads {t word : Units} (h : Leads t)
    (hw : ∃ v l, word = v :: l ∧ isDigit v = false ∧ v ≠ 0x2d) : word.isPrefixOf t = false := by
  obtain ⟨u, l, rfl, hu⟩ := h
  obtain ⟨v, l', rfl, hv, hv'⟩ := hw
  rw [List.isPrefixOf_cons_cons, Bool.and_eq_false_iff, beq_eq_false_iff_ne]
  left
  rintro rfl
  rcases hu with hu | hu
  · rw [hv] at hu
    cases hu
  · exact hv' hu

theorem readToken_of_leads {t : Units} (h : Leads t) :
    Value.readToken double t = (Value.parseNumber double t).map fun p => (.num p.1, p.2) := by
  unfold Value.readToken
  rw [@not_isPrefixOf_of_leads t (units "null") h ⟨_, _, rfl, rfl, by decide⟩,
    @not_isPrefixOf_of_leads t (units "true") h ⟨_, _, rfl, rfl, by decide⟩,
    @not_isPrefixOf_of_leads t (units "false") h ⟨_, _, rfl, rfl, by decide⟩]
  rfl

theorem leads_ne {u : UInt16} (h : isDigit u = true ∨ u = 0x2d) :
    Value.isJsonSpace u = false ∧ u ≠ 0x22 ∧ u ≠ 0x5b ∧ u ≠ 0x7b := by
  rcases h with h | rfl
  · refine ⟨?_, ?_, ?_, ?_⟩
    · by_contra hs
      rw [Bool.not_eq_false] at hs
      simp only [Value.isJsonSpace, Bool.or_eq_true, beq_iff_eq, or_assoc] at hs
      rcases hs with rfl | rfl | rfl | rfl <;> exact absurd h (by decide)
    all_goals
      rintro rfl
      exact absurd h (by decide)
  · decide

theorem parse_number {t : Units} {n : Number} (h : Leads t) (hn : Value.parseNumber double t = some (n, [])) :
    parse double t = some (.num n) := by
  obtain ⟨u, l, rfl, hu⟩ := id h
  obtain ⟨hs, h1, h2, h3⟩ := leads_ne hu
  rw [Value.parse_eq, Value.members,
    Value.readValue_token (Value.skipSpace_cons hs) h1 h2 h3, readToken_of_leads h, hn]
  rfl

theorem parse_true : parse double (units "true") = some (.bool true) := rfl

theorem parse_false : parse double (units "false") = some (.bool false) := rfl

theorem parse_null : parse double (units "null") = some .null := rfl

/-- A word is one of its own. -/
theorem not_isPrefixOf_word {s v w : Units} (h : v.isPrefixOf s = true) (hvw : v.head? ≠ w.head?) (hv : v ≠ [])
    (hw : w ≠ []) : w.isPrefixOf s = false := by
  cases v with
  | nil => exact absurd rfl hv
  | cons a v =>
    cases w with
    | nil => exact absurd rfl hw
    | cons b w =>
      cases s with
      | nil => rfl
      | cons c s =>
        rw [List.isPrefixOf_cons_cons, Bool.and_eq_true, beq_iff_eq] at h
        rw [List.isPrefixOf_cons_cons, Bool.and_eq_false_iff, beq_eq_false_iff_ne]
        left
        rintro rfl
        exact hvw (by rw [h.1]; rfl)

/-- The tokens of a text: the three words, or a number. -/
theorem token_cases (s : Units) :
    (token s = some (units "true", s.drop 4) ∧ Value.readToken double s = some (.bool true, s.drop 4)) ∨
    (token s = some (units "false", s.drop 5) ∧ Value.readToken double s = some (.bool false, s.drop 5)) ∨
    (token s = some (units "null", s.drop 4) ∧ Value.readToken double s = some (.null, s.drop 4)) ∨
    (token s = numberToken s ∧
      Value.readToken double s = (Value.parseNumber double s).map fun p => (.num p.1, p.2)) := by
  unfold token Value.readToken
  by_cases h1 : (units "true").isPrefixOf s = true
  · have hn := not_isPrefixOf_word h1 (w := units "null") (by decide) (by decide) (by decide)
    rw [if_pos h1, hn, if_pos h1]
    exact Or.inl ⟨rfl, rfl⟩
  by_cases h2 : (units "false").isPrefixOf s = true
  · have hn := not_isPrefixOf_word h2 (w := units "null") (by decide) (by decide) (by decide)
    rw [if_neg h1, if_pos h2, hn, if_neg h1, if_pos h2]
    exact Or.inr (Or.inl ⟨rfl, rfl⟩)
  by_cases h3 : (units "null").isPrefixOf s = true
  · rw [if_neg h1, if_neg h2, if_pos h3, if_pos h3]
    exact Or.inr (Or.inr (Or.inl ⟨rfl, rfl⟩))
  · rw [if_neg h1, if_neg h2, if_neg h3, if_neg h3, if_neg h1, if_neg h2]
    exact Or.inr (Or.inr (Or.inr ⟨rfl, rfl⟩))

/-- A value without children. -/
def Scalar (x : Value) : Prop := x.merged = x ∧ x.height = 0 ∧ x.Distinct ∧ x.Paired

/-- `JSON.parse` of a token, which never throws. -/
theorem token_eq_some {s t rest : Units} (h : token s = some (t, rest)) :
    ∃ x, parse double t = some x ∧
      (Value.readToken double s = some (x, rest) ∨ Value.readToken double s = none ∧ Stuck rest) := by
  rcases @token_cases double s with ⟨ht, hr⟩ | ⟨ht, hr⟩ | ⟨ht, hr⟩ | ⟨ht, hr⟩
  · rw [ht] at h
    cases h
    exact ⟨_, parse_true, Or.inl hr⟩
  · rw [ht] at h
    cases h
    exact ⟨_, parse_false, Or.inl hr⟩
  · rw [ht] at h
    cases h
    exact ⟨_, parse_null, Or.inl hr⟩
  · rw [ht] at h
    obtain ⟨n, hn, hl, hs | ⟨hs, hstuck⟩⟩ := @numberToken_eq_some double _ _ _ h
    · exact ⟨_, parse_number hl hn, Or.inl (by rw [hr, hs]; rfl)⟩
    · exact ⟨_, parse_number hl hn, Or.inr ⟨by rw [hr, hs]; rfl, hstuck⟩⟩

theorem token_of_readToken {s rest : Units} {x : Value} (h : Value.readToken double s = some (x, rest)) :
    Scalar x ∧ ∃ t, token s = some (t, rest) ∧ parse double t = some x := by
  rcases @token_cases double s with ⟨ht, hr⟩ | ⟨ht, hr⟩ | ⟨ht, hr⟩ | ⟨ht, hr⟩
  · rw [hr] at h
    cases h
    exact ⟨⟨rfl, rfl, trivial, trivial⟩, _, ht, parse_true⟩
  · rw [hr] at h
    cases h
    exact ⟨⟨rfl, rfl, trivial, trivial⟩, _, ht, parse_false⟩
  · rw [hr] at h
    cases h
    exact ⟨⟨rfl, rfl, trivial, trivial⟩, _, ht, parse_null⟩
  · rw [hr, Option.map_eq_some_iff] at h
    obtain ⟨⟨n, r⟩, hn, h⟩ := h
    cases h
    obtain ⟨t, hs⟩ := numberToken_of_parseNumber hn
    obtain ⟨m, hm, hl, hp | ⟨hp, -⟩⟩ := @numberToken_eq_some double _ _ _ hs
    · rw [hn] at hp
      cases hp
      exact ⟨⟨rfl, rfl, trivial, trivial⟩, t, ht.trans hs, parse_number hl hm⟩
    · rw [hn] at hp
      cases hp

end PaPlatform.Validation.Review
