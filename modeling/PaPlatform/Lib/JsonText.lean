/-
  JSON values over strings of UTF-16 units: `JSON.parse` and `JSON.stringify`.

  A number is a safe integer (`int`) or any other number, kept by the text that
  it is written with (`float`).  How a text that is not a safe integer is rounded
  to a number is left to the platform (`double`).
-/
import PaPlatform.Lib.Units

namespace Js

open Units

/-- A number. -/
inductive Number where
  | int (n : ℤ)
  | float (lexeme : Units)
  deriving DecidableEq, Inhabited

/-- A natural number in decimal. -/
def decimal (n : ℕ) : Units :=
  if n = 0 then [0x30] else ((Nat.digits 10 n).map fun d => UInt16.ofNat (48 + d)).reverse

def Number.text : Number → Units
  | .int n => if n < 0 then 0x2d :: decimal n.natAbs else decimal n.natAbs
  | .float lexeme => lexeme

/-- A JSON value.  The keys of an object are distinct. -/
inductive Value where
  | null
  | bool (b : Bool)
  | num (n : Number)
  | str (s : Units)
  | arr (items : List Value)
  | obj (fields : List (Units × Value))
  deriving Inhabited

namespace Value

/-! ## `JSON.stringify` -/

/-- A digit of base 16, in lower case. -/
def hexUnit (n : ℕ) : UInt16 := UInt16.ofNat (if n < 10 then 48 + n else 87 + n)

/-- The escape of a unit by its number. -/
def escapeNumber (u : UInt16) : Units :=
  let n := u.toNat
  [0x5c, 0x75, hexUnit (n / 4096), hexUnit (n / 256 % 16), hexUnit (n / 16 % 16), hexUnit (n % 16)]

def isHigh (u : UInt16) : Bool := 0xd800 ≤ u && u < 0xdc00

def isLow (u : UInt16) : Bool := 0xdc00 ≤ u && u < 0xe000

/-- The units that are escaped by a letter, with the letter. -/
def escapes : List (UInt16 × UInt16) :=
  [(0x22, 0x22), (0x5c, 0x5c), (0x08, 0x62), (0x0c, 0x66), (0x0a, 0x6e), (0x0d, 0x72), (0x09, 0x74)]

/-- A unit inside a string. -/
def escapeUnit (u : UInt16) : Units :=
  match escapes.lookup u with
  | some letter => [0x5c, letter]
  | none => if u < 0x20 ∨ isHigh u ∨ isLow u then escapeNumber u else [u]

/-- The inside of a string: the units of a surrogate pair are kept. -/
def escape : Units → Units
  | [] => []
  | [u] => escapeUnit u
  | u :: v :: rest =>
    if isHigh u && isLow v then u :: v :: escape rest else escapeUnit u ++ escape (v :: rest)

/-- A string, with its quotes. -/
def quote (s : Units) : Units := 0x22 :: (escape s ++ [0x22])

mutual

/-- `JSON.stringify`. -/
def stringify : Value → Units
  | null => units "null"
  | bool true => units "true"
  | bool false => units "false"
  | num n => n.text
  | str s => quote s
  | arr [] => units "[]"
  | arr (x :: xs) => 0x5b :: (stringify x ++ stringifyItems xs)
  | obj [] => [0x7b, 0x7d]
  | obj ((k, x) :: fs) => 0x7b :: (quote k ++ 0x3a :: (stringify x ++ stringifyFields fs))

/-- The later items of an array, and its closing bracket. -/
def stringifyItems : List Value → Units
  | [] => [0x5d]
  | x :: xs => 0x2c :: (stringify x ++ stringifyItems xs)

/-- The later fields of an object, and its closing brace. -/
def stringifyFields : List (Units × Value) → Units
  | [] => [0x7d]
  | (k, x) :: fs => 0x2c :: (quote k ++ 0x3a :: (stringify x ++ stringifyFields fs))

end

/-! ## `JSON.parse` -/

def isJsonSpace (u : UInt16) : Bool := u == 0x20 || u == 0x09 || u == 0x0a || u == 0x0d

def skipSpace (s : Units) : Units := s.dropWhile isJsonSpace

/-- The value of a digit of base 16. -/
def hexValue (u : UInt16) : Option ℕ :=
  if Units.isDigit u then some (u.toNat - 48)
  else if within 'a' 'f' u then some (u.toNat - 87)
  else if within 'A' 'F' u then some (u.toNat - 55)
  else none

/-- The unit that an escape by number stands for. -/
def hexUnits (a b c d : UInt16) : Option UInt16 := do
  let a ← hexValue a
  let b ← hexValue b
  let c ← hexValue c
  let d ← hexValue d
  return UInt16.ofNat (((a * 16 + b) * 16 + c) * 16 + d)

/-- The unit that a letter stands for after a backslash. -/
def unescape (letter : UInt16) : Option UInt16 :=
  if letter = 0x2f then some 0x2f else (escapes.map Prod.swap).lookup letter

/-- The rest of a string, and what comes after it. -/
def parseString : Units → Option (Units × Units)
  | [] => none
  | u :: rest =>
    if u = 0x22 then some ([], rest)
    else if u = 0x5c then
      match rest with
      | [] => none
      | e :: rest =>
        if e = 0x75 then
          match rest with
          | a :: b :: c :: d :: rest => (hexUnits a b c d).bind fun v =>
            (parseString rest).map fun p => (v :: p.1, p.2)
          | _ => none
        else (unescape e).bind fun v => (parseString rest).map fun p => (v :: p.1, p.2)
    else if u < 0x20 then none
    else (parseString rest).map fun p => (u :: p.1, p.2)

/-- One or more digits, and what comes after them. -/
def parseDigits (s : Units) : Option (Units × Units) :=
  if (s.takeWhile Units.isDigit).isEmpty then none else some (s.takeWhile Units.isDigit, s.dropWhile Units.isDigit)

/-- The integral digits of a number. -/
def parseIntegral : Units → Option (Units × Units)
  | 0x30 :: rest => some ([0x30], rest)
  | s => parseDigits s

/-- The fraction of a number. -/
def parseFraction : Units → Option (Units × Units)
  | 0x2e :: rest => (parseDigits rest).map fun p => (0x2e :: p.1, p.2)
  | s => some ([], s)

/-- The sign of an exponent. -/
def parseSign : Units → Units × Units
  | 0x2b :: rest => ([0x2b], rest)
  | 0x2d :: rest => ([0x2d], rest)
  | s => ([], s)

/-- The exponent of a number. -/
def parseExponent : Units → Option (Units × Units)
  | [] => some ([], [])
  | u :: rest =>
    if u = 0x65 ∨ u = 0x45 then
      (parseDigits (parseSign rest).2).map fun p => (u :: (parseSign rest).1 ++ p.1, p.2)
    else some ([], u :: rest)

/-- The number that decimal digits stand for. -/
def ofDecimal (digits : Units) : ℕ := Nat.ofDigits 10 (digits.map fun u => u.toNat - 48).reverse

section
variable (double : Units → Number)

/-- A number without its sign. -/
def parseUnsigned (negative : Bool) (s : Units) : Option (Number × Units) := do
  let (integral, s) ← parseIntegral s
  let (fraction, s) ← parseFraction s
  let (exponent, s) ← parseExponent s
  let n := ofDecimal integral
  let sign : Units := if negative then [0x2d] else []
  if fraction = [] ∧ exponent = [] ∧ n < 2 ^ 53 then return (.int (if negative then -(n : ℤ) else n), s)
  else return (double (sign ++ integral ++ fraction ++ exponent), s)

def parseNumber : Units → Option (Number × Units)
  | 0x2d :: rest => parseUnsigned double true rest
  | s => parseUnsigned double false s

/-- An array index: an object has such keys before the others, in their order. -/
def isIndex (k : Units) : Bool := k.all Units.isDigit && decimal (ofDecimal k) == k && ofDecimal k < 2 ^ 32 - 1

/-- The key comes after the new key `k`. -/
def after (k l : Units) : Bool := isIndex k && (!isIndex l || ofDecimal k < ofDecimal l)

/-- Define an own property. -/
def set (k : Units) (x : Value) (fields : List (Units × Value)) : List (Units × Value) :=
  if fields.any (·.1 == k) then fields.map fun f => if f.1 = k then (k, x) else f
  else fields.takeWhile (fun f => !after k f.1) ++ (k, x) :: fields.dropWhile fun f => !after k f.1

mutual

/-- A value, and what comes after it. -/
def parseValue : ℕ → Units → Option (Value × Units)
  | 0, _ => none
  | fuel + 1, s =>
    match skipSpace s with
    | [] => none
    | u :: rest =>
      if u = 0x22 then (parseString rest).map fun p => (str p.1, p.2)
      else if u = 0x5b then
        match skipSpace rest with
        | 0x5d :: rest => some (arr [], rest)
        | rest => do
          let (x, rest) ← parseValue fuel rest
          let (xs, rest) ← parseItems fuel rest
          return (arr (x :: xs), rest)
      else if u = 0x7b then
        match skipSpace rest with
        | 0x7d :: rest => some (obj [], rest)
        | rest => do
          let (k, x, rest) ← parseField fuel rest
          let (fs, rest) ← parseFields fuel [(k, x)] rest
          return (obj fs, rest)
      else if (units "null").isPrefixOf (u :: rest) then some (null, rest.drop 3)
      else if (units "true").isPrefixOf (u :: rest) then some (bool true, rest.drop 3)
      else if (units "false").isPrefixOf (u :: rest) then some (bool false, rest.drop 4)
      else (parseNumber double (u :: rest)).map fun p => (num p.1, p.2)

/-- The later items of an array. -/
def parseItems : ℕ → Units → Option (List Value × Units)
  | 0, _ => none
  | fuel + 1, s =>
    match skipSpace s with
    | 0x5d :: rest => some ([], rest)
    | 0x2c :: rest => do
      let (x, rest) ← parseValue fuel rest
      let (xs, rest) ← parseItems fuel rest
      return (x :: xs, rest)
    | _ => none

/-- A key and its value. -/
def parseField : ℕ → Units → Option (Units × Value × Units)
  | 0, _ => none
  | fuel + 1, s =>
    match skipSpace s with
    | 0x22 :: rest => do
      let (k, rest) ← parseString rest
      match skipSpace rest with
      | 0x3a :: rest => do
        let (x, rest) ← parseValue fuel rest
        return (k, x, rest)
      | _ => none
    | _ => none

/-- The later fields of an object, after those in `fields`. -/
def parseFields : ℕ → List (Units × Value) → Units → Option (List (Units × Value) × Units)
  | 0, _, _ => none
  | fuel + 1, fields, s =>
    match skipSpace s with
    | 0x7d :: rest => some (fields, rest)
    | 0x2c :: rest => do
      let (k, x, rest) ← parseField fuel rest
      parseFields fuel (set k x fields) rest
    | _ => none

end

/-- `JSON.parse`: every call reads a unit before it makes another one. -/
def parse (s : Units) : Option Value :=
  match parseValue double (s.length + 1) s with
  | some (x, rest) => if skipSpace rest = [] then some x else none
  | none => none

end

end Value

end Js
