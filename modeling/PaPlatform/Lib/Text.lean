/-
  JavaScript strings, dates and base64.

  A string is a sequence of Unicode characters; `utf16Length` is its length in
  UTF-16 units.  A date is its number of milliseconds since 1970;
  `toISOString` and `dateParse` are `Date.prototype.toISOString` and, on the
  format that it writes, `Date.parse`.
-/
import Mathlib

namespace Js

/-- The contents of a `Buffer`. -/
abbrev Bytes := List UInt8

/-! ## Strings -/

/-- `String.prototype.length`. -/
def utf16Length (s : String) : ℕ := (s.toList.map fun c => if c.toNat < 0x10000 then 1 else 2).sum

/-- The UTF-16 units of a string. -/
def utf16Units (s : String) : List ℕ :=
  s.toList.flatMap fun c =>
    if c.toNat < 0x10000 then [c.toNat]
    else [0xd800 + (c.toNat - 0x10000) / 0x400, 0xdc00 + (c.toNat - 0x10000) % 0x400]

/-- The order of strings in JavaScript: by UTF-16 units. -/
def stringLe (s t : String) : Bool := !List.lex (utf16Units t) (utf16Units s)

/-- `strings.sort()`. -/
def sortStrings (l : List String) : List String := l.mergeSort stringLe

/-- The characters removed by `trim`. -/
def isSpace (c : Char) : Bool :=
  let n := c.toNat
  (9 ≤ n && n ≤ 13) || n == 0x20 || n == 0xa0 || n == 0x1680 || (0x2000 ≤ n && n ≤ 0x200a) ||
    n == 0x2028 || n == 0x2029 || n == 0x202f || n == 0x205f || n == 0x3000 || n == 0xfeff

/-- `s.trim() === s`. -/
def trimmed (s : String) : Bool :=
  !(s.toList.head?.any isSpace) && !(s.toList.getLast?.any isSpace)

/-- `s.trim()` is empty. -/
def blank (s : String) : Bool := s.toList.all isSpace

/-- `s.startsWith(p)`. -/
def startsWith (s p : String) : Bool := p.toList.isPrefixOf s.toList

/-- `s.endsWith(p)`. -/
def endsWith (s p : String) : Bool := p.toList.isSuffixOf s.toList

/-- `s.includes(p)`. -/
def includes (s p : String) : Bool := s.toList.tails.any p.toList.isPrefixOf

/-- `s.split(c)`, for a one-character separator. -/
def split (s : String) (c : Char) : List String := (s.toList.splitOn c).map String.ofList

/-- A lower-case hexadecimal digit, `[0-9a-f]`. -/
def isHex (c : Char) : Bool := ('0' ≤ c && c ≤ '9') || ('a' ≤ c && c ≤ 'f')

def isDigit (c : Char) : Bool := '0' ≤ c && c ≤ '9'

def isUpper (c : Char) : Bool := 'A' ≤ c && c ≤ 'Z'

def isLower (c : Char) : Bool := 'a' ≤ c && c ≤ 'z'

def isAlnum (c : Char) : Bool := isDigit c || isUpper c || isLower c

/-- Nonempty, and every character satisfies `p`: `/^[p]+$/`. -/
def allOf (p : Char → Bool) (cs : List Char) : Bool := !cs.isEmpty && cs.all p

theorem startsWith_append (p s : String) : startsWith (p ++ s) p = true := by
  simp [startsWith, List.isPrefixOf_iff_prefix]

/-! ## Dates -/

/-- The number of days from 1970-01-01 to a date of the proleptic Gregorian
    calendar. -/
def daysFromCivil (year : ℤ) (month day : ℕ) : ℤ :=
  let y := if month ≤ 2 then year - 1 else year
  let era := y / 400
  let yoe := y - era * 400
  let mp : ℤ := if 2 < month then month - 3 else month + 9
  let doy := (153 * mp + 2) / 5 + day - 1
  let doe := yoe * 365 + yoe / 4 - yoe / 100 + doy
  era * 146097 + doe - 719468

/-- The date `days` days after 1970-01-01: year, month and day. -/
def civilFromDays (days : ℤ) : ℤ × ℤ × ℤ :=
  let z := days + 719468
  let era := z / 146097
  let doe := z - era * 146097
  let yoe := (doe - doe / 1460 + doe / 36524 - doe / 146096) / 365
  let doy := doe - (365 * yoe + yoe / 4 - yoe / 100)
  let mp := (5 * doy + 2) / 153
  let month := if mp < 10 then mp + 3 else mp - 9
  let year := yoe + era * 400
  (if month ≤ 2 then year + 1 else year, month, doy - (153 * mp + 2) / 5 + 1)

/-- `n` in decimal, with leading zeros up to `width` digits. -/
def padded (width : ℕ) (n : ℤ) : List Char :=
  let digits := (toString n.toNat).toList
  List.replicate (width - digits.length) '0' ++ digits

/-- `new Date(ms).toISOString()`. -/
def toISOString (ms : ℤ) : String :=
  let (year, month, day) := civilFromDays (ms / 86400000)
  let rest := ms % 86400000
  let yearText :=
    if 0 ≤ year ∧ year ≤ 9999 then padded 4 year
    else (if year < 0 then '-' else '+') :: padded 6 year.natAbs
  String.ofList (yearText ++ '-' :: padded 2 month ++ '-' :: padded 2 day ++ 'T' ::
    padded 2 (rest / 3600000) ++ ':' :: padded 2 (rest / 60000 % 60) ++ ':' ::
    padded 2 (rest / 1000 % 60) ++ '.' :: padded 3 (rest % 1000) ++ ['Z'])

/-- A decimal number. -/
def digits (cs : List Char) : Option ℕ :=
  if allOf isDigit cs then some (cs.foldl (fun n c => n * 10 + (c.toNat - 48)) 0) else none

/-- The year at the start of an ISO date, and the characters after it. -/
def isoYear : List Char → Option (ℤ × List Char)
  | '+' :: cs => (digits (cs.take 6)).map fun n => ((n : ℤ), cs.drop 6)
  | '-' :: cs => (digits (cs.take 6)).map fun n => (-(n : ℤ), cs.drop 6)
  | cs => (digits (cs.take 4)).map fun n => ((n : ℤ), cs.drop 4)

/-- `Date.parse`, on the format that `toISOString` writes. -/
def dateParse (text : String) : Option ℤ := do
  let (year, rest) ← isoYear text.toList
  match rest with
  | ['-', m₁, m₂, '-', d₁, d₂, 'T', h₁, h₂, ':', i₁, i₂, ':', s₁, s₂, '.', f₁, f₂, f₃, 'Z'] =>
    let month ← digits [m₁, m₂]
    let day ← digits [d₁, d₂]
    let hour ← digits [h₁, h₂]
    let minute ← digits [i₁, i₂]
    let second ← digits [s₁, s₂]
    let milli ← digits [f₁, f₂, f₃]
    let ms := (((daysFromCivil year month day * 24 + hour) * 60 + minute) * 60 + second) * 1000 + milli
    if ms.natAbs ≤ 8640000000000000 then some ms else none
  | _ => none

/-! ## Base64 -/

/-- The alphabet of base64. -/
def base64Alphabet : List Char :=
  "ABCDEFGHIJKLMNOPQRSTUVWXYZabcdefghijklmnopqrstuvwxyz0123456789+/".toList

def base64Char (n : ℕ) : Char := base64Alphabet.getD n 'A'

/-- `Buffer.from(bytes).toString("base64")`. -/
def base64Encode : List UInt8 → List Char
  | a :: b :: c :: rest =>
    let n := a.toNat * 65536 + b.toNat * 256 + c.toNat
    base64Char (n / 262144) :: base64Char (n / 4096 % 64) :: base64Char (n / 64 % 64) ::
      base64Char (n % 64) :: base64Encode rest
  | [a, b] =>
    let n := a.toNat * 65536 + b.toNat * 256
    [base64Char (n / 262144), base64Char (n / 4096 % 64), base64Char (n / 64 % 64), '=']
  | [a] =>
    let n := a.toNat * 65536
    [base64Char (n / 262144), base64Char (n / 4096 % 64), '=', '=']
  | [] => []

/-- The value of a character of base64 or of its URL variant. -/
def base64Value (c : Char) : Option ℕ :=
  if c = '-' then some 62 else if c = '_' then some 63 else base64Alphabet.findIdx? (· = c)

/-- The bytes of groups of six bits; an incomplete last byte is dropped. -/
def base64Bytes : List ℕ → List UInt8
  | a :: b :: c :: d :: rest =>
    let n := a * 262144 + b * 4096 + c * 64 + d
    UInt8.ofNat (n / 65536) :: UInt8.ofNat (n / 256) :: UInt8.ofNat n :: base64Bytes rest
  | [a, b, c] =>
    let n := a * 262144 + b * 4096 + c * 64
    [UInt8.ofNat (n / 65536), UInt8.ofNat (n / 256)]
  | [a, b] => [UInt8.ofNat ((a * 262144 + b * 4096) / 65536)]
  | _ => []

/-- `Buffer.from(text, "base64")`: it stops at the first `=` and ignores every
    character outside the alphabet. -/
def base64Decode (text : String) : List UInt8 :=
  base64Bytes ((text.toList.takeWhile (· ≠ '=')).filterMap base64Value)

end Js
