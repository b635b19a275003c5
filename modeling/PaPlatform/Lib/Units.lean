/-
  JavaScript strings as sequences of UTF-16 units, lone surrogates included.

  `decodeUtf8` is `Buffer.prototype.toString("utf-8")`: every maximal part of an
  ill-formed sequence is replaced by U+FFFD.
-/
import PaPlatform.Lib.Text

namespace Js

/-- A string: its UTF-16 units. -/
abbrev Units := List UInt16

/-- The units of a text. -/
def units (s : String) : Units := (utf16Units s).map UInt16.ofNat

/-- The unit of a character of the basic plane. -/
def unit (c : Char) : UInt16 := UInt16.ofNat c.toNat

namespace Units

/-- `\s`, and the characters removed by `trim`. -/
def isSpace (u : UInt16) : Bool := Js.isSpace (Char.ofNat u.toNat)

/-- `s.trim()` is empty. -/
def blank (s : Units) : Bool := s.all isSpace

/-- `s.split(c)`, for a separator of one unit. -/
def split (s : Units) (c : Char) : List Units := s.splitOn (unit c)

/-- `s.length > max ? s.slice(-max) : s`. -/
def tail (s : Units) (max : ℕ) : Units := if max < s.length then s.drop (s.length - max) else s

/-- A unit between two characters. -/
def within (a z : Char) (u : UInt16) : Bool := unit a ≤ u && u ≤ unit z

def isDigit (u : UInt16) : Bool := within '0' '9' u

/-- `[A-Za-z0-9]`. -/
def isAlnum (u : UInt16) : Bool := isDigit u || within 'A' 'Z' u || within 'a' 'z' u

/-- An ASCII letter in lower case. -/
def lower (u : UInt16) : UInt16 := if within 'A' 'Z' u then u + 32 else u

/-! ## Replacing -/

/-- Replace each leftmost match that is not empty, after `skip` units: `find` is
    the length of the match at the start of a text. -/
def replaceFrom (find : Units → Option ℕ) (marker : Units) : ℕ → Units → Units
  | _, [] => []
  | skip + 1, _ :: rest => replaceFrom find marker skip rest
  | 0, u :: rest =>
    match find (u :: rest) with
    | some (length + 1) => marker ++ replaceFrom find marker length rest
    | _ => u :: replaceFrom find marker 0 rest

/-- `s.replace(/find/g, marker)`. -/
def replaceAll (find : Units → Option ℕ) (marker s : Units) : Units := replaceFrom find marker 0 s

section

variable {s marker : Units} {find : Units → Option ℕ} {P : UInt16 → Prop}

/-- What replacing leaves: units of the marker, and units at which nothing is found. -/
theorem forall_replaceFrom (hm : ∀ u ∈ marker, P u)
    (hs : ∀ u rest, u ∈ s → (∀ n, find (u :: rest) ≠ some (n + 1)) → P u) (skip : ℕ) :
    ∀ u ∈ replaceFrom find marker skip s, P u := by
  induction s generalizing skip with
  | nil => cases skip <;> simp [replaceFrom]
  | cons v rest ih =>
    have ih := ih fun u t hu => hs u t (List.mem_cons_of_mem _ hu)
    cases skip with
    | succ skip => exact ih skip
    | zero =>
      rw [replaceFrom]
      split
      · exact List.forall_mem_append.2 ⟨hm, ih _⟩
      · next hnone => exact List.forall_mem_cons.2 ⟨hs v rest (by simp) hnone, ih 0⟩

/-- What holds of a text and of the marker holds of the text with the marker. -/
theorem forall_replaceAll (hm : ∀ u ∈ marker, P u) (hs : ∀ u ∈ s, P u) : ∀ u ∈ replaceAll find marker s, P u :=
  forall_replaceFrom hm (fun u _ hu _ => hs u hu) 0

end

/-- The length of `part` at the start of a text. -/
def findPart (part s : Units) : Option ℕ := if part.isPrefixOf s then some part.length else none

/-- `s.split(part).join(marker)`, for a part that is not empty. -/
def replacePart (part marker s : Units) : Units := replaceAll (findPart part) marker s

/-- `s.includes(part)`. -/
def includes (s part : Units) : Bool := s.tails.any part.isPrefixOf

/-! ## UTF-8 -/

/-- The units of a code point. -/
def ofCodePoint (n : ℕ) : Units :=
  if n < 0x10000 then [UInt16.ofNat n]
  else [UInt16.ofNat (0xd800 + (n - 0x10000) / 0x400), UInt16.ofNat (0xdc00 + (n - 0x10000) % 0x400)]

/-- The sequence that is being decoded: the bytes it still needs, the bounds of
    the next one, and the code point so far. -/
structure Decoder where
  needed : ℕ
  low : ℕ
  high : ℕ
  codePoint : ℕ
  deriving DecidableEq

/-- Between two sequences. -/
def Decoder.ground : Decoder := ⟨0, 0x80, 0xbf, 0⟩

/-- U+FFFD. -/
def replacement : UInt16 := 0xfffd

/-- The first byte of a sequence. -/
def Decoder.first (b : ℕ) : Units × Decoder :=
  if b < 0x80 then ([UInt16.ofNat b], .ground)
  else if 0xc2 ≤ b ∧ b ≤ 0xdf then ([], ⟨1, 0x80, 0xbf, b - 0xc0⟩)
  else if 0xe0 ≤ b ∧ b ≤ 0xef then
    ([], ⟨2, if b = 0xe0 then 0xa0 else 0x80, if b = 0xed then 0x9f else 0xbf, b - 0xe0⟩)
  else if 0xf0 ≤ b ∧ b ≤ 0xf4 then
    ([], ⟨3, if b = 0xf0 then 0x90 else 0x80, if b = 0xf4 then 0x8f else 0xbf, b - 0xf0⟩)
  else ([replacement], .ground)

/-- The next byte. -/
def Decoder.next (d : Decoder) (b : ℕ) : Units × Decoder :=
  if d.needed = 0 then first b
  else if d.low ≤ b ∧ b ≤ d.high then
    let codePoint := d.codePoint * 64 + (b - 0x80)
    if d.needed = 1 then (ofCodePoint codePoint, .ground) else ([], ⟨d.needed - 1, 0x80, 0xbf, codePoint⟩)
  else (replacement :: (first b).1, (first b).2)

/-- Decode the rest of a text. -/
def Decoder.run (d : Decoder) : Bytes → Units
  | [] => if d.needed = 0 then [] else [replacement]
  | b :: bytes => (d.next b.toNat).1 ++ run (d.next b.toNat).2 bytes

/-- `buffer.toString("utf-8")`. -/
def decodeUtf8 (bytes : Bytes) : Units := Decoder.ground.run bytes

end Units

end Js
