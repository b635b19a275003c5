/-
  Regular expressions over strings of UTF-16 units.

  `ends` lists where a match ends, in the order in which a backtracking matcher
  tries them: the first one is the match.
-/
import PaPlatform.Lib.Units

namespace Js

/-- A regular expression; `edge` asserts something of the units before and after. -/
inductive Pattern where
  | empty
  | unit (p : UInt16 → Bool)
  | edge (p : Option UInt16 → Option UInt16 → Bool)
  | seq (a b : Pattern)
  | alt (a b : Pattern)
  | star (a : Pattern)

namespace Pattern

/-- A place in a text: the unit before it, and the rest of the text. -/
abbrev Place := Option UInt16 × Units

/-- The ends of a greedy repetition: an iteration has to read something. -/
def repeats (f : Place → List Place) : ℕ → Place → List Place
  | 0, x => [x]
  | fuel + 1, x => (f x).flatMap (fun y => if y.2.length < x.2.length then repeats f fuel y else []) ++ [x]

/-- Where a match from a place ends. -/
def ends : Pattern → Place → List Place
  | empty, x => [x]
  | unit p, (_, s) =>
    match s with
    | [] => []
    | u :: rest => if p u then [(some u, rest)] else []
  | edge p, x => if p x.1 x.2.head? then [x] else []
  | seq a b, x => (ends a x).flatMap (ends b)
  | alt a b, x => ends a x ++ ends b x
  | star a, x => repeats (ends a) x.2.length x

/-- `/^(?:pattern)$/.test(s)`. -/
def full (pattern : Pattern) (s : Units) : Bool := (pattern.ends (none, s)).any (·.2 == [])

/-- The length of the match at the start of a text. -/
def find (pattern : Pattern) (s : Units) : Option ℕ :=
  (pattern.ends (none, s)).head?.map fun place => s.length - place.2.length

/-! ## Notation -/

/-- A text. -/
def text : Units → Pattern
  | [] => empty
  | u :: rest => seq (unit (· == u)) (text rest)

def word (s : String) : Pattern := text (units s)

def opt (a : Pattern) : Pattern := alt a empty

def plus (a : Pattern) : Pattern := seq a (star a)

/-- `a{n}`. -/
def exactly : ℕ → Pattern → Pattern
  | 0, _ => empty
  | n + 1, a => seq a (exactly n a)

/-- `a{0,n}`. -/
def upTo : ℕ → Pattern → Pattern
  | 0, _ => empty
  | n + 1, a => opt (seq a (upTo n a))

/-- One after the other. -/
def chain : List Pattern → Pattern
  | [] => empty
  | [a] => a
  | a :: rest => seq a (chain rest)

/-- One of them. -/
def anyOf : List Pattern → Pattern
  | [] => unit fun _ => false
  | [a] => a
  | a :: rest => alt a (anyOf rest)

end Pattern

end Js
