/-
  The two lexers of the safety policy.

  `tokenizeShell` splits a command into words and operators; `scanRedirects`
  looks for output redirections and reads the operand of each by itself.  A
  place in the source is given by what is left of it from there on.
-/
import PaPlatform.Lib.Units
import Mathlib

namespace PaPlatform.Safety

open Js

/-! ## Characters -/

/-- A quote or a double quote. -/
def isQuote (c : UInt16) : Bool := c = unit '\'' ∨ c = unit '"'

def backslash : UInt16 := unit '\\'

/-- `[;&|()<>]`. -/
def isOperator (c : UInt16) : Bool :=
  [unit ';', unit '&', unit '|', unit '(', unit ')', unit '<', unit '>'].contains c

/-- `[\s;&|()<>]`, which ends a word. -/
def endsWord (c : UInt16) : Bool := Units.isSpace c || isOperator c

/-- `[\s;|()<>]`, which ends the operand of a redirection. -/
def endsOperand (c : UInt16) : Bool := endsWord c && c ≠ unit '&'

/-- `quotedEnd`: the text up to the closing quote, and what is left from it on. -/
def quotedEnd (quote : UInt16) : Units → Units × Units
  | [] => ([], [])
  | [c] => if c = quote then ([], [c]) else ([c], [])
  | c :: d :: rest =>
    if quote = unit '"' ∧ c = backslash then
      let r := quotedEnd quote rest
      (c :: d :: r.1, r.2)
    else if c = quote then ([], c :: d :: rest)
    else
      let r := quotedEnd quote (d :: rest)
      (c :: r.1, r.2)

/-- What is left after the closing quote. -/
def afterQuote (quote : UInt16) (rest : Units) : Units := (quotedEnd quote rest).2.drop 1

/-! ## Words -/

structure ShellWord where
  raw : Units
  value : Units
  operator : Bool
  deriving DecidableEq

/-- The value of the word at the start of a text, and what is left after it. -/
def readWord : ℕ → Units → Units × Units
  | 0, s => ([], s)
  | _ + 1, [] => ([], [])
  | n + 1, c :: rest =>
    if endsWord c then ([], c :: rest)
    else if isQuote c then
      let r := readWord n (afterQuote c rest)
      ((quotedEnd c rest).1 ++ r.1, r.2)
    else if c = backslash ∧ rest ≠ [] then
      let r := readWord n (rest.drop 1)
      (rest.take 1 ++ r.1, r.2)
    else
      let r := readWord n rest
      (c :: r.1, r.2)

/-- The words of a text, each with its place. -/
def wordsFrom : ℕ → Units → List (Units × ShellWord)
  | 0, _ => []
  | _ + 1, [] => []
  | n + 1, c :: rest =>
    if c = unit '\n' then (c :: rest, ⟨[c], [c], true⟩) :: wordsFrom n rest
    else if Units.isSpace c then wordsFrom n rest
    else if isOperator c then
      if (c = unit '&' ∨ c = unit '|') ∧ rest.head? = some c then
        (c :: rest, ⟨[c, c], [c, c], true⟩) :: wordsFrom n (rest.drop 1)
      else (c :: rest, ⟨[c], [c], true⟩) :: wordsFrom n rest
    else
      let r := readWord (rest.length + 1) (c :: rest)
      (c :: rest, ⟨(c :: rest).take (rest.length + 1 - r.2.length), r.1, false⟩) :: wordsFrom n r.2

def wordsAt (source : Units) : List (Units × ShellWord) := wordsFrom source.length source

def tokenizeShell (source : Units) : List ShellWord := (wordsAt source).map (·.2)

/-! ## Redirections -/

structure OutputOperand where
  target : Option Units
  rawTarget : Option Units
  descriptor : Bool
  /-- What is left at `end`. -/
  «end» : Option Units
  deriving DecidableEq

def readShellOperand : Units → OutputOperand
  | [] => ⟨none, none, false, none⟩
  | quote :: rest =>
    if isQuote quote then
      let (target, left) := quotedEnd quote rest
      if left.head? = some quote then
        ⟨some target, some (quote :: target ++ [quote]), false, some (left.drop 1)⟩
      else ⟨none, none, false, some left⟩
    else
      let rawTarget := (quote :: rest).takeWhile fun c => !endsOperand c
      ⟨if rawTarget = [] then none else some rawTarget, some rawTarget, false,
        some ((quote :: rest).dropWhile fun c => !endsOperand c)⟩

/-- `/^(?:\d+|-)$/`. -/
def isDescriptor (target : Units) : Bool :=
  (target ≠ [] && target.all Units.isDigit) || target = [unit '-']

/-- The text after `>>` or `>|`. -/
def afterSecond (rest : Units) : Units :=
  if rest.head? = some (unit '>') ∨ rest.head? = some (unit '|') then rest.drop 1 else rest

/-- Whether the operator ends with `&`, and the text after it. -/
def afterOperator (rest : Units) : Bool × Units :=
  if (afterSecond rest).head? = some (unit '&') then (true, (afterSecond rest).drop 1)
  else (false, afterSecond rest)

/-- The place of the operand. -/
def operandStart (rest : Units) : Units := (afterOperator rest).2.dropWhile Units.isSpace

/-- The operand after `>`, which may be a descriptor after `>&`. -/
def redirectOperand (rest : Units) : OutputOperand :=
  let operand := readShellOperand (operandStart rest)
  { operand with descriptor := (afterOperator rest).1 && isDescriptor (operand.target.getD []) }

/-- The output redirections of a text, each with the place of its operand. -/
def redirectsFrom : ℕ → Units → List (Units × OutputOperand)
  | 0, _ => []
  | _ + 1, [] => []
  | n + 1, c :: rest =>
    if isQuote c then redirectsFrom n (afterQuote c rest)
    else if c = backslash then redirectsFrom n (rest.drop 1)
    else if c ≠ unit '>' then redirectsFrom n rest
    else (operandStart rest, redirectOperand rest) :: redirectsFrom n ((redirectOperand rest).end.getD rest)

def redirectsAt (source : Units) : List (Units × OutputOperand) := redirectsFrom source.length source

def scanRedirects (source : Units) : List OutputOperand := (redirectsAt source).map (·.2)

end PaPlatform.Safety
