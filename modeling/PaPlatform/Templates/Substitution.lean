/-
  The substitution of bindings into a template (`templates/service.ts`).

  The narrative of a multiline binding whose placeholders stand alone on their lines
  changes nothing of the structure of the document.
-/
import PaPlatform.Templates.Markdown
import PaPlatform.Lib.Separated

namespace PaPlatform.Templates

open Js Units Guard Separated

/-! ## Bindings -/

def MAX_TEMPLATE_REQUEST_BYTES : ℕ := 65536

def doubleOpen : Units := [0x7b, 0x7b]

def doubleClose : Units := [0x7d, 0x7d]

/-- The multiline rule, and the text that is put in: narrative is inert indented Markdown. -/
def multiline (sensitive : Units → Bool) (value : Units) : Except Rejection Units := do
  throwIf (sensitive value = true) .sensitive
  throwIf (MAX_TEMPLATE_REQUEST_BYTES < byteLength value) .size
  throwIf (value.head? = some 0xfeff) .byteOrderMark
  throwIf (forbidden value = true ∨ loneReturn value = true ∨ Units.includes value doubleOpen = true ∨
    Units.includes value doubleClose = true) .control
  return indented value

/-! ## Tokens -/

structure Token where
  selector : Option UInt16
  name : Units
  deriving DecidableEq

/-- `([a-z][A-Za-z0-9]{0,63})\}\}` at the beginning, and what follows. -/
def readName (s : Units) : Option (Units × Units) :=
  let name := s.takeWhile Units.isAlnum
  let rest := s.drop name.length
  if name.head?.any (within 'a' 'z') = true ∧ name.length ≤ 64 ∧ doubleClose.isPrefixOf rest = true then
    some (name, rest.drop 2)
  else none

/-- A token at the beginning, with one of the selectors or with none. -/
def readToken (selectors : List UInt16) (s : Units) : Option (Token × Units) :=
  if doubleOpen.isPrefixOf s = true then
    match s.drop 2 with
    | [] => none
    | u :: rest =>
      if u ∈ selectors then (readName rest).map fun r => (⟨some u, r.1⟩, r.2)
      else (readName (u :: rest)).map fun r => (⟨none, r.1⟩, r.2)
  else none

inductive Piece where
  | unit (u : UInt16)
  | token (t : Token)

def piecesFrom (selectors : List UInt16) : ℕ → Units → List Piece
  | 0, _ => []
  | n + 1, s =>
    match readToken selectors s, s with
    | some (t, rest), _ => .token t :: piecesFrom selectors n rest
    | none, [] => []
    | none, u :: rest => .unit u :: piecesFrom selectors n rest

/-- The tokens that `replace` finds, and the units between them; every piece takes a unit at least. -/
def pieces (selectors : List UInt16) (s : Units) : List Piece := piecesFrom selectors s.length s

def Piece.name? : Piece → Option Units
  | unit _ => none
  | token t => some t.name

def Piece.unit? : Piece → Option UInt16
  | unit u => some u
  | token _ => none

/-- What is left when the tokens are taken out has no braces. -/
def noBraces (ps : List Piece) : Bool := !Units.includes (ps.filterMap Piece.unit?) doubleOpen

/-! ## Optional blocks -/

/-- `#`, `^` and `/`. -/
def selectors : List UInt16 := [0x23, 0x5e, 0x2f]

/-- An optional block at the beginning: its token, its body and what follows. -/
def readBlock (s : Units) : Option (Token × Units × Units) :=
  (readToken [0x23, 0x5e] s).bind fun r =>
    if r.1.selector = none then none
    else (breakOn (doubleOpen ++ 0x2f :: r.1.name ++ doubleClose) r.2).map fun b => (r.1, b.1, b.2)

/-- `/\{\{[#^/]/`. -/
def nests (body : Units) : Bool := selectors.any fun u => Units.includes body (doubleOpen ++ [u])

/-- `bindings` says of each declared name whether it is required, `present` lists the names that are bound. -/
def selectFrom (bindings : List (Units × Bool)) (present : List Units) : ℕ → Units → Except Rejection (Units × List Units)
  | 0, _ => .ok ([], [])
  | n + 1, s =>
    match readBlock s, s with
    | some (t, body, rest), _ => do
      throwIf (bindings.lookup t.name ≠ some false ∨ nests body = true) .unresolved
      let r ← selectFrom bindings present n rest
      let isPresent := decide (t.name ∈ present)
      let text := if isPresent = (t.selector == some 0x23) then body else []
      return (text ++ r.1, if isPresent then t.name :: r.2 else r.2)
    | none, [] => .ok ([], [])
    | none, u :: rest => do
      let r ← selectFrom bindings present n rest
      return (u :: r.1, r.2)

/-- The body with the blocks that are selected, and the names that selected one. -/
def select (bindings : List (Units × Bool)) (present : List Units) (body : Units) : Except Rejection (Units × List Units) :=
  selectFrom bindings present body.length body

/-! ## Candidates -/

/-- The text with the placeholders filled in. -/
def fill (encoded : List (Units × Units)) : List Piece → Except Rejection Units
  | [] => .ok []
  | .unit u :: ps => do
    let rest ← fill encoded ps
    return u :: rest
  | .token t :: ps => do
    let value ← require (encoded.lookup t.name) .unresolved
    let rest ← fill encoded ps
    return value ++ rest

/-- The candidate of a template body for the encoded bindings. -/
def substitute (bindings : List (Units × Bool)) (encoded : List (Units × Units)) (body : Units) :
    Except Rejection Units := do
  let tokens := pieces selectors body
  throwIf (∃ name ∈ tokens.filterMap Piece.name?, bindings.lookup name = none) .unresolved
  throwIf (noBraces tokens = false) .unresolved
  let selected ← select bindings (encoded.map (·.1)) body
  let placeholders := pieces [] selected.1
  throwIf (noBraces placeholders = false) .unresolved
  let candidate ← fill encoded placeholders
  throwIf (∃ name ∈ encoded.map (·.1), name ∉ selected.2 ++ placeholders.filterMap Piece.name?) .unused
  return candidate

/-! ## Narrative -/

/-- Only blanks stand before the placeholders of the name on their lines; `clean` says that the
    line so far has only blanks. -/
def StandsAlone (name : Units) : Bool → List Piece → Prop
  | _, [] => True
  | clean, .unit u :: ps => StandsAlone name (u == 0x0a || (clean && u == 0x20)) ps
  | clean, .token t :: ps => (t.name = name → clean = true) ∧ StandsAlone name false ps

instance (name : Units) : ∀ (clean : Bool) (ps : List Piece), Decidable (StandsAlone name clean ps)
  | _, [] => isTrue trivial
  | clean, .unit u :: ps => instDecidableStandsAlone name (u == 0x0a || (clean && u == 0x20)) ps
  | clean, .token t :: ps =>
    @instDecidableAnd _ _ (inferInstanceAs (Decidable (t.name = name → clean = true)))
      (instDecidableStandsAlone name false ps)

/-- So do those of a body, when the optional blocks are selected. -/
def StandsAloneIn (bindings : List (Units × Bool)) (present : List Units) (name body : Units) : Prop :=
  ∀ selected, select bindings present body = .ok selected → StandsAlone name true (pieces [] selected.1)

/-- Both are rejected alike, or both have candidates of the same shape. -/
def SameCandidate : Except Rejection Units → Except Rejection Units → Prop
  | .ok c, .ok d => SameShape (markdownShape c) (markdownShape d)
  | .error e, .error f => e = f
  | _, _ => False

variable {sensitive : Units → Bool} {v w e f name s t : Units} {clean : Bool}

theorem multiline_ok (h : multiline sensitive v = .ok e) : e = indented v ∧ Narrative v := by
  unfold multiline at h
  simp only [bind_eq_ok, throwIf_eq_ok, pure_eq_ok] at h
  rcases h with ⟨-, -, -, -, -, -, -, hchars, rfl⟩
  rw [not_or, not_or, Bool.not_eq_true, Bool.not_eq_true] at hchars
  exact ⟨rfl, hchars.1, hchars.2.1⟩

/-- Narrative may follow blanks where it may follow anything. -/
theorem Narration.mono (h : Narration clean s t) {clean' : Bool} (hc : clean = true → clean' = true) :
    Narration clean' s t := by
  induction h generalizing clean' with
  | nil => exact .nil
  | unit u _ ih =>
    refine .unit u (ih ?_)
    intro hu
    rw [Bool.or_eq_true, Bool.and_eq_true] at hu ⊢
    rcases hu with hu | ⟨hclean, hu⟩
    · exact Or.inl hu
    · exact Or.inr ⟨hc hclean, hu⟩
  | value hv hw h _ =>
    obtain rfl := hc rfl
    exact .value hv hw h

theorem Narration.append (h : Narration false s t) (x : Units) (clean : Bool) : Narration clean (x ++ s) (x ++ t) := by
  induction x generalizing clean with
  | nil => exact h.mono (by rintro ⟨⟩)
  | cons u x ih => exact .unit u (ih _)

/-- Filling in alone-standing narrative gives texts that differ in it alone. -/
theorem fill_narration (others : List (Units × Units)) (hv : Narrative v) (hw : Narrative w) (ps : List Piece) (h : StandsAlone name clean ps) :
    (∃ c d, fill ((name, indented v) :: others) ps = .ok c ∧ fill ((name, indented w) :: others) ps = .ok d ∧
      Narration clean c d) ∨
    (fill ((name, indented v) :: others) ps = .error .unresolved ∧
      fill ((name, indented w) :: others) ps = .error .unresolved) := by
  induction ps generalizing clean with
  | nil => exact Or.inl ⟨[], [], rfl, rfl, .nil⟩
  | cons p ps ih =>
    cases p with
    | unit u =>
      rcases ih h with ⟨c, d, hc, hd, hn⟩ | ⟨hc, hd⟩
      · refine Or.inl ⟨u :: c, u :: d, ?_, ?_, .unit u hn⟩
        · rw [fill, hc]
          rfl
        · rw [fill, hd]
          rfl
      · refine Or.inr ⟨?_, ?_⟩
        · rw [fill, hc]
          rfl
        · rw [fill, hd]
          rfl
    | token t =>
      by_cases hname : t.name = name
      · -- narrative stands where its line has only blanks
        obtain rfl : clean = true := h.1 hname
        have hlook : ∀ x : Units, ((name, x) :: others).lookup t.name = some x := by
          intro x
          rw [hname, List.lookup_cons_self]
        rcases ih h.2 with ⟨c, d, hc, hd, hn⟩ | ⟨hc, hd⟩
        · refine Or.inl ⟨indented v ++ c, indented w ++ d, ?_, ?_, .value hv hw hn⟩
          · rw [fill, hlook, hc]
            rfl
          · rw [fill, hlook, hd]
            rfl
        · refine Or.inr ⟨?_, ?_⟩
          · rw [fill, hlook, hc]
            rfl
          · rw [fill, hlook, hd]
            rfl
      · have hlook : ∀ x : Units, ((name, x) :: others).lookup t.name = others.lookup t.name := by
          intro x
          rw [List.lookup_cons, beq_eq_false_iff_ne.2 hname]
        cases ho : others.lookup t.name with
        | none =>
          refine Or.inr ⟨?_, ?_⟩
          · rw [fill, hlook, ho]
            rfl
          · rw [fill, hlook, ho]
            rfl
        | some x =>
          rcases ih h.2 with ⟨c, d, hc, hd, hn⟩ | ⟨hc, hd⟩
          · refine Or.inl ⟨x ++ c, x ++ d, ?_, ?_, hn.append x clean⟩
            · rw [fill, hlook, ho, hc]
              rfl
            · rw [fill, hlook, ho, hd]
              rfl
          · refine Or.inr ⟨?_, ?_⟩
            · rw [fill, hlook, ho, hc]
              rfl
            · rw [fill, hlook, ho, hd]
              rfl

/-- **Multiline bindings are inert**: whatever two values the multiline rule accepts, the two documents
    have the same headings and the same visible lines, or are rejected alike. -/
theorem multiline_inert (bindings : List (Units × Bool)) (others : List (Units × Units)) (body : Units) (hv : multiline sensitive v = .ok e)
    (hw : multiline sensitive w = .ok f) (h : StandsAloneIn bindings (name :: others.map (·.1)) name body) :
    SameCandidate (substitute bindings ((name, e) :: others) body) (substitute bindings ((name, f) :: others) body) := by
  rcases multiline_ok hv with ⟨rfl, hnv⟩
  rcases multiline_ok hw with ⟨rfl, hnw⟩
  unfold substitute
  simp only [List.map_cons]
  by_cases htokens : ∃ n ∈ (pieces selectors body).filterMap Piece.name?, bindings.lookup n = none
  · rw [throwIf_pos htokens]
    rfl
  rw [throwIf_neg htokens, ok_bind, ok_bind]
  by_cases hbraces : noBraces (pieces selectors body) = false
  · rw [throwIf_pos hbraces]
    rfl
  rw [throwIf_neg hbraces, ok_bind, ok_bind]
  cases hselect : select bindings (name :: others.map (·.1)) body with
  | error r => rfl
  | ok selected =>
    rw [ok_bind, ok_bind]
    by_cases hrest : noBraces (pieces [] selected.1) = false
    · rw [throwIf_pos hrest]
      rfl
    rw [throwIf_neg hrest, ok_bind, ok_bind]
    rcases fill_narration others hnv hnw _ (h selected hselect) with ⟨c, d, hc, hd, hn⟩ | ⟨hc, hd⟩
    · rw [hc, hd, ok_bind, ok_bind]
      by_cases hused : ∃ n ∈ name :: others.map (·.1), n ∉ selected.2 ++ (pieces [] selected.1).filterMap Piece.name?
      · rw [throwIf_pos hused]
        rfl
      · rw [throwIf_neg hused]
        exact hn.sameShape
    · rw [hc, hd]
      rfl

def sampleName : Units := units "note"

/-- A placeholder on a line of its own, and a heading. -/
def sampleBody : Units := units "\x7b\x7bnote\x7d\x7d\n# Title\n"

def forged : Units := units "one\n# Forged"

theorem multiline_inert_forged : SameCandidate
    (substitute [(sampleName, true)] [(sampleName, indented (units "plain"))] sampleBody)
    (substitute [(sampleName, true)] [(sampleName, indented forged)] sampleBody) := by
  refine @multiline_inert (fun _ => false) (units "plain") forged _ _ sampleName _ [] _ ?_ ?_ ?_
  · decide
  · decide
  · rintro selected hselected
    have h : (select [(sampleName, true)] [sampleName] sampleBody).toOption.all
        (fun s => decide (StandsAlone sampleName true (pieces [] s.1))) = true := by decide
    rw [show select [(sampleName, true)] [sampleName] sampleBody = .ok selected from hselected] at h
    exact of_decide_eq_true h

end PaPlatform.Templates
