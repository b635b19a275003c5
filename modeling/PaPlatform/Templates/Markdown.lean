/-
  The structure of a rendered document (`templates/documents.ts`): its headings and the
  lines that are neither fenced nor indented.

  Two documents that differ in narrative alone have the same structure.
-/
import PaPlatform.Lib.Unicode
import PaPlatform.Lib.Guard

namespace PaPlatform.Templates

open Js Units
open Value (isHigh isLow)

/-! ## Shapes -/

/-- What a document or a binding is rejected for. -/
inductive Rejection where
  | characters | fence
  | size | byteOrderMark | sensitive | control
  | unresolved | unused
  deriving DecidableEq

def isSurrogatePoint (n : ℕ) : Bool := 0xd800 ≤ n && n ≤ 0xdfff

/-- `[\p{Cf}\p{Cs}\x00-\x08\x0b\x0c\x0e-\x1f\x7f]`. -/
def isForbidden (n : ℕ) : Bool :=
  isFormat n || isSurrogatePoint n || n ≤ 8 || n == 0x0b || n == 0x0c || (0x0e ≤ n && n ≤ 0x1f) || n == 0x7f

def forbidden (s : Units) : Bool := (codePoints s).any isForbidden

/-- `/\r(?!\n)/`. -/
def loneReturn : Units → Bool
  | [] => false
  | u :: rest => (u == 0x0d && rest.head? != some 0x0a) || loneReturn rest

def dropReturn (line : Units) : Units := if line.getLast? = some 0x0d then line.dropLast else line

/-- The lines of a text, if the first one has begun with `line`. -/
def linesFrom (line : Units) : Units → List Units
  | [] => [line]
  | u :: rest => if u = 0x0a then dropReturn line :: linesFrom [] rest else linesFrom (line ++ [u]) rest

/-- `candidate.split(/\r?\n/)`. -/
def splitLines (candidate : Units) : List Units := linesFrom [] candidate

/-- What `.` does not match. -/
def isTerminator (u : UInt16) : Bool := u == 0x0a || u == 0x0d || u == 0x2028 || u == 0x2029

structure Fence where
  marker : UInt16
  length : ℕ

/-- The fence of a line and what follows it: three or more backticks or tildes after at most three
    blanks. -/
def delimiter (line : Units) : Option (Fence × Units) :=
  match line.dropWhile (· == 0x20) with
  | [] => none
  | marker :: rest =>
    let length := (rest.takeWhile (· == marker)).length
    let info := rest.dropWhile (· == marker)
    if (line.takeWhile (· == 0x20)).length ≤ 3 ∧ (marker = 0x60 ∨ marker = 0x7e) ∧ 2 ≤ length ∧
        info.any isTerminator = false then
      some (⟨marker, length + 1⟩, info)
    else none

def fourBlanks : Units := [0x20, 0x20, 0x20, 0x20]

/-- `/^(?: {4}|\t)/`. -/
def isIndented (line : Units) : Bool := fourBlanks.isPrefixOf line || line.head? == some 0x09

/-- The level of a heading: `/^(#{1,6}) [^\s#].*$/`. -/
def headingLevel (line : Units) : Option ℕ :=
  let level := (line.takeWhile (· == 0x23)).length
  match line.drop level with
  | gap :: first :: rest =>
    if (1 ≤ level ∧ level ≤ 6) ∧ gap = 0x20 ∧ (Units.isSpace first = false ∧ first ≠ 0x23) ∧
        rest.any isTerminator = false then
      some level
    else none
  | _ => none

structure Heading where
  text : Units
  index : ℕ
  level : ℕ

/-- The fence that is open after a line. -/
def fenceAfter (fence : Option Fence) (line : Units) : Option Fence :=
  match delimiter line, fence with
  | none, _ => fence
  | some (open_, _), none => some open_
  | some (close, info), some open_ =>
    if close.marker = open_.marker ∧ open_.length ≤ close.length ∧ Units.blank info = true then none else some open_

/-- A line that is fenced, a fence or indented does not show. -/
def isHidden (fence : Option Fence) (line : Units) : Bool :=
  (delimiter line).isSome || fence.isSome || isIndented line

def visibleLine (fence : Option Fence) (line : Units) : Units := if isHidden fence line then [] else line

def headingOf (fence : Option Fence) (index : ℕ) (line : Units) : Option Heading :=
  if isHidden fence line then none else (headingLevel line).map fun level => ⟨line, index, level⟩

structure MarkdownShape where
  lines : List Units
  visible : List Units
  headings : List Heading

/-- The loop over the lines: the fence at the end, the visible lines and the headings. -/
def scan (fence : Option Fence) (index : ℕ) : List Units → Option Fence × List Units × List Heading
  | [] => (fence, [], [])
  | line :: lines =>
    let rest := scan (fenceAfter fence line) (index + 1) lines
    (rest.1, visibleLine fence line :: rest.2.1, (headingOf fence index line).toList ++ rest.2.2)

/-- Fence/indent-aware structural projection. -/
def markdownShape (candidate : Units) : Except Rejection MarkdownShape :=
  if forbidden candidate = true ∨ loneReturn candidate = true then .error .characters
  else
    let lines := splitLines candidate
    let result := scan none 0 lines
    if result.1.isSome = true then .error .fence else .ok ⟨lines, result.2.1, result.2.2⟩

/-- The headings by text and level, in order. -/
def MarkdownShape.outline (shape : MarkdownShape) : List (Units × ℕ) := shape.headings.map fun h => (h.text, h.level)

def MarkdownShape.shown (shape : MarkdownShape) : List Units := shape.visible.filter (· ≠ [])

/-- Both fail alike, or both have the same headings and the same visible lines. -/
def SameShape : Except Rejection MarkdownShape → Except Rejection MarkdownShape → Prop
  | .ok s, .ok t => s.outline = t.outline ∧ s.shown = t.shown
  | .error e, .error f => e = f
  | _, _ => False

/-! ## Narrative -/

/-- `    ${value.replaceAll("\n", "\n    ")}`. -/
def indented (value : Units) : Units :=
  fourBlanks ++ value.flatMap fun u => if u = 0x0a then 0x0a :: fourBlanks else [u]

/-- What the multiline rule asks of the characters. -/
structure Narrative (value : Units) : Prop where
  allowed : forbidden value = false
  paired : loneReturn value = false

/-- The texts differ in indented narrative alone, which begins where a line has only blanks;
    `clean` says that the line so far has only blanks. -/
inductive Narration : Bool → Units → Units → Prop
  | nil {clean : Bool} : Narration clean [] []
  | unit {clean : Bool} {s t : Units} (u : UInt16) :
      Narration (u == 0x0a || (clean && u == 0x20)) s t → Narration clean (u :: s) (u :: t)
  | value {v w s t : Units} : Narrative v → Narrative w → Narration false s t →
      Narration true (indented v ++ s) (indented w ++ t)


/-! ## Lines -/

variable {clean : Bool} {s t v w p q line : Units} {u : UInt16} {fence : Option Fence} {lines : List Units} {index : ℕ}

/-- The line begins with four blanks. -/
def isDeep (line : Units) : Bool := fourBlanks.isPrefixOf line

/-- The lines that are not deep. -/
def shallow (lines : List Units) : List Units := lines.filter fun line => !isDeep line

theorem isDeep_iff : isDeep line = true ↔ ∃ rest, line = 0x20 :: 0x20 :: 0x20 :: 0x20 :: rest := by
  rw [isDeep, List.isPrefixOf_iff_prefix]
  constructor
  · rintro ⟨rest, rfl⟩
    exact ⟨rest, rfl⟩
  · rintro ⟨rest, rfl⟩
    exact ⟨rest, rfl⟩

theorem isDeep_append (h : isDeep p = true) (s : Units) : isDeep (p ++ s) = true := by
  rcases isDeep_iff.1 h with ⟨rest, rfl⟩
  exact isDeep_iff.2 ⟨rest ++ s, rfl⟩

theorem isDeep_dropReturn (h : isDeep p = true) : isDeep (dropReturn p) = true := by
  rcases isDeep_iff.1 h with ⟨rest, rfl⟩
  unfold dropReturn
  split_ifs with hr
  · cases rest with
    | nil => exact absurd hr (by decide)
    | cons u rest => exact isDeep_iff.2 ⟨(u :: rest).dropLast, rfl⟩
  · exact h

/-- Four blanks after blanks make a line deep. -/
theorem isDeep_blanks (h : ∀ u ∈ p, u = 0x20) (s : Units) : isDeep (p ++ fourBlanks ++ s) = true := by
  have hp : p = List.replicate p.length 0x20 := List.eq_replicate_of_mem h
  have hcomm : p ++ fourBlanks = fourBlanks ++ p := by
    rw [hp, show fourBlanks = List.replicate 4 (0x20 : UInt16) from rfl, List.replicate_append_replicate,
      List.replicate_append_replicate, Nat.add_comm]
  rw [hcomm, List.append_assoc]
  exact isDeep_iff.2 ⟨p ++ s, rfl⟩

theorem linesFrom_append (h : (0x0a : UInt16) ∉ s) (p t : Units) : linesFrom p (s ++ t) = linesFrom (p ++ s) t := by
  induction s generalizing p with
  | nil => rw [List.append_nil, List.nil_append]
  | cons u s ih =>
    rw [List.mem_cons, not_or] at h
    show (if u = 0x0a then _ else _) = _
    rw [if_neg (Ne.symm h.1)]
    have hrest := ih h.2 (p ++ [u])
    rw [List.append_assoc] at hrest
    exact hrest

/-- How a deep line begins does not matter. -/
theorem shallow_deep (hp : isDeep p = true) (hq : isDeep q = true) (s : Units) :
    shallow (linesFrom p s) = shallow (linesFrom q s) := by
  induction s generalizing p q with
  | nil => simp [linesFrom, shallow, hp, hq]
  | cons u s ih =>
    unfold linesFrom
    split_ifs
    · simp [shallow, isDeep_dropReturn hp, isDeep_dropReturn hq]
    · exact ih (isDeep_append hp _) (isDeep_append hq _)

/-- Narrative adds deep lines to a deep line. -/
theorem shallow_narrative (hp : isDeep p = true) (v s : Units) :
    shallow (linesFrom p ((v.flatMap fun u => if u = 0x0a then 0x0a :: fourBlanks else [u]) ++ s)) =
      shallow (linesFrom p s) := by
  induction v generalizing p with
  | nil => rfl
  | cons u v ih =>
    rw [List.flatMap_cons, List.append_assoc]
    by_cases hu : u = 0x0a
    · rw [if_pos hu]
      show shallow (dropReturn p :: linesFrom [] (fourBlanks ++ _)) = _
      have hdrop : shallow (dropReturn p :: linesFrom [] (fourBlanks ++ ((v.flatMap fun u =>
          if u = 0x0a then 0x0a :: fourBlanks else [u]) ++ s))) = _ :=
        List.filter_cons_of_neg (by simp [isDeep_dropReturn hp])
      rw [hdrop, linesFrom_append (by decide)]
      show shallow (linesFrom ([] ++ fourBlanks) _) = _
      rw [ih (p := [] ++ fourBlanks) (by decide)]
      exact shallow_deep (by decide) hp s
    · rw [if_neg hu, linesFrom_append (by simpa using Ne.symm hu), ih (isDeep_append hp _)]
      exact shallow_deep (isDeep_append hp _) hp s

theorem shallow_indented (h : ∀ u ∈ p, u = 0x20) (hq : isDeep q = true) (v s : Units) :
    shallow (linesFrom p (indented v ++ s)) = shallow (linesFrom q s) := by
  have hd : isDeep (p ++ fourBlanks) = true := by
    rw [← List.append_nil (p ++ fourBlanks)]
    exact isDeep_blanks h []
  rw [indented, List.append_assoc, linesFrom_append (by decide), shallow_narrative hd]
  exact shallow_deep hd hq s

/-- Texts that differ in narrative have the same lines apart from deep ones. -/
theorem Narration.shallow_eq (h : Narration clean s t) (hc : clean = true → p = q ∧ ∀ u ∈ p, u = 0x20)
    (hpq : p = q ∨ isDeep p = true ∧ isDeep q = true) :
    shallow (linesFrom p s) = shallow (linesFrom q t) := by
  induction h generalizing p q with
  | nil =>
    rcases hpq with rfl | ⟨hp, hq⟩
    · rfl
    · exact shallow_deep hp hq []
  | @unit clean s t u h ih =>
    unfold linesFrom
    split_ifs with hu
    · have hrest := ih (p := []) (q := []) (fun _ => ⟨rfl, by simp⟩) (Or.inl rfl)
      rcases hpq with rfl | ⟨hp, hq⟩
      · unfold shallow at hrest ⊢
        rw [List.filter_cons, List.filter_cons, hrest]
      · unfold shallow at hrest ⊢
        rw [List.filter_cons_of_neg (by simp [isDeep_dropReturn hp]),
          List.filter_cons_of_neg (by simp [isDeep_dropReturn hq]), hrest]
    · refine ih ?_ ?_
      · rintro hclean
        rw [beq_eq_false_iff_ne.2 hu, Bool.false_or, Bool.and_eq_true, beq_iff_eq] at hclean
        rcases hc hclean.1 with ⟨rfl, hp⟩
        refine ⟨rfl, ?_⟩
        rintro x hx
        rcases List.mem_append.1 hx with hx | hx
        · exact hp x hx
        · rw [List.mem_singleton.1 hx, hclean.2]
      · rcases hpq with rfl | ⟨hp, hq⟩
        · exact Or.inl rfl
        · exact Or.inr ⟨isDeep_append hp _, isDeep_append hq _⟩
  | @value v w s t _ _ h ih =>
    rcases hc rfl with ⟨rfl, hp⟩
    have hd : isDeep fourBlanks = true := by decide
    rw [shallow_indented hp hd, shallow_indented hp hd]
    exact ih (by rintro ⟨⟩) (Or.inl rfl)


/-! ## Characters -/

theorem codePoints_cons (h : isHigh u = false) (s : Units) : codePoints (u :: s) = u.toNat :: codePoints s := by
  cases s with
  | nil => rfl
  | cons v s =>
    rw [codePoints, if_neg (by simp [h])]

theorem codePoints_low (h : ∀ v ∈ s.head?, isLow v = false) (u : UInt16) :
    codePoints (u :: s) = u.toNat :: codePoints s := by
  cases s with
  | nil => rfl
  | cons v s =>
    rw [codePoints, if_neg (by simp [h v rfl])]

theorem forbidden_cons (h : isHigh u = false) (s : Units) :
    forbidden (u :: s) = (isForbidden u.toNat || forbidden s) := by
  unfold forbidden
  rw [codePoints_cons h, List.any_cons]

/-- A unit that is allowed is no surrogate. -/
theorem not_high (h : isForbidden u.toNat = false) : isHigh u = false := by
  have hs : isSurrogatePoint u.toNat = false := by
    unfold isForbidden at h
    simp only [Bool.or_eq_false_iff] at h
    exact h.1.1.1.1.1.2
  unfold isSurrogatePoint at hs
  unfold isHigh
  rw [Bool.and_eq_false_iff, decide_eq_false_iff_not, decide_eq_false_iff_not] at hs ⊢
  rw [UInt16.le_iff_toNat_le, UInt16.lt_iff_toNat_lt]
  show ¬ 0xd800 ≤ u.toNat ∨ ¬ u.toNat < 0xdc00
  omega

def narrated (v : Units) : Units := v.flatMap fun u => if u = 0x0a then 0x0a :: fourBlanks else [u]

theorem narrated_cons (u : UInt16) (v : Units) :
    narrated (u :: v) = (if u = 0x0a then 0x0a :: fourBlanks else [u]) ++ narrated v := List.flatMap_cons

theorem indented_eq (v : Units) : indented v = fourBlanks ++ narrated v := rfl

theorem forbidden_fourBlanks (s : Units) : forbidden (fourBlanks ++ s) = forbidden s := by
  show forbidden (0x20 :: 0x20 :: 0x20 :: 0x20 :: s) = _
  rw [forbidden_cons (by decide), forbidden_cons (by decide), forbidden_cons (by decide), forbidden_cons (by decide)]
  rfl

/-- An allowed unit of narrative adds nothing forbidden. -/
theorem forbidden_narrated_unit (h : isForbidden u.toNat = false) (s : Units) :
    forbidden ((if u = 0x0a then 0x0a :: fourBlanks else [u]) ++ s) = forbidden s := by
  split_ifs
  · rw [List.cons_append, forbidden_cons (by decide), forbidden_fourBlanks]
    rfl
  · rw [List.singleton_append, forbidden_cons (not_high h), h, Bool.false_or]

/-- Allowed narrative adds nothing forbidden. -/
theorem forbidden_narrated (h : forbidden v = false) (s : Units) : forbidden (narrated v ++ s) = forbidden s := by
  unfold forbidden at h
  fun_induction codePoints v with
  | case1 => rfl
  | case2 u =>
    rw [List.any_cons, Bool.or_eq_false_iff] at h
    rw [narrated_cons, List.append_assoc, forbidden_narrated_unit h.1]
    rfl
  | case3 u v rest hpair ih =>
    rw [List.any_cons, Bool.or_eq_false_iff] at h
    rw [Bool.and_eq_true] at hpair
    have hu : u ≠ 0x0a := by
      rintro rfl
      exact absurd hpair.1 (by decide)
    have hv : v ≠ 0x0a := by
      rintro rfl
      exact absurd hpair.2 (by decide)
    rw [narrated_cons, narrated_cons, if_neg hu, if_neg hv]
    show forbidden (u :: v :: (narrated rest ++ s)) = _
    unfold forbidden
    rw [codePoints, if_pos (by rw [hpair.1, hpair.2]; rfl), List.any_cons, h.1, Bool.false_or]
    exact ih h.2
  | case4 u v rest hpair ih =>
    rw [List.any_cons, Bool.or_eq_false_iff] at h
    rw [narrated_cons, List.append_assoc, forbidden_narrated_unit h.1]
    exact ih h.2

theorem head_narrated (h : v.head? = some 0x0a) (s : Units) : (narrated v ++ s).head? = some 0x0a := by
  cases v with
  | nil => exact absurd h (by simp)
  | cons u v =>
    rw [Option.some.inj h, narrated_cons, if_pos rfl]
    rfl

theorem loneReturn_fourBlanks (s : Units) : loneReturn (fourBlanks ++ s) = loneReturn s := rfl

/-- Narrative does not end in a return. -/
theorem loneReturn_narrated (h : loneReturn v = false) (s : Units) : loneReturn (narrated v ++ s) = loneReturn s := by
  induction v with
  | nil => rfl
  | cons u v ih =>
    unfold loneReturn at h
    rw [Bool.or_eq_false_iff] at h
    rw [narrated_cons, List.append_assoc]
    by_cases hu : u = 0x0a
    · rw [if_pos hu]
      exact ih h.2
    · rw [if_neg hu]
      show ((u == 0x0d && (narrated v ++ s).head? != some 0x0a) || loneReturn (narrated v ++ s)) = _
      rw [ih h.2]
      by_cases hr : u = 0x0d
      · have hv : v.head? = some 0x0a := by simpa [hr] using h.1
        rw [head_narrated hv]
        simp
      · simp [hr]

theorem Narration.head_eq (h : Narration clean s t) : s.head? = t.head? := by
  cases h with
  | nil => rfl
  | unit u _ => rfl
  | value _ _ _ => rfl

theorem Narration.loneReturn_eq (h : Narration clean s t) : loneReturn s = loneReturn t := by
  induction h with
  | nil => rfl
  | unit u h ih =>
    unfold loneReturn
    rw [h.head_eq, ih]
  | value hv hw _ ih =>
    rw [indented_eq, indented_eq, List.append_assoc, List.append_assoc, loneReturn_fourBlanks, loneReturn_fourBlanks,
      loneReturn_narrated hv.paired, loneReturn_narrated hw.paired, ih]

theorem forbidden_high (h : ∀ v ∈ s.head?, isLow v = false) (u : UInt16) :
    forbidden (u :: s) = (isForbidden u.toNat || forbidden s) := by
  unfold forbidden
  rw [codePoints_low h, List.any_cons]

/-- What begins with a low surrogate begins so in both texts. -/
theorem Narration.low (h : Narration clean s t) (hv : v.head? = some u) (hs : s = v) (hlow : isLow u = true) :
    ∃ clean' s' t', s = u :: s' ∧ t = u :: t' ∧ Narration clean' s' t' := by
  subst hs
  cases h with
  | nil => exact absurd hv (by simp)
  | unit w h =>
    obtain rfl : w = u := Option.some.inj hv
    exact ⟨_, _, _, rfl, rfl, h⟩
  | value _ _ _ =>
    obtain rfl : (0x20 : UInt16) = u := Option.some.inj hv
    exact absurd hlow (by decide)

/-- On the length: a pair of surrogates takes two units. -/
theorem Narration.forbidden_eq (h : Narration clean s t) : forbidden s = forbidden t := by
  induction hn : s.length using Nat.strong_induction_on generalizing clean s t with
  | _ n ih =>
    cases h with
    | nil => rfl
    | @unit _ s t u h =>
      by_cases hlow : ∃ v ∈ s.head?, isLow v = true
      · -- the next unit is that of both texts
        rcases hlow with ⟨v, hv, hlow⟩
        rcases h.low hv rfl hlow with ⟨clean', s', t', rfl, rfl, h'⟩
        have hrest := ih s'.length (by rw [← hn]; simp) h' rfl
        by_cases hhigh : isHigh u = true
        · have hpair : ∀ x : Units, forbidden (u :: v :: x) = (isForbidden (pairPoint u v) || forbidden x) := by
            intro x
            unfold forbidden
            rw [codePoints, if_pos (by rw [hhigh, hlow]; rfl), List.any_cons]
          rw [hpair, hpair, hrest]
        · have hu : isHigh u = false := by simpa using hhigh
          rw [forbidden_cons hu, forbidden_cons hu, ih (v :: s').length (by rw [← hn]; simp) h rfl]
      · have hs : ∀ v ∈ s.head?, isLow v = false := by
          rintro v hv
          by_contra hlow'
          exact hlow ⟨v, hv, by simpa using hlow'⟩
        have ht : ∀ v ∈ t.head?, isLow v = false := by
          rw [← h.head_eq]
          exact hs
        rw [forbidden_high hs, forbidden_high ht, ih s.length (by rw [← hn]; simp) h rfl]
    | @value v w s t hv hw h =>
      rw [indented_eq, indented_eq, List.append_assoc, List.append_assoc, forbidden_fourBlanks, forbidden_fourBlanks,
        forbidden_narrated hv.allowed, forbidden_narrated hw.allowed]
      refine ih s.length ?_ h rfl
      rw [← hn, indented_eq, List.length_append, List.length_append]
      show s.length < 4 + _ + s.length
      omega

/-! ## Shapes of documents that differ in narrative -/

theorem deep_hidden (h : isDeep line = true) (fence : Option Fence) : isHidden fence line = true := by
  unfold isHidden isIndented
  rw [show fourBlanks.isPrefixOf line = true from h]
  simp

theorem deep_delimiter (h : isDeep line = true) : delimiter line = none := by
  rcases isDeep_iff.1 h with ⟨rest, rfl⟩
  unfold delimiter
  cases hd : List.dropWhile (· == (0x20 : UInt16)) (0x20 :: 0x20 :: 0x20 :: 0x20 :: rest) with
  | nil => rfl
  | cons marker tail =>
    dsimp only
    rw [if_neg]
    rintro ⟨hlen, -⟩
    simp at hlen
    omega

/-- The loop without the indices. -/
def survey (fence : Option Fence) : List Units → Option Fence × List Units × List (Units × ℕ)
  | [] => (fence, [], [])
  | line :: lines =>
    let rest := survey (fenceAfter fence line) lines
    (rest.1, [visibleLine fence line].filter (· ≠ []) ++ rest.2.1,
      ((headingOf fence 0 line).map fun h => (h.text, h.level)).toList ++ rest.2.2)

theorem scan_survey (fence : Option Fence) (index : ℕ) (lines : List Units) :
    ((scan fence index lines).1, (scan fence index lines).2.1.filter (· ≠ []),
      (scan fence index lines).2.2.map fun h => (h.text, h.level)) = survey fence lines := by
  induction lines generalizing fence index with
  | nil => rfl
  | cons line lines ih =>
    have hrest := ih (fenceAfter fence line) (index + 1)
    have hh : ((headingOf fence index line).toList.map fun h => (h.text, h.level)) =
        ((headingOf fence 0 line).map fun h => (h.text, h.level)).toList := by
      unfold headingOf
      split_ifs
      · rfl
      · cases headingLevel line <;> rfl
    unfold survey
    rw [← hrest]
    simp only [scan, List.map_append, hh]
    rw [← List.singleton_append, List.filter_append]

/-- Deep lines add nothing. -/
theorem survey_shallow (fence : Option Fence) (lines : List Units) : survey fence (shallow lines) = survey fence lines := by
  induction lines generalizing fence with
  | nil => rfl
  | cons line lines ih =>
    by_cases h : isDeep line = true
    · have hcons : shallow (line :: lines) = shallow lines := List.filter_cons_of_neg (by simp [h])
      have hfence : fenceAfter fence line = fence := by
        unfold fenceAfter
        rw [deep_delimiter h]
      rw [hcons, ih]
      conv_rhs => unfold survey
      rw [hfence, visibleLine, headingOf, if_pos (deep_hidden h fence), if_pos (deep_hidden h fence)]
      rfl
    · have hcons : shallow (line :: lines) = line :: shallow lines := List.filter_cons_of_pos (by simp [h])
      rw [hcons]
      unfold survey
      rw [ih]

/-- **Narrative is inert**: documents that differ in it have the same shape. -/
theorem Narration.sameShape (h : Narration true s t) : SameShape (markdownShape s) (markdownShape t) := by
  have hlines : shallow (splitLines s) = shallow (splitLines t) :=
    h.shallow_eq (fun _ => ⟨rfl, by simp⟩) (Or.inl rfl)
  have hsurvey : survey none (splitLines s) = survey none (splitLines t) := by
    rw [← survey_shallow, hlines, survey_shallow]
  rw [← scan_survey none 0, ← scan_survey none 0, Prod.mk.injEq, Prod.mk.injEq] at hsurvey
  rcases hsurvey with ⟨hfence, hshown, houtline⟩
  unfold markdownShape
  rw [h.forbidden_eq, h.loneReturn_eq]
  by_cases hbad : forbidden t = true ∨ loneReturn t = true
  · rw [if_pos hbad, if_pos hbad]
    rfl
  · rw [if_neg hbad, if_neg hbad]
    dsimp only
    rw [hfence]
    by_cases ht : (scan none 0 (splitLines t)).1.isSome = true
    · rw [if_pos ht, if_pos ht]
      rfl
    · rw [if_neg ht, if_neg ht]
      exact ⟨houtline, hshown⟩

end PaPlatform.Templates
