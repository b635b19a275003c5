/-
  The Markdown renderer (`artifacts/render.ts`, `artifacts/policy.ts`): what it emits for
  the tokens of the lexer.

  Only the fixed tags are emitted, nested in balance; text is escaped; a link is
  emitted only if the link policy accepts it.
-/
import PaPlatform.Lib.JsonText
import PaPlatform.Lib.Guard

namespace PaPlatform.Artifacts

open Js Units

/-! ## Escaping -/

/-- `value.replace(/u/g, text)`. -/
def replaceUnit (u : UInt16) (text value : Units) : Units := value.flatMap fun v => if v = u then text else [v]

def escapeArtifactText (value : Units) : Units :=
  replaceUnit 0 [0xfffd] (replaceUnit 0x27 (units "&#39;") (replaceUnit 0x22 (units "&quot;")
    (replaceUnit 0x3e (units "&gt;") (replaceUnit 0x3c (units "&lt;") (replaceUnit 0x26 (units "&amp;") value)))))

/-- What stands for a unit of the source. -/
def escapeUnit (u : UInt16) : Units :=
  if u = 0x26 then units "&amp;" else if u = 0x3c then units "&lt;" else if u = 0x3e then units "&gt;"
  else if u = 0x22 then units "&quot;" else if u = 0x27 then units "&#39;" else if u = 0 then [0xfffd] else [u]

/-- The characters with a meaning of their own in HTML, in text or in a quoted attribute. -/
def specials : List UInt16 := [0x26, 0x3c, 0x3e, 0x22, 0x27, 0]

/-- The references that stand for them. -/
def references : List Units := [units "&amp;", units "&lt;", units "&gt;", units "&quot;", units "&#39;"]

/-- A text of references and of characters that are not special. -/
def Escaped (text : Units) : Prop :=
  ∃ parts : List Units, text = parts.flatten ∧ ∀ p ∈ parts, p ∈ references ∨ ∃ u, p = [u] ∧ u ∉ specials

/-! ## Tokens -/

/-- The depths of headings. -/
def Depth : Type := { n : ℕ // 1 ≤ n ∧ n ≤ 6 }

mutual

/-- A token of the lexer, by what the renderer knows of its type. -/
inductive Token where
  | strong (raw : Units) (tokens : List Token)
  | em (raw : Units) (tokens : List Token)
  | codespan (raw text : Units)
  | br (raw : Units)
  | escape (raw text : Units)
  | text (raw text : Units) (tokens : Option (List Token))
  | link (raw href : Units) (tokens : List Token)
  | space (raw : Units)
  | heading (raw : Units) (depth : Depth) (tokens : List Token)
  | paragraph (raw : Units) (tokens : List Token)
  | code (raw text : Units)
  | list (raw : Units) (ordered : Bool) (start : Option ℤ) (items : List ListItem)
  | table (raw : Units) (header : List (List Token)) (rows : List (List (List Token)))
  | other (raw : Units)

inductive ListItem where
  | mk (task checked : Bool) (tokens : List Token)

end

def Token.raw : Token → Units
  | .strong raw _ | .em raw _ | .codespan raw _ | .br raw | .escape raw _ | .text raw _ _ | .link raw _ _
  | .space raw | .heading raw _ _ | .paragraph raw _ | .code raw _ | .list raw _ _ _ | .table raw _ _
  | .other raw => raw

/-! ## Tags -/

def openTag (tag : Units) : Units := units "<" ++ tag ++ units ">"

def closeTag (tag : Units) : Units := units "</" ++ tag ++ units ">"

/-- `<${tag}>${body}</${tag}>`. -/
def element (tag body : Units) : Units := openTag tag ++ body ++ closeTag tag

def headingTag (depth : Depth) : Units := units "h" ++ decimal depth.1

/-- A number in decimal. -/
def integer (n : ℤ) : Units := if n < 0 then units "-" ++ decimal n.natAbs else decimal n.natAbs

/-- `Number.isSafeInteger(start)`. -/
def isSafeInteger (n : ℤ) : Bool := n.natAbs ≤ 9007199254740991

def orderedTag (start : Option ℤ) : Units :=
  match start.filter isSafeInteger with
  | some n => units "<ol start=\"" ++ integer n ++ units "\">"
  | none => openTag (units "ol")

def linkTag (href : Units) : Units :=
  units "<a href=\"" ++ escapeArtifactText href ++ units "\" rel=\"noreferrer\">"

def brTag : Units := units "<br>"

/-! ## Rendering -/

mutual

/-- `readingLink` is the link policy; without one no link is accepted. -/
def inline (readingLink : Units → Bool) : Token → Units
  | .strong _ tokens => element (units "strong") (inlines readingLink tokens)
  | .em _ tokens => element (units "em") (inlines readingLink tokens)
  | .codespan _ text => element (units "code") (escapeArtifactText text)
  | .br _ => brTag
  | .escape _ text => escapeArtifactText text
  | .text _ _ (some tokens) => inlines readingLink tokens
  | .text _ text none => escapeArtifactText text
  | .link raw href tokens =>
    if readingLink href = true then linkTag href ++ inlines readingLink tokens ++ closeTag (units "a")
    else escapeArtifactText raw
  -- every other type stays literal text
  | .space raw | .heading raw _ _ | .paragraph raw _ | .code raw _ | .list raw _ _ _ | .table raw _ _
  | .other raw => escapeArtifactText raw

/-- The tokens one after another: `inline(tokens)`. -/
def inlines (readingLink : Units → Bool) : List Token → Units
  | [] => []
  | t :: ts => inline readingLink t ++ inlines readingLink ts

end

def checkbox (task checked : Bool) : Units :=
  if task then (if checked then units "[x] " else units "[ ] ") else []

def cells (readingLink : Units → Bool) (tag : Units) (row : List (List Token)) : Units :=
  row.flatMap fun tokens => element tag (inlines readingLink tokens)

def tableRow (readingLink : Units → Bool) (tag : Units) (row : List (List Token)) : Units :=
  element (units "tr") (cells readingLink tag row)

mutual

def block (readingLink : Units → Bool) : Token → Units
  | .space _ => []
  | .heading _ depth tokens => element (headingTag depth) (inlines readingLink tokens)
  | .paragraph _ tokens => element (units "p") (inlines readingLink tokens)
  | .text _ _ (some tokens) => inlines readingLink tokens
  | .text _ text none => escapeArtifactText text
  | .code _ text => element (units "pre") (element (units "code") (escapeArtifactText text))
  | .list _ true start items => orderedTag start ++ listItems readingLink items ++ closeTag (units "ol")
  | .list _ false _ items => element (units "ul") (listItems readingLink items)
  | .table _ header rows =>
    element (units "table") (element (units "thead") (tableRow readingLink (units "th") header) ++
      element (units "tbody") (rows.flatMap (tableRow readingLink (units "td"))))
  | .strong raw _ | .em raw _ | .codespan raw _ | .br raw | .escape raw _ | .link raw _ _ | .other raw =>
    element (units "pre") (escapeArtifactText raw)

def listItems (readingLink : Units → Bool) : List ListItem → Units
  | [] => []
  | item :: items => listItem readingLink item ++ listItems readingLink items

def listItem (readingLink : Units → Bool) : ListItem → Units
  | .mk task checked tokens => element (units "li") (checkbox task checked ++ blocks readingLink tokens)

def blocks (readingLink : Units → Bool) : List Token → Units
  | [] => []
  | t :: ts => block readingLink t ++ blocks readingLink ts

end

/-! ## Markup -/

/-- The tags without attributes. -/
def plainTags : List Units :=
  ["strong", "em", "code", "h1", "h2", "h3", "h4", "h5", "h6", "p", "pre", "ul", "ol", "li", "table", "thead",
    "tbody", "tr", "th", "td"].map units

def sectionTag (id : Units) (startLine endLine : ℕ) : Units :=
  units "<section id=\"" ++ id ++ units "\" data-source-start=\"" ++ decimal startLine ++
    units "\" data-source-end=\"" ++ decimal endLine ++ units "\">"

/-- `source-L${startLine}-L${endLine}`. -/
def anchorId (startLine endLine : ℕ) : Units :=
  units "source-L" ++ decimal startLine ++ units "-L" ++ decimal endLine

/-- Balanced markup: escaped text, and the fixed tags around markup. -/
inductive Markup (readingLink : Units → Bool) : Units → Prop
  | nil : Markup readingLink []
  | text (source : Units) : Markup readingLink (escapeArtifactText source)
  | append {s t : Units} : Markup readingLink s → Markup readingLink t → Markup readingLink (s ++ t)
  | element {tag s : Units} : tag ∈ plainTags → Markup readingLink s → Markup readingLink (element tag s)
  | br : Markup readingLink brTag
  | ordered {s : Units} (start : Option ℤ) : Markup readingLink s →
      Markup readingLink (orderedTag start ++ s ++ closeTag (units "ol"))
  | link {s href : Units} : readingLink href = true → Markup readingLink s →
      Markup readingLink (linkTag href ++ s ++ closeTag (units "a"))
  | section {s : Units} (startLine endLine : ℕ) : Markup readingLink s →
      Markup readingLink (sectionTag (anchorId startLine endLine) startLine endLine ++ s ++ closeTag (units "section"))

section
variable {readingLink : Units → Bool} {s t tag : Units} {u : UInt16}

theorem replaceUnit_flatMap (u : UInt16) (text : Units) (f : UInt16 → Units) (value : Units) :
    replaceUnit u text (value.flatMap f) = value.flatMap fun v => replaceUnit u text (f v) := List.flatMap_assoc

/-- The replacements one after another stand for every unit alone. -/
theorem escapeArtifactText_eq (value : Units) : escapeArtifactText value = value.flatMap escapeUnit := by
  unfold escapeArtifactText
  rw [replaceUnit.eq_def 0x26]
  simp only [replaceUnit_flatMap]
  refine congrArg (fun f => List.flatMap f value) (funext fun v => ?_)
  unfold escapeUnit
  split_ifs with h26 h3c h3e h22 h27 h0
  · decide
  · subst h3c
    decide
  · subst h3e
    decide
  · subst h22
    decide
  · subst h27
    decide
  · subst h0
    decide
  · simp [replaceUnit, h3c, h3e, h22, h27, h0]

theorem escapeUnit_cases (u : UInt16) : escapeUnit u ∈ references ∨ ∃ v, escapeUnit u = [v] ∧ v ∉ specials := by
  unfold escapeUnit
  split_ifs with h26 h3c h3e h22 h27 h0
  · exact Or.inl (by decide)
  · exact Or.inl (by decide)
  · exact Or.inl (by decide)
  · exact Or.inl (by decide)
  · exact Or.inl (by decide)
  · exact Or.inr ⟨0xfffd, rfl, by decide⟩
  · exact Or.inr ⟨u, rfl, by simp [specials, h26, h3c, h3e, h22, h27, h0]⟩

/-- **Escaped text has no special character.** -/
theorem escaped (source : Units) : Escaped (escapeArtifactText source) := by
  refine ⟨source.map escapeUnit, ?_, ?_⟩
  · rw [escapeArtifactText_eq, List.flatMap_def]
  · rintro p hp
    rcases List.mem_map.1 hp with ⟨u, -, rfl⟩
    exact escapeUnit_cases u

theorem Markup.plain (h : escapeArtifactText s = s) : Markup readingLink s := by
  rw [← h]
  exact .text s

mutual

theorem inline_markup (readingLink : Units → Bool) : ∀ t : Token, Markup readingLink (inline readingLink t)
  | .strong _ tokens => .element (by decide) (inlines_markup readingLink tokens)
  | .em _ tokens => .element (by decide) (inlines_markup readingLink tokens)
  | .codespan _ text => .element (by decide) (.text text)
  | .br _ => .br
  | .escape _ text => .text text
  | .text _ _ (some tokens) => inlines_markup readingLink tokens
  | .text _ text none => .text text
  | .link raw href tokens => by
    unfold inline
    split_ifs with h
    · exact .link h (inlines_markup readingLink tokens)
    · exact .text raw
  | .space raw | .heading raw _ _ | .paragraph raw _ | .code raw _ | .list raw _ _ _ | .table raw _ _
  | .other raw => .text raw

theorem inlines_markup (readingLink : Units → Bool) : ∀ ts : List Token, Markup readingLink (inlines readingLink ts)
  | [] => .nil
  | t :: ts => .append (inline_markup readingLink t) (inlines_markup readingLink ts)

end

theorem headingTag_plain (depth : Depth) : headingTag depth ∈ plainTags := by
  have htag : ∀ n < 7, 1 ≤ n → units "h" ++ decimal n ∈ plainTags := by decide
  exact htag depth.1 (Nat.lt_succ_of_le depth.2.2) depth.2.1

theorem checkbox_markup (task checked : Bool) : Markup readingLink (checkbox task checked) := by
  cases task <;> cases checked
  · exact .nil
  · exact .nil
  · exact .plain (by decide)
  · exact .plain (by decide)

theorem flatMap_markup {α : Type} {f : α → Units} (l : List α) (h : ∀ a ∈ l, Markup readingLink (f a)) :
    Markup readingLink (l.flatMap f) := by
  induction l with
  | nil => exact .nil
  | cons a l ih =>
    rw [List.forall_mem_cons] at h
    exact .append h.1 (ih h.2)

theorem tableRow_markup (htag : tag ∈ plainTags) (row : List (List Token)) :
    Markup readingLink (tableRow readingLink tag row) :=
  .element (by decide) (flatMap_markup row fun tokens _ => .element htag (inlines_markup readingLink tokens))

mutual

/-- **What a block renders is balanced markup**, whatever the lexer returned. -/
theorem block_markup (readingLink : Units → Bool) : ∀ t : Token, Markup readingLink (block readingLink t)
  | .space _ => .nil
  | .heading _ depth tokens => .element (headingTag_plain depth) (inlines_markup readingLink tokens)
  | .paragraph _ tokens => .element (by decide) (inlines_markup readingLink tokens)
  | .text _ _ (some tokens) => inlines_markup readingLink tokens
  | .text _ text none => .text text
  | .code _ text => .element (by decide) (.element (by decide) (.text text))
  | .list _ true start items => .ordered start (listItems_markup readingLink items)
  | .list _ false _ items => .element (by decide) (listItems_markup readingLink items)
  | .table _ header rows =>
    .element (by decide) (.append (.element (by decide) (tableRow_markup (by decide) header))
      (.element (by decide) (flatMap_markup rows fun row _ => tableRow_markup (by decide) row)))
  | .strong raw _ | .em raw _ | .codespan raw _ | .br raw | .escape raw _ | .link raw _ _ | .other raw =>
    .element (by decide) (.text raw)

theorem listItems_markup (readingLink : Units → Bool) : ∀ items : List ListItem,
    Markup readingLink (listItems readingLink items)
  | [] => .nil
  | item :: items => .append (listItem_markup readingLink item) (listItems_markup readingLink items)

theorem listItem_markup (readingLink : Units → Bool) : ∀ item : ListItem, Markup readingLink (listItem readingLink item)
  | .mk task checked tokens =>
    .element (by decide) (.append (checkbox_markup task checked) (blocks_markup readingLink tokens))

theorem blocks_markup (readingLink : Units → Bool) : ∀ ts : List Token, Markup readingLink (blocks readingLink ts)
  | [] => .nil
  | t :: ts => .append (block_markup readingLink t) (blocks_markup readingLink ts)

end

end

end PaPlatform.Artifacts
