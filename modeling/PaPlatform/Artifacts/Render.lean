/-
  Rendering a document (`artifacts/render.ts`): the loop over the top-level tokens, the
  gaps between them and the anchors.

  The pieces tile the source, and every anchor spans the lines of its piece.
-/
import PaPlatform.Artifacts.Markup
import PaPlatform.Lib.Separated

namespace PaPlatform.Artifacts

open Js Units Separated

structure ArtifactAnchor where
  id : Units
  startLine : ℕ
  endLine : ℕ
  deriving DecidableEq

/-- `source.replace(/\r\n|\r/g, "\n")`. -/
def normalizeNewlines : Units → Units
  | [] => []
  | u :: rest =>
    if u = 0x0d then (if rest.head? = some 0x0a then normalizeNewlines rest else 0x0a :: normalizeNewlines rest)
    else u :: normalizeNewlines rest

/-- The number of line ends. -/
def newlines (raw : Units) : ℕ := raw.count 0x0a

/-- `raw.replace(/\n+$/, "")`. -/
def withoutNewlines (raw : Units) : Units := raw.rdropWhile (· == 0x0a)

/-- The loop: `rest` is the source from `offset` on, `pieces` what was handed to `append`. -/
structure Rendering where
  rest : Units
  line : ℕ
  anchors : List ArtifactAnchor
  content : List Units
  pieces : List Units

def endLineOf (startLine : ℕ) (raw : Units) : ℕ := startLine + newlines (withoutNewlines raw)

/-- `append(raw, rendered)`; what follows `raw` in the source is `rest`. -/
def append (raw rendered rest : Units) (r : Rendering) : Rendering :=
  let next := { r with rest := rest, line := r.line + newlines raw, pieces := r.pieces ++ [raw] }
  if Units.blank raw = true then next
  else
    let startLine := r.line
    let endLine := endLineOf startLine raw
    { next with
      anchors := r.anchors ++ [⟨anchorId startLine endLine, startLine, endLine⟩]
      content := r.content ++
        [sectionTag (anchorId startLine endLine) startLine endLine ++ rendered ++ closeTag (units "section")] }

/-- A gap stays literal source. -/
def gapText (gap : Units) : Units := element (units "pre") (escapeArtifactText gap)

/-- One token: it throws if the token is not in the rest of the source, or is empty. -/
def renderToken (readingLink : Units → Bool) (r : Rendering) (token : Token) : Except Unit Rendering :=
  match breakOn token.raw r.rest with
  | none => .error ()
  | some (gap, after) =>
    if token.raw = [] then .error ()
    else
      let r := if gap = [] then r else append gap (gapText gap) (token.raw ++ after) r
      .ok (append token.raw (block readingLink token) after r)

def renderTokens (readingLink : Units → Bool) : Rendering → List Token → Except Unit Rendering
  | r, [] => .ok r
  | r, t :: ts => do
    let r ← renderToken readingLink r t
    renderTokens readingLink r ts

def Rendering.start (markdown : Units) : Rendering := ⟨markdown, 1, [], [], []⟩

/-- `renderMarkdownInternal` on the decoded source: `lex` is the lexer. -/
def renderMarkdownInternal (lex : Units → List Token) (readingLink : Units → Bool) (source : Units) :
    Except Unit Rendering := do
  let markdown := normalizeNewlines source
  let r ← renderTokens readingLink (.start markdown) (lex markdown)
  return if r.rest = [] then r else append r.rest (gapText r.rest) [] r

/-- `content.join("\n")`. -/
def Rendering.main (r : Rendering) : Units := (r.content.intersperse [0x0a]).flatten

/-- The anchor spans the lines of a piece, up to its trailing newlines; blank pieces have none. -/
def Spans (pieces : List Units) (a : ArtifactAnchor) : Prop :=
  ∃ before raw after, pieces = before ++ raw :: after ∧ Units.blank raw = false ∧
    a.startLine = 1 + newlines before.flatten ∧ a.endLine = a.startLine + newlines (withoutNewlines raw) ∧
    a.id = anchorId a.startLine a.endLine

/-- What a rendering keeps: `source` is the whole source. -/
structure Tiles (readingLink : Units → Bool) (source : Units) (r : Rendering) : Prop where
  tiled : r.pieces.flatten ++ r.rest = source
  line : r.line = 1 + newlines r.pieces.flatten
  spans : ∀ a ∈ r.anchors, Spans r.pieces a
  spanned : ∀ before raw after, r.pieces = before ++ raw :: after → Units.blank raw = false →
    ∃ a ∈ r.anchors, a.startLine = 1 + newlines before.flatten ∧ a.endLine = endLineOf a.startLine raw
  ordered : r.anchors.Pairwise fun a b => a.startLine ≤ b.startLine
  below : ∀ a ∈ r.anchors, a.startLine ≤ r.line
  markup : ∀ s ∈ r.content, Markup readingLink s

variable {readingLink : Units → Bool} {source raw rendered rest : Units} {r r' : Rendering} {tokens : List Token}

theorem newlines_append (s t : Units) : newlines (s ++ t) = newlines s + newlines t := List.count_append

theorem Tiles.start (readingLink : Units → Bool) (source : Units) : Tiles readingLink source (.start source) where
  tiled := rfl
  line := rfl
  spans := by simp [Rendering.start]
  spanned := by
    rintro before raw after h
    exact absurd h (by simp [Rendering.start])
  ordered := List.Pairwise.nil
  below := by simp [Rendering.start]
  markup := by simp [Rendering.start]

theorem Spans.snoc {pieces : List Units} {a : ArtifactAnchor} (h : Spans pieces a) (raw : Units) :
    Spans (pieces ++ [raw]) a := by
  rcases h with ⟨before, piece, after, rfl, h⟩
  exact ⟨before, piece, after ++ [raw], by simp, h⟩

/-- A new piece: what is left of the source follows it. -/
theorem Tiles.append (h : Tiles readingLink source r) (hr : r.rest = raw ++ rest) (hm : Markup readingLink rendered) :
    Tiles readingLink source (append raw rendered rest r) := by
  have htiled : (r.pieces ++ [raw]).flatten ++ rest = source := by
    rw [← h.tiled, hr, List.flatten_append, List.flatten_singleton, List.append_assoc]
  have hline : r.line + newlines raw = 1 + newlines (r.pieces ++ [raw]).flatten := by
    rw [List.flatten_append, List.flatten_singleton, newlines_append, h.line, Nat.add_assoc]
  have hspanned : ∀ before piece after, r.pieces ++ [raw] = before ++ piece :: after →
      (after = [] ∧ before = r.pieces ∧ piece = raw) ∨
        ∃ after', r.pieces = before ++ piece :: after' := by
    rintro before piece after heq
    rcases List.eq_nil_or_concat after with rfl | ⟨after', x, rfl⟩
    · have hl := List.append_inj' heq rfl
      exact Or.inl ⟨rfl, hl.1.symm, (List.singleton_inj.1 hl.2).symm⟩
    · rw [List.concat_eq_append, ← List.cons_append, ← List.append_assoc] at heq
      exact Or.inr ⟨after', (List.append_inj' heq rfl).1⟩
  unfold Artifacts.append
  by_cases hb : Units.blank raw = true
  · rw [if_pos hb]
    refine ⟨htiled, hline, fun a ha => (h.spans a ha).snoc raw, ?_, h.ordered, ?_, h.markup⟩
    · rintro before piece after heq hblank
      rcases hspanned before piece after heq with ⟨-, -, rfl⟩ | ⟨after', heq'⟩
      · rw [hb] at hblank
        exact absurd hblank (by simp)
      · exact h.spanned before piece after' heq' hblank
    · rintro a ha
      exact (h.below a ha).trans (Nat.le_add_right _ _)
  · rw [if_neg hb]
    refine ⟨htiled, hline, ?_, ?_, ?_, ?_, ?_⟩
    · rintro a ha
      rcases List.mem_append.1 ha with ha | ha
      · exact (h.spans a ha).snoc raw
      · rw [List.mem_singleton.1 ha]
        exact ⟨r.pieces, raw, [], rfl, by simpa using hb, h.line, rfl, rfl⟩
    · rintro before piece after heq hblank
      rcases hspanned before piece after heq with ⟨-, rfl, rfl⟩ | ⟨after', heq'⟩
      · exact ⟨_, List.mem_append_right _ List.mem_cons_self, h.line, rfl⟩
      · rcases h.spanned before piece after' heq' hblank with ⟨a, ha, h'⟩
        exact ⟨a, List.mem_append_left _ ha, h'⟩
    · refine List.pairwise_append.2 ⟨h.ordered, List.pairwise_singleton _ _, ?_⟩
      rintro a ha b hb'
      rw [List.mem_singleton.1 hb']
      exact h.below a ha
    · rintro a ha
      rcases List.mem_append.1 ha with ha | ha
      · exact (h.below a ha).trans (Nat.le_add_right _ _)
      · rw [List.mem_singleton.1 ha]
        exact Nat.le_add_right _ _
    · rintro s hs
      rcases List.mem_append.1 hs with hs | hs
      · exact h.markup s hs
      · rw [List.mem_singleton.1 hs]
        exact .section _ _ hm

theorem gap_markup (gap : Units) : Markup readingLink (gapText gap) := .element (by decide) (.text gap)

theorem append_rest : (append raw rendered rest r).rest = rest := by
  unfold append
  split_ifs <;> rfl

theorem Tiles.token (h : Tiles readingLink source r) {t : Token} (ht : renderToken readingLink r t = .ok r') :
    Tiles readingLink source r' := by
  unfold renderToken at ht
  cases hb : breakOn t.raw r.rest with
  | none =>
    rw [hb] at ht
    exact absurd ht (by simp)
  | some p =>
    rcases p with ⟨gap, after⟩
    have hrest := breakOn_eq hb
    rw [List.append_assoc] at hrest
    rw [hb] at ht
    dsimp only at ht
    by_cases hraw : t.raw = []
    · rw [if_pos hraw] at ht
      exact absurd ht (by simp)
    · rw [if_neg hraw, Except.ok.injEq] at ht
      rw [← ht]
      by_cases hgap : gap = []
      · rw [if_pos hgap]
        rw [hgap, List.nil_append] at hrest
        exact h.append hrest (block_markup readingLink t)
      · rw [if_neg hgap]
        exact (h.append hrest (gap_markup gap)).append append_rest (block_markup readingLink t)

theorem Tiles.renderTokens (h : Tiles readingLink source r) (ht : renderTokens readingLink r tokens = .ok r') :
    Tiles readingLink source r' := by
  induction tokens generalizing r with
  | nil =>
    rw [← Except.ok.inj ht]
    exact h
  | cons t tokens ih =>
    unfold renderTokens at ht
    rcases Guard.bind_eq_ok.1 ht with ⟨next, hnext, hrest⟩
    exact ih (h.token hnext) hrest

/-- The main content is the sections one after another. -/
theorem intersperse_markup {content : List Units} (h : ∀ s ∈ content, Markup readingLink s) :
    Markup readingLink (content.intersperse [0x0a]).flatten := by
  have hline : Markup readingLink [0x0a] := .plain (by decide)
  induction content with
  | nil => exact .nil
  | cons s content ih =>
    rw [List.forall_mem_cons] at h
    cases content with
    | nil =>
      show Markup readingLink [s].flatten
      rw [List.flatten_singleton]
      exact h.1
    | cons t content => exact .append h.1 (.append hline (ih h.2))

/-- **Rendering is safe and loses nothing**: for every source, every token tree that the lexer returns
    and every link policy, the content is balanced markup of escaped text, the pieces are the
    normalized source, and the anchors span the lines of the pieces in order. -/
theorem render_safe (lex : Units → List Token) (readingLink : Units → Bool) (source : Units)
    (h : renderMarkdownInternal lex readingLink source = .ok r) :
    Markup readingLink r.main ∧ (∀ text, Escaped (escapeArtifactText text)) ∧
      r.pieces.flatten = normalizeNewlines source ∧
      ((∀ a ∈ r.anchors, Spans r.pieces a) ∧ ∀ before raw after, r.pieces = before ++ raw :: after →
        Units.blank raw = false → ∃ a ∈ r.anchors, a.startLine = 1 + newlines before.flatten ∧
          a.endLine = a.startLine + newlines (withoutNewlines raw)) ∧
      r.anchors.Pairwise fun a b => a.startLine ≤ b.startLine := by
  unfold renderMarkdownInternal at h
  rcases Guard.bind_eq_ok.1 h with ⟨last, hlast, hend⟩
  have htiles := (Tiles.start readingLink (normalizeNewlines source)).renderTokens hlast
  have hdone : Tiles readingLink (normalizeNewlines source) r ∧ r.rest = [] := by
    rw [← Guard.pure_eq_ok.1 hend]
    by_cases hrest : last.rest = []
    · rw [if_pos hrest]
      exact ⟨htiles, hrest⟩
    · rw [if_neg hrest]
      exact ⟨htiles.append (List.append_nil _).symm (gap_markup _), append_rest⟩
  rcases hdone with ⟨hr, hnil⟩
  have htiled := hr.tiled
  rw [hnil, List.append_nil] at htiled
  exact ⟨intersperse_markup hr.markup, escaped, htiled, ⟨hr.spans, hr.spanned⟩, hr.ordered⟩

/-- A heading that is an image, a gap, and a paragraph. -/
def sampleLex : Units → List Token := fun _ =>
  [.heading (units "# <b>\n") ⟨1, by decide⟩ [.other (units "<b>")], .paragraph (units "x & y") [.text [] (units "x & y") none]]

theorem render_safe_sample : ∃ r, renderMarkdownInternal sampleLex (fun _ => false) (units "# <b>\r\nlost\nx & y") = .ok r ∧
    Markup (fun _ => false) r.main := by
  have hok : (renderMarkdownInternal sampleLex (fun _ => false) (units "# <b>\r\nlost\nx & y")).toOption.isSome = true := by
    decide
  cases h : renderMarkdownInternal sampleLex (fun _ => false) (units "# <b>\r\nlost\nx & y") with
  | error e =>
    rw [h] at hok
    exact absurd hok (by simp [Except.toOption])
  | ok r => exact ⟨r, rfl, (render_safe _ _ _ h).1⟩

end PaPlatform.Artifacts
