/-
  What an incremental matcher does after a key.
-/
import PaPlatform.Diagnostics.Chunks
import PaPlatform.Diagnostics.Forms

namespace PaPlatform.Diagnostics

open Js Js.Units

variable {rule : TokenRule} {s t r v x w rest : Units} {u c : UInt16} {state : TokenRuleState}

/-! ## Runs -/

/-- What is emitted from a state on, up to the end of the line. -/
def emitted (rule : TokenRule) : TokenRuleState → Units → List PiRedactionMatch
  | state, [] => rule.finish state
  | state, u :: s => (rule.consume state [u]).2 ++ emitted rule (rule.consume state [u]).1 s

/-- A capture of a text. -/
def captured (t : Units) : MatchCapture := MatchCapture.empty.append t

theorem captured_append (t v : Units) : (captured t).append v = captured (t ++ v) := (append_append _ t v).symm

theorem captured_match (ruleId : PiRedactionRuleId) (t : Units) : (captured t).toMatch ruleId = toMatch ruleId t := by
  have hlength : (captured t).length = t.length := Nat.zero_add _
  have htext : (captured t).text = t.take maxMatchedText := append_text _ t
  rw [MatchCapture.toMatch, toMatch, hlength, htext]

theorem isWhitespace_unit (u : UInt16) : isWhitespace [u] = Units.isSpace u := by simp [isWhitespace]

theorem isWordCharacter_unit (u : UInt16) : isWordCharacter [u] = isWordOrHyphen u := by simp [isWordCharacter]

/-- A step that emits nothing. -/
theorem emitted_step {next : TokenRuleState} (h : rule.consume state [u] = (next, [])) :
    emitted rule state (u :: s) = emitted rule next s := by
  rw [emitted, h, List.nil_append]

/-- The key is given up, and the unit is read again. -/
theorem emitted_abandon (h : rule.consume state [u] = rule.abandon [u]) :
    emitted rule state (u :: s) = emitted rule TokenRule.start (u :: s) := by
  rw [emitted, h]
  rfl

/-- A match is emitted that begins with `t`, and the matcher goes on at `rest`. -/
def Emits (rule : TokenRule) (state : TokenRuleState) (t s rest : Units) : Prop :=
  ∃ v, s = v ++ rest ∧ emitted rule state s = toMatch rule.ruleId (t ++ v) :: emitted rule TokenRule.start rest

/-- No key begins with a separator. -/
abbrev Separator (u : UInt16) : Prop := Units.isSpace u = true ∨ isQuote u = true ∨ isDelimiter u = true

/-- Nothing is emitted before `rest`, and separators only are before it. -/
def Passes (rule : TokenRule) (state : TokenRuleState) (s rest : Units) : Prop :=
  ∃ v, s = v ++ rest ∧ (∀ u ∈ v, Separator u) ∧ emitted rule state s = emitted rule TokenRule.start rest

theorem Emits.step {next : TokenRuleState} (h : rule.consume state [u] = (next, []))
    (he : Emits rule next (t ++ [u]) s rest) : Emits rule state t (u :: s) rest := by
  obtain ⟨v, rfl, hv⟩ := he
  refine ⟨u :: v, rfl, ?_⟩
  rw [emitted_step h, hv, List.append_assoc, List.singleton_append]

theorem Passes.step {next : TokenRuleState} (h : rule.consume state [u] = (next, []))
    (hu : Separator u) (hp : Passes rule next s rest) :
    Passes rule state (u :: s) rest := by
  obtain ⟨v, rfl, hv, he⟩ := hp
  refine ⟨u :: v, rfl, List.forall_mem_cons.2 ⟨hu, hv⟩, ?_⟩
  rw [emitted_step h, he]

theorem Passes.abandon (h : rule.consume state [u] = rule.abandon [u]) : Passes rule state (u :: s) (u :: s) :=
  ⟨[], rfl, by simp, emitted_abandon h⟩

theorem Passes.finish (h : rule.finish state = []) : Passes rule state [] [] := ⟨[], rfl, by simp, h⟩

/-! ## Values -/

theorem consume_value : rule.consume (.value (captured t)) [u] =
    if (if rule.kind = .sk then isWordOrHyphen u else !Units.isSpace u) = true then (.value (captured (t ++ [u])), [])
    else ((rule.consumePrefix [] [u]).1, toMatch rule.ruleId t :: (rule.consumePrefix [] [u]).2) := by
  show rule.consumeValue (captured t) [u] = _
  rw [TokenRule.consumeValue, isWordCharacter_unit, isWhitespace_unit, captured_append, captured_match]

/-- **A value** goes on to the first unit that is none of it. -/
theorem emits_value {p : UInt16 → Bool}
    (hp : ∀ u, (if rule.kind = .sk then isWordOrHyphen u else !Units.isSpace u) = p u) :
    Emits rule (.value (captured t)) t s (s.dropWhile p) := by
  induction s generalizing t with
  | nil =>
    refine ⟨[], rfl, ?_⟩
    show [(captured t).toMatch rule.ruleId] = _
    rw [captured_match, List.append_nil]
    rfl
  | cons u s ih =>
    cases hu : p u with
    | true =>
      rw [List.dropWhile_cons_of_pos hu]
      refine Emits.step ?_ ih
      rw [consume_value, hp u, if_pos hu]
    | false =>
      rw [List.dropWhile_cons_of_neg (by simp [hu])]
      refine ⟨[], rfl, ?_⟩
      rw [emitted, consume_value, hp u, if_neg (by simp [hu]), List.append_nil]
      rfl

/-- A value of visible units. -/
theorem emits_visible (hk : rule.kind ≠ .sk) :
    Emits rule (.value (captured t)) t s (s.dropWhile fun v => !Units.isSpace v) :=
  emits_value fun _ => if_neg hk

/-- States in which spaces are added to the capture. -/
def KeepsSpaces (rule : TokenRule) (st : Units → TokenRuleState) : Prop :=
  ∀ t u, Units.isSpace u = true → rule.consume (st t) [u] = (st (t ++ [u]), [])

theorem emits_spaces {st : Units → TokenRuleState} (hst : KeepsSpaces rule st)
    (h : ∀ t, Emits rule (st t) t (afterSpaces s) rest) : Emits rule (st t) t s rest := by
  induction s generalizing t with
  | nil => exact h t
  | cons u s ih =>
    by_cases hu : Units.isSpace u = true
    · rw [afterSpaces, List.dropWhile_cons_of_pos hu] at h
      exact Emits.step (hst t u hu) (ih h)
    · rw [afterSpaces, List.dropWhile_cons_of_neg hu] at h
      exact h t

theorem passes_spaces {st : Units → TokenRuleState} (hst : KeepsSpaces rule st)
    (h : ∀ t, Passes rule (st t) (afterSpaces s) rest) : Passes rule (st t) s rest := by
  induction s generalizing t with
  | nil => exact h t
  | cons u s ih =>
    by_cases hu : Units.isSpace u = true
    · rw [afterSpaces, List.dropWhile_cons_of_pos hu] at h
      exact Passes.step (hst t u hu) (Or.inl hu) (ih h)
    · rw [afterSpaces, List.dropWhile_cons_of_neg hu] at h
      exact h t

/-! ## After a key -/

/-- What a matcher does after a key, compared with what its pattern reads there. -/
def Follows (rule : TokenRule) (after : Units → Option Units) (s : Units) : Prop :=
  ∀ t, (∃ rest, after s = some rest ∧ Emits rule (.afterKey (captured t)) t s rest) ∨
    (after s = none ∧ ∃ rest, Passes rule (.afterKey (captured t)) s rest)

theorem follows_sk (hk : rule.kind = .sk) (s : Units) : Follows rule skRest s := by
  intro t
  cases s with
  | nil => exact Or.inr ⟨rfl, [], .finish rfl⟩
  | cons u s =>
    have hconsume : rule.consume (.afterKey (captured t)) [u] =
        if isWordOrHyphen u = true then (.value (captured (t ++ [u])), []) else rule.abandon [u] := by
      simp only [TokenRule.consume, TokenRule.consumeAfterKey, hk, isWordCharacter_unit, captured_append]
    rw [skRest]
    split_ifs at hconsume ⊢ with hu
    · exact Or.inl ⟨_, rfl, Emits.step hconsume (emits_value fun _ => if_pos hk)⟩
    · exact Or.inr ⟨rfl, _, .abandon hconsume⟩

theorem spacing_space (rule : TokenRule) : KeepsSpaces rule fun t => .spacing (captured t) := by
  intro t u hu
  cases hkind : rule.kind <;>
    simp [TokenRule.consume, TokenRule.consumeSpacing, hkind, isWhitespace_unit, hu, captured_append]

theorem spacing_value (hk : rule.kind = .bearer ∨ rule.kind = .credential ∧ isDelimiter u = false)
    (hu : Units.isSpace u = false) (t : Units) :
    rule.consume (.spacing (captured t)) [u] = (.value (captured (t ++ [u])), []) := by
  rcases hk with hk | ⟨hk, hd⟩
  · simp [TokenRule.consume, TokenRule.consumeSpacing, hk, isWhitespace_unit, hu, captured_append]
  · have hne : u ≠ unit ':' ∧ u ≠ unit '=' := by simpa [isDelimiter] using hd
    simp [TokenRule.consume, TokenRule.consumeSpacing, hk, isWhitespace_unit, hu, hne, captured_append]

/-- A value after spaces. -/
theorem emits_spacing (hk : rule.kind = .bearer ∨ rule.kind = .credential ∧ isDelimiter c = false)
    (hs : afterSpaces s = c :: r) :
    Emits rule (.spacing (captured t)) t s (r.dropWhile fun v => !Units.isSpace v) := by
  have hsk : rule.kind ≠ .sk := by
    rcases hk with hk | ⟨hk, -⟩ <;> simp [hk]
  refine emits_spaces (spacing_space rule) fun t => ?_
  rw [hs]
  exact Emits.step (spacing_value hk (head_afterSpaces hs) t) (emits_visible hsk)

theorem passes_spacing (hs : afterSpaces s = []) : Passes rule (.spacing (captured t)) s [] := by
  refine passes_spaces (spacing_space rule) fun t => ?_
  rw [hs]
  exact .finish rfl

theorem follows_bearer (hk : rule.kind = .bearer) (s : Units) : Follows rule bearerRest s := by
  intro t
  cases s with
  | nil => exact Or.inr ⟨rfl, [], .finish rfl⟩
  | cons u s =>
    have hconsume : rule.consume (.afterKey (captured t)) [u] =
        if Units.isSpace u = true then (.spacing (captured (t ++ [u])), []) else rule.abandon [u] := by
      simp only [TokenRule.consume, TokenRule.consumeAfterKey, hk, isWhitespace_unit, captured_append]
    rw [bearerRest]
    split_ifs at hconsume ⊢ with hu
    · cases hs : afterSpaces s with
      | nil => exact Or.inr ⟨rfl, [], .step hconsume (Or.inl hu) (passes_spacing hs)⟩
      | cons c r =>
        rw [visibleRest, if_neg (by simp [head_afterSpaces hs])]
        exact Or.inl ⟨_, rfl, .step hconsume (emits_spacing (Or.inl hk) hs)⟩
    · exact Or.inr ⟨rfl, _, .abandon hconsume⟩

theorem delimiter_space (rule : TokenRule) : KeepsSpaces rule fun t => .afterDelimiter (captured t) := by
  intro t u hu
  simp [TokenRule.consume, TokenRule.consumeAfterDelimiter, isWhitespace_unit, hu, captured_append]

theorem passes_delimiter (hs : afterSpaces s = []) :
    Passes rule (.afterDelimiter (captured t)) s [] := by
  refine passes_spaces (delimiter_space rule) fun t => ?_
  rw [hs]
  exact .finish rfl

theorem delimiter_value (hq : rule.quoteOf [u] = none) (hu : Units.isSpace u = false) (t : Units) :
    rule.consume (.afterDelimiter (captured t)) [u] = (.value (captured (t ++ [u])), []) := by
  simp [TokenRule.consume, TokenRule.consumeAfterDelimiter, isWhitespace_unit, hu, hq, captured_append]

/-- A value after a delimiter. -/
theorem emits_delimiter (hk : rule.kind ≠ .sk) (hq : rule.quoteOf [c] = none) (hs : afterSpaces s = c :: r) :
    Emits rule (.afterDelimiter (captured t)) t s (r.dropWhile fun v => !Units.isSpace v) := by
  refine emits_spaces (delimiter_space rule) fun t => ?_
  rw [hs]
  exact Emits.step (delimiter_value hq (head_afterSpaces hs) t) (emits_visible hk)

/-- A credential key, spaces, a delimiter and spaces to the end of the line. -/
def Delimited (s : Units) : Prop :=
  ∃ c r, afterSpaces s = c :: r ∧ isDelimiter c = true ∧ afterSpaces r = [] ∧ s ≠ c :: r

theorem spacing_delimiter (hk : rule.kind = .credential ∨ rule.kind = .reasoning) (hu : isDelimiter u = true)
    (t : Units) : rule.consume (.spacing (captured t)) [u] = (.afterDelimiter (captured (t ++ [u])), []) := by
  have hspace := delimiter_not_space hu
  have heq : u = unit ':' ∨ u = unit '=' := by simpa [isDelimiter] using hu
  rcases hk with hk | hk <;>
    simp [TokenRule.consume, TokenRule.consumeSpacing, hk, isWhitespace_unit, hspace, heq, captured_append]

/-- **After a credential key** the matcher does not go back to a space. -/
theorem follows_credential (hk : rule.kind = .credential) (hd : ¬ Delimited s) : Follows rule credentialRest s := by
  intro t
  have hsk : rule.kind ≠ .sk := by simp [hk]
  have hquote : ∀ c, rule.quoteOf c = none := fun c => by simp [TokenRule.quoteOf, hk]
  cases s with
  | nil => exact Or.inr ⟨rfl, [], .finish rfl⟩
  | cons u s =>
    by_cases hu : Units.isSpace u = true
    · have hconsume : rule.consume (.afterKey (captured t)) [u] = (.spacing (captured (t ++ [u])), []) := by
        simp [TokenRule.consume, TokenRule.consumeAfterKey, hk, isWhitespace_unit, hu, captured_append]
      have hsame : afterSpaces (u :: s) = afterSpaces s := List.dropWhile_cons_of_pos hu
      unfold credentialRest
      rw [hsame]
      cases hs : afterSpaces s with
      | nil => exact Or.inr ⟨rfl, [], .step hconsume (Or.inl hu) (passes_spacing hs)⟩
      | cons c r =>
        have hc := head_afterSpaces hs
        have hne : u :: s ≠ c :: r := by
          intro he
          rw [(List.cons.inj he).1, hc] at hu
          cases hu
        dsimp only
        cases hdelim : isDelimiter c with
        | true =>
          have hr : afterSpaces r ≠ [] := fun hr => hd ⟨c, r, hsame.trans hs, hdelim, hr, hne⟩
          obtain ⟨c', r', hr'⟩ := List.exists_cons_of_ne_nil hr
          rw [if_pos ⟨rfl, hr⟩, hr', visibleRest, if_neg (by simp [head_afterSpaces hr'])]
          refine Or.inl ⟨_, rfl, .step hconsume ?_⟩
          refine emits_spaces (spacing_space rule) fun t => ?_
          rw [hs]
          exact Emits.step (spacing_delimiter (Or.inl hk) hdelim t) (emits_delimiter hsk (hquote _) hr')
        | false =>
          rw [if_neg (by simp), if_neg hne, visibleRest, if_neg (by simp [hc])]
          exact Or.inl ⟨_, rfl, .step hconsume (emits_spacing (Or.inr ⟨hk, hdelim⟩) hs)⟩
    · have hself : afterSpaces (u :: s) = u :: s := List.dropWhile_cons_of_neg hu
      unfold credentialRest
      rw [hself]
      dsimp only
      rw [if_pos rfl]
      by_cases hdelim : isDelimiter u = true
      · have heq : u = unit ':' ∨ u = unit '=' := by simpa [isDelimiter] using hdelim
        have hconsume : rule.consume (.afterKey (captured t)) [u] = (.afterDelimiter (captured (t ++ [u])), []) := by
          simp [TokenRule.consume, TokenRule.consumeAfterKey, hk, isWhitespace_unit, hu, heq, captured_append]
        cases hs : afterSpaces s with
        | nil =>
          rw [if_neg (by simp)]
          exact Or.inr ⟨rfl, [], .step hconsume (Or.inr (Or.inr hdelim)) (passes_delimiter hs)⟩
        | cons c r =>
          rw [if_pos ⟨hdelim, by simp⟩, visibleRest, if_neg (by simp [head_afterSpaces hs])]
          exact Or.inl ⟨_, rfl, .step hconsume (emits_delimiter hsk (hquote _) hs)⟩
      · have hne : u ≠ unit ':' ∧ u ≠ unit '=' := by simpa [isDelimiter] using hdelim
        have hconsume : rule.consume (.afterKey (captured t)) [u] = rule.abandon [u] := by
          simp [TokenRule.consume, TokenRule.consumeAfterKey, hk, isWhitespace_unit, hu, hne]
        rw [if_neg (by simp [hdelim])]
        exact Or.inr ⟨rfl, _, .abandon hconsume⟩

/-! ## After a reasoning key -/

/-- The unit of a quote. -/
def Quote.unit : Quote → UInt16
  | double => Js.unit '"'
  | single => Js.unit '\''

theorem Quote.text_eq (q : Quote) : q.text = [q.unit] := by
  cases q <;> rfl

/-- A quoted text that ends with a backslash, or has one before the end of a line. -/
def Dangling (quote : UInt16) (s : Units) : Prop := (quotedBody quote s).head? = some (unit '\\')

theorem quoted_step (q : Quote) (t : Units) (u : UInt16) (escaped : Bool) :
    rule.consume (.quotedValue (captured t) q escaped) [u] =
      if escaped then (.quotedValue (captured (t ++ [u])) q false, [])
      else if u = unit '\\' then (.quotedValue (captured (t ++ [u])) q true, [])
      else if u = q.unit then (TokenRule.start, [toMatch rule.ruleId (t ++ [u])])
      else (.quotedValue (captured (t ++ [u])) q escaped, []) := by
  simp only [TokenRule.consume, TokenRule.consumeQuotedValue, captured_append, captured_match, Quote.text_eq,
    List.cons.injEq, and_true]

/-- **A quoted text** is read to its end. -/
theorem emits_quoted (q : Quote) (h : ¬ Dangling q.unit s) :
    Emits rule (.quotedValue (captured t) q false) t s (quotedRest q.unit s) := by
  have hq : q.unit ≠ unit '\\' := by
    cases q <;> decide
  unfold Dangling at h
  unfold quotedRest
  fun_induction quotedBody q.unit s generalizing t with
  | case1 =>
    refine ⟨[], rfl, ?_⟩
    show [(captured t).toMatch rule.ruleId] = _
    rw [captured_match, List.append_nil]
    rfl
  | case2 s =>
    refine ⟨[q.unit], by simp [afterQuote], ?_⟩
    rw [emitted, quoted_step, if_neg (by simp), if_neg hq, if_pos rfl]
    simp [afterQuote]
  | case3 => exact absurd rfl h
  | case4 v r hv hne ih =>
    have hopen : rule.consume (.quotedValue (captured t) q false) [unit '\\'] =
        (.quotedValue (captured (t ++ [unit '\\'])) q true, []) := by
      rw [quoted_step, if_neg (by simp), if_pos rfl]
    have hclose : rule.consume (.quotedValue (captured (t ++ [unit '\\'])) q true) [v] =
        (.quotedValue (captured (t ++ [unit '\\'] ++ [v])) q false, []) := by
      rw [quoted_step, if_pos rfl]
    exact .step hopen (.step hclose (ih h))
  | case5 v r hv hne => exact absurd rfl h
  | case6 u s hu hb ih =>
    refine Emits.step ?_ (ih h)
    rw [quoted_step, if_neg (by simp), if_neg hb, if_neg hu]

theorem reasoning_spacing_abandon (hk : rule.kind = .reasoning) (hu : Units.isSpace u = false)
    (hd : isDelimiter u = false) (t : Units) : rule.consume (.spacing (captured t)) [u] = rule.abandon [u] := by
  have hne : u ≠ unit ':' ∧ u ≠ unit '=' := by simpa [isDelimiter] using hd
  simp [TokenRule.consume, TokenRule.consumeSpacing, hk, isWhitespace_unit, hu, hne]

theorem quoteOf_unit (hk : rule.kind = .reasoning) (q : Quote) : rule.quoteOf [q.unit] = some q := by
  simp only [TokenRule.quoteOf, hk]
  cases q <;> decide

theorem isQuote_iff : isQuote u = true ↔ ∃ q : Quote, u = q.unit := by
  simp only [isQuote, Bool.or_eq_true, beq_iff_eq]
  constructor
  · rintro (rfl | rfl)
    · exact ⟨.double, rfl⟩
    · exact ⟨.single, rfl⟩
  · rintro ⟨q, rfl⟩
    cases q
    · exact Or.inl rfl
    · exact Or.inr rfl

/-- The value of a reasoning key. -/
theorem emits_anyValue (hk : rule.kind = .reasoning) (hs : afterSpaces s = c :: r)
    (hd : isQuote c = true → ¬ Dangling c r) :
    ∃ rest, valueRest (c :: r) = some rest ∧ Emits rule (.afterDelimiter (captured t)) t s rest := by
  have hsk : rule.kind ≠ .sk := by simp [hk]
  have hc := head_afterSpaces hs
  by_cases hquote : isQuote c = true
  · obtain ⟨q, rfl⟩ := isQuote_iff.1 hquote
    refine ⟨_, if_pos hquote, ?_⟩
    refine emits_spaces (delimiter_space rule) fun t => ?_
    rw [hs]
    refine Emits.step ?_ (emits_quoted q (hd hquote))
    simp only [TokenRule.consume, TokenRule.consumeAfterDelimiter, isWhitespace_unit, hc, quoteOf_unit hk,
      captured_append]
    rfl
  · have hnone : rule.quoteOf [c] = none := by
      have hne : c ≠ unit '"' ∧ c ≠ unit '\'' := by simpa [isQuote] using hquote
      simp [TokenRule.quoteOf, Quote.text, hne.1.symm, hne.2.symm]
    exact ⟨_, by rw [valueRest, if_neg hquote, visibleRest, if_neg (by simp [hc])], emits_delimiter hsk hnone hs⟩

/-- What a matcher for reasoning does after an optional quote. -/
theorem spacing_follows (hk : rule.kind = .reasoning)
    (h : ∀ c r, delimitedValue (afterSpaces s) = some (c :: r) → isQuote c = true → ¬ Dangling c r) (t : Units) :
    (∃ rest, (delimitedValue (afterSpaces s)).bind valueRest = some rest ∧
      Emits rule (.spacing (captured t)) t s rest) ∨
    ((delimitedValue (afterSpaces s)).bind valueRest = none ∧
      ∃ rest, Passes rule (.spacing (captured t)) s rest) := by
  have hstay := spacing_space rule
  cases hs : afterSpaces s with
  | nil => exact Or.inr ⟨rfl, [], passes_spacing hs⟩
  | cons c r =>
    have hc := head_afterSpaces hs
    rw [hs] at h
    cases hd : isDelimiter c with
    | true =>
      have hdelim := fun t => @spacing_delimiter rule c (Or.inr hk) hd t
      rw [delimitedValue, if_pos hd] at h ⊢
      rw [Option.bind_some]
      cases hr : afterSpaces r with
      | nil =>
        refine Or.inr ⟨rfl, [], passes_spaces hstay fun t => ?_⟩
        rw [hs]
        exact Passes.step (hdelim t) (Or.inr (Or.inr hd)) (passes_delimiter hr)
      | cons c' r' =>
        have hvalue := fun t => @emits_anyValue rule r t r' c' hk hr (h c' r' (by rw [hr]))
        obtain ⟨rest, hrest, -⟩ := hvalue []
        refine Or.inl ⟨rest, hrest, emits_spaces hstay fun t => ?_⟩
        obtain ⟨rest', hrest', hemits⟩ := hvalue (t ++ [c])
        obtain rfl : rest' = rest := Option.some.inj (hrest'.symm.trans hrest)
        rw [hs]
        exact Emits.step (hdelim t) hemits
    | false =>
      rw [delimitedValue, if_neg (by simp [hd])]
      refine Or.inr ⟨rfl, c :: r, passes_spaces hstay fun t => ?_⟩
      rw [hs]
      exact .abandon (reasoning_spacing_abandon hk hc hd t)

/-- **After a reasoning key** the matcher goes on behind a backslash at the end of a line. -/
theorem follows_reasoning (hk : rule.kind = .reasoning)
    (h : ∀ c r, reasoningValue s = some (c :: r) → isQuote c = true → ¬ Dangling c r) :
    Follows rule reasoningRest s := by
  intro t
  unfold reasoningRest
  unfold reasoningValue beforeDelimiter at h ⊢
  cases s with
  | nil => exact Or.inr ⟨rfl, [], .finish rfl⟩
  | cons u s =>
    rw [List.head?_cons, Option.any_some, List.drop_one, List.tail_cons] at h ⊢
    by_cases hu : isQuote u = true
    · rw [if_pos hu] at h ⊢
      have hconsume : rule.consume (.afterKey (captured t)) [u] = (.spacing (captured (t ++ [u])), []) := by
        obtain ⟨q, rfl⟩ := isQuote_iff.1 hu
        cases q <;> simp [TokenRule.consume, TokenRule.consumeAfterKey, hk, Quote.text, Quote.unit, captured_append]
      rcases spacing_follows hk h (t ++ [u]) with ⟨rest, hrest, he⟩ | ⟨hnone, rest, hp⟩
      · exact Or.inl ⟨rest, hrest, .step hconsume he⟩
      · exact Or.inr ⟨hnone, rest, .step hconsume (Or.inr (Or.inl hu)) hp⟩
    · rw [if_neg hu] at h ⊢
      have hconsume : rule.consume (.afterKey (captured t)) [u] = rule.consume (.spacing (captured t)) [u] := by
        have hne : u ≠ unit '"' ∧ u ≠ unit '\'' := by simpa [isQuote] using hu
        simp [TokenRule.consume, TokenRule.consumeAfterKey, hk, Quote.text, hne]
      have hemitted :
          emitted rule (.afterKey (captured t)) (u :: s) = emitted rule (.spacing (captured t)) (u :: s) := by
        rw [emitted, emitted, hconsume]
      have hfollows := spacing_follows hk h t
      unfold Emits Passes at hfollows ⊢
      rwa [hemitted]

end PaPlatform.Diagnostics
