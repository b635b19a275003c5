/-
  What the streaming auditor records does not depend on how its input is split.

  A matcher reads a surrogate pair as one character if the pair comes in one chunk, and
  as two if not: it does the same for both (`matcher_pair`).  So a chunk may be read
  unit by unit (`push_units`).
-/
import PaPlatform.Diagnostics.Stream

namespace PaPlatform.Diagnostics

open Js Js.Units

open Value (isHigh isLow)

variable {accepted : Units → Bool} {rule : TokenRule} {m : Matcher} {s t c : Units} {u v : UInt16}

/-! ## Characters -/

/-- A character outside the basic plane, or a part of it. -/
def Astral (c : Units) : Prop := c ≠ [] ∧ ∀ u ∈ c, isSurrogate u = true

theorem astral_unit (h : isSurrogate u = true) : Astral [u] := ⟨by simp, by simpa using h⟩

theorem astral_pair (hu : isSurrogate u = true) (hv : isSurrogate v = true) : Astral [u, v] :=
  ⟨by simp, by simp [hu, hv]⟩

theorem isSpace_surrogate (h : isSurrogate u = true) : Units.isSpace u = false := by
  rw [toNat_surrogate] at h
  have hchar : Char.ofNat u.toNat = Char.ofNat 0 := by
    unfold Char.ofNat
    rw [dif_neg (by simp [Nat.isValidChar]; omega)]
    rfl
  rw [Units.isSpace, hchar]
  rfl

theorem ne_surrogate (h : isSurrogate u = true) (hv : v.toNat < 0xd800) : u ≠ v := by
  rw [toNat_surrogate] at h
  rintro rfl
  omega

theorem isWordOrHyphen_surrogate (h : isSurrogate u = true) : isWordOrHyphen u = false := by
  have hle : ∀ z : Char, (unit z).toNat < 0xd800 → ¬ u ≤ unit z := by
    intro z hz hle
    rw [toNat_surrogate] at h
    rw [UInt16.le_iff_toNat_le] at hle
    omega
  have hne := fun z : Char => @ne_surrogate u (unit z) h
  simp [isWordOrHyphen, Units.isAlnum, Units.isDigit, within, hle '9' (by decide), hle 'Z' (by decide),
    hle 'z' (by decide), hne '_' (by decide), hne '-' (by decide)]

theorem Astral.isWhitespace (h : Astral c) : isWhitespace c = false := by
  simp only [Diagnostics.isWhitespace, List.any_eq_false]
  intro u hu
  simp [isSpace_surrogate (h.2 u hu)]

theorem Astral.isWordCharacter (h : Astral c) : isWordCharacter c = false := by
  simp only [Diagnostics.isWordCharacter, List.any_eq_false]
  intro u hu
  simp [isWordOrHyphen_surrogate (h.2 u hu)]

theorem Astral.ne_singleton (h : Astral c) (hv : v.toNat < 0xd800) : c ≠ [v] := by
  rintro rfl
  exact ne_surrogate (h.2 v (by simp)) hv rfl

theorem Astral.ne_quote (h : Astral c) (q : Quote) : c ≠ q.text := by
  cases q
  · exact h.ne_singleton (by decide)
  · exact h.ne_singleton (by decide)

theorem lowerUnit_surrogate (h : isSurrogate u = true) : lowerUnit u = [u] := by
  have hupper : within 'A' 'Z' u = false := by
    rw [toNat_surrogate] at h
    have hz : ¬ u ≤ unit 'Z' := by
      rw [UInt16.le_iff_toNat_le, show (unit 'Z').toNat = 90 from rfl]
      omega
    simp [within, hz]
  rw [lowerUnit, if_neg (ne_surrogate h (by decide)), if_neg (ne_surrogate h (by decide)), lower, if_neg (by simp [hupper])]

/-! ## Shrinking -/

theorem shrink_suffix (accepted : Units → Bool) (s : Units) : shrink accepted s <:+ s := by
  induction s with
  | nil => exact List.suffix_rfl
  | cons u s ih =>
    rw [shrink]
    split_ifs
    · exact List.suffix_rfl
    · exact ih.trans (List.suffix_cons u s)

theorem shrink_accepted (h : shrink accepted s ≠ []) : accepted (shrink accepted s) = true := by
  induction s with
  | nil => exact absurd rfl h
  | cons u s ih =>
    rw [shrink] at h ⊢
    split_ifs at h ⊢ with hu
    · exact hu
    · exact ih h

theorem shrink_eq_nil (h : ∀ t, t <:+ s → t ≠ [] → accepted t = false) : shrink accepted s = [] := by
  by_contra hne
  have hok := shrink_accepted hne
  rw [h _ (shrink_suffix accepted s) hne] at hok
  cases hok

/-- **What is dropped first would be dropped later**, if a part of an accepted text is accepted. -/
theorem shrink_append (hp : ∀ a b, accepted (a ++ b) = true → accepted a = true) (s t : Units) :
    shrink accepted (shrink accepted s ++ t) = shrink accepted (s ++ t) := by
  induction s with
  | nil => rfl
  | cons u s ih =>
    rw [shrink]
    split_ifs with hu
    · rfl
    · have hlong : ¬ accepted (u :: s ++ t) = true := fun h => hu (hp _ _ h)
      rw [ih, List.cons_append, shrink, if_neg (by simpa using hlong)]

/-! ## A surrogate pair -/

theorem append_text (capture : MatchCapture) (s : Units) :
    (capture.append s).text = capture.text ++ s.take (maxMatchedText - capture.text.length) := by
  unfold MatchCapture.append
  dsimp only
  split_ifs with h
  · rfl
  · rw [Nat.sub_eq_zero_of_le (not_lt.1 h), List.take_zero, List.append_nil]

theorem append_append (capture : MatchCapture) (s t : Units) :
    capture.append (s ++ t) = (capture.append s).append t := by
  have htext : (capture.append (s ++ t)).text = ((capture.append s).append t).text := by
    have hsub : maxMatchedText - (capture.text.length + min (maxMatchedText - capture.text.length) s.length) =
        maxMatchedText - capture.text.length - s.length := by omega
    rw [append_text, append_text, append_text, List.length_append, List.length_take, hsub, List.take_append,
      List.append_assoc]
  have hlength : (capture.append (s ++ t)).length = ((capture.append s).append t).length := by
    simp only [MatchCapture.append, List.length_append]
    omega
  cases hl : capture.append (s ++ t)
  cases hr : (capture.append s).append t
  rw [hl, hr] at htext hlength
  rw [MatchCapture.mk.injEq]
  exact ⟨htext, hlength⟩

theorem keyword_ok {keyword : Units} (h : keyword ∈ rule.keywords) :
    keyword ≠ [] ∧ keyword.length ≤ maxMatchedText ∧ ∀ u ∈ keyword, u < 0x80 := by
  have hok := List.all_eq_true.1 rule.keywords_ok keyword h
  simpa [isKeyword, and_assoc] using hok

/-- No keyword goes on with an astral character. -/
theorem consumePrefix_astral (candidate : Units) (h : Astral c) : rule.consumePrefix candidate c = (TokenRule.start, []) := by
  have hnone : shrink (fun s => rule.keywords.any (lowerCase s).isPrefixOf) (candidate ++ c) = [] := by
    refine shrink_eq_nil fun t ⟨p, hp⟩ hne => ?_
    obtain ⟨t, w, rfl⟩ := (List.eq_nil_or_concat t).resolve_left hne
    obtain ⟨c, z, rfl⟩ := (List.eq_nil_or_concat c).resolve_left h.1
    have hlast := congrArg List.getLast? hp
    simp only [List.concat_eq_append, List.getLast?_append, List.getLast?_singleton, Option.some_or, Option.some.injEq] at hlast
    subst hlast
    have hw : isSurrogate w = true := h.2 w (by simp)
    rw [List.any_eq_false]
    intro keyword hk hpre
    have hmem : w ∈ keyword := by
      refine (List.isPrefixOf_iff_prefix.1 hpre).subset ?_
      simp [lowerCase, lowerUnit_surrogate hw]
    have hlt := (keyword_ok hk).2.2 w hmem
    rw [toNat_surrogate] at hw
    simp only [UInt16.lt_iff_toNat_lt, UInt16.reduceToNat] at hlt
    omega
  have hempty : rule.keywords.contains (lowerCase []) = false := by
    rw [List.contains_eq_mem, decide_eq_false_iff_not]
    intro hmem
    exact (keyword_ok hmem).1 rfl
  unfold TokenRule.consumePrefix
  rw [hnone]
  dsimp only
  rw [hempty]
  rfl

/-- What a rule does at an astral character. -/
def astralStep (rule : TokenRule) (c : Units) : TokenRuleState → TokenRule.Step
  | .keyPrefix _ | .afterKey _ => (TokenRule.start, [])
  | .spacing capture =>
    if rule.kind = .reasoning ∨ rule.kind = .json then (TokenRule.start, []) else (.value (capture.append c), [])
  | .afterDelimiter capture => (.value (capture.append c), [])
  | .value capture =>
    if rule.kind = .sk then (TokenRule.start, [capture.toMatch rule.ruleId]) else (.value (capture.append c), [])
  | .quotedValue capture quote _ => (.quotedValue (capture.append c) quote false, [])

theorem consumeSpacing_astral (h : Astral c) (capture : MatchCapture) :
    rule.consumeSpacing capture c = astralStep rule c (.spacing capture) := by
  have hcolon : c ≠ [unit ':'] := h.ne_singleton (by decide)
  have hequals : c ≠ [unit '='] := h.ne_singleton (by decide)
  cases hk : rule.kind <;>
    simp [TokenRule.consumeSpacing, astralStep, hk, h.isWhitespace, hcolon, hequals, TokenRule.abandon,
      consumePrefix_astral _ h]

theorem consume_astral (h : Astral c) (state : TokenRuleState) : rule.consume state c = astralStep rule c state := by
  have hcolon : c ≠ [unit ':'] := h.ne_singleton (by decide)
  have hequals : c ≠ [unit '='] := h.ne_singleton (by decide)
  cases state with
  | keyPrefix candidate => exact consumePrefix_astral candidate h
  | spacing capture => exact consumeSpacing_astral h capture
  | afterKey capture =>
    cases hk : rule.kind <;>
      simp [TokenRule.consume, TokenRule.consumeAfterKey, consumeSpacing_astral h, astralStep, hk, h.isWhitespace,
        h.isWordCharacter, hcolon, hequals, h.ne_quote, TokenRule.abandon, consumePrefix_astral _ h]
  | afterDelimiter capture =>
    have hquote : rule.quoteOf c = none := by
      simp [TokenRule.quoteOf, Ne.symm (h.ne_quote _)]
    simp [TokenRule.consume, TokenRule.consumeAfterDelimiter, astralStep, h.isWhitespace, hquote]
  | value capture =>
    by_cases hk : rule.kind = .sk <;>
      simp [TokenRule.consume, TokenRule.consumeValue, astralStep, hk, h.isWhitespace, h.isWordCharacter,
        consumePrefix_astral _ h]
  | quotedValue capture quote escaped =>
    have hbackslash : c ≠ [unit '\\'] := h.ne_singleton (by decide)
    cases escaped <;> simp [TokenRule.consume, TokenRule.consumeQuotedValue, astralStep, hbackslash, h.ne_quote]

/-- The states of a matcher: its texts are short, and one for `sk-` has no delimiter. -/
def Fits (rule : TokenRule) : TokenRuleState → Prop
  | .keyPrefix candidate => candidate.length ≤ maxMatchedText
  | .afterKey capture | .value capture => capture.text.length ≤ maxMatchedText
  | .spacing capture | .afterDelimiter capture | .quotedValue capture _ _ =>
    rule.kind ≠ .sk ∧ capture.text.length ≤ maxMatchedText

theorem append_short {capture : MatchCapture} (h : capture.text.length ≤ maxMatchedText) (s : Units) :
    (capture.append s).text.length ≤ maxMatchedText := by
  rw [append_text, List.length_append, List.length_take]
  omega

theorem length_lowerCase (s : Units) : s.length ≤ (lowerCase s).length := by
  induction s with
  | nil => exact le_rfl
  | cons u s ih =>
    have hu : 1 ≤ (lowerUnit u).length := by
      unfold lowerUnit
      split_ifs <;> simp
    rw [lowerCase, List.flatMap_cons, List.length_append, List.length_cons]
    rw [lowerCase] at ih
    omega

theorem consumePrefix_fits (candidate c : Units) : Fits rule (rule.consumePrefix candidate c).1 := by
  unfold TokenRule.consumePrefix
  dsimp only
  generalize hs : shrink (fun s => rule.keywords.any (lowerCase s).isPrefixOf) (candidate ++ c) = shrunk
  have hlen : shrunk.length ≤ maxMatchedText := by
    by_cases hne : shrunk = []
    · simp [hne]
    · have hok := shrink_accepted (hs ▸ hne)
      rw [hs] at hok
      obtain ⟨keyword, hk, hpre⟩ := List.any_eq_true.1 hok
      have hle := (List.isPrefixOf_iff_prefix.1 hpre).length_le
      exact (length_lowerCase _).trans (hle.trans (keyword_ok hk).2.1)
  split_ifs
  · exact append_short (Nat.zero_le _) shrunk
  · exact hlen

theorem consumeSpacing_fits {capture : MatchCapture} (hk : rule.kind ≠ .sk)
    (h : capture.text.length ≤ maxMatchedText) (c : Units) : Fits rule (rule.consumeSpacing capture c).1 := by
  have happend := append_short h c
  unfold TokenRule.consumeSpacing
  split <;> split_ifs <;>
    first | exact ⟨hk, happend⟩ | exact consumePrefix_fits _ _ | exact happend

theorem consumeAfterKey_fits {capture : MatchCapture} (h : capture.text.length ≤ maxMatchedText) (c : Units) :
    Fits rule (rule.consumeAfterKey capture c).1 := by
  have happend := append_short h c
  unfold TokenRule.consumeAfterKey
  cases hk : rule.kind <;> dsimp only <;> split_ifs <;>
    first
      | exact ⟨by simp [hk], happend⟩
      | exact happend
      | exact consumePrefix_fits _ _
      | exact consumeSpacing_fits (by simp [hk]) h c

/-- **A step keeps the state of a matcher in order.** -/
theorem consume_fits {state : TokenRuleState} (h : Fits rule state) (c : Units) : Fits rule (rule.consume state c).1 := by
  cases state with
  | keyPrefix candidate => exact consumePrefix_fits candidate c
  | spacing capture => exact consumeSpacing_fits h.1 h.2 c
  | afterKey capture => exact consumeAfterKey_fits h c
  | afterDelimiter capture =>
    show Fits rule (rule.consumeAfterDelimiter capture c).1
    unfold TokenRule.consumeAfterDelimiter
    split_ifs
    · exact ⟨h.1, append_short h.2 c⟩
    · split
      · exact ⟨h.1, append_short h.2 c⟩
      · exact append_short h.2 c
  | value capture =>
    show Fits rule (rule.consumeValue capture c).1
    unfold TokenRule.consumeValue
    split_ifs <;> first | exact append_short h c | exact consumePrefix_fits _ _
  | quotedValue capture quote escaped =>
    show Fits rule (rule.consumeQuotedValue capture quote escaped c).1
    unfold TokenRule.consumeQuotedValue
    dsimp only
    split_ifs <;> first | exact ⟨h.1, append_short h.2 c⟩ | exact Nat.zero_le _

/-- **A pair is read like its two parts.** -/
theorem consume_pair {state : TokenRuleState} (h : Fits rule state) (hu : isSurrogate u = true) (hv : isSurrogate v = true) :
    rule.consume state [u, v] = ((rule.consume (rule.consume state [u]).1 [v]).1,
      (rule.consume state [u]).2 ++ (rule.consume (rule.consume state [u]).1 [v]).2) := by
  have happend := fun capture : MatchCapture => append_append capture [u] [v]
  simp only [List.singleton_append] at happend
  simp only [consume_astral (astral_pair hu hv), consume_astral (astral_unit hu), consume_astral (astral_unit hv)]
  cases state with
  | keyPrefix candidate => rfl
  | afterKey capture => rfl
  | spacing capture =>
    have hsk : rule.kind ≠ .sk := h.1
    by_cases hk : rule.kind = .reasoning ∨ rule.kind = .json
    · simp [astralStep, hk, TokenRule.start]
    · simp [astralStep, hk, hsk, happend]
  | afterDelimiter capture =>
    have hsk : rule.kind ≠ .sk := h.1
    simp [astralStep, hsk, happend]
  | value capture =>
    by_cases hk : rule.kind = .sk
    · simp [astralStep, hk, TokenRule.start]
    · simp [astralStep, hk, happend]
  | quotedValue capture quote escaped => simp [astralStep, happend]

/-! ## Chunks -/

/-- The last unit of a well-formed text is no high surrogate. -/
theorem wellFormed_last (h : WellFormed s) : ∀ u ∈ s.getLast?, isHigh u = false := by
  induction h with
  | nil => simp
  | @unit u s hu hs ih =>
    cases s with
    | nil =>
      intro v hv
      obtain rfl : u = v := by simpa using hv
      exact (Bool.or_eq_false_iff.1 hu).1
    | cons w s => rwa [List.getLast?_cons_cons]
  | @pair u v s hu hv hs ih =>
    cases s with
    | nil =>
      intro w hw
      obtain rfl : v = w := by simpa using hw
      simp only [isHigh, isLow, Bool.and_eq_true, decide_eq_true_eq, Bool.and_eq_false_iff, decide_eq_false_iff_not,
        UInt16.le_iff_toNat_le, UInt16.lt_iff_toNat_lt] at hv ⊢
      omega
    | cons w s => rwa [List.getLast?_cons_cons, List.getLast?_cons_cons]

/-- A matcher of the auditor. -/
def Sound : Matcher → Prop
  | .literal text tail => text ≠ [] ∧ WellFormed text ∧ tail.length ≤ text.length
  | .token rule state => Fits rule state

theorem consume_sound (h : Sound m) (c : Units) : Sound (m.consume c).1 := by
  cases m with
  | literal text tail =>
    obtain ⟨hne, hw, -⟩ := h
    have hlen : (shrink (·.isPrefixOf text) (tail ++ c)).length ≤ text.length := by
      by_cases hs : shrink (·.isPrefixOf text) (tail ++ c) = []
      · simp [hs]
      · have hok := @shrink_accepted (·.isPrefixOf text) _ hs
        exact (List.isPrefixOf_iff_prefix.1 hok).length_le
    unfold Matcher.consume
    dsimp only
    split_ifs
    · exact ⟨hne, hw, Nat.zero_le _⟩
    · exact ⟨hne, hw, hlen⟩
  | token rule state => exact consume_fits h c

theorem reset_sound (h : Sound m) : Sound m.reset := by
  cases m with
  | literal text tail => exact ⟨h.1, h.2.1, Nat.zero_le _⟩
  | token rule state => exact Nat.zero_le _

/-- The most that a matcher holds. -/
def limit : Matcher → ℕ
  | .literal text _ => text.length
  | .token _ _ => maxMatchedText

theorem buffered_le (h : Sound m) : m.bufferedCharacterCount ≤ limit m := by
  cases m with
  | literal text tail => exact h.2.2
  | token rule state =>
    cases state with
    | keyPrefix candidate => exact h
    | afterKey capture => exact h
    | value capture => exact h
    | spacing capture => exact h.2
    | afterDelimiter capture => exact h.2
    | quotedValue capture quote escaped => exact h.2

theorem limit_consume (m : Matcher) (c : Units) : limit (m.consume c).1 = limit m := by
  cases m with
  | literal text tail =>
    unfold Matcher.consume
    dsimp only
    split_ifs <;> rfl
  | token rule state => rfl

theorem limit_consumeAll (m : Matcher) (cs : List Units) : limit (m.consumeAll cs).1 = limit m := by
  induction cs generalizing m with
  | nil => rfl
  | cons c cs ih => exact (ih _).trans (limit_consume m c)

theorem limit_reset (m : Matcher) : limit m.reset = limit m := by
  cases m <;> rfl

/-- A text that is kept ends with the last unit. -/
theorem shrink_last {text tail : Units} (hne : text ≠ []) (h : shrink accepted (tail ++ [u]) = text) :
    text.getLast? = some u := by
  obtain ⟨p, hp⟩ := shrink_suffix accepted (tail ++ [u])
  rw [h] at hp
  have hlast := congrArg List.getLast? hp
  obtain ⟨text, w, rfl⟩ := (List.eq_nil_or_concat text).resolve_left hne
  simpa [List.concat_eq_append, List.getLast?_append] using hlast

/-- A pair is read like its two parts, if no literal ends between them. -/
theorem literal_pair {text tail : Units} (hopen : shrink (·.isPrefixOf text) (tail ++ [u]) ≠ text) :
    (Matcher.literal text tail).consume [u, v] = ((((Matcher.literal text tail).consume [u]).1.consume [v]).1,
      ((Matcher.literal text tail).consume [u]).2 ++ (((Matcher.literal text tail).consume [u]).1.consume [v]).2) := by
  have hpart : ∀ a b : Units, (a ++ b).isPrefixOf text = true → a.isPrefixOf text = true := by
    intro a b hab
    rw [List.isPrefixOf_iff_prefix] at hab ⊢
    exact (List.prefix_append a b).trans hab
  have hfirst : (Matcher.literal text tail).consume [u] =
      (.literal text (shrink (·.isPrefixOf text) (tail ++ [u])), []) := by
    unfold Matcher.consume
    dsimp only
    rw [if_neg hopen]
  rw [hfirst]
  unfold Matcher.consume
  dsimp only
  rw [shrink_append hpart, List.append_assoc, List.singleton_append, List.nil_append]

theorem matcher_pair (h : Sound m) (hu : isHigh u = true) (hv : isLow v = true) :
    m.consume [u, v] = (((m.consume [u]).1.consume [v]).1, (m.consume [u]).2 ++ ((m.consume [u]).1.consume [v]).2) := by
  cases m with
  | literal text tail =>
    refine literal_pair fun hopen => ?_
    have hno := wellFormed_last h.2.1 u (shrink_last h.1 hopen)
    rw [hu] at hno
    cases hno
  | token rule state =>
    have hpair := consume_pair h (show isSurrogate u = true by simp [isSurrogate, hu])
      (show isSurrogate v = true by simp [isSurrogate, hv])
    simp only [Matcher.consume, hpair]

theorem consumeAll_append (m : Matcher) (cs ds : List Units) :
    m.consumeAll (cs ++ ds) = (((m.consumeAll cs).1.consumeAll ds).1,
      (m.consumeAll cs).2 ++ ((m.consumeAll cs).1.consumeAll ds).2) := by
  induction cs generalizing m with
  | nil => rfl
  | cons c cs ih => simp only [List.cons_append, Matcher.consumeAll, ih, List.append_assoc]

/-- **A chunk is read unit by unit.** -/
theorem push_eq (h : Sound m) (s : Units) : m.push s = m.consumeAll (s.map ([·])) := by
  unfold Matcher.push
  fun_induction characters s generalizing m with
  | case1 => rfl
  | case2 u => rfl
  | case3 u v rest hp ih =>
    obtain ⟨hu, hv⟩ := Bool.and_eq_true_iff.1 hp
    simp only [List.map_cons, Matcher.consumeAll, matcher_pair h hu hv]
    rw [ih (consume_sound (consume_sound h _) _)]
    simp only [List.append_assoc]
  | case4 u v rest hp ih =>
    rw [List.map_cons, Matcher.consumeAll, Matcher.consumeAll, ih (consume_sound h _)]

theorem consumeAll_sound (h : Sound m) (cs : List Units) : Sound (m.consumeAll cs).1 := by
  induction cs generalizing m with
  | nil => exact h
  | cons c cs ih => exact ih (consume_sound h c)

theorem push_sound (h : Sound m) (s : Units) : Sound (m.push s).1 := consumeAll_sound h _

theorem push_append (h : Sound m) (s t : Units) :
    m.push (s ++ t) = (((m.push s).1.push t).1, (m.push s).2 ++ ((m.push s).1.push t).2) := by
  rw [push_eq (push_sound h s), push_eq h, push_eq h, List.map_append, consumeAll_append]

/-! ## The auditor -/

/-- The auditors differ in the order of their records only. -/
def Same (a b : Auditor) : Prop :=
  a.line = b.line ∧ a.incremental = b.incremental ∧ a.matchers = b.matchers ∧ a.recorded.Perm b.recorded

/-- An auditor whose matchers hold at most `limits`. -/
structure Auditor.Sound (limits : List ℕ) (a : Auditor) : Prop where
  matchers : ∀ m ∈ a.matchers, Diagnostics.Sound m
  limits : a.matchers.map limit = limits
  line : a.line.length ≤ maxStreamLine

variable {a b : Auditor} {double : Units → Number} {configured : List Units} {part : Units} {limits : List ℕ}

theorem Same.refl (a : Auditor) : Same a a := ⟨rfl, rfl, rfl, .rfl⟩

theorem Same.symm (h : Same a b) : Same b a := ⟨h.1.symm, h.2.1.symm, h.2.2.1.symm, h.2.2.2.symm⟩

theorem Same.trans {c : Auditor} (h : Same a b) (h' : Same b c) : Same a c :=
  ⟨h.1.trans h'.1, h.2.1.trans h'.2.1, h.2.2.1.trans h'.2.2.1, h.2.2.2.trans h'.2.2.2⟩

theorem Same.sound (h : Same a b) (ha : a.Sound limits) : b.Sound limits := by
  obtain ⟨hline, -, hms, -⟩ := h
  exact ⟨hms ▸ ha.matchers, hms ▸ ha.limits, hline ▸ ha.line⟩

theorem Same.pushIncremental (h : Same a b) (value : Units) : Same (a.pushIncremental value) (b.pushIncremental value) := by
  obtain ⟨hline, hinc, hms, hrec⟩ := h
  refine ⟨hline, hinc, ?_, ?_⟩
  · simp only [Auditor.pushIncremental, hms]
  · simp only [Auditor.pushIncremental, hms]
    exact hrec.append_right _

theorem Same.startIncremental (h : Same a b) : Same a.startIncremental b.startIncremental := by
  have hline := h.pushIncremental a.line
  unfold Auditor.startIncremental
  rw [← h.1]
  exact ⟨rfl, rfl, hline.2.2.1, hline.2.2.2⟩

theorem Same.pushLinePart (h : Same a b) (part : Units) : Same (a.pushLinePart part) (b.pushLinePart part) := by
  unfold Auditor.pushLinePart
  rw [h.2.1, show a.line.length = b.line.length by rw [h.1]]
  split_ifs
  · exact h
  · exact h.pushIncremental part
  · exact ⟨congrArg (· ++ part) h.1, rfl, h.2.2.1, h.2.2.2⟩
  · exact h.startIncremental.pushIncremental part

theorem Same.flushIncremental (h : Same a b) : Same a.flushIncremental b.flushIncremental := by
  obtain ⟨-, -, hms, hrec⟩ := h
  refine ⟨rfl, rfl, ?_, ?_⟩
  · simp only [Auditor.flushIncremental, Auditor.resetIncremental, hms]
  · simp only [Auditor.flushIncremental, Auditor.resetIncremental, hms]
    exact hrec.append_right _

theorem Same.observe (h : Same a b) (line : Units) :
    Same (a.observe double configured line) (b.observe double configured line) :=
  ⟨rfl, h.2.1, h.2.2.1, h.2.2.2.append_right _⟩

theorem Same.endLine (h : Same a b) : Same (a.endLine double configured) (b.endLine double configured) := by
  unfold Auditor.endLine
  rw [h.1, h.2.1]
  split_ifs
  · exact (h.pushIncremental _).flushIncremental
  · exact h.observe _

theorem Same.flush (h : Same a b) : Same (a.flush double configured) (b.flush double configured) := by
  unfold Auditor.flush
  rw [h.1, h.2.1]
  split_ifs
  · exact h.flushIncremental
  · exact h.observe _
  · exact h

/-! ### Soundness is kept -/

theorem Auditor.Sound.pushIncremental (h : a.Sound limits) (value : Units) : (a.pushIncremental value).Sound limits where
  matchers := by
    intro m hm
    obtain ⟨m', hm', rfl⟩ := List.mem_map.1 hm
    exact push_sound (h.matchers m' hm') value
  limits := by
    rw [← h.limits, Auditor.pushIncremental, List.map_map]
    exact List.map_congr_left fun m _ => limit_consumeAll m _
  line := h.line

theorem Auditor.Sound.flushIncremental (h : a.Sound limits) : a.flushIncremental.Sound limits where
  matchers := by
    intro m hm
    obtain ⟨m', hm', rfl⟩ := List.mem_map.1 hm
    exact reset_sound (h.matchers m' hm')
  limits := by
    rw [← h.limits, Auditor.flushIncremental, Auditor.resetIncremental, List.map_map]
    exact List.map_congr_left fun m _ => limit_reset m
  line := Nat.zero_le _

theorem Auditor.Sound.startIncremental (h : a.Sound limits) : a.startIncremental.Sound limits :=
  ⟨(h.pushIncremental a.line).matchers, (h.pushIncremental a.line).limits, Nat.zero_le _⟩

theorem Auditor.Sound.observe (h : a.Sound limits) (line : Units) : (a.observe double configured line).Sound limits :=
  ⟨h.matchers, h.limits, Nat.zero_le _⟩

theorem Auditor.Sound.pushLinePart (h : a.Sound limits) (part : Units) : (a.pushLinePart part).Sound limits := by
  have hline := h.line
  unfold Auditor.pushLinePart
  split_ifs with _ _ hfit
  · exact h
  · exact h.pushIncremental part
  · refine ⟨h.matchers, h.limits, ?_⟩
    rw [List.length_append]
    omega
  · exact h.startIncremental.pushIncremental part

theorem Auditor.Sound.endLine (h : a.Sound limits) : (a.endLine double configured).Sound limits := by
  unfold Auditor.endLine
  split_ifs
  · exact (h.pushIncremental _).flushIncremental
  · exact h.observe _

theorem Auditor.Sound.flush (h : a.Sound limits) : (a.flush double configured).Sound limits := by
  unfold Auditor.flush
  split_ifs
  · exact h.flushIncremental
  · exact h.observe _
  · exact h

/-- An auditor holds no more than its line and its matchers may. -/
theorem Auditor.Sound.buffered (h : a.Sound limits) : a.bufferedCharacterCount ≤ maxStreamLine + limits.sum := by
  have hsum : (a.matchers.map (·.bufferedCharacterCount)).sum ≤ (a.matchers.map limit).sum :=
    List.sum_le_sum fun m hm => buffered_le (h.matchers m hm)
  rw [h.limits] at hsum
  exact Nat.add_le_add h.line hsum

/-! ### Splitting -/

theorem pushIncremental_append (h : a.Sound limits) (s t : Units) :
    Same (a.pushIncremental (s ++ t)) ((a.pushIncremental s).pushIncremental t) := by
  have hstate : ∀ m ∈ a.matchers, (m.push (s ++ t)).1 = ((m.push s).1.push t).1 := fun m hm => by
    rw [push_append (h.matchers m hm)]
  have hmatches : ∀ m ∈ a.matchers, (m.push (s ++ t)).2 = (m.push s).2 ++ ((m.push s).1.push t).2 := fun m hm => by
    rw [push_append (h.matchers m hm)]
  refine ⟨rfl, rfl, ?_, ?_⟩
  · simp only [Auditor.pushIncremental, List.map_map]
    exact List.map_congr_left hstate
  · simp only [Auditor.pushIncremental, List.append_assoc, List.flatMap_map]
    refine List.Perm.append_left _ ?_
    rw [List.flatMap_congr hmatches]
    exact (List.flatMap_append_perm _ _ _).symm

theorem pushLinePart_append (h : a.Sound limits) (s t : Units) :
    Same (a.pushLinePart (s ++ t)) ((a.pushLinePart s).pushLinePart t) := by
  by_cases hs : s = []
  · subst hs
    rw [List.nil_append, show a.pushLinePart [] = a by rw [Auditor.pushLinePart, if_pos rfl]]
    exact .refl _
  by_cases ht : t = []
  · subst ht
    rw [List.append_nil, show (a.pushLinePart s).pushLinePart [] = a.pushLinePart s by
      rw [Auditor.pushLinePart, if_pos rfl]]
    exact .refl _
  have hst : s ++ t ≠ [] := by simp [hs]
  cases hi : a.incremental with
  | true =>
    have hfirst : a.pushLinePart s = a.pushIncremental s := by rw [Auditor.pushLinePart, if_neg hs, if_pos hi]
    have hboth : a.pushLinePart (s ++ t) = a.pushIncremental (s ++ t) := by
      rw [Auditor.pushLinePart, if_neg hst, if_pos hi]
    have hsecond : (a.pushIncremental s).pushLinePart t = (a.pushIncremental s).pushIncremental t := by
      rw [Auditor.pushLinePart, if_neg ht, if_pos (show (a.pushIncremental s).incremental = true from hi)]
    rw [hfirst, hboth, hsecond]
    exact pushIncremental_append h s t
  | false =>
    have hnot : ¬ a.incremental = true := by simp [hi]
    by_cases hfit : s.length ≤ maxStreamLine - a.line.length
    · have hfirst : a.pushLinePart s = { a with line := a.line ++ s } := by
        rw [Auditor.pushLinePart, if_neg hs, if_neg hnot, if_pos hfit]
      have hroom : maxStreamLine - (a.line ++ s).length = maxStreamLine - a.line.length - s.length := by
        rw [List.length_append, Nat.sub_sub]
      rw [hfirst]
      unfold Auditor.pushLinePart
      rw [if_neg hst, if_neg ht, if_neg hnot, if_neg hnot, hroom, List.length_append]
      by_cases hall : s.length + t.length ≤ maxStreamLine - a.line.length
      · rw [if_pos hall, if_pos (by omega), List.append_assoc]
        exact .refl _
      · rw [if_neg hall, if_neg (by omega)]
        have hline := pushIncremental_append h a.line s
        have hstart : Same (a.startIncremental.pushIncremental s)
            ({ a with line := a.line ++ s } : Auditor).startIncremental :=
          ⟨rfl, rfl, hline.2.2.1.symm, hline.2.2.2.symm⟩
        exact (pushIncremental_append h.startIncremental s t).trans (hstart.pushIncremental t)
    · have hfirst : a.pushLinePart s = a.startIncremental.pushIncremental s := by
        rw [Auditor.pushLinePart, if_neg hs, if_neg hnot, if_neg hfit]
      have hboth : a.pushLinePart (s ++ t) = a.startIncremental.pushIncremental (s ++ t) := by
        rw [Auditor.pushLinePart, if_neg hst, if_neg hnot, if_neg (by rw [List.length_append]; omega)]
      have hsecond : (a.startIncremental.pushIncremental s).pushLinePart t =
          (a.startIncremental.pushIncremental s).pushIncremental t := by
        rw [Auditor.pushLinePart, if_neg ht]
        exact if_pos rfl
      rw [hfirst, hboth, hsecond]
      exact pushIncremental_append h.startIncremental s t

/-- A unit is pushed. -/
def pushUnit (double : Units → Number) (configured : List Units) (a : Auditor) (u : UInt16) : Auditor :=
  if u = 0x0a then a.endLine double configured else a.pushLinePart [u]

theorem Same.pushUnit (h : Same a b) (u : UInt16) :
    Same (pushUnit double configured a u) (pushUnit double configured b u) := by
  unfold Diagnostics.pushUnit
  split_ifs
  · exact h.endLine
  · exact h.pushLinePart _

theorem Auditor.Sound.pushUnit (h : a.Sound limits) (u : UInt16) : (pushUnit double configured a u).Sound limits := by
  unfold Diagnostics.pushUnit
  split_ifs
  · exact h.endLine
  · exact h.pushLinePart _

theorem Same.foldl (h : Same a b) (s : Units) :
    Same (s.foldl (Diagnostics.pushUnit double configured) a) (s.foldl (Diagnostics.pushUnit double configured) b) := by
  induction s generalizing a b with
  | nil => exact h
  | cons u s ih => exact ih (h.pushUnit u)

theorem Same.pushParts (h : Same a b) (parts : List Units) :
    Same (a.pushParts double configured parts) (b.pushParts double configured parts) := by
  induction parts generalizing a b with
  | nil => exact h
  | cons part parts ih =>
    cases parts with
    | nil => exact h.pushLinePart part
    | cons next parts => exact ih (h.pushLinePart part).endLine

theorem pushParts_cons {parts : List Units} (hne : parts ≠ []) :
    a.pushParts double configured (part :: parts) =
      ((a.pushLinePart part).endLine double configured).pushParts double configured parts := by
  cases parts with
  | nil => exact absurd rfl hne
  | cons next parts => rfl

theorem pushLinePart_nil : a.pushLinePart [] = a := if_pos rfl

/-- A unit that is no line feed. -/
theorem pushParts_unit (h : a.Sound limits) (u : UInt16) {parts : List Units} (hne : parts ≠ []) :
    Same (a.pushParts double configured (parts.modifyHead (u :: ·)))
      ((a.pushLinePart [u]).pushParts double configured parts) := by
  cases parts with
  | nil => exact absurd rfl hne
  | cons part parts =>
    have hpart := pushLinePart_append h [u] part
    rw [List.modifyHead_cons]
    by_cases hp : parts = []
    · subst hp
      exact hpart
    · rw [pushParts_cons hp, pushParts_cons hp]
      exact hpart.endLine.pushParts parts

/-- **A chunk is pushed unit by unit.** -/
theorem push_units (h : a.Sound limits) (s : Units) :
    Same (a.push double configured s) (s.foldl (pushUnit double configured) a) := by
  induction s generalizing a with
  | nil =>
    show Same (a.pushLinePart []) a
    rw [pushLinePart_nil]
    exact .refl a
  | cons u s ih =>
    have hne : s.splitOn 0x0a ≠ [] := List.splitOnP_ne_nil _ s
    have hsplit : (u :: s).splitOn 0x0a = if u == 0x0a then [] :: s.splitOn 0x0a
        else (s.splitOn 0x0a).modifyHead (u :: ·) := List.splitOnP_cons_eq_if_modifyHead u s
    refine Same.trans ?_ (ih (h.pushUnit u))
    unfold Auditor.push pushUnit
    rw [hsplit]
    by_cases hu : u = 0x0a
    · rw [if_pos (by simpa using hu), if_pos hu, pushParts_cons hne, pushLinePart_nil]
      exact .refl _
    · rw [if_neg (by simpa using hu), if_neg hu]
      exact pushParts_unit h u hne

theorem Auditor.Sound.foldl (h : a.Sound limits) (s : Units) : (s.foldl (Diagnostics.pushUnit double configured) a).Sound limits := by
  induction s generalizing a with
  | nil => exact h
  | cons u s ih => exact ih (h.pushUnit u)

/-- **Chunks are pushed like their text.** -/
theorem chunks_units (h : a.Sound limits) (chunks : List Units) :
    Same (chunks.foldl (Auditor.push double configured) a) (chunks.flatten.foldl (pushUnit double configured) a) := by
  have hchunks : ∀ {b : Auditor}, Same b a →
      Same (chunks.foldl (Auditor.push double configured) b) (chunks.flatten.foldl (pushUnit double configured) a) := by
    induction chunks generalizing a with
    | nil => exact fun hb => hb
    | cons chunk chunks ih =>
      intro b hb
      have hpush : Same (b.push double configured chunk) (chunk.foldl (pushUnit double configured) a) :=
        (push_units (hb.symm.sound h) chunk).trans (hb.foldl chunk)
      rw [List.flatten_cons, List.foldl_append]
      exact ih (h.foldl chunk) hpush
  exact hchunks (.refl a)

/-- The limits of the literals and of the six rules. -/
def limitsOf (configured : List Units) : List ℕ :=
  (configured.filter (· ≠ [])).map List.length ++ tokenRules.map fun _ => maxMatchedText

theorem create_sound (h : ∀ value ∈ configured, WellFormed value) :
    (Auditor.create configured).Sound (limitsOf configured) where
  matchers := by
    intro m hm
    rcases List.mem_append.1 hm with hm | hm
    · obtain ⟨text, ht, rfl⟩ := List.mem_map.1 hm
      obtain ⟨ht, hne⟩ := List.mem_filter.1 ht
      exact ⟨by simpa using hne, h text ht, Nat.zero_le _⟩
    · obtain ⟨rule, -, rfl⟩ := List.mem_map.1 hm
      exact Nat.zero_le _
  limits := by
    rw [Auditor.create, List.map_append, List.map_map, List.map_map]
    rfl
  line := Nat.zero_le _

theorem limitsOf_sum (configured : List Units) : (limitsOf configured).sum ≤ (configured.map List.length).sum + 12000 := by
  have hrules : (tokenRules.map fun _ => maxMatchedText).sum = 12000 := rfl
  have hliterals : ((configured.filter (· ≠ [])).map List.length).sum ≤ (configured.map List.length).sum :=
    (List.filter_sublist.map _).sum_le_sum (by simp)
  rw [limitsOf, List.sum_append, hrules]
  omega

/-- **Chunks do not matter**: what is recorded of a text, up to its order, does not depend on where it
    is split, and the auditor never holds more than a line and its matchers may. -/
theorem recorded_perm (hw : ∀ value ∈ configured, WellFormed value) {chunks chunks' : List Units}
    (h : chunks.flatten = chunks'.flatten) :
    (((Auditor.pushAll double configured chunks).flush double configured).recorded.Perm
      ((Auditor.pushAll double configured chunks').flush double configured).recorded) ∧
      ∀ chunks : List Units,
        (Auditor.pushAll double configured chunks).bufferedCharacterCount ≤ 20192 + (configured.map List.length).sum ∧
        ((Auditor.pushAll double configured chunks).flush double configured).bufferedCharacterCount ≤
          20192 + (configured.map List.length).sum := by
  have hsound := create_sound hw
  have hunits := fun chunks => @chunks_units _ double configured _ hsound chunks
  have hall : ∀ chunks, (Auditor.pushAll double configured chunks).Sound (limitsOf configured) :=
    fun chunks => (hunits chunks).symm.sound (hsound.foldl _)
  have hsum := limitsOf_sum configured
  have hbound : ∀ {a : Auditor}, a.Sound (limitsOf configured) →
      a.bufferedCharacterCount ≤ 20192 + (configured.map List.length).sum := by
    intro a ha
    have hle := ha.buffered
    rw [maxStreamLine] at hle
    omega
  have hsame : Same (Auditor.pushAll double configured chunks) (Auditor.pushAll double configured chunks') := by
    have hchunks := hunits chunks
    rw [h] at hchunks
    exact hchunks.trans (hunits chunks').symm
  exact ⟨hsame.flush.2.2.2, fun chunks => ⟨hbound (hall chunks), hbound (hall chunks).flush⟩⟩

/-- A key that is split between two chunks. -/
theorem recorded_perm_split :
    (((Auditor.pushAll .float [units "key"] [units "to", units "ken=x"]).flush .float [units "key"]).recorded.Perm
      ((Auditor.pushAll .float [units "key"] [units "token=x"]).flush .float [units "key"]).recorded) ∧
      ∀ chunks : List Units,
        (Auditor.pushAll .float [units "key"] chunks).bufferedCharacterCount ≤
          20192 + ([units "key"].map List.length).sum ∧
        ((Auditor.pushAll .float [units "key"] chunks).flush .float [units "key"]).bufferedCharacterCount ≤
          20192 + ([units "key"].map List.length).sum := by
  refine recorded_perm (fun value hv => ?_) rfl
  rw [List.mem_singleton.1 hv]
  exact wellFormed_of_ascii (by simp [show units "key" = [0x6b, 0x65, 0x79] from rfl])

end PaPlatform.Diagnostics
