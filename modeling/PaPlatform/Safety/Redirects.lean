/-
  The two lexers on the operands of output redirections.

  The operand of a redirection is read as the word in its place exactly as long
  as every operand is written plainly: without quotes or backslashes in an
  unquoted one, and with nothing behind the closing quote of a quoted one.
-/
import PaPlatform.Safety.Lexer

namespace PaPlatform.Safety

open Js

variable {source s rest left : Units} {c d q : UInt16} {n m k : ℕ} {w : ShellWord}
  {ws : List (Units × ShellWord)}

/-! ## Reading a word -/

theorem quotedEnd_append (q : UInt16) (s : Units) : (quotedEnd q s).1 ++ (quotedEnd q s).2 = s := by
  fun_induction quotedEnd q s with
  | case1 => rfl
  | case2 => rfl
  | case3 => rfl
  | case4 c d rest h r ih =>
    show c :: d :: (r.1 ++ r.2) = _
    rw [ih]
  | case5 => rfl
  | case6 c d rest h1 h2 r ih =>
    show c :: (r.1 ++ r.2) = _
    rw [ih]

/-- What is left begins with the closing quote. -/
theorem quotedEnd_head (q : UInt16) (s : Units) :
    (quotedEnd q s).2 = [] ∨ (quotedEnd q s).2 = q :: afterQuote q s := by
  unfold afterQuote
  fun_induction quotedEnd q s with
  | case1 => exact Or.inl rfl
  | case2 => exact Or.inr rfl
  | case3 => exact Or.inl rfl
  | case4 c d rest h r ih => exact ih
  | case5 => exact Or.inr rfl
  | case6 c d rest h1 h2 r ih => exact ih

theorem length_afterQuote : (afterQuote q s).length ≤ s.length := by
  have h := congrArg List.length (quotedEnd_append q s)
  rw [List.length_append] at h
  rw [afterQuote, List.length_drop]
  omega

theorem readWord_fuel (hn : s.length ≤ n) (hm : s.length ≤ m) : readWord n s = readWord m s := by
  induction n generalizing m s with
  | zero =>
    obtain rfl := List.length_eq_zero_iff.1 (Nat.le_zero.1 hn)
    cases m <;> rfl
  | succ n ih =>
    cases s with
    | nil => cases m <;> rfl
    | cons c rest =>
      cases m with
      | zero => cases hm
      | succ m =>
        rw [List.length_cons, Nat.succ_le_succ_iff] at hn hm
        have hq : (afterQuote c rest).length ≤ rest.length := length_afterQuote
        have hd : (rest.drop 1).length ≤ rest.length := by rw [List.length_drop]; omega
        simp only [readWord, ih hn hm, ih (hq.trans hn) (hq.trans hm), ih (hd.trans hn) (hd.trans hm)]

/-- The value of the word at the start of a text, and what is left after it. -/
def word (s : Units) : Units × Units := readWord s.length s

theorem readWord_eq (h : s.length ≤ n) : readWord n s = word s := readWord_fuel h le_rfl

theorem word_ends (h : endsWord c = true) : word (c :: rest) = ([], c :: rest) := by
  simp only [word, List.length_cons, readWord, if_pos h]

theorem quote_not_ends (h : isQuote c = true) : endsWord c = false := by
  simp only [isQuote, Bool.decide_or, Bool.or_eq_true, decide_eq_true_eq] at h
  rcases h with rfl | rfl <;> decide

theorem word_quote (h : isQuote c = true) : word (c :: rest) =
    ((quotedEnd c rest).1 ++ (word (afterQuote c rest)).1, (word (afterQuote c rest)).2) := by
  simp only [word, List.length_cons, readWord, quote_not_ends h, h, if_true, Bool.false_eq_true, if_false,
    readWord_fuel length_afterQuote le_rfl]

theorem word_escape : word (backslash :: d :: rest) = (d :: (word rest).1, (word rest).2) := by
  have h1 : endsWord backslash = false := by decide
  have h2 : isQuote backslash = false := by decide
  have h3 : readWord (rest.length + 1) rest = word rest := readWord_eq (Nat.le_succ _)
  simp [word, readWord, h1, h2, h3]

theorem word_plain (h1 : endsWord c = false) (h2 : isQuote c = false) (h3 : c = backslash → rest = []) :
    word (c :: rest) = (c :: (word rest).1, (word rest).2) := by
  have h4 : ¬ (c = backslash ∧ rest ≠ []) := fun h => h.2 (h3 h.1)
  simp only [word, List.length_cons, readWord, h1, h2, Bool.false_eq_true, if_false, if_neg h4]

theorem length_word : (word s).2.length ≤ s.length := by
  generalize hn : s.length = n
  induction n using Nat.strong_induction_on generalizing s with
  | _ n ih =>
    subst hn
    cases s with
    | nil => rfl
    | cons c rest =>
      by_cases h1 : endsWord c = true
      · rw [word_ends h1]
      · rw [Bool.not_eq_true] at h1
        by_cases h2 : isQuote c = true
        · rw [word_quote h2]
          have hq : (afterQuote c rest).length ≤ rest.length := length_afterQuote
          exact (ih _ (Nat.lt_succ_of_le hq) rfl).trans (hq.trans (Nat.le_succ _))
        · rw [Bool.not_eq_true] at h2
          by_cases h3 : c = backslash → rest = []
          · rw [word_plain h1 h2 h3]
            exact (ih _ (Nat.lt_succ_self _) rfl).trans (Nat.le_succ _)
          · obtain ⟨rfl, h4⟩ := Classical.not_imp.1 h3
            obtain ⟨d, rest, rfl⟩ := List.exists_cons_of_ne_nil h4
            rw [word_escape]
            exact (ih _ (by simp) rfl).trans ((Nat.le_succ _).trans (Nat.le_succ _))

/-- The rest of a word that begins in a word. -/
theorem length_word_lt (h : endsWord c = false) : (word (c :: rest)).2.length ≤ rest.length := by
  by_cases h2 : isQuote c = true
  · rw [word_quote h2]
    exact length_word.trans length_afterQuote
  · rw [Bool.not_eq_true] at h2
    by_cases h3 : c = backslash → rest = []
    · rw [word_plain h h2 h3]
      exact length_word
    · obtain ⟨rfl, h4⟩ := Classical.not_imp.1 h3
      obtain ⟨d, rest, rfl⟩ := List.exists_cons_of_ne_nil h4
      rw [word_escape]
      exact length_word.trans (Nat.le_succ _)

/-! ## The words from a place on -/

theorem wordsFrom_fuel (hn : s.length ≤ n) (hm : s.length ≤ m) : wordsFrom n s = wordsFrom m s := by
  induction n generalizing m s with
  | zero =>
    obtain rfl := List.length_eq_zero_iff.1 (Nat.le_zero.1 hn)
    cases m <;> rfl
  | succ n ih =>
    cases s with
    | nil => cases m <;> rfl
    | cons c rest =>
      cases m with
      | zero => cases hm
      | succ m =>
        rw [List.length_cons, Nat.succ_le_succ_iff] at hn hm
        have hd : (rest.drop 1).length ≤ rest.length := by rw [List.length_drop]; omega
        simp only [wordsFrom, ih hn hm, ih (hd.trans hn) (hd.trans hm)]
        by_cases h : endsWord c = true
        · rw [endsWord, Bool.or_eq_true] at h
          rcases h with h | h
          · simp [h]
          · simp [h]
        · rw [Bool.not_eq_true] at h
          have hw : (word (c :: rest)).2.length ≤ rest.length := length_word_lt h
          have heq := ih (hw.trans hn) (hw.trans hm)
          simp only [word, List.length_cons] at heq
          simp only [heq]

theorem wordsFrom_eq (h : s.length ≤ n) : wordsFrom n s = wordsAt s := wordsFrom_fuel h le_rfl

/-- A blank; a line break is a word of its own. -/
theorem words_space (h : Units.isSpace c = true) :
    wordsAt (c :: rest) = wordsAt rest ∨ ∃ w, wordsAt (c :: rest) = (c :: rest, w) :: wordsAt rest := by
  by_cases hc : c = unit '\n'
  · refine Or.inr ⟨⟨[c], [c], true⟩, ?_⟩
    simp only [wordsAt, List.length_cons, wordsFrom, if_pos hc]
  · refine Or.inl ?_
    simp only [wordsAt, List.length_cons, wordsFrom, if_neg hc, h, if_true]

theorem operator_not_space (h : isOperator c = true) : Units.isSpace c = false ∧ c ≠ unit '\n' := by
  simp only [isOperator, List.contains_iff_mem, List.mem_cons, List.not_mem_nil, or_false] at h
  rcases h with rfl | rfl | rfl | rfl | rfl | rfl | rfl <;> decide

/-- `&&` or `||`. -/
theorem words_double (h : c = unit '&' ∨ c = unit '|') :
    wordsAt (c :: c :: rest) = (c :: c :: rest, ⟨[c, c], [c, c], true⟩) :: wordsAt rest := by
  have ho : isOperator c = true := by rcases h with rfl | rfl <;> decide
  obtain ⟨h1, h2⟩ := operator_not_space ho
  have h3 : wordsFrom (rest.length + 1) rest = wordsAt rest := wordsFrom_eq (Nat.le_succ _)
  simp [wordsAt, wordsFrom, h1, h2, ho, h, h3]

theorem words_single (h : isOperator c = true) (hd : (c = unit '&' ∨ c = unit '|') → rest.head? ≠ some c) :
    wordsAt (c :: rest) = (c :: rest, ⟨[c], [c], true⟩) :: wordsAt rest := by
  obtain ⟨h1, h2⟩ := operator_not_space h
  have h3 : ¬ ((c = unit '&' ∨ c = unit '|') ∧ rest.head? = some c) := fun hx => hd hx.1 hx.2
  simp only [wordsAt, List.length_cons, wordsFrom, h1, if_neg h2, h, if_true, Bool.false_eq_true, if_false,
    if_neg h3]

theorem words_word (h : endsWord c = false) : ∃ raw, wordsAt (c :: rest) =
    (c :: rest, ⟨raw, (word (c :: rest)).1, false⟩) :: wordsAt (word (c :: rest)).2 := by
  have hs : Units.isSpace c = false ∧ isOperator c = false := by simpa [endsWord] using h
  have hn : c ≠ unit '\n' := by
    rintro rfl
    exact absurd hs.1 (by decide)
  have hlen : (word (c :: rest)).2.length ≤ rest.length := length_word_lt h
  have heq := wordsFrom_eq hlen
  simp only [word, List.length_cons] at heq
  refine ⟨(c :: rest).take (rest.length + 1 - (word (c :: rest)).2.length), ?_⟩
  simp only [wordsAt, List.length_cons, wordsFrom, if_neg hn, hs.1, hs.2, Bool.false_eq_true, if_false, word, heq]

theorem mem_wordsFrom_length {p : Units × ShellWord} (h : p ∈ wordsFrom n s) : p.1.length ≤ s.length := by
  induction n generalizing s with
  | zero => cases h
  | succ n ih =>
    cases s with
    | nil => cases h
    | cons c rest =>
      have hrest : ∀ {left : Units}, left.length ≤ rest.length + 1 → p ∈ wordsFrom n left →
          p.1.length ≤ (c :: rest).length := fun hl hp => (ih hp).trans hl
      have hcons : ∀ {w : ShellWord} {left : Units}, left.length ≤ rest.length + 1 →
          p ∈ (c :: rest, w) :: wordsFrom n left → p.1.length ≤ (c :: rest).length := by
        intro w left hl hp
        rcases List.mem_cons.1 hp with rfl | hp
        · exact le_rfl
        · exact hrest hl hp
      have hdrop : (rest.drop 1).length ≤ rest.length + 1 := by rw [List.length_drop]; omega
      simp only [wordsFrom] at h
      split_ifs at h
      · exact hcons (Nat.le_succ _) h
      · exact hrest (Nat.le_succ _) h
      · exact hcons hdrop h
      · exact hcons (Nat.le_succ _) h
      · exact hcons (@length_word (c :: rest)) h

theorem mem_words_length {p : Units × ShellWord} (h : p ∈ wordsAt s) : p.1.length ≤ s.length :=
  mem_wordsFrom_length h

/-! ## In step -/

/-- The words of the source from the place with `k` units left on. -/
def WordsFrom (source : Units) (k : ℕ) (ws : List (Units × ShellWord)) : Prop :=
  ∃ pre, wordsAt source = pre ++ ws ∧ ∀ p ∈ pre, k < p.1.length

/-- The place is between two words. -/
def Between (source s : Units) : Prop := WordsFrom source s.length (wordsAt s)

/-- The scanner, outside of quotes, has not lost the words: the place is between
    two of them, inside of one, or in the middle of `&&` or `||`. -/
inductive InStep (source s : Units) : Prop
  | between : Between source s → InStep source s
  | inWord : WordsFrom source s.length (wordsAt (word s).2) → InStep source s
  | inOperator {c : UInt16} {rest : Units} : s = c :: rest → c = unit '&' ∨ c = unit '|' →
      WordsFrom source s.length (wordsAt rest) → InStep source s

theorem WordsFrom.mono (h : WordsFrom source n ws) (hk : k ≤ n) : WordsFrom source k ws := by
  obtain ⟨pre, heq, hpre⟩ := h
  exact ⟨pre, heq, fun p hp => Nat.lt_of_le_of_lt hk (hpre p hp)⟩

theorem WordsFrom.skip {p : Units × ShellWord} (h : WordsFrom source n (p :: ws)) (hk : k < p.1.length)
    (hn : k ≤ n) : WordsFrom source k ws := by
  obtain ⟨pre, heq, hpre⟩ := h
  refine ⟨pre ++ [p], by rw [heq, List.append_assoc]; rfl, ?_⟩
  intro x hx
  rcases List.mem_append.1 hx with hx | hx
  · exact Nat.lt_of_le_of_lt hn (hpre x hx)
  · rw [List.mem_singleton.1 hx]
    exact hk

theorem between_source : Between source source := ⟨[], rfl, nofun⟩

theorem between_space (hc : Units.isSpace c = true) (h : Between source (c :: rest)) : Between source rest := by
  unfold Between at h
  rcases @words_space rest _ hc with heq | ⟨w, heq⟩
  · rw [heq] at h
    exact h.mono (Nat.le_succ _)
  · rw [heq] at h
    exact h.skip (Nat.lt_succ_self _) (Nat.le_succ _)

theorem between_operator (hc : isOperator c = true) (h : Between source (c :: rest)) :
    (Between source rest ∧ (c = unit '&' → rest.head? ≠ some c)) ∨
    ∃ rest', rest = c :: rest' ∧ (c = unit '&' ∨ c = unit '|') ∧ WordsFrom source rest.length (wordsAt rest') := by
  unfold Between at h
  by_cases hd : (c = unit '&' ∨ c = unit '|') ∧ rest.head? = some c
  · obtain ⟨hc, hd⟩ := hd
    obtain ⟨rest', rfl⟩ := List.head?_eq_some_iff.1 hd
    rw [words_double hc] at h
    exact Or.inr ⟨rest', rfl, hc, h.skip (Nat.lt_succ_self _) (Nat.le_succ _)⟩
  · rw [words_single hc fun hx heq => hd ⟨hx, heq⟩] at h
    exact Or.inl ⟨h.skip (Nat.lt_succ_self _) (Nat.le_succ _), fun hx heq => hd ⟨Or.inl hx, heq⟩⟩

theorem between_word (hc : endsWord c = false) (h : Between source (c :: rest)) :
    WordsFrom source rest.length (wordsAt (word (c :: rest)).2) := by
  obtain ⟨raw, heq⟩ := @words_word rest _ hc
  unfold Between at h
  rw [heq] at h
  exact h.skip (Nat.lt_succ_self _) (Nat.le_succ _)

/-- The place before a unit that ends a word. -/
theorem InStep.ends (hc : endsWord c = true) (hx : c ≠ unit '&' ∧ c ≠ unit '|') (h : InStep source (c :: rest)) :
    Between source (c :: rest) := by
  cases h with
  | between h => exact h
  | inWord h =>
    rw [word_ends hc] at h
    exact h
  | inOperator heq hor _ =>
    obtain ⟨rfl, -⟩ := List.cons.inj heq
    rcases hor with rfl | rfl
    · exact absurd rfl hx.1
    · exact absurd rfl hx.2

/-- The scanner goes over quotes as a word does. -/
theorem InStep.quote (hc : isQuote c = true) (h : InStep source (c :: rest)) : InStep source (afterQuote c rest) := by
  have hlen : (afterQuote c rest).length ≤ rest.length := length_afterQuote
  cases h with
  | between h =>
    have hw := between_word (quote_not_ends hc) h
    rw [word_quote hc] at hw
    exact .inWord (hw.mono hlen)
  | inWord h =>
    rw [word_quote hc] at h
    exact .inWord (h.mono (hlen.trans (Nat.le_succ _)))
  | inOperator heq hor _ =>
    obtain ⟨rfl, -⟩ := List.cons.inj heq
    rcases hor with rfl | rfl <;> exact absurd hc (by decide)

theorem word_backslash : (word (backslash :: rest)).2 = (word (rest.drop 1)).2 := by
  cases rest with
  | nil => rfl
  | cons d rest => rw [word_escape, List.drop_one, List.tail_cons]

theorem InStep.escape (h : InStep source (backslash :: rest)) : InStep source (rest.drop 1) := by
  have hlen : (rest.drop 1).length ≤ rest.length := by rw [List.length_drop]; omega
  cases h with
  | between h =>
    have hw := between_word (by decide) h
    rw [word_backslash] at hw
    exact .inWord (hw.mono hlen)
  | inWord h =>
    rw [word_backslash] at h
    exact .inWord (h.mono (hlen.trans (Nat.le_succ _)))
  | inOperator heq hor _ =>
    have hc := (List.cons.inj heq).1
    rcases hor with rfl | rfl <;> exact absurd hc (by decide)

theorem InStep.other (h1 : isQuote c = false) (h2 : c ≠ backslash) (h : InStep source (c :: rest)) :
    InStep source rest := by
  by_cases hc : endsWord c = true
  · have hends : Between source (c :: rest) → InStep source rest := by
      intro h
      rw [endsWord, Bool.or_eq_true] at hc
      rcases hc with hc | hc
      · exact .between (between_space hc h)
      · rcases between_operator hc h with ⟨h, -⟩ | ⟨rest', heq, hor, h⟩
        · exact .between h
        · exact .inOperator heq hor h
    cases h with
    | between h => exact hends h
    | inWord h =>
      rw [word_ends hc] at h
      exact hends h
    | inOperator heq _ h =>
      obtain ⟨-, rfl⟩ := List.cons.inj heq
      exact .between (h.mono (Nat.le_succ _))
  · rw [Bool.not_eq_true] at hc
    have hword : (word (c :: rest)).2 = (word rest).2 := by rw [word_plain hc h1 fun h => absurd h h2]
    cases h with
    | between h =>
      have hw := between_word hc h
      rw [hword] at hw
      exact .inWord hw
    | inWord h =>
      rw [hword] at h
      exact .inWord (h.mono (Nat.le_succ _))
    | inOperator heq hor _ =>
      obtain ⟨rfl, -⟩ := List.cons.inj heq
      rcases hor with rfl | rfl <;> exact absurd hc (by decide)

/-! ## The place of an operand -/

/-- The operand after `>` is in its place between two words, or it begins in the
    middle of an operator. -/
inductive AtOperand (source rest : Units) : Prop
  | between : Between source (operandStart rest) →
      (∀ left, afterOperator rest ≠ (true, unit '&' :: left)) → AtOperand source rest
  | pipe {left : Units} : operandStart rest = unit '|' :: left →
      WordsFrom source (left.length + 1) (wordsAt left) → AtOperand source rest
  | ampersand {left : Units} : afterOperator rest = (true, unit '&' :: left) →
      WordsFrom source (left.length + 1) (wordsAt left) → AtOperand source rest

theorem between_spaces (h : Between source s) : Between source (s.dropWhile Units.isSpace) := by
  induction s with
  | nil => exact h
  | cons c s ih =>
    by_cases hc : Units.isSpace c = true
    · rw [List.dropWhile_cons_of_pos hc]
      exact ih (between_space hc h)
    · rwa [List.dropWhile_cons_of_neg hc]

theorem between_second (h : Between source rest) : Between source (afterSecond rest) ∨
    ∃ left, afterSecond rest = unit '|' :: left ∧ WordsFrom source (left.length + 1) (wordsAt left) := by
  unfold afterSecond
  by_cases hor : rest.head? = some (unit '>') ∨ rest.head? = some (unit '|')
  · rw [if_pos hor]
    rcases hor with hor | hor
    · obtain ⟨left, rfl⟩ := List.head?_eq_some_iff.1 hor
      rcases between_operator (by decide) h with ⟨h, -⟩ | ⟨_, _, hc, _⟩
      · exact Or.inl h
      · exact absurd hc (by decide)
    · obtain ⟨left, rfl⟩ := List.head?_eq_some_iff.1 hor
      rcases between_operator (by decide) h with ⟨h, -⟩ | ⟨left', rfl, _, h⟩
      · exact Or.inl h
      · exact Or.inr ⟨left', rfl, h⟩
  · rw [if_neg hor]
    exact Or.inl h

theorem atOperand (h : Between source rest) : AtOperand source rest := by
  rcases between_second h with h | ⟨left, heq, h⟩
  · by_cases hamp : (afterSecond rest).head? = some (unit '&')
    · obtain ⟨left, heq⟩ := List.head?_eq_some_iff.1 hamp
      have hop : afterOperator rest = (true, left) := by rw [afterOperator, if_pos hamp, heq]; rfl
      rw [heq] at h
      rcases between_operator (by decide) h with ⟨h, hne⟩ | ⟨left', rfl, _, h⟩
      · refine .between ?_ fun left' hx => ?_
        · rw [operandStart, hop]
          exact between_spaces h
        · rw [hop] at hx
          exact hne rfl (by rw [(Prod.mk.inj hx).2]; rfl)
      · exact .ampersand hop h
    · refine .between ?_ fun left' hx => ?_
      · rw [operandStart, afterOperator, if_neg hamp]
        exact between_spaces h
      · rw [afterOperator, if_neg hamp] at hx
        exact absurd (Prod.mk.inj hx).1 Bool.false_ne_true
  · refine .pipe ?_ h
    have hhead : ¬ (afterSecond rest).head? = some (unit '&') := by
      rw [heq, List.head?_cons, Option.some.injEq]
      decide
    rw [operandStart, afterOperator, if_neg hhead, heq]
    exact List.dropWhile_cons_of_neg (by decide)

/-! ## Plain operands -/

/-- The end of the word adds nothing to it: the word ends, after pairs of quotes
    with nothing between them, or one quote is left at the end of the source. -/
def Bare : Units → Prop
  | [] => True
  | [c] => endsWord c = true ∨ isQuote c = true
  | c :: d :: rest => endsWord c = true ∨ (isQuote c = true ∧ d = c ∧ Bare rest)

/-- Up to its end, the operand has no quote, no `&`, and no backslash but at the
    end of the source. -/
def PlainText : Units → Prop
  | [] => True
  | c :: rest => endsOperand c = true ∨
      (isQuote c = false ∧ c ≠ unit '&' ∧ (c = backslash → rest = []) ∧ PlainText rest)

/-- The unquoted operand at the start of a text. -/
def rawOperand (s : Units) : Units := s.takeWhile fun c => !endsOperand c

/-- An operand that is written plainly, after the operator `>`.  A quote that is
    not closed gives no target, and a descriptor is not a file. -/
def PlainOperand (rest : Units) : Prop :=
  match operandStart rest with
  | [] => True
  | c :: s =>
    if isQuote c = true then
      (quotedEnd c s).2 = [] ∨ Bare (afterQuote c s) ∨
        ((afterOperator rest).1 = true ∧ isDescriptor (quotedEnd c s).1 = true)
    else PlainText (c :: s) ∨
      (afterOperator rest ≠ (true, c :: s) ∧
        (rawOperand (c :: s) = [unit '&'] ∨ rawOperand (c :: s) = [unit '&', unit '&']))

/-- The text after the operand. -/
def afterOperand (rest : Units) : Units :=
  match operandStart rest with
  | [] => rest
  | c :: s => if isQuote c = true then afterQuote c s else (c :: s).dropWhile fun c => !endsOperand c

/-- Every operand of a redirection outside of quotes is written plainly. -/
inductive PlainRedirects : Units → Prop
  | nil : PlainRedirects []
  | quoted {c : UInt16} {rest : Units} : isQuote c = true → PlainRedirects (afterQuote c rest) →
      PlainRedirects (c :: rest)
  | escaped {rest : Units} : PlainRedirects (rest.drop 1) → PlainRedirects (backslash :: rest)
  | other {c : UInt16} {rest : Units} : isQuote c = false → c ≠ backslash → c ≠ unit '>' →
      PlainRedirects rest → PlainRedirects (c :: rest)
  | redirect {rest : Units} : PlainOperand rest → PlainRedirects (afterOperand rest) →
      PlainRedirects (unit '>' :: rest)

theorem quotedEnd_self (h : isQuote c = true) : quotedEnd c (c :: rest) = ([], c :: rest) := by
  have hb : c ≠ backslash := by
    rintro rfl
    exact absurd h (by decide)
  cases rest with
  | nil => rw [quotedEnd, if_pos rfl]
  | cons d rest => rw [quotedEnd, if_neg fun hx => hb hx.2, if_pos rfl]

theorem quotedEnd_ne (h : d ≠ c) : (quotedEnd c (d :: rest)).1 ≠ [] := by
  cases rest with
  | nil => simp [quotedEnd, h]
  | cons e rest =>
    rw [quotedEnd]
    split_ifs
    · exact List.cons_ne_nil _ _
    · exact List.cons_ne_nil _ _

theorem bare_iff : Bare s ↔ (word s).1 = [] := by
  induction s using Bare.induct with
  | case1 => exact ⟨fun _ => rfl, fun _ => trivial⟩
  | case2 c =>
    by_cases h1 : endsWord c = true
    · rw [word_ends h1]
      exact ⟨fun _ => rfl, fun _ => Or.inl h1⟩
    · by_cases h2 : isQuote c = true
      · rw [word_quote h2]
        exact ⟨fun _ => rfl, fun _ => Or.inr h2⟩
      · rw [word_plain (Bool.not_eq_true _ ▸ h1) (Bool.not_eq_true _ ▸ h2) fun _ => rfl]
        refine iff_of_false ?_ (List.cons_ne_nil _ _)
        rintro (h | h)
        · exact h1 h
        · exact h2 h
  | case3 c d rest ih =>
    by_cases h1 : endsWord c = true
    · rw [word_ends h1]
      exact ⟨fun _ => rfl, fun _ => Or.inl h1⟩
    · by_cases h2 : isQuote c = true
      · rw [word_quote h2, List.append_eq_nil_iff]
        by_cases h3 : d = c
        · subst h3
          rw [afterQuote, quotedEnd_self h2]
          show (endsWord d = true ∨ isQuote d = true ∧ d = d ∧ Bare rest) ↔ [] = [] ∧ (word rest).1 = []
          simp only [h1, h2, ih, true_and, false_or, Bool.false_eq_true]
        · refine iff_of_false ?_ fun h => quotedEnd_ne h3 h.1
          rintro (h | h)
          · exact h1 h
          · exact h3 h.2.1
      · refine iff_of_false ?_ ?_
        · rintro (h | h)
          · exact h1 h
          · exact h2 h.1
        · by_cases h3 : c = backslash
          · subst h3
            rw [word_escape]
            exact List.cons_ne_nil _ _
          · rw [word_plain (Bool.not_eq_true _ ▸ h1) (Bool.not_eq_true _ ▸ h2) fun h => absurd h h3]
            exact List.cons_ne_nil _ _

theorem rawOperand_cons (h : endsOperand c = false) : rawOperand (c :: rest) = c :: rawOperand rest := by
  rw [rawOperand, List.takeWhile_cons_of_pos (by rw [h]; rfl)]
  rfl

theorem rawOperand_append (h : ∀ x ∈ left, endsOperand x = false) :
    rawOperand (left ++ rest) = left ++ rawOperand rest :=
  List.takeWhile_append_of_pos fun x hx => by rw [h x hx]; rfl

theorem quote_not_endsOperand (h : isQuote c = true) : endsOperand c = false := by
  rw [endsOperand, quote_not_ends h, Bool.false_and]

/-- A quote, or a backslash before another unit: the value of the word leaves it out. -/
def Lost (c : UInt16) (rest : Units) : Prop := isQuote c = true ∨ (c = backslash ∧ rest ≠ [])

/-- A value without the units that end an operand is not longer than the
    operand, and shorter where a unit is lost. -/
theorem value_le (h : ∀ x ∈ (word s).1, endsOperand x = false) :
    (word s).1.length ≤ (rawOperand s).length ∧
      ∀ c rest, s = c :: rest → Lost c rest → (word s).1.length < (rawOperand s).length := by
  generalize hn : s.length = n
  induction n using Nat.strong_induction_on generalizing s with
  | _ n ih =>
    subst hn
    cases s with
    | nil => exact ⟨Nat.zero_le _, nofun⟩
    | cons c rest =>
      have hstep : (Lost c rest → (word (c :: rest)).1.length < (rawOperand (c :: rest)).length) ∧
          (¬ Lost c rest → (word (c :: rest)).1.length ≤ (rawOperand (c :: rest)).length) := by
        constructor
        · rintro (hq | ⟨rfl, hne⟩)
          · rw [word_quote hq] at h ⊢
            have hafter : (rawOperand (afterQuote c rest)).length ≤ (rawOperand (quotedEnd c rest).2).length := by
              rcases quotedEnd_head c rest with hx | hx
              · rw [afterQuote, hx]
                exact le_rfl
              · rw [hx, rawOperand_cons (quote_not_endsOperand hq)]
                exact Nat.le_succ _
            have hle := (ih _ (Nat.lt_succ_of_le length_afterQuote)
              (fun x hx => h x (List.mem_append_right _ hx)) rfl).1
            have hraw : rawOperand rest = (quotedEnd c rest).1 ++ rawOperand (quotedEnd c rest).2 := by
              conv_lhs => rw [← quotedEnd_append c rest]
              exact rawOperand_append fun x hx => h x (List.mem_append_left _ hx)
            rw [rawOperand_cons (quote_not_endsOperand hq), hraw]
            simp only [List.length_append, List.length_cons]
            omega
          · obtain ⟨d, rest, rfl⟩ := List.exists_cons_of_ne_nil hne
            rw [word_escape] at h ⊢
            have hle := (ih _ (by simp) (fun x hx => h x (List.mem_cons_of_mem _ hx)) rfl).1
            rw [rawOperand_cons (by decide), rawOperand_cons (h d (List.mem_cons_self ..))]
            simp only [List.length_cons]
            omega
        · intro hl
          have hq : isQuote c = false := Bool.eq_false_iff.2 fun hq => hl (Or.inl hq)
          have hb : c = backslash → rest = [] := fun hb => by
            by_contra hne
            exact hl (Or.inr ⟨hb, hne⟩)
          by_cases he : endsWord c = true
          · rw [word_ends he]
            exact Nat.zero_le _
          · rw [Bool.not_eq_true] at he
            rw [word_plain he hq hb] at h ⊢
            have hle := (ih _ (Nat.lt_succ_self _) (fun x hx => h x (List.mem_cons_of_mem _ hx)) rfl).1
            rw [rawOperand_cons (h c (List.mem_cons_self ..))]
            exact Nat.succ_le_succ hle
      refine ⟨?_, ?_⟩
      · by_cases hl : Lost c rest
        · exact (hstep.1 hl).le
        · exact hstep.2 hl
      · intro c' rest' heq hl
        obtain ⟨rfl, rfl⟩ := List.cons.inj heq
        exact hstep.1 hl

/-- **The word is the operand exactly if** the operand is plain. -/
theorem value_eq_raw : (word s).1 = rawOperand s ↔ PlainText s := by
  induction s with
  | nil => exact ⟨fun _ => trivial, fun _ => rfl⟩
  | cons c rest ih =>
    by_cases he : endsOperand c = true
    · have hw : endsWord c = true := by
        rw [endsOperand, Bool.and_eq_true] at he
        exact he.1
      rw [word_ends hw, rawOperand, List.takeWhile_cons_of_neg (by rw [he]; decide)]
      exact ⟨fun _ => Or.inl he, fun _ => rfl⟩
    · rw [Bool.not_eq_true] at he
      rw [rawOperand_cons he]
      by_cases hamp : c = unit '&'
      · rw [word_ends (by rw [hamp]; decide)]
        refine iff_of_false (List.cons_ne_nil _ _).symm ?_
        rintro (h | h)
        · rw [he] at h
          cases h
        · exact h.2.1 hamp
      · have hw : endsWord c = false := by simpa [endsOperand, hamp] using he
        by_cases hl : Lost c rest
        · refine iff_of_false ?_ ?_
          · intro heq
            rw [← rawOperand_cons he] at heq
            have hlt := (@value_le (c :: rest) fun x hx => ?_).2 c rest rfl hl
            · rw [heq] at hlt
              exact lt_irrefl _ hlt
            · rw [heq] at hx
              simpa using List.mem_takeWhile_imp hx
          · rintro (h | ⟨h1, -, h2, -⟩)
            · rw [he] at h
              cases h
            · rcases hl with hl | ⟨hl, hne⟩
              · rw [h1] at hl
                cases hl
              · exact hne (h2 hl)
        · have hq : isQuote c = false := Bool.eq_false_iff.2 fun hq => hl (Or.inl hq)
          have hb : c = backslash → rest = [] := fun hb => by
            by_contra hne
            exact hl (Or.inr ⟨hb, hne⟩)
          rw [word_plain hw hq hb, List.cons.injEq, ih]
          constructor
          · exact fun h => Or.inr ⟨hq, hamp, hb, h.2⟩
          · rintro (h | h)
            · rw [he] at h
              cases h
            · exact ⟨rfl, h.2.2.2⟩

/-! ## Reading an operand -/

/-- The operand has the value of the word in its place. -/
def Agrees (source : Units) (p : Units × OutputOperand) : Prop :=
  p.2.descriptor = false → ∀ target, p.2.target = some target →
    ∃ w, (p.1, w) ∈ wordsAt source ∧ w.value = target

/-- Between two words, the word in the place is the first one from there on. -/
theorem between_value {t : Units} (h : Between source s) (heq : wordsAt s = (s, w) :: ws)
    (hlt : ∀ p ∈ ws, p.1.length < s.length) :
    (∃ w', (s, w') ∈ wordsAt source ∧ w'.value = t) ↔ w.value = t := by
  obtain ⟨pre, hsource, hpre⟩ := h
  rw [heq] at hsource
  constructor
  · rintro ⟨w', hw', hv⟩
    rw [hsource] at hw'
    rcases List.mem_append.1 hw' with hx | hx
    · exact absurd (hpre _ hx) (lt_irrefl _)
    · rcases List.mem_cons.1 hx with hx | hx
      · rw [← (Prod.mk.inj hx).2]
        exact hv
      · exact absurd (hlt _ hx) (lt_irrefl _)
  · intro hv
    refine ⟨w, ?_, hv⟩
    rw [hsource]
    exact List.mem_append_right _ (List.mem_cons_self ..)

theorem word_value {t : Units} (hc : endsWord c = false) (h : Between source (c :: rest)) :
    (∃ w, (c :: rest, w) ∈ wordsAt source ∧ w.value = t) ↔ (word (c :: rest)).1 = t := by
  obtain ⟨raw, heq⟩ := @words_word rest _ hc
  refine between_value h heq fun p hp => ?_
  exact Nat.lt_succ_of_le ((mem_words_length hp).trans (length_word_lt hc))

theorem ampersand_value {t : Units} (h : Between source (unit '&' :: rest)) :
    (∃ w, (unit '&' :: rest, w) ∈ wordsAt source ∧ w.value = t) ↔
      (if rest.head? = some (unit '&') then [unit '&', unit '&'] else [unit '&']) = t := by
  by_cases hd : rest.head? = some (unit '&')
  · rw [if_pos hd]
    obtain ⟨rest', rfl⟩ := List.head?_eq_some_iff.1 hd
    refine between_value h (words_double (Or.inl rfl)) fun p hp => ?_
    exact Nat.lt_succ_of_le ((mem_words_length hp).trans (Nat.le_succ _))
  · rw [if_neg hd]
    refine between_value h (words_single (by decide) fun _ => hd) fun p hp => ?_
    exact Nat.lt_succ_of_le (mem_words_length hp)

theorem operandStart_head (h : operandStart rest = c :: s) : Units.isSpace c = false := by
  have hhead := List.head?_dropWhile_not Units.isSpace (afterOperator rest).2
  rw [operandStart] at h
  rw [h] at hhead
  exact hhead

theorem operandStart_of_ampersand (h : afterOperator rest = (true, unit '&' :: left)) :
    operandStart rest = unit '&' :: left := by
  rw [operandStart, h]
  exact List.dropWhile_cons_of_neg (by decide)

/-- What begins in the middle of an operator is `&` or `|`. -/
theorem AtOperand.of_word (h : AtOperand source rest) (hstart : operandStart rest = c :: s)
    (h1 : c ≠ unit '&') (h2 : c ≠ unit '|') : Between source (c :: s) := by
  cases h with
  | between h _ => rwa [hstart] at h
  | pipe heq _ =>
    rw [hstart] at heq
    exact absurd (List.cons.inj heq).1 h2
  | ampersand heq _ =>
    rw [operandStart_of_ampersand heq] at hstart
    exact absurd (List.cons.inj hstart).1.symm h1

theorem quote_ne (h : isQuote c = true) : c ≠ unit '&' ∧ c ≠ unit '|' := by
  constructor
  · rintro rfl
    exact absurd h (by decide)
  · rintro rfl
    exact absurd h (by decide)

theorem descriptor_plain (h : isDescriptor (rawOperand s) = true) : PlainText s := by
  have hall : ∀ x ∈ rawOperand s, isQuote x = false ∧ x ≠ unit '&' ∧ x ≠ backslash := by
    intro x hx
    have hx : Units.isDigit x = true ∨ x = unit '-' := by
      simp only [isDescriptor, ne_eq, decide_not, Bool.or_eq_true, Bool.and_eq_true, List.all_eq_true,
        decide_eq_true_eq] at h
      rcases h with ⟨-, h⟩ | h
      · exact Or.inl (h x hx)
      · rw [h] at hx
        exact Or.inr (List.mem_singleton.1 hx)
    rcases hx with hx | rfl
    · refine ⟨Bool.eq_false_iff.2 fun hq => ?_, ?_, ?_⟩
      · simp only [isQuote, Bool.decide_or, Bool.or_eq_true, decide_eq_true_eq] at hq
        rcases hq with rfl | rfl <;> exact absurd hx (by decide)
      · rintro rfl
        exact absurd hx (by decide)
      · rintro rfl
        exact absurd hx (by decide)
    · decide
  clear h
  induction s with
  | nil => trivial
  | cons c s ih =>
    by_cases he : endsOperand c = true
    · exact Or.inl he
    · rw [Bool.not_eq_true] at he
      rw [rawOperand_cons he] at hall
      obtain ⟨h1, h2, h3⟩ := hall c (List.mem_cons_self ..)
      exact Or.inr ⟨h1, h2, fun h => absurd h h3, ih fun x hx => hall x (List.mem_cons_of_mem _ hx)⟩

theorem ampersand_not_plain : ¬ PlainText (unit '&' :: s) := by
  rintro (h | h)
  · exact absurd h (by decide)
  · exact h.2.1 rfl

theorem rawOperand_head (h : s.head? = some c) (he : endsOperand c = false) : (rawOperand s).head? = some c := by
  obtain ⟨s, rfl⟩ := List.head?_eq_some_iff.1 h
  rw [rawOperand_cons he]
  rfl

/-- `&` and `&&` are operators and operands alike. -/
theorem ampersand_operand : (if s.head? = some (unit '&') then [unit '&', unit '&'] else [unit '&']) =
    rawOperand (unit '&' :: s) ↔
    rawOperand (unit '&' :: s) = [unit '&'] ∨ rawOperand (unit '&' :: s) = [unit '&', unit '&'] := by
  rw [rawOperand_cons (by decide)]
  by_cases hd : s.head? = some (unit '&')
  · rw [if_pos hd]
    constructor
    · exact fun h => Or.inr h.symm
    · rintro (h | h)
      · have hhead := rawOperand_head hd (by decide)
        rw [(List.cons.inj h).2] at hhead
        cases hhead
      · exact h.symm
  · rw [if_neg hd]
    constructor
    · exact fun h => Or.inl h.symm
    · rintro (h | h)
      · exact h.symm
      · refine absurd ?_ hd
        cases s with
        | nil => cases h
        | cons d s =>
          have htail := (List.cons.inj h).2
          by_cases he : endsOperand d = true
          · rw [rawOperand, List.takeWhile_cons_of_neg (by rw [he]; decide)] at htail
            cases htail
          · rw [Bool.not_eq_true] at he
            rw [rawOperand_cons he] at htail
            rw [(List.cons.inj htail).1]
            rfl

/-- **An operand has the value of the word in its place exactly if** it is plain. -/
theorem agrees_iff (h : AtOperand source rest) :
    Agrees source (operandStart rest, redirectOperand rest) ↔ PlainOperand rest := by
  unfold Agrees PlainOperand redirectOperand
  dsimp only
  cases hstart : operandStart rest with
  | nil => exact ⟨fun _ => trivial, fun _ _ => nofun⟩
  | cons c s =>
    dsimp only
    by_cases hq : isQuote c = true
    · rw [if_pos hq]
      rcases quotedEnd_head c s with hleft | hleft
      · simp [readShellOperand, hq, hleft]
      · have hb := h.of_word hstart (quote_ne hq).1 (quote_ne hq).2
        have hiff : (∃ w, (c :: s, w) ∈ wordsAt source ∧ w.value = (quotedEnd c s).1) ↔ Bare (afterQuote c s) := by
          rw [word_value (quote_not_ends hq) hb, word_quote hq, bare_iff, List.append_right_eq_self]
        simp only [readShellOperand, hq, if_true, hleft, List.head?_cons, Option.getD_some, Option.some.injEq,
          forall_eq', hiff, reduceCtorEq, false_or, Bool.and_eq_false_iff]
        by_cases h1 : (afterOperator rest).1 = true
        · by_cases h2 : isDescriptor (quotedEnd c s).1 = true
          · simp [h1, h2]
          · simp [h1, h2]
        · simp [h1]
    · rw [if_neg hq]
      rw [Bool.not_eq_true] at hq
      by_cases he : endsOperand c = true
      · have hraw : rawOperand (c :: s) = [] := List.takeWhile_cons_of_neg (by rw [he]; decide)
        refine iff_of_true (fun _ target ht => ?_) (Or.inl (Or.inl he))
        simp only [readShellOperand, hq, Bool.false_eq_true, if_false] at ht
        exact absurd (ht.symm.trans (if_pos hraw)) nofun
      · rw [Bool.not_eq_true] at he
        have hne : rawOperand (c :: s) ≠ [] := by
          rw [rawOperand_cons he]
          exact List.cons_ne_nil _ _
        have htarget : (readShellOperand (c :: s)).target = some (rawOperand (c :: s)) := by
          simp only [readShellOperand, hq, Bool.false_eq_true, if_false]
          exact if_neg hne
        rw [htarget]
        simp only [Option.getD_some, Option.some.injEq, forall_eq', Bool.and_eq_false_iff]
        by_cases hd : (afterOperator rest).1 = true ∧ isDescriptor (rawOperand (c :: s)) = true
        · simp [hd.1, hd.2, descriptor_plain hd.2]
        · have hd' : (afterOperator rest).1 = false ∨ isDescriptor (rawOperand (c :: s)) = false := by
            rw [← Bool.and_eq_false_iff, Bool.eq_false_iff, ne_eq, Bool.and_eq_true]
            exact hd
          rw [forall_prop_of_true hd']
          by_cases hamp : c = unit '&'
          · subst hamp
            cases h with
            | between hb hjoin =>
              rw [hstart] at hb
              rw [ampersand_value hb, ampersand_operand]
              exact ⟨fun h => Or.inr ⟨hjoin s, h⟩, fun h => h.elim (fun h => absurd h ampersand_not_plain) (·.2)⟩
            | pipe heq _ =>
              rw [hstart] at heq
              exact absurd (List.cons.inj heq).1 (by decide)
            | @ampersand left heq hw =>
              rw [operandStart_of_ampersand heq] at hstart
              obtain ⟨-, rfl⟩ := List.cons.inj hstart
              refine iff_of_false ?_ ?_
              · rintro ⟨w, hw', -⟩
                obtain ⟨pre, hsource, hpre⟩ := hw
                rw [hsource] at hw'
                rcases List.mem_append.1 hw' with hx | hx
                · exact absurd (hpre _ hx) (lt_irrefl _)
                · exact absurd (mem_words_length hx) (by simp)
              · rintro (hx | hx)
                · exact ampersand_not_plain hx
                · exact hx.1 heq
          · have hpipe : c ≠ unit '|' := by
              rintro rfl
              exact absurd he (by decide)
            have hw : endsWord c = false := by simpa [endsOperand, hamp] using he
            rw [word_value hw (h.of_word hstart hamp hpipe), value_eq_raw]
            refine ⟨Or.inl, ?_⟩
            rintro (hx | ⟨-, hx | hx⟩)
            · exact hx
            · rw [rawOperand_cons he] at hx
              exact absurd (List.cons.inj hx).1 hamp
            · rw [rawOperand_cons he] at hx
              exact absurd (List.cons.inj hx).1 hamp

/-! ## The whole source -/

theorem inStep_text (hp : PlainText s) (h : InStep source s) :
    InStep source (s.dropWhile fun c => !endsOperand c) := by
  induction s with
  | nil => exact h
  | cons c s ih =>
    by_cases he : endsOperand c = true
    · rwa [List.dropWhile_cons_of_neg (by rw [he]; decide)]
    · rw [List.dropWhile_cons_of_pos (by rw [Bool.not_eq_true] at he; rw [he]; rfl)]
      rcases hp with hp | ⟨h1, -, h2, hp⟩
      · exact absurd hp he
      · by_cases hb : c = backslash
        · obtain rfl := h2 hb
          subst hb
          exact h.escape
        · exact ih hp (h.other h1 hb)

theorem inStep_raw (hr : ∀ x ∈ rawOperand s, x = unit '&') (h : InStep source s) :
    InStep source (s.dropWhile fun c => !endsOperand c) := by
  induction s with
  | nil => exact h
  | cons c s ih =>
    by_cases he : endsOperand c = true
    · rwa [List.dropWhile_cons_of_neg (by rw [he]; decide)]
    · rw [Bool.not_eq_true] at he
      rw [List.dropWhile_cons_of_pos (by rw [he]; rfl)]
      rw [rawOperand_cons he] at hr
      obtain rfl := hr c (List.mem_cons_self ..)
      exact ih (fun x hx => hr x (List.mem_cons_of_mem _ hx)) (h.other (by decide) (by decide))

/-- After a plain operand the scanner has not lost the words. -/
theorem inStep_after (hb : Between source rest) (hp : PlainOperand rest) : InStep source (afterOperand rest) := by
  have h := atOperand hb
  unfold PlainOperand at hp
  unfold afterOperand
  cases hstart : operandStart rest with
  | nil => exact .between hb
  | cons c s =>
    rw [hstart] at hp
    dsimp only at hp ⊢
    by_cases hq : isQuote c = true
    · rw [if_pos hq]
      exact (InStep.between (h.of_word hstart (quote_ne hq).1 (quote_ne hq).2)).quote hq
    · rw [if_neg hq] at hp ⊢
      have hin : InStep source (c :: s) := by
        cases h with
        | between h _ =>
          rw [hstart] at h
          exact .between h
        | pipe heq h =>
          rw [hstart] at heq
          obtain ⟨rfl, rfl⟩ := List.cons.inj heq
          exact .inOperator rfl (Or.inr rfl) h
        | ampersand heq h =>
          rw [operandStart_of_ampersand heq] at hstart
          obtain ⟨rfl, rfl⟩ := List.cons.inj hstart
          exact .inOperator rfl (Or.inl rfl) h
      rcases hp with hp | ⟨-, hp | hp⟩
      · exact inStep_text hp hin
      · refine inStep_raw (fun x hx => ?_) hin
        rw [hp] at hx
        exact List.mem_singleton.1 hx
      · refine inStep_raw (fun x hx => ?_) hin
        rw [hp] at hx
        simpa using hx

theorem end_eq : (redirectOperand rest).end.getD rest = afterOperand rest := by
  unfold redirectOperand afterOperand
  dsimp only
  cases operandStart rest with
  | nil => rfl
  | cons c s =>
    dsimp only
    by_cases hq : isQuote c = true
    · rw [if_pos hq]
      rcases quotedEnd_head c s with hleft | hleft
      · simp [readShellOperand, hq, hleft, afterQuote]
      · simp only [readShellOperand, hq, if_true]
        rw [if_pos (by rw [hleft]; rfl)]
        rfl
    · rw [if_neg hq]
      rw [Bool.not_eq_true] at hq
      simp only [readShellOperand, hq, Bool.false_eq_true, if_false]
      rfl

theorem length_afterOperand : (afterOperand rest).length ≤ rest.length := by
  have hsecond : (afterSecond rest).length ≤ rest.length := by
    unfold afterSecond
    split_ifs
    · rw [List.length_drop]
      omega
    · exact le_rfl
  have hop : (afterOperator rest).2.length ≤ rest.length := by
    unfold afterOperator
    split_ifs
    · rw [List.length_drop]
      omega
    · exact hsecond
  have hstart : (operandStart rest).length ≤ rest.length :=
    ((List.dropWhile_suffix _).length_le).trans hop
  unfold afterOperand
  cases h : operandStart rest with
  | nil => exact le_rfl
  | cons c s =>
    rw [h] at hstart
    dsimp only
    split_ifs
    · exact length_afterQuote.trans ((Nat.le_succ _).trans hstart)
    · exact ((List.dropWhile_suffix _).length_le).trans hstart

theorem plain_quoted (h : isQuote c = true) : PlainRedirects (c :: rest) ↔ PlainRedirects (afterQuote c rest) := by
  constructor
  · intro hp
    cases hp with
    | quoted _ hp => exact hp
    | escaped => exact absurd h (by decide)
    | other hq => exact absurd (h.symm.trans hq) (by decide)
    | redirect => exact absurd h (by decide)
  · exact .quoted h

theorem plain_escaped (h : c = backslash) : PlainRedirects (c :: rest) ↔ PlainRedirects (rest.drop 1) := by
  constructor
  · intro hp
    cases hp with
    | quoted hq => exact absurd hq (by rw [h]; decide)
    | escaped hp => exact hp
    | other _ hb => exact absurd h hb
    | redirect => exact absurd h (by decide)
  · subst h
    exact .escaped

theorem plain_other (h1 : isQuote c = false) (h2 : c ≠ backslash) (h3 : c ≠ unit '>') :
    PlainRedirects (c :: rest) ↔ PlainRedirects rest := by
  constructor
  · intro hp
    cases hp with
    | quoted hq => exact absurd (h1.symm.trans hq) (by decide)
    | escaped => exact absurd rfl h2
    | other _ _ _ hp => exact hp
    | redirect => exact absurd rfl h3
  · exact .other h1 h2 h3

theorem plain_redirect (h : c = unit '>') :
    PlainRedirects (c :: rest) ↔ PlainOperand rest ∧ PlainRedirects (afterOperand rest) := by
  constructor
  · intro hp
    cases hp with
    | quoted hq => exact absurd hq (by rw [h]; decide)
    | escaped => exact absurd h (by decide)
    | other _ _ hx => exact absurd h hx
    | redirect ho hp => exact ⟨ho, hp⟩
  · rintro ⟨ho, hp⟩
    subst h
    exact .redirect ho hp

/-- From a place in step on, all operands agree exactly if they are plain. -/
theorem redirectsFrom_iff (hn : s.length ≤ n) (h : InStep source s) :
    (∀ p ∈ redirectsFrom n s, Agrees source p) ↔ PlainRedirects s := by
  induction n generalizing s with
  | zero =>
    obtain rfl := List.length_eq_zero_iff.1 (Nat.le_zero.1 hn)
    exact ⟨fun _ => .nil, fun _ => nofun⟩
  | succ n ih =>
    cases s with
    | nil => exact ⟨fun _ => .nil, fun _ => nofun⟩
    | cons c rest =>
      rw [List.length_cons, Nat.succ_le_succ_iff] at hn
      rw [redirectsFrom]
      by_cases hq : isQuote c = true
      · rw [if_pos hq, plain_quoted hq]
        exact ih (length_afterQuote.trans hn) (h.quote hq)
      · rw [if_neg hq]
        rw [Bool.not_eq_true] at hq
        by_cases hb : c = backslash
        · rw [if_pos hb, plain_escaped hb]
          subst hb
          exact ih (by rw [List.length_drop]; omega) h.escape
        · rw [if_neg hb]
          by_cases hr : c = unit '>'
          · rw [if_neg (not_not.2 hr), plain_redirect hr, end_eq, List.forall_mem_cons]
            have hbetween : Between source rest := by
              subst hr
              rcases between_operator (by decide) (h.ends (by decide) (by decide)) with ⟨h, -⟩ | ⟨_, _, hc, _⟩
              · exact h
              · exact absurd hc (by decide)
            rw [agrees_iff (atOperand hbetween)]
            refine and_congr_right fun hp => ?_
            exact ih (length_afterOperand.trans hn) (inStep_after hbetween hp)
          · rw [if_pos hr, plain_other hq hb hr]
            exact ih hn (h.other hq hb)

/-- The scanner and the words agree on all files that a source redirects output to. -/
def OperandsAgree (source : Units) : Prop :=
  ∀ start operand, (start, operand) ∈ redirectsAt source → operand.descriptor = false →
    ∀ target, operand.target = some target → ∃ w, (start, w) ∈ wordsAt source ∧ w.value = target

/-- **The operands of output redirections are read as the words in their places
    exactly if** all of them are plain. -/
theorem operands_agree_iff (source : Units) : OperandsAgree source ↔ PlainRedirects source := by
  rw [← redirectsFrom_iff le_rfl (.between between_source)]
  constructor
  · rintro h ⟨start, operand⟩ hp
    exact h start operand hp
  · exact fun h start operand hp => h (start, operand) hp

/-- In `> "a"b` the scanner reads `a`, and the word is `ab`. -/
theorem operand_cut_short : ¬ ∀ source, OperandsAgree source := by
  intro h
  obtain ⟨w, hw, hv⟩ := h (units ">\"a\"b") (units "\"a\"b") ⟨some (units "a"), some (units "\"a\""), false,
    some (units "b")⟩ (by decide) rfl _ rfl
  have hall : ∀ p ∈ wordsAt (units ">\"a\"b"), p.2.value ≠ units "a" := by decide
  exact hall _ hw hv

end PaPlatform.Safety
