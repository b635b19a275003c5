/-
  The matches of a whole line.

  The matchers find what `detectText` finds on a line on which no matcher drifts; on
  others they may miss a secret.
-/
import PaPlatform.Diagnostics.Agreement

namespace PaPlatform.Diagnostics

open Js Js.Units

open Value (isHigh isLow)

variable {rule : TokenRule} {s t w x y c d line rest text tail : Units} {u v : UInt16} {configured : List Units}

/-! ## Literals -/

/-- No value that is found ends within a surrogate pair. -/
def Unbroken (text line : Units) : Prop :=
  ∀ v s, Outside (findPart text) line (text ++ v :: s) → ¬ (text.getLast?.any isHigh = true ∧ isLow v = true)

theorem findPart_eq_none : findPart text x = none ↔ ¬ text <+: x := by
  unfold findPart
  simp

theorem findPart_append (text s : Units) : findPart text (text ++ s) = some text.length := by
  simp [findPart]

/-- What is dropped begins no occurrence. -/
theorem shrink_occurrences (line : Units) (ht : tail <+: text) (hne : tail ≠ text) (u : UInt16) (s : Units) :
    matchesFrom (findPart text) 0 (tail ++ u :: s) =
        matchesFrom (findPart text) 0 (shrink (·.isPrefixOf text) (tail ++ [u]) ++ s) ∧
      (Outside (findPart text) line (tail ++ u :: s) →
        Outside (findPart text) line (shrink (·.isPrefixOf text) (tail ++ [u]) ++ s)) := by
  have hlen : tail.length < text.length := lt_of_le_of_ne ht.length_le fun h => hne (ht.eq_of_length h)
  rw [show tail ++ u :: s = tail ++ [u] ++ s by simp]
  refine matchesFrom_shrink line fun y hy hy0 hno => ?_
  rw [findPart_eq_none]
  intro hpre
  rcases List.prefix_or_prefix_of_prefix hpre (List.prefix_append y s) with h | h
  · -- an occurrence that ends before the next unit is shorter than the tail
    have hle := h.length_le
    have hley := hy.length_le
    rw [List.length_append, List.length_singleton] at hley
    have heq : text = y := h.eq_of_length (by omega)
    rw [heq, List.isPrefixOf_iff_prefix.2 List.prefix_rfl] at hno
    cases hno
  · rw [List.isPrefixOf_iff_prefix.2 h] at hno
    cases hno

/-- A unit of a line is given to a literal. -/
theorem literal_step (hne : text ≠ []) (ht : tail <+: text) (htn : tail ≠ text)
    (ho : Outside (findPart text) line (tail ++ u :: s)) :
    ∃ next found,
      (Matcher.literal text tail).consume [u] = (.literal text next, found.map (toMatch .configuredValue)) ∧
      matchesFrom (findPart text) 0 (tail ++ u :: s) = found ++ matchesFrom (findPart text) 0 (next ++ s) ∧
      Outside (findPart text) line (next ++ s) ∧ next <+: text ∧ next ≠ text := by
  obtain ⟨heq, hout⟩ := shrink_occurrences line ht htn u s
  have hconsume : (Matcher.literal text tail).consume [u] =
      if shrink (·.isPrefixOf text) (tail ++ [u]) = text then (.literal text [], [toMatch .configuredValue text])
      else (.literal text (shrink (·.isPrefixOf text) (tail ++ [u])), []) := rfl
  by_cases hd : shrink (·.isPrefixOf text) (tail ++ [u]) = text
  · rw [if_pos hd] at hconsume
    rw [hd] at heq hout
    refine ⟨[], [text], hconsume, ?_, .jump (hout ho) (findPart_append text s), List.nil_prefix, hne.symm⟩
    rw [heq, matchesFrom_hit hne (findPart_append text s)]
    rfl
  · rw [if_neg hd] at hconsume
    refine ⟨_, [], hconsume, heq, hout ho, ?_, hd⟩
    by_cases hnil : shrink (·.isPrefixOf text) (tail ++ [u]) = []
    · rw [hnil]
      exact List.nil_prefix
    · exact List.isPrefixOf_iff_prefix.1 (@shrink_accepted (·.isPrefixOf text) _ hnil)

theorem literal_end (ht : tail <+: text) (htn : tail ≠ text) : matchesFrom (findPart text) 0 (tail ++ []) = [] := by
  have hlen : tail.length < text.length := lt_of_le_of_ne ht.length_le fun h => htn (ht.eq_of_length h)
  have hnone : ∀ y, y <:+ tail → y ≠ [] → findPart text (y ++ []) = none := by
    intro y hy _
    rw [findPart_eq_none, List.append_nil]
    intro hpre
    have hle := hpre.length_le.trans hy.length_le
    omega
  rw [(matchesFrom_pass [] hnone).1]
  rfl

/-- **A literal is found where it occurs.** -/
theorem literal_matches (hne : text ≠ []) (hu : Unbroken text line) (ht : tail <+: text) (htn : tail ≠ text)
    (ho : Outside (findPart text) line (tail ++ s)) :
    ((Matcher.literal text tail).consumeAll (characters s)).2 =
      (matchesFrom (findPart text) 0 (tail ++ s)).map (toMatch .configuredValue) := by
  fun_induction characters s generalizing tail with
  | case1 =>
    rw [literal_end ht htn]
    rfl
  | case2 u =>
    obtain ⟨next, found, hconsume, heq, -, hn, hnn⟩ := literal_step hne ht htn ho
    rw [heq, literal_end hn hnn, List.append_nil, Matcher.consumeAll, hconsume]
    exact List.append_nil _
  | case3 u v rest hp ih =>
    obtain ⟨hu', hv⟩ := Bool.and_eq_true_iff.1 hp
    have hopen : shrink (·.isPrefixOf text) (tail ++ [u]) ≠ text := by
      intro hd
      have hout := (shrink_occurrences line ht htn u (v :: rest)).2 ho
      rw [hd] at hout
      refine hu v rest hout ⟨?_, hv⟩
      rw [shrink_last hne hd]
      exact hu'
    obtain ⟨next, found, hconsume, heq, hout, hn, hnn⟩ := literal_step hne ht htn ho
    obtain ⟨next', found', hconsume', heq', hout', hn', hnn'⟩ := literal_step hne hn hnn hout
    rw [Matcher.consumeAll, literal_pair hopen, hconsume, heq, heq', List.map_append, List.map_append]
    dsimp only
    rw [hconsume']
    dsimp only
    rw [ih hn' hnn' hout', List.append_assoc]
  | case4 u v rest hp ih =>
    obtain ⟨next, found, hconsume, heq, hout, hn, hnn⟩ := literal_step hne ht htn ho
    rw [Matcher.consumeAll, hconsume, heq, List.map_append]
    exact congrArg _ (ih hn hnn hout)

theorem literal_push (hne : text ≠ []) (hu : Unbroken text line) :
    ((Matcher.literal text []).push line).2 = (occurrences text line).map (toMatch .configuredValue) :=
  literal_matches hne hu List.nil_prefix hne.symm .start

/-! ## Rules -/

/-- A line is given to a rule unit by unit. -/
theorem token_push (rule : TokenRule) (line : Units) : ((Matcher.token rule TokenRule.start).push line).2 ++
    ((Matcher.token rule TokenRule.start).push line).1.flush = emitted rule TokenRule.start line := by
  have hunits : ∀ state, ((Matcher.token rule state).consumeAll (line.map ([·]))).2 ++
      ((Matcher.token rule state).consumeAll (line.map ([·]))).1.flush = emitted rule state line := by
    induction line with
    | nil => exact fun state => rfl
    | cons u line ih =>
      intro state
      rw [emitted, ← ih, ← List.append_assoc]
      rfl
  rw [push_eq (show Sound (.token rule TokenRule.start) from Nat.zero_le _)]
  exact hunits _

def properKey (keys : List Units) (k : Units) : Bool :=
  k.head?.any (within 'a' 'z') && k.map lower == k && k.all (· < 0x80) &&
    keys.all fun l => !l.dropLast.tails.any k.isPrefixOf

theorem proper_keys {keys : List Units} (h : keys.all (properKey keys) = true) : Proper keys := by
  have hkey : ∀ k ∈ keys, k.head?.any (within 'a' 'z') = true ∧ k.map lower = k ∧ (∀ u ∈ k, u < 0x80) ∧
      ∀ l ∈ keys, ¬ k <:+: l.dropLast := by
    intro k hk
    have hok := List.all_eq_true.1 h k hk
    simp only [properKey, Bool.and_eq_true, beq_iff_eq, List.all_eq_true, decide_eq_true_eq, Bool.not_eq_true',
      List.any_eq_false, List.mem_tails] at hok
    obtain ⟨⟨⟨hletter, hlower⟩, hascii⟩, hseparate⟩ := hok
    refine ⟨hletter, hlower, hascii, fun l hl hin => ?_⟩
    obtain ⟨t, hpre, hsuf⟩ := List.infix_iff_prefix_suffix.1 hin
    exact hseparate l hl t hsuf (List.isPrefixOf_iff_prefix.2 hpre)
  exact ⟨fun k hk => (hkey k hk).1, fun k hk => (hkey k hk).2.1, fun k hk => (hkey k hk).2.2.1,
    fun k hk => (hkey k hk).2.2.2⟩

theorem reads_credential (hk : rule.kind = .credential) (hkeys : rule.keywords = shapedKeys) :
    Reads rule credentialPattern credentialRest where
  form := hkeys ▸ credential_form
  proper := hkeys ▸ proper_keys rfl
  follows s hd := by
    rw [hk] at hd
    exact follows_credential hk hd
  drifts s hd := by
    rw [hk] at hd
    obtain ⟨c, r, hs, hc, hr, hne⟩ := hd
    unfold credentialRest
    rw [hs]
    dsimp only
    rw [if_neg (by simp [hr]), if_neg hne]
    exact Option.isSome_iff_ne_none.1 (isSome_visibleRest (head_afterSpaces hs))

theorem reads_bearer (hk : rule.kind = .bearer) (hkeys : rule.keywords = [units "bearer"]) :
    Reads rule bearerPattern bearerRest where
  form := hkeys ▸ bearer_form
  proper := hkeys ▸ proper_keys rfl
  follows s _ := follows_bearer hk s
  drifts s hd := by
    rw [hk] at hd
    exact hd.elim

theorem reads_sk (hk : rule.kind = .sk) (hkeys : rule.keywords = [units "sk-"]) : Reads rule skPattern skRest where
  form := hkeys ▸ sk_form
  proper := hkeys ▸ proper_keys rfl
  follows s _ := follows_sk hk s
  drifts s hd := by
    rw [hk] at hd
    exact hd.elim

theorem reads_reasoning {pattern : Pattern} (hk : rule.kind = .reasoning)
    (hf : Form pattern rule.keywords reasoningRest) (hp : Proper rule.keywords) : Reads rule pattern reasoningRest where
  form := hf
  proper := hp
  follows s hd := by
    rw [hk] at hd
    exact follows_reasoning hk fun c r hs hc hdangling => hd ⟨c, r, hs, hc, hdangling⟩
  drifts s hd := by
    rw [hk] at hd
    obtain ⟨c, r, hs, hc, -⟩ := hd
    rw [reasoningRest, hs, Option.bind_some, valueRest, if_pos hc]
    exact Option.some_ne_none _

/-- The pattern of a rule, and what follows its keys. -/
theorem reads_rule {pattern : Pattern} (hr : rule ∈ tokenRules) (hp : (rule.ruleId, pattern) ∈ textRules) :
    ∃ after, Reads rule pattern after := by
  simp only [textRules, List.mem_cons, Prod.mk.injEq, List.not_mem_nil, or_false] at hp
  simp only [tokenRules, List.mem_cons, List.not_mem_nil, or_false] at hr
  rcases hr with rfl | rfl | rfl | rfl | rfl | rfl
  · obtain rfl : pattern = credentialPattern := by simpa using hp
    exact ⟨_, reads_credential rfl rfl⟩
  · obtain rfl : pattern = bearerPattern := by simpa using hp
    exact ⟨_, reads_bearer rfl rfl⟩
  · obtain rfl : pattern = skPattern := by simpa using hp
    exact ⟨_, reads_sk rfl rfl⟩
  · obtain rfl : pattern = reasoningPattern reasoningKey := by simpa using hp
    exact ⟨_, reads_reasoning rfl signature_form (proper_keys rfl)⟩
  · obtain rfl : pattern = reasoningPattern encryptedKey := by simpa using hp
    exact ⟨_, reads_reasoning rfl content_form (proper_keys rfl)⟩
  · simp at hp

/-! ## A line -/

/-- The matches of a line that is pushed and flushed. -/
def incrementalMatches (configured : List Units) (line : Units) : List PiRedactionMatch :=
  ((Auditor.create configured).pushIncremental line).flushIncremental.recorded

/-- Without those of a key of JSON. -/
def textMatches (configured : List Units) (line : Units) : List PiRedactionMatch :=
  (incrementalMatches configured line).filter (·.ruleId ≠ .credentialNamedKey)

/-- The lines on which no matcher drifts. -/
structure Aligned (configured : List Units) (line : Units) : Prop where
  literals : ∀ text ∈ configured, text ≠ [] → Unbroken text line
  rules : ∀ rule ∈ tokenRules, ∀ pattern, (rule.ruleId, pattern) ∈ textRules → Steady rule pattern line

theorem incrementalMatches_perm (configured : List Units) (line : Units) : (incrementalMatches configured line).Perm
    ((Auditor.create configured).matchers.flatMap fun m => (m.push line).2 ++ (m.push line).1.flush) := by
  have heq : incrementalMatches configured line =
      (Auditor.create configured).matchers.flatMap (fun m => (m.push line).2) ++
        (Auditor.create configured).matchers.flatMap fun m => (m.push line).1.flush := by
    unfold incrementalMatches Auditor.flushIncremental
    simp only [Auditor.resetIncremental, Auditor.pushIncremental, List.flatMap_map]
    rfl
  rw [heq]
  exact List.flatMap_append_perm ..

theorem keywords_ne_nil (hr : rule ∈ tokenRules) : rule.keywords ≠ [] := by
  simp only [tokenRules, List.mem_cons, List.not_mem_nil, or_false] at hr
  rcases hr with rfl | rfl | rfl | rfl | rfl | rfl <;> exact List.cons_ne_nil _ _

/-- **A rule emits what its pattern matches.** -/
theorem emitted_rule {pattern : Pattern} (hr : rule ∈ tokenRules) (hp : (rule.ruleId, pattern) ∈ textRules)
    (hl : Steady rule pattern line) :
    emitted rule TokenRule.start line = (matchesFrom pattern.find 0 line).map (toMatch rule.ruleId) := by
  obtain ⟨after, hreads⟩ := reads_rule hr hp
  obtain ⟨k, hk⟩ := List.exists_mem_of_ne_nil _ (keywords_ne_nil hr)
  exact emitted_candidate (c := []) hreads hl hk List.nil_prefix (fun hmem => hreads.proper.ne_nil hmem rfl) .start

theorem ruleId_consumePrefix (candidate c : Units) : (rule.consumePrefix candidate c).2 = [] := by
  unfold TokenRule.consumePrefix
  dsimp only
  split_ifs <;> rfl

/-- A rule emits matches of its own. -/
theorem ruleId_consume (state : TokenRuleState) (c : Units) :
    ∀ m ∈ (rule.consume state c).2, m.ruleId = rule.ruleId := by
  have hempty : ∀ l : List PiRedactionMatch, l = [] → ∀ m ∈ l, m.ruleId = rule.ruleId := by simp
  have habandon : (rule.abandon c).2 = [] := ruleId_consumePrefix [] c
  have hspacing : ∀ capture, (rule.consumeSpacing capture c).2 = [] := by
    intro capture
    unfold TokenRule.consumeSpacing
    split <;> split_ifs <;> first | rfl | exact habandon
  cases state with
  | keyPrefix candidate => exact hempty _ (ruleId_consumePrefix candidate c)
  | spacing capture => exact hempty _ (hspacing capture)
  | afterKey capture =>
    refine hempty (rule.consumeAfterKey capture c).2 ?_
    unfold TokenRule.consumeAfterKey
    split <;> split_ifs <;> first | rfl | exact habandon | exact hspacing capture
  | afterDelimiter capture =>
    refine hempty (rule.consumeAfterDelimiter capture c).2 ?_
    unfold TokenRule.consumeAfterDelimiter
    split_ifs
    · rfl
    · split <;> rfl
  | value capture =>
    show ∀ m ∈ (rule.consumeValue capture c).2, _
    have hvalue : ∀ m ∈ capture.toMatch rule.ruleId :: (rule.consumePrefix [] c).2, m.ruleId = rule.ruleId := by
      rw [ruleId_consumePrefix]
      simp [MatchCapture.toMatch]
    unfold TokenRule.consumeValue
    split_ifs <;> first | exact hempty _ rfl | exact hvalue
  | quotedValue capture quote escaped =>
    show ∀ m ∈ (rule.consumeQuotedValue capture quote escaped c).2, _
    unfold TokenRule.consumeQuotedValue
    dsimp only
    split_ifs <;> simp [MatchCapture.toMatch]

theorem ruleId_emitted (state : TokenRuleState) (s : Units) :
    ∀ m ∈ emitted rule state s, m.ruleId = rule.ruleId := by
  induction s generalizing state with
  | nil => cases state <;> simp [emitted, TokenRule.finish, MatchCapture.toMatch]
  | cons u s ih =>
    intro m hm
    rcases List.mem_append.1 hm with hm | hm
    · exact ruleId_consume state [u] m hm
    · exact ih _ m hm

theorem filter_emitted (rule : TokenRule) (line : Units) :
    (emitted rule TokenRule.start line).filter (·.ruleId ≠ .credentialNamedKey) =
      if rule.ruleId = .credentialNamedKey then [] else emitted rule TokenRule.start line := by
  have hall := @ruleId_emitted rule TokenRule.start line
  split_ifs with h
  · refine List.filter_eq_nil_iff.2 fun m hm => ?_
    simp [hall m hm, h]
  · refine List.filter_eq_self.2 fun m hm => ?_
    simp [hall m hm, h]

/-- What the literals find. -/
theorem literals_eq (h : ∀ text ∈ configured, text ≠ [] → Unbroken text line) :
    (((configured.filter (· ≠ [])).map (Matcher.literal · [])).flatMap
        fun m => (m.push line).2 ++ (m.push line).1.flush).filter (·.ruleId ≠ .credentialNamedKey) =
      (configured.filter (· ≠ [])).flatMap
        fun secret => (occurrences secret line).map (toMatch .configuredValue) := by
  rw [List.flatMap_map, List.filter_flatMap]
  refine List.flatMap_congr fun text ht => ?_
  obtain ⟨ht, hne⟩ := List.mem_filter.1 ht
  have hne : text ≠ [] := by simpa using hne
  have hflush : ∀ (cs : List Units) (tail : Units), ((Matcher.literal text tail).consumeAll cs).1.flush = [] := by
    intro cs
    induction cs with
    | nil => exact fun tail => rfl
    | cons c cs ih =>
      intro tail
      rw [Matcher.consumeAll]
      dsimp only [Matcher.consume]
      split_ifs <;> exact ih _
  rw [literal_push hne (h text ht hne), Matcher.push, hflush, List.append_nil]
  refine List.filter_eq_self.2 fun m hm => ?_
  obtain ⟨found, -, rfl⟩ := List.mem_map.1 hm
  rfl

/-- What the rules find. -/
theorem rules_perm
    (h : ∀ rule ∈ tokenRules, ∀ pattern, (rule.ruleId, pattern) ∈ textRules → Steady rule pattern line) :
    (((tokenRules.map (Matcher.token · TokenRule.start)).flatMap
        fun m => (m.push line).2 ++ (m.push line).1.flush).filter (·.ruleId ≠ .credentialNamedKey)).Perm
      (textRules.flatMap fun rule => (matchesFrom rule.2.find 0 line).map (toMatch rule.1)) := by
  have hrule : ∀ rule ∈ tokenRules, ∀ pattern, (rule.ruleId, pattern) ∈ textRules →
      (if rule.ruleId = .credentialNamedKey then [] else emitted rule TokenRule.start line) =
        (matchesFrom pattern.find 0 line).map (toMatch rule.ruleId) := by
    intro rule hr pattern hp
    have hne : rule.ruleId ≠ .credentialNamedKey := by
      intro hid
      simp [textRules, hid] at hp
    rw [if_neg hne, emitted_rule hr hp (h rule hr pattern hp)]
  rw [List.flatMap_map, List.filter_flatMap]
  simp only [token_push, filter_emitted]
  simp only [tokenRules, List.forall_mem_cons] at hrule
  obtain ⟨hcredential, hbearer, hsk, hsignature, hcontent, -⟩ := hrule
  simp only [tokenRules, List.flatMap_cons, List.flatMap_nil]
  rw [hcredential credentialPattern (by simp [textRules]), hbearer bearerPattern (by simp [textRules]),
    hsk skPattern (by simp [textRules]), hsignature (reasoningPattern reasoningKey) (by simp [textRules]),
    hcontent (reasoningPattern encryptedKey) (by simp [textRules])]
  have hcomm := @List.perm_append_comm _
    ((matchesFrom credentialPattern.find 0 line).map (toMatch .credentialShapedText) ++
      ((matchesFrom bearerPattern.find 0 line).map (toMatch .bearer) ++
        (matchesFrom skPattern.find 0 line).map (toMatch .skValue)))
    ((matchesFrom (reasoningPattern reasoningKey).find 0 line).map (toMatch .reasoningSignature) ++
      (matchesFrom (reasoningPattern encryptedKey).find 0 line).map (toMatch .encryptedContent))
  simpa only [textRules, List.flatMap_cons, List.flatMap_nil, List.append_nil, List.append_assoc, ↓reduceIte]
    using hcomm

/-- **On a line on which no matcher drifts the matchers find what `detectText` finds.** -/
theorem incremental_perm (h : Aligned configured line) :
    (textMatches configured line).Perm (detectText line (configured.filter (· ≠ [])) []) := by
  refine ((incrementalMatches_perm configured line).filter _).trans ?_
  rw [Auditor.create, List.flatMap_append, List.filter_append, literals_eq h.literals, detectText, List.flatMap_nil,
    List.append_nil]
  exact (rules_perm h.rules).append_left _

-- A drift does not always show: both find `token token`, the matchers a word later.
example : textMatches [] (units "secretoken token token") = detectText (units "secretoken token token") [] [] := by
  decide

/-! ## Keys with values -/

theorem outside_suffix {find : Units → Option ℕ} (h : Outside find line x) : x <:+ line := by
  induction h with
  | start => exact List.suffix_rfl
  | skip _ _ ih => exact (List.suffix_cons _ _).trans ih
  | jump _ _ ih => exact (List.suffix_append _ _).trans ih

/-- The keys of a rule in a line, each with what follows it. -/
def keyPlaces (rule : TokenRule) (line : Units) : List (Units × Units) :=
  line.tails.flatMap fun x =>
    ((List.range (x.length + 1)).map x.splitAt).filter fun p => rule.keywords.contains (lowerCase p.1)

theorem mem_keyPlaces (h : w ++ s <:+ line) (hw : lowerCase w ∈ rule.keywords) : (w, s) ∈ keyPlaces rule line := by
  have hsplit : (w, s) ∈ (List.range ((w ++ s).length + 1)).map (w ++ s).splitAt := by
    refine List.mem_map.2 ⟨w.length, ?_, ?_⟩
    · rw [List.mem_range, List.length_append]
      omega
    · rw [List.splitAt_eq, List.take_left, List.drop_left]
  exact List.mem_flatMap.2 ⟨w ++ s, (List.mem_tails _ _).2 h, List.mem_filter.2 ⟨hsplit, List.contains_iff_mem.2 hw⟩⟩

/-- A line is steady if each of its keys has a value. -/
theorem steady_of_values {pattern : Pattern} (hr : rule ∈ tokenRules) (hp : (rule.ruleId, pattern) ∈ textRules)
    (h : ∀ p ∈ keyPlaces rule line, ¬ Drifts rule.kind p.2 ∧ 0x212a ∉ p.1 ∧ pattern.find (p.1 ++ p.2) ≠ none) :
    Steady rule pattern line := by
  obtain ⟨after, hreads⟩ := reads_rule hr hp
  have hplace : ∀ w s, Outside pattern.find line (w ++ s) → lowerCase w ∈ rule.keywords →
      (w, s) ∈ keyPlaces rule line :=
    fun w s ho hw => mem_keyPlaces (outside_suffix ho) hw
  refine ⟨fun w s ho hw => ?_, fun w s ho hw hnone => ?_, fun w s ho hw hk => ?_⟩
  · rw [← hreads.proper.lowerCase_mem hw] at hw
    exact (h _ (hplace w s ho hw)).1
  · exact absurd hnone (h _ (hplace w s ho hw)).2.2
  · exact absurd hk (h _ (hplace w s ho hw)).2.1

/-- A value with a key, and the key of a rule. -/
theorem incremental_perm_key :
    (textMatches [units "key"] (units "token=key")).Perm
      (detectText (units "token=key") ([units "key"].filter (· ≠ [])) []) := by
  have hplaces : ∀ rule ∈ tokenRules, ∀ p ∈ keyPlaces rule (units "token=key"),
      p = (units "token", units "=key") ∧ rule.kind = .credential ∧ rule.ruleId = .credentialShapedText := by
    decide
  refine incremental_perm ⟨fun text ht _ v s _ hpair => ?_, fun rule hr pattern hp => ?_⟩
  · rw [List.mem_singleton.1 ht] at hpair
    exact absurd hpair.1 (by decide)
  · refine steady_of_values hr hp fun p hmem => ?_
    obtain ⟨rfl, hk, hid⟩ := hplaces rule hr p hmem
    obtain rfl : pattern = credentialPattern := by simpa [textRules, hid] using hp
    refine ⟨?_, by decide, by decide⟩
    rw [hk]
    rintro ⟨c, r, hs, -, -, hne⟩
    exact hne hs

/-- A key that begins in another one is not found. -/
theorem incremental_overlap :
    (Value.parse .float (units "secretoken=x")).filter isStructured = none ∧
      ¬ (textMatches [] (units "secretoken=x")).Perm (detectText (units "secretoken=x") [] []) := by
  refine ⟨by decide, fun h => ?_⟩
  have hlen := h.length_eq
  revert hlen
  decide

end PaPlatform.Diagnostics
