/-
  The incremental matchers find what the text rules find.
-/
import PaPlatform.Diagnostics.Reading

namespace PaPlatform.Diagnostics

open Js Js.Units

variable {rule : TokenRule} {s t r v x w c line rest : Units} {u : UInt16} {find : Units → Option ℕ}
  {accepted : Units → Bool} {pattern : Pattern} {keys : List Units} {after : Units → Option Units}

/-! ## Places -/

/-- The places of a line to which the search comes: between its matches. -/
inductive Outside (find : Units → Option ℕ) (line : Units) : Units → Prop
  | start : Outside find line line
  | skip {u : UInt16} {s : Units} (h : Outside find line (u :: s)) (hn : find (u :: s) = none) : Outside find line s
  | jump {v s : Units} (h : Outside find line (v ++ s)) (hf : find (v ++ s) = some v.length) : Outside find line s

theorem matchesFrom_skip (v : Units) : matchesFrom find v.length (v ++ s) = matchesFrom find 0 s := by
  induction v with
  | nil => rfl
  | cons u v ih => exact ih

theorem matchesFrom_none (h : find (u :: s) = none) : matchesFrom find 0 (u :: s) = matchesFrom find 0 s := by
  rw [matchesFrom, h]

theorem matchesFrom_hit (hv : v ≠ []) (h : find (v ++ s) = some v.length) :
    matchesFrom find 0 (v ++ s) = v :: matchesFrom find 0 s := by
  cases v with
  | nil => exact absurd rfl hv
  | cons u v =>
    rw [List.cons_append] at h ⊢
    rw [matchesFrom, h]
    dsimp only [List.length_cons]
    rw [matchesFrom_skip, ← List.cons_append, ← List.length_cons (a := u), List.take_left]

/-- No match begins in a text. -/
theorem matchesFrom_pass (line : Units) (h : ∀ y, y <:+ v → y ≠ [] → find (y ++ s) = none) :
    matchesFrom find 0 (v ++ s) = matchesFrom find 0 s ∧ (Outside find line (v ++ s) → Outside find line s) := by
  induction v with
  | nil => exact ⟨rfl, id⟩
  | cons u v ih =>
    have hu : find (u :: (v ++ s)) = none := h (u :: v) List.suffix_rfl (by simp)
    obtain ⟨heq, hout⟩ := ih fun y hy => h y (hy.trans (List.suffix_cons u v))
    refine ⟨?_, fun ho => hout (.skip ho hu)⟩
    rw [List.cons_append, matchesFrom_none hu, heq]

/-- No match begins in what is dropped. -/
theorem matchesFrom_shrink (line : Units)
    (h : ∀ y, y <:+ v → y ≠ [] → accepted y = false → find (y ++ s) = none) :
    matchesFrom find 0 (v ++ s) = matchesFrom find 0 (shrink accepted v ++ s) ∧
      (Outside find line (v ++ s) → Outside find line (shrink accepted v ++ s)) := by
  induction v with
  | nil => exact ⟨rfl, id⟩
  | cons u v ih =>
    rw [shrink]
    split_ifs with hu
    · exact ⟨rfl, id⟩
    · have hnone : find (u :: (v ++ s)) = none := h (u :: v) List.suffix_rfl (by simp) (by simpa using hu)
      obtain ⟨heq, hout⟩ := ih fun y hy => h y (hy.trans (List.suffix_cons u v))
      refine ⟨?_, fun ho => hout (.skip ho hnone)⟩
      rw [List.cons_append, matchesFrom_none hnone, heq]

/-! ## Keys in lower case -/

theorem lowerCase_append (s t : Units) : lowerCase (s ++ t) = lowerCase s ++ lowerCase t := List.flatMap_append

theorem lowerUnit_ascii (h : lower u < 0x80) : lowerUnit u = [lower u] := by
  unfold lowerUnit
  rw [if_neg, if_neg]
  · rintro rfl
    exact absurd h (by decide)
  · rintro rfl
    exact absurd h (by decide)

/-- An ASCII text in lower case. -/
theorem lowerCase_ascii (h : ∀ a ∈ w.map lower, a < 0x80) : lowerCase w = w.map lower := by
  induction w with
  | nil => rfl
  | cons u w ih =>
    obtain ⟨hu, hw⟩ := List.forall_mem_cons.1 h
    rw [lowerCase, List.flatMap_cons, lowerUnit_ascii hu, List.map_cons]
    exact congrArg (lower u :: ·) (ih hw)

/-- A text in lower case that is ASCII, without U+212A. -/
theorem map_lower (h : ∀ a ∈ lowerCase w, a < 0x80) (hk : (0x212a : UInt16) ∉ w) : w.map lower = lowerCase w := by
  induction w with
  | nil => rfl
  | cons u w ih =>
    rw [lowerCase, List.flatMap_cons, List.forall_mem_append] at h
    rw [List.mem_cons, not_or] at hk
    have hunit : lowerUnit u = [lower u] := by
      unfold lowerUnit at h ⊢
      rw [if_neg (Ne.symm hk.1)] at h ⊢
      split_ifs at h ⊢
      · exact absurd (h.1 0x307 (by simp)) (by decide)
      · rfl
    rw [lowerCase, List.flatMap_cons, hunit, List.map_cons]
    exact congrArg (lower u :: ·) (ih h.2 hk.2)

theorem lowerCase_ne_nil (h : w ≠ []) : lowerCase w ≠ [] := by
  intro hnil
  have hlen := length_lowerCase w
  rw [hnil, List.length_nil, Nat.le_zero, List.length_eq_zero_iff] at hlen
  exact h hlen

theorem lowerCase_start (h : w <+: x) : lowerCase w <+: lowerCase x := by
  obtain ⟨t, rfl⟩ := h
  rw [lowerCase_append]
  exact List.prefix_append _ _

theorem lowerCase_within (h : w <:+: x) : lowerCase w <:+: lowerCase x := by
  obtain ⟨s, t, rfl⟩ := h
  rw [lowerCase_append, lowerCase_append]
  exact List.infix_append _ _ _

/-- Keys of which none stands within another one. -/
structure Proper (keys : List Units) : Prop where
  letter : ∀ k ∈ keys, k.head?.any (within 'a' 'z') = true
  lowered : ∀ k ∈ keys, k.map lower = k
  ascii : ∀ k ∈ keys, ∀ u ∈ k, u < 0x80
  separate : ∀ k ∈ keys, ∀ l ∈ keys, ¬ k <:+: l.dropLast

theorem Proper.ne_nil (hp : Proper keys) {k : Units} (hk : k ∈ keys) : k ≠ [] := by
  rintro rfl
  exact absurd (hp.letter [] hk) (by simp)

theorem Proper.lowerCase_mem (hp : Proper keys) (hw : w.map lower ∈ keys) : lowerCase w = w.map lower :=
  lowerCase_ascii (hp.ascii _ hw)

/-- A key does not go on as another one. -/
theorem Proper.unique (hp : Proper keys) (hw : lowerCase w ∈ keys) (hx : lowerCase x ∈ keys) (h : w <+: x) :
    w = x := by
  obtain ⟨t, rfl⟩ := h
  by_contra hne
  have ht : t ≠ [] := by
    rintro rfl
    exact hne (List.append_nil w).symm
  refine hp.separate _ hw _ hx ?_
  rw [lowerCase_append, List.dropLast_append_of_ne_nil (lowerCase_ne_nil ht)]
  exact (List.prefix_append _ _).isInfix

/-- No key stands in a text that may become one. -/
theorem Proper.candidate (hp : Proper keys) {k : Units} (hk : k ∈ keys) (hc : lowerCase c <+: k)
    (hn : lowerCase c ∉ keys) (h : w <:+: c) : lowerCase w ∉ keys := by
  intro hw
  obtain ⟨t, rfl⟩ := hc
  have ht : t ≠ [] := by
    rintro rfl
    rw [List.append_nil] at hk
    exact hn hk
  refine hp.separate _ hw _ hk ?_
  rw [List.dropLast_append_of_ne_nil ht]
  exact (lowerCase_within h).trans (List.prefix_append _ _).isInfix

theorem letter_not_separator (h : within 'a' 'z' (lower u) = true) :
    ¬ Separator u := by
  have hu : 65 ≤ u.toNat ∧ u.toNat ≤ 122 := by
    simp only [within, Bool.and_eq_true, decide_eq_true_eq, UInt16.le_iff_toNat_le, toNat_lower,
      show (unit 'a').toNat = 97 from rfl, show (unit 'z').toNat = 122 from rfl] at h
    split_ifs at h <;> omega
  have hspace : Units.isSpace u = false := by
    have hvalid : u.toNat.isValidChar := Or.inl (by omega)
    have hchar : (Char.ofNat u.toNat).toNat = u.toNat := by
      unfold Char.ofNat
      rw [dif_pos hvalid]
      exact Char.toNat_ofNatAux _
    simp only [Units.isSpace, Js.isSpace, hchar, Bool.or_eq_false_iff, Bool.and_eq_false_iff, decide_eq_false_iff_not,
      beq_eq_false_iff_ne]
    omega
  have hne : ∀ z : Char, (unit z).toNat < 65 → u ≠ unit z := by
    rintro z hz rfl
    omega
  have hquote : isQuote u = false := by simp [isQuote, hne '"' (by decide), hne '\'' (by decide)]
  have hdelim : isDelimiter u = false := by simp [isDelimiter, hne ':' (by decide), hne '=' (by decide)]
  simp [hspace, hquote, hdelim]

/-! ## A key and its pattern -/

theorem mem_keyRests : s ∈ keyRests keys x ↔ ∃ w, x = w ++ s ∧ w.map lower ∈ keys := by
  simp only [keyRests, List.mem_filterMap, strip_eq_some]
  constructor
  · rintro ⟨k, hk, w, rfl, rfl⟩
    exact ⟨w, rfl, hk⟩
  · rintro ⟨w, rfl, hw⟩
    exact ⟨_, hw, w, rfl, rfl⟩

/-- There is one key at a place. -/
theorem Form.first_key (hf : Form pattern keys after) (hp : Proper keys) (hw : w.map lower ∈ keys) (s : Units) :
    pattern.first (w ++ s) = after s := by
  have hmem : s ∈ keyRests keys (w ++ s) := mem_keyRests.2 ⟨w, rfl, hw⟩
  have hall : ∀ r ∈ keyRests keys (w ++ s), r = s := by
    intro r hr
    obtain ⟨x, hx, hxk⟩ := mem_keyRests.1 hr
    have hwl : lowerCase w ∈ keys := by rwa [hp.lowerCase_mem hw]
    have hxl : lowerCase x ∈ keys := by rwa [hp.lowerCase_mem hxk]
    have heq : w = x := by
      rcases List.prefix_or_prefix_of_prefix (List.prefix_append w s) (hx ▸ List.prefix_append x r) with h | h
      · exact hp.unique hwl hxl h
      · exact (hp.unique hxl hwl h).symm
    subst heq
    exact (List.append_cancel_left hx).symm
  rw [hf.first, List.eq_replicate_of_mem hall]
  exact List.findSome?_replicate_of_pos (List.length_pos_of_mem hmem)

theorem Form.find_key (hf : Form pattern keys after) (hp : Proper keys) (hw : w.map lower ∈ keys) (s : Units) :
    pattern.find (w ++ s) = (after s).map fun rest => (w ++ s).length - rest.length := by
  rw [Pattern.find_eq hf.plain, hf.first_key hp hw]

theorem Form.find_key_none (hf : Form pattern keys after) (hp : Proper keys) (hw : w.map lower ∈ keys) :
    pattern.find (w ++ s) = none ↔ after s = none := by
  rw [hf.find_key hp hw, Option.map_eq_none_iff]

/-- A match begins with a key. -/
theorem Form.key_of_find (hf : Form pattern keys after) (h : pattern.find x ≠ none) :
    ∃ w s, x = w ++ s ∧ w.map lower ∈ keys := by
  obtain ⟨n, hn⟩ := Option.ne_none_iff_exists'.1 h
  rw [Pattern.find_eq hf.plain, hf.first] at hn
  obtain ⟨rest, hrest, -⟩ := Option.map_eq_some_iff.1 hn
  obtain ⟨s, hs, -⟩ := List.exists_of_findSome?_eq_some hrest
  obtain ⟨w, rfl, hw⟩ := mem_keyRests.1 hs
  exact ⟨w, s, rfl, hw⟩

/-- No match begins at a separator. -/
theorem Form.find_separator (hf : Form pattern keys after) (hp : Proper keys)
    (hu : Separator u) : pattern.find (u :: s) = none := by
  by_contra h
  obtain ⟨w, t, hx, hw⟩ := hf.key_of_find h
  cases w with
  | nil => exact hp.ne_nil hw rfl
  | cons v w =>
    obtain ⟨rfl, -⟩ := List.cons.inj hx
    have hletter := hp.letter _ hw
    rw [List.map_cons, List.head?_cons, Option.any_some] at hletter
    exact letter_not_separator hletter hu

/-! ## Rules -/

/-- Where a matcher does not do what its pattern does after a key. -/
def Drifts : TokenRuleKind → Units → Prop
  | .credential, s => Delimited s
  | .reasoning, s => ∃ c r, reasoningValue s = some (c :: r) ∧ isQuote c = true ∧ Dangling c r
  | _, _ => False

/-- What a rule reads after its keys, with its pattern. -/
structure Reads (rule : TokenRule) (pattern : Pattern) (after : Units → Option Units) : Prop where
  form : Form pattern rule.keywords after
  proper : Proper rule.keywords
  follows : ∀ s, ¬ Drifts rule.kind s → Follows rule after s
  drifts : ∀ s, Drifts rule.kind s → after s ≠ none

/-- A line on which a matcher does what its pattern does. -/
structure Steady (rule : TokenRule) (pattern : Pattern) (line : Units) : Prop where
  /-- After a key the matcher does what the pattern does. -/
  key : ∀ w s, Outside pattern.find line (w ++ s) → w.map lower ∈ rule.keywords → ¬ Drifts rule.kind s
  /-- Where a key has no value, no match begins within it. -/
  whole : ∀ w s, Outside pattern.find line (w ++ s) → lowerCase w ∈ rule.keywords →
    pattern.find (w ++ s) = none → ∀ y, y <:+ w → y ≠ [] → pattern.find (y ++ s) = none
  /-- A key with the sign of Kelvin has no value. -/
  kelvin : ∀ w s, Outside pattern.find line (w ++ s) → lowerCase w ∈ rule.keywords → 0x212a ∈ w →
    pattern.find (lowerCase w ++ s) = none ∨ rule.kind = .credential ∧ Delimited s

/-- A key with the sign of Kelvin is none of the pattern. -/
theorem Reads.find_kelvin (hr : Reads rule pattern after) (hw : lowerCase w ∈ rule.keywords) (hk : 0x212a ∈ w)
    (s : Units) : pattern.find (w ++ s) = none := by
  by_contra h
  obtain ⟨x, t, hx, hxk⟩ := hr.form.key_of_find h
  have hxl : lowerCase x ∈ rule.keywords := by rwa [hr.proper.lowerCase_mem hxk]
  have heq : w = x := by
    rcases List.prefix_or_prefix_of_prefix (List.prefix_append w s) (hx ▸ List.prefix_append x t) with h | h
    · exact hr.proper.unique hw hxl h
    · exact (hr.proper.unique hxl hw h).symm
  subst heq
  have hascii := hr.proper.ascii _ hxk (lower 0x212a) (List.mem_map_of_mem hk)
  exact absurd hascii (by decide)

theorem passes_delimited (hk : rule.kind = .credential) (hd : Delimited s) (t : Units) :
    Passes rule (.afterKey (captured t)) s [] := by
  obtain ⟨c, r, hs, hc, hr, hne⟩ := hd
  cases s with
  | nil => cases hs
  | cons u s =>
    have hu : Units.isSpace u = true := by
      by_contra hu
      rw [afterSpaces, List.dropWhile_cons_of_neg hu] at hs
      exact hne hs
    have hconsume : rule.consume (.afterKey (captured t)) [u] = (.spacing (captured (t ++ [u])), []) := by
      simp [TokenRule.consume, TokenRule.consumeAfterKey, hk, isWhitespace_unit, hu, captured_append]
    rw [afterSpaces, List.dropWhile_cons_of_pos hu] at hs
    refine .step hconsume (Or.inl hu) ?_
    refine passes_spaces (spacing_space rule) fun t => ?_
    have hs' : afterSpaces s = c :: r := hs
    rw [hs']
    exact .step (spacing_delimiter (Or.inl hk) hc t) (Or.inr (Or.inr hc)) (passes_delimiter hr)

theorem Reads.passes (hr : Reads rule pattern after) (h : after s = none) (t : Units) :
    ∃ rest, Passes rule (.afterKey (captured t)) s rest := by
  have hd : ¬ Drifts rule.kind s := fun hd => hr.drifts s hd h
  rcases hr.follows s hd t with ⟨rest, hrest, -⟩ | ⟨-, hp⟩
  · rw [h] at hrest
    cases hrest
  · exact hp

/-- After a key that has no value the matcher goes on at the next place where a match may begin. -/
theorem passes_matches (hf : Form pattern keys after) (hp : Proper keys) (ho : Outside pattern.find line (w ++ s))
    (hnone : ∀ y, y <:+ w → y ≠ [] → pattern.find (y ++ s) = none) {state : TokenRuleState}
    (h : Passes rule state s rest) :
    matchesFrom pattern.find 0 (w ++ s) = matchesFrom pattern.find 0 rest ∧ Outside pattern.find line rest ∧
      emitted rule state s = emitted rule TokenRule.start rest ∧ rest.length ≤ s.length := by
  obtain ⟨v, rfl, hv, he⟩ := h
  have hsep : ∀ y, y <:+ v → y ≠ [] → pattern.find (y ++ rest) = none := by
    intro y hy hne
    cases y with
    | nil => exact absurd rfl hne
    | cons u y => exact hf.find_separator hp (hv u (hy.subset (by simp)))
  obtain ⟨hkey, hout⟩ := matchesFrom_pass line hnone
  obtain ⟨hrest, hout'⟩ := matchesFrom_pass line hsep
  exact ⟨hkey.trans hrest, hout' (hout ho), he, by simp⟩

/-- After a key a matcher does what its pattern does, if it does so from the next match on. -/
theorem Reads.emitted_key (hr : Reads rule pattern after) (hl : Steady rule pattern line)
    (hw : lowerCase w ∈ rule.keywords) (ho : Outside pattern.find line (w ++ s))
    (hrest : ∀ rest, rest.length ≤ s.length → Outside pattern.find line rest →
      emitted rule TokenRule.start rest = (matchesFrom pattern.find 0 rest).map (toMatch rule.ruleId)) :
    emitted rule (.afterKey (captured w)) s = (matchesFrom pattern.find 0 (w ++ s)).map (toMatch rule.ruleId) := by
  have hp := hr.proper
  have hpasses : ∀ rest, pattern.find (w ++ s) = none → Passes rule (.afterKey (captured w)) s rest →
      emitted rule (.afterKey (captured w)) s = (matchesFrom pattern.find 0 (w ++ s)).map (toMatch rule.ruleId) := by
    intro rest hnone hpass
    obtain ⟨heq, hout, he, hle⟩ := passes_matches hr.form hp ho (hl.whole w s ho hw hnone) hpass
    rw [he, heq, hrest rest hle hout]
  by_cases hk : 0x212a ∈ w
  · have hnone := hr.find_kelvin hw hk s
    rcases hl.kelvin w s ho hw hk with hlow | ⟨hcred, hd⟩
    · have hlower : (lowerCase w).map lower ∈ rule.keywords := by rwa [hp.lowered _ hw]
      obtain ⟨rest, hpass⟩ := hr.passes ((hr.form.find_key_none hp hlower).1 hlow) w
      exact hpasses rest hnone hpass
    · exact hpasses [] hnone (passes_delimited hcred hd w)
  · have hlower : w.map lower ∈ rule.keywords := by rwa [map_lower (hp.ascii _ hw) hk]
    have hfind := hr.form.find_key hp hlower s
    rcases hr.follows s (hl.key w s ho hlower) w with ⟨rest, hafter, v, rfl, he⟩ | ⟨hafter, rest, hpass⟩
    · have hne : w ++ v ≠ [] := by
        intro hnil
        rw [(List.append_eq_nil_iff.1 hnil).1] at hw
        exact hp.ne_nil hw rfl
      have hhit : pattern.find (w ++ v ++ rest) = some (w ++ v).length := by
        rw [List.append_assoc, hfind, hafter]
        simp only [Option.map_some, List.length_append, Option.some.injEq]
        omega
      rw [← List.append_assoc] at ho
      rw [he, ← List.append_assoc, matchesFrom_hit hne hhit, List.map_cons, hrest rest (by simp) (.jump ho hhit)]
    · exact hpasses rest ((hr.form.find_key_none hp hlower).2 hafter) hpass

/-- **From a key prefix on** a matcher emits what its pattern matches. -/
theorem emitted_candidate (hr : Reads rule pattern after) (hl : Steady rule pattern line) {k : Units}
    (hk : k ∈ rule.keywords) (hc : lowerCase c <+: k) (hn : lowerCase c ∉ rule.keywords)
    (ho : Outside pattern.find line (c ++ s)) :
    emitted rule (.keyPrefix c) s = (matchesFrom pattern.find 0 (c ++ s)).map (toMatch rule.ruleId) := by
  have hp := hr.proper
  induction hlen : s.length using Nat.strong_induction_on generalizing c s k with
  | _ n ih =>
  have hstart : ∀ rest : Units, rest.length < n → Outside pattern.find line rest →
      emitted rule TokenRule.start rest = (matchesFrom pattern.find 0 rest).map (toMatch rule.ruleId) := by
    intro rest hlt ho
    refine ih _ hlt hk List.nil_prefix (fun hmem => hp.ne_nil hmem rfl) ?_ rfl
    exact ho
  cases s with
  | nil =>
    have hnone : ∀ y, y <:+ c → y ≠ [] → pattern.find (y ++ []) = none := by
      intro y hy hne
      by_contra h
      obtain ⟨w, t, hx, hw⟩ := hr.form.key_of_find h
      have hin : w <:+: c := by
        rw [List.append_nil] at hx
        exact (hx ▸ (List.prefix_append w t).isInfix).trans hy.isInfix
      refine hp.candidate hk hc hn hin ?_
      rwa [hp.lowerCase_mem hw]
    rw [(matchesFrom_pass line hnone).1]
    rfl
  | cons u s =>
    rw [List.length_cons] at hlen
    -- the candidate, with the next unit
    have hshrink : ∀ y, y <:+ c ++ [u] → y ≠ [] → rule.keywords.any (lowerCase y).isPrefixOf = false →
        pattern.find (y ++ s) = none := by
      intro y hy hne hno
      by_contra h
      obtain ⟨w, t, hx, hw⟩ := hr.form.key_of_find h
      have hwl : lowerCase w ∈ rule.keywords := by rwa [hp.lowerCase_mem hw]
      rcases List.prefix_or_prefix_of_prefix (List.prefix_append y s) (hx ▸ List.prefix_append w t) with hpre | hpre
      · rw [List.any_eq_false] at hno
        exact hno _ hwl (List.isPrefixOf_iff_prefix.2 (lowerCase_start hpre))
      · -- a key that ends before the next unit stands in the candidate
        have hin : w <:+: c := by
          have hne' : w ≠ y := by
            rintro rfl
            rw [List.any_eq_false] at hno
            exact hno _ hwl (List.isPrefixOf_iff_prefix.2 List.prefix_rfl)
          have hdrop : y.dropLast <:+ c := by
            obtain ⟨t, ht⟩ := hy
            exact ⟨t, by rw [← List.dropLast_append_of_ne_nil hne, ht, List.dropLast_concat]⟩
          obtain ⟨z, rfl⟩ := hpre
          have hz : z ≠ [] := by
            rintro rfl
            exact hne' (List.append_nil w).symm
          rw [List.dropLast_append_of_ne_nil hz] at hdrop
          exact (List.prefix_append w _).isInfix.trans hdrop.isInfix
        exact hp.candidate hk hc hn hin hwl
    have hmatches := matchesFrom_shrink line hshrink
    rw [show c ++ [u] ++ s = c ++ u :: s by simp] at hmatches
    obtain ⟨heq, hout⟩ := hmatches
    generalize hd : shrink (fun y => rule.keywords.any (lowerCase y).isPrefixOf) (c ++ [u]) = d at heq hout
    have hconsume : rule.consume (.keyPrefix c) [u] =
        if rule.keywords.contains (lowerCase d) then (.afterKey (captured d), []) else (.keyPrefix d, []) := by
      subst hd
      rfl
    rw [heq]
    by_cases hmem : lowerCase d ∈ rule.keywords
    · rw [if_pos (List.contains_iff_mem.2 hmem)] at hconsume
      rw [emitted_step hconsume]
      exact hr.emitted_key hl hmem (hout ho) fun rest hle => hstart rest (by omega)
    · rw [if_neg (by simpa using hmem)] at hconsume
      rw [emitted_step hconsume]
      have hpre : ∃ l ∈ rule.keywords, lowerCase d <+: l := by
        by_cases hnil : d = []
        · exact ⟨k, hk, hnil ▸ List.nil_prefix⟩
        · have hok := shrink_accepted (hd ▸ hnil)
          rw [hd] at hok
          obtain ⟨l, hl, hpre⟩ := List.any_eq_true.1 hok
          exact ⟨l, hl, List.isPrefixOf_iff_prefix.1 hpre⟩
      obtain ⟨l, hl', hpre⟩ := hpre
      exact ih s.length (by omega) hl' hpre hmem (hout ho) rfl

end PaPlatform.Diagnostics
