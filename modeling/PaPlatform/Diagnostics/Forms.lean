/-
  What the text rules match: a key, and what comes after it.

  A key is one of few words (`keyRests`); what a pattern reads after it is given by a
  function on texts.
-/
import PaPlatform.Diagnostics.Stream
import PaPlatform.Lib.PatternRests

namespace PaPlatform.Diagnostics

open Js Js.Units

variable {k s t r x w : Units} {u c : UInt16} {p : UInt16 → Bool}

/-! ## Keys -/

/-- A text without a key at its start, which is in lower case. -/
def strip : Units → Units → Option Units
  | [], x => some x
  | _ :: _, [] => none
  | c :: k, u :: x => if lower u = c then strip k x else none

theorem strip_eq_some : strip k x = some s ↔ ∃ w, x = w ++ s ∧ w.map lower = k := by
  induction k generalizing x with
  | nil => simp [strip, eq_comm]
  | cons c k ih =>
    cases x with
    | nil => simp [strip]
    | cons u x =>
      rw [strip]
      constructor
      · intro h
        split_ifs at h with hu
        obtain ⟨w, rfl, hw⟩ := ih.1 h
        exact ⟨u :: w, rfl, by rw [List.map_cons, hu, hw]⟩
      · rintro ⟨w, hx, hw⟩
        cases w with
        | nil => cases hw
        | cons v w =>
          obtain ⟨rfl, rfl⟩ := List.cons.inj hx
          obtain ⟨hu, hw⟩ := List.cons.inj hw
          rw [if_pos hu]
          exact ih.2 ⟨w, rfl, hw⟩

theorem strip_append (k l x : Units) : strip (k ++ l) x = (strip k x).bind (strip l) := by
  induction k generalizing x with
  | nil => rfl
  | cons c k ih =>
    cases x with
    | nil => rfl
    | cons u x =>
      rw [List.cons_append, strip, strip]
      split_ifs
      · exact ih x
      · rfl

theorem rests_letters (k x : Units) : (letters k).rests x = (strip k x).toList := by
  fun_induction letters k generalizing x with
  | case1 => rfl
  | case2 c =>
    cases x with
    | nil => rfl
    | cons u x =>
      simp only [Pattern.rests, strip, beq_iff_eq]
      split_ifs <;> rfl
  | case3 c k hk ih =>
    cases x with
    | nil => rfl
    | cons u x =>
      simp only [Pattern.rests, strip, beq_iff_eq]
      split_ifs
      · rw [List.flatMap_singleton, ih]
      · rfl

/-- The rests of a text after one of the keys. -/
def keyRests (keys : List Units) (x : Units) : List Units := keys.filterMap (strip · x)

theorem keyRests_nil (x : Units) : keyRests [] x = [] := rfl

theorem keyRests_cons (k : Units) (keys : List Units) (x : Units) :
    keyRests (k :: keys) x = (strip k x).toList ++ keyRests keys x := by
  unfold keyRests
  rw [List.filterMap_cons]
  cases strip k x <;> rfl

theorem toNat_lower (u : UInt16) :
    (lower u).toNat = if 65 ≤ u.toNat ∧ u.toNat ≤ 90 then u.toNat + 32 else u.toNat := by
  have hwithin : within 'A' 'Z' u = true ↔ 65 ≤ u.toNat ∧ u.toNat ≤ 90 := by
    simp only [within, Bool.and_eq_true, decide_eq_true_eq, UInt16.le_iff_toNat_le]
    rfl
  unfold lower
  simp only [hwithin]
  split_ifs with h
  · rw [UInt16.toNat_add, show (32 : UInt16).toNat = 32 from rfl]
    omega
  · rfl

/-- Only a letter has a lower case of its own. -/
theorem lower_eq (hc : c.toNat < 97 ∨ 122 < c.toNat) (h : lower u = c) : u = c := by
  have hn := congrArg UInt16.toNat h
  rw [toNat_lower] at hn
  split_ifs at hn
  · omega
  · exact UInt16.toNat_inj.1 hn

theorem lower_mark (hc : c = unit '_' ∨ c = unit '-') : lower u = c ↔ u = c := by
  constructor
  · refine lower_eq (Or.inl ?_)
    rcases hc with rfl | rfl <;> decide
  · rintro rfl
    rcases hc with rfl | rfl <;> rfl

theorem rests_joined (left right : String) (x : Units) : (joined left right).rests x =
    keyRests [units left ++ unit '_' :: units right, units left ++ unit '-' :: units right,
      units left ++ units right] x := by
  have hmark : ∀ t : Units, (Pattern.opt (.unit fun u => u == unit '_' || u == unit '-')).rests t =
      (strip [unit '_'] t).toList ++ (strip [unit '-'] t).toList ++ [t] := by
    intro t
    cases t with
    | nil => rfl
    | cons u t =>
      simp only [Pattern.opt, Pattern.rests, strip, lower_mark (Or.inl rfl), lower_mark (Or.inr rfl), Bool.or_eq_true,
        beq_iff_eq]
      by_cases h1 : u = unit '_'
      · subst h1
        rfl
      · by_cases h2 : u = unit '-'
        · subst h2
          rfl
        · simp [h1, h2]
  have hbind : ∀ a b t : Units, (strip (a ++ b) t).toList =
      (strip a t).toList.flatMap fun r => (strip b r).toList := by
    intro a b t
    rw [strip_append]
    cases strip a t <;> simp
  simp only [joined, Pattern.chain, Pattern.rests, rests_letters, hmark, keyRests_cons, keyRests_nil, List.append_nil]
  rw [hbind, hbind, hbind]
  cases strip (units left) x with
  | none => rfl
  | some t =>
    simp only [Option.toList_some, List.flatMap_cons, List.flatMap_nil, List.append_nil, List.flatMap_append]
    have hcons : ∀ c : UInt16, (strip (c :: units right) t).toList =
        (strip [c] t).toList.flatMap fun r => (strip (units right) r).toList := fun c => hbind [c] (units right) t
    have hright : (letters (units right)).rests = fun r => (strip (units right) r).toList := funext (rests_letters _)
    rw [hcons, hcons, List.append_assoc, hright]

theorem rests_secretKey (x : Units) : secretKey.rests x = keyRests shapedKeys x := by
  have hkeys : shapedKeys = [units "token", units "secret", units "password", units "api" ++ unit '_' :: units "key",
      units "api" ++ unit '-' :: units "key", units "api" ++ units "key", units "authorization"] := rfl
  rw [hkeys]
  simp only [secretKey, Pattern.anyOf, Pattern.rests, rests_letters, rests_joined, keyRests_cons, keyRests_nil,
    List.append_nil, List.append_assoc]

/-! ## What comes after a key -/

def afterSpaces (s : Units) : Units := s.dropWhile Units.isSpace

/-- The rest after a text without spaces. -/
def visibleRest : Units → Option Units
  | [] => none
  | u :: t => if Units.isSpace u then none else some (t.dropWhile fun v => !Units.isSpace v)

def isDelimiter (u : UInt16) : Bool := u == unit ':' || u == unit '='

/-- `\s*(?::|=|\s)\s*\S+`. -/
def credentialRest (s : Units) : Option Units :=
  match afterSpaces s with
  | [] => none
  | c :: r =>
    if isDelimiter c = true ∧ afterSpaces r ≠ [] then visibleRest (afterSpaces r)
    else if s = c :: r then none
    else visibleRest (c :: r)

/-- `\s+\S+`. -/
def bearerRest : Units → Option Units
  | [] => none
  | u :: t => if Units.isSpace u then visibleRest (afterSpaces t) else none

/-- `[\w-]+`. -/
def skRest : Units → Option Units
  | [] => none
  | u :: t => if isWordOrHyphen u then some (t.dropWhile isWordOrHyphen) else none

/-- The rest of a quoted text at its end: `(?:\\.|[^"\\])*`. -/
def quotedBody (quote : UInt16) : Units → Units
  | [] => []
  | u :: t =>
    if u = quote then u :: t
    else if u = unit '\\' then
      match t with
      | [] => [u]
      | v :: r => if isDot v then quotedBody quote r else u :: v :: r
    else quotedBody quote t

/-- Without the quote at its start, if it has one. -/
def afterQuote (quote : UInt16) : Units → Units
  | [] => []
  | u :: r => if u = quote then r else u :: r

/-- The rest after a quoted text. -/
def quotedRest (quote : UInt16) (s : Units) : Units := afterQuote quote (quotedBody quote s)

/-- The rest after a value. -/
def valueRest : Units → Option Units
  | [] => none
  | u :: t => if isQuote u then some (quotedRest u t) else visibleRest (u :: t)

/-- The value after a delimiter. -/
def delimitedValue : Units → Option Units
  | [] => none
  | c :: r => if isDelimiter c then some (afterSpaces r) else none

/-- `["']?\s*`, at the start of a text. -/
def beforeDelimiter (s : Units) : Units := afterSpaces (if s.head?.any isQuote then s.drop 1 else s)

/-- The value of a reasoning key. -/
def reasoningValue (s : Units) : Option Units := delimitedValue (beforeDelimiter s)

/-- `["']?\s*(?::|=)\s*(?:"(?:\\.|[^"\\])*"?|'(?:\\.|[^'\\])*'?|\S+)`. -/
def reasoningRest (s : Units) : Option Units := (reasoningValue s).bind valueRest

theorem first_visible (s : Units) : visible.first s = visibleRest s := by
  cases s with
  | nil => rfl
  | cons u t =>
    rw [visible, Pattern.first_plus, visibleRest]
    cases Units.isSpace u <;> rfl

/-- Spaces, before what does not begin with one. -/
theorem first_spaces {a : Pattern} (h : ∀ u t, Units.isSpace u = true → a.first (u :: t) = none) (s : Units) :
    (Pattern.seq spaces a).first s = a.first (afterSpaces s) := by
  rw [Pattern.first_seq, spaces]
  exact Pattern.findSome_star h

theorem visibleRest_space {u : UInt16} {t : Units} (h : Units.isSpace u = true) : visibleRest (u :: t) = none := by
  rw [visibleRest, if_pos h]

theorem first_value (s : Units) : (Pattern.seq spaces visible).first s = visibleRest (afterSpaces s) := by
  rw [first_spaces (fun u t hu => by rw [first_visible, visibleRest_space hu]), first_visible]

theorem head_afterSpaces {s r : Units} {c : UInt16} (h : afterSpaces s = c :: r) : Units.isSpace c = false := by
  have hhead := List.head?_dropWhile_not Units.isSpace s
  rw [afterSpaces] at h
  rw [h] at hhead
  exact hhead

theorem isSome_visibleRest {c : UInt16} {r : Units} (h : Units.isSpace c = false) : (visibleRest (c :: r)).isSome := by
  rw [visibleRest, if_neg (by simp [h])]
  rfl

/-- **After a credential key**: the engine goes back to a space where a delimiter has no value. -/
theorem first_credential (s : Units) : (Pattern.chain [spaces,
    .unit (fun u => u == unit ':' || u == unit '=' || Units.isSpace u), spaces, visible]).first s =
      credentialRest s := by
  show (Pattern.seq spaces (.seq (.unit _) (.seq spaces visible))).first s = _
  have hsep : ∀ u t, (Pattern.seq (.unit fun u => u == unit ':' || u == unit '=' || Units.isSpace u)
      (.seq spaces visible)).first (u :: t) =
      if isDelimiter u = true ∨ Units.isSpace u = true then visibleRest (afterSpaces t) else none := by
    intro u t
    rw [Pattern.first_seq]
    simp only [Pattern.rests, isDelimiter, Bool.or_eq_true]
    split_ifs
    · rw [List.findSome?_singleton, first_value]
    · rfl
  rw [Pattern.first_seq, show spaces.rests = (Pattern.star (.unit Units.isSpace)).rests from rfl]
  induction s with
  | nil => rfl
  | cons u t ih =>
    rw [Pattern.rests_star_cons]
    by_cases hu : Units.isSpace u = true
    · rw [if_pos hu, List.findSome?_append, ih, List.findSome?_singleton, hsep, if_pos (Or.inr hu)]
      have hsame : afterSpaces (u :: t) = afterSpaces t := List.dropWhile_cons_of_pos hu
      unfold credentialRest
      rw [hsame]
      cases hs : afterSpaces t with
      | nil => rfl
      | cons c r =>
        have hc := head_afterSpaces hs
        have hne : u :: t ≠ c :: r := by
          rintro he
          rw [(List.cons.inj he).1, hc] at hu
          cases hu
        obtain ⟨v, hv⟩ := Option.isSome_iff_exists.1 (@isSome_visibleRest c r hc)
        dsimp only
        rw [if_neg hne]
        split_ifs with hd
        · cases hr : afterSpaces r with
          | nil => exact absurd hr hd.2
          | cons c' r' =>
            obtain ⟨v', hv'⟩ := Option.isSome_iff_exists.1 (@isSome_visibleRest c' r' (head_afterSpaces hr))
            rw [hv', Option.some_or]
        · exact Option.none_or
        · rw [hv, Option.some_or]
    · rw [if_neg hu, List.findSome?_singleton, hsep]
      have hself : afterSpaces (u :: t) = u :: t := List.dropWhile_cons_of_neg hu
      unfold credentialRest
      rw [hself]
      dsimp only
      rw [if_pos rfl]
      by_cases hd : isDelimiter u = true
      · rw [if_pos (Or.inl hd)]
        by_cases hr : afterSpaces t = []
        · rw [if_neg (by simp [hr]), hr, visibleRest]
        · rw [if_pos ⟨hd, hr⟩]
      · rw [if_neg (by simp [hd, hu]), if_neg (by simp [hd])]

theorem first_bearer (s : Units) : (Pattern.chain [.plus (.unit Units.isSpace), visible]).first s = bearerRest s := by
  show (Pattern.seq (.plus (.unit Units.isSpace)) visible).first s = _
  cases s with
  | nil => rfl
  | cons u t =>
    rw [Pattern.first_seq, bearerRest, Pattern.rests_plus]
    split_ifs with hu
    · exact (Pattern.first_seq spaces visible t).symm.trans (first_value t)
    · rfl

theorem first_sk (s : Units) : (Pattern.plus (.unit isWordOrHyphen)).first s = skRest s := by
  cases s with
  | nil => rfl
  | cons u t => rw [Pattern.first_plus, skRest]

/-- A character of a quoted text. -/
def quotedUnit (quote : UInt16) : Pattern :=
  .alt (.seq (.unit (· == unit '\\')) (.unit isDot)) (.unit fun u => u != quote && u != unit '\\')

/-- The rests after a character of a quoted text. -/
def afterUnit (quote : UInt16) : Units → List Units
  | [] => []
  | u :: t =>
    if u = quote then []
    else if u = unit '\\' then
      match t with
      | [] => []
      | v :: r => if isDot v then [r] else []
    else [t]

theorem rests_quotedUnit {quote : UInt16} (hq : quote ≠ unit '\\') (s : Units) :
    (quotedUnit quote).rests s = afterUnit quote s := by
  cases s with
  | nil => rfl
  | cons u t =>
    simp only [quotedUnit, Pattern.rests, afterUnit, beq_iff_eq]
    by_cases h1 : u = quote
    · subst h1
      simp [hq]
    · by_cases h2 : u = unit '\\'
      · subst h2
        cases t with
        | nil => simp [h1]
        | cons v r => by_cases hv : isDot v = true <;> simp [h1, hv]
      · simp [h1, h2]

/-- **A quoted text** is read to its first quote that is not escaped. -/
theorem first_body {quote : UInt16} (hq : quote ≠ unit '\\') (s : Units) :
    (Pattern.star (quotedUnit quote)).first s = some (quotedBody quote s) := by
  have hstop : ∀ (s : Units) (fuel : ℕ), afterUnit quote s = [] →
      (Pattern.iterations (quotedUnit quote).rests fuel s).head? = some s := by
    intro s fuel hs
    cases fuel with
    | zero => rfl
    | succ fuel => rw [Pattern.iterations, rests_quotedUnit hq, hs, List.flatMap_nil, List.nil_append, List.head?_cons]
  have hstep : ∀ (s t b : Units) (fuel : ℕ), afterUnit quote s = [t] → t.length < s.length →
      (Pattern.iterations (quotedUnit quote).rests fuel t).head? = some b →
      (Pattern.iterations (quotedUnit quote).rests (fuel + 1) s).head? = some b := by
    intro s t b fuel hs hlt ht
    rw [Pattern.iterations, rests_quotedUnit hq, hs, List.flatMap_singleton, if_pos hlt, List.head?_append, ht,
      Option.some_or]
  have hfuel : ∀ fuel, s.length ≤ fuel →
      (Pattern.iterations (quotedUnit quote).rests fuel s).head? = some (quotedBody quote s) := by
    fun_induction quotedBody quote s with
    | case1 => exact fun fuel _ => hstop _ fuel rfl
    | case2 t => exact fun fuel _ => hstop _ fuel (by simp [afterUnit])
    | case3 hne => exact fun fuel _ => hstop _ fuel (by simp [afterUnit, hne])
    | case4 v r hv hne ih =>
      intro fuel hlen
      cases fuel with
      | zero => simp at hlen
      | succ fuel =>
        simp only [List.length_cons] at hlen
        exact hstep _ r _ fuel (by simp [afterUnit, hne, hv]) (by simp) (ih fuel (by omega))
    | case5 v r hv hne => exact fun fuel _ => hstop _ fuel (by simp [afterUnit, hne, hv])
    | case6 u t hne hb ih =>
      intro fuel hlen
      cases fuel with
      | zero => simp at hlen
      | succ fuel =>
        simp only [List.length_cons] at hlen
        exact hstep _ t _ fuel (by simp [afterUnit, hne, hb]) (by simp) (ih fuel (by omega))
  exact hfuel _ le_rfl

theorem first_quoted {quote : UInt16} (hq : quote ≠ unit '\\') (t : Units) :
    (quoted quote).first (quote :: t) = some (quotedRest quote t) := by
  have hopt : ∀ s : Units, (Pattern.opt (.unit (· == quote))).first s = some (afterQuote quote s) := by
    intro s
    rw [Pattern.first_opt]
    cases s with
    | nil => rfl
    | cons u r =>
      simp only [Pattern.first_unit, afterQuote, beq_iff_eq]
      split_ifs <;> rfl
  have hopen : (Pattern.unit (· == quote)).first (quote :: t) = some t := by simp [Pattern.first_unit]
  exact Pattern.first_seq_of_some hopen (Pattern.first_seq_of_some (first_body hq t) (hopt _))

theorem first_quoted_none {quote u : UInt16} (h : u ≠ quote) (t : Units) : (quoted quote).first (u :: t) = none := by
  show (Pattern.seq (.unit (· == quote)) _).first (u :: t) = none
  rw [Pattern.first_seq]
  simp [Pattern.rests, h]

theorem quote_visible {u : UInt16} (h : isQuote u = true) : Units.isSpace u = false ∧ isDelimiter u = false := by
  simp only [isQuote, Bool.or_eq_true, beq_iff_eq] at h
  rcases h with rfl | rfl <;> decide

theorem first_anyValue (s : Units) :
    (Pattern.anyOf [quoted (unit '"'), quoted (unit '\''), visible]).first s = valueRest s := by
  show (Pattern.alt (quoted (unit '"')) (.alt (quoted (unit '\'')) visible)).first s = _
  cases s with
  | nil => rfl
  | cons u t =>
    rw [Pattern.first_alt, Pattern.first_alt, first_visible, valueRest]
    by_cases h1 : u = unit '"'
    · subst h1
      rw [first_quoted (by decide), if_pos (by decide), Option.some_or]
    · by_cases h2 : u = unit '\''
      · subst h2
        rw [first_quoted_none h1, first_quoted (by decide), if_pos (by decide), Option.none_or, Option.some_or]
      · rw [first_quoted_none h1, first_quoted_none h2, if_neg (by simp [isQuote, h1, h2]), Option.none_or,
          Option.none_or]

theorem valueRest_space {u : UInt16} {t : Units} (h : Units.isSpace u = true) : valueRest (u :: t) = none := by
  have hq : ¬ isQuote u = true := by
    intro hq
    rw [(quote_visible hq).1] at h
    cases h
  rw [valueRest, if_neg hq, visibleRest_space h]

/-- The value of a reasoning rule. -/
def anyValue : Pattern := .anyOf [quoted (unit '"'), quoted (unit '\''), visible]

theorem first_delimited (s : Units) :
    (Pattern.seq (.unit isDelimiter) (.seq spaces anyValue)).first s = (delimitedValue s).bind valueRest := by
  cases s with
  | nil => rfl
  | cons c r =>
    rw [Pattern.first_seq, delimitedValue, Pattern.rests]
    split_ifs
    · rw [List.findSome?_singleton]
      exact (first_spaces (fun u t hu => (first_anyValue _).trans (valueRest_space hu)) r).trans (first_anyValue _)
    · rfl

theorem delimiter_not_space {c : UInt16} (h : isDelimiter c = true) : Units.isSpace c = false := by
  simp only [isDelimiter, Bool.or_eq_true, beq_iff_eq] at h
  rcases h with rfl | rfl <;> decide

theorem first_afterQuote (s : Units) : (Pattern.seq spaces (.seq (.unit isDelimiter) (.seq spaces anyValue))).first s =
    (delimitedValue (afterSpaces s)).bind valueRest := by
  rw [first_spaces (fun u t hu => ?_), first_delimited]
  have hd : isDelimiter u ≠ true := by
    intro hd
    rw [delimiter_not_space hd] at hu
    cases hu
  rw [first_delimited, delimitedValue, if_neg hd]
  rfl

/-- **After a reasoning key.** -/
theorem first_reasoning (s : Units) : (Pattern.chain [.opt (.unit isQuote), spaces, .unit isDelimiter, spaces,
    anyValue]).first s = reasoningRest s := by
  show (Pattern.seq (.opt (.unit isQuote)) (.seq spaces (.seq (.unit isDelimiter) (.seq spaces anyValue)))).first s = _
  rw [Pattern.first_seq, reasoningRest, reasoningValue, beforeDelimiter]
  cases s with
  | nil => exact (List.findSome?_singleton ..).trans (first_afterQuote [])
  | cons u t =>
    rw [Pattern.opt, Pattern.rests, Pattern.rests, Pattern.rests, List.head?_cons, Option.any_some, List.drop_one,
      List.tail_cons]
    split_ifs with hu
    · -- a quote that is not read is neither a space nor a delimiter
      have hself : afterSpaces (u :: t) = u :: t := List.dropWhile_cons_of_neg (by simp [quote_visible hu])
      have hnone : (delimitedValue (u :: t)).bind valueRest = none := by
        rw [delimitedValue, if_neg (by simp [quote_visible hu])]
        rfl
      rw [List.findSome?_append, List.findSome?_singleton, List.findSome?_singleton, first_afterQuote, first_afterQuote,
        hself, hnone, Option.or_none]
    · rw [List.nil_append, List.findSome?_singleton, first_afterQuote]

/-! ## The rules -/

/-- What a text rule with the keys reads. -/
structure Form (pattern : Pattern) (keys : List Units) (after : Units → Option Units) : Prop where
  plain : pattern.plain = true
  first : ∀ x, pattern.first x = (keyRests keys x).findSome? after

theorem form_seq {name body : Pattern} {keys : List Units} {after : Units → Option Units} (hn : name.plain = true)
    (hb : body.plain = true) (hkeys : ∀ x, name.rests x = keyRests keys x) (hafter : ∀ s, body.first s = after s) :
    Form (.seq name body) keys after where
  plain := by rw [Pattern.plain, hn, hb]; rfl
  first x := by
    rw [Pattern.first_seq, hkeys]
    exact congrArg (fun f => (keyRests keys x).findSome? f) (funext hafter)

theorem credential_form : Form credentialPattern shapedKeys credentialRest :=
  form_seq rfl rfl rests_secretKey first_credential

theorem bearer_form : Form bearerPattern [units "bearer"] bearerRest := by
  refine form_seq rfl rfl (fun x => ?_) first_bearer
  rw [rests_letters, keyRests_cons, keyRests_nil, List.append_nil]

theorem sk_form : Form skPattern [units "sk-"] skRest := by
  refine form_seq rfl rfl (fun x => ?_) first_sk
  rw [rests_letters, keyRests_cons, keyRests_nil, List.append_nil]

theorem reasoning_form {name : Pattern} {keys : List Units} (hn : name.plain = true)
    (hkeys : ∀ x, name.rests x = keyRests keys x) : Form (reasoningPattern name) keys reasoningRest :=
  form_seq hn rfl hkeys first_reasoning

theorem signature_form : Form (reasoningPattern reasoningKey)
    (["thinking_signature", "thinking-signature", "thinkingsignature"].map units) reasoningRest :=
  reasoning_form rfl (rests_joined "thinking" "signature")

theorem content_form : Form (reasoningPattern encryptedKey)
    (["encrypted_content", "encrypted-content", "encryptedcontent"].map units) reasoningRest :=
  reasoning_form rfl (rests_joined "encrypted" "content")

end PaPlatform.Diagnostics
