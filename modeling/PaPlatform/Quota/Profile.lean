/-
  The reader of credential profiles (`axi-quota.ts`).

  Keys that stand twice and deep nesting are looked for in the tokens of the text,
  before the text is parsed.
-/
import PaPlatform.Lib.JsonNumbers
import PaPlatform.Lib.JsonSame
import PaPlatform.Lib.Utf8Strict

namespace PaPlatform.Quota

open Js Js.Units

/-! ## The scan -/

/-- `.` of a regular expression does not match it. -/
def isLineEnd (u : UInt16) : Bool := u == 0x0a || u == 0x0d || u == 0x2028 || u == 0x2029

/-- The length of `(?:\\.|[^"\\])*"` at the start of a text. -/
def stringRest : Units → Option ℕ
  | [] => none
  | u :: rest =>
    if u = 0x22 then some 1
    else if u = 0x5c then
      match rest with
      | [] => none
      | e :: rest => if isLineEnd e then none else (stringRest rest).map (· + 2)
    else (stringRest rest).map (· + 1)

/-- `/^\s*:/`. -/
def colonNext (s : Units) : Bool := (s.dropWhile Units.isSpace).head? == some 0x3a

/-- The open brackets, innermost first, with the keys of each object. -/
abbrev Brackets := List (Option (List Units))

/-- A key of the innermost object, which must not have it. -/
def addKey : Brackets → Option Value → Option Brackets
  | some keys :: stack, some (.str key) =>
    if keys.contains key then none else some (some (key :: keys) :: stack)
  | _, _ => none

section

variable (double : Units → Number)

/-- The loop over the tokens, after `skip` units. -/
def scan : Brackets → ℕ → Units → Option Unit
  | _, _, [] => some ()
  | stack, skip + 1, _ :: rest => scan stack skip rest
  | stack, 0, u :: rest =>
    if u = 0x7b ∨ u = 0x5b then
      if 32 ≤ stack.length then none else scan ((if u = 0x7b then some [] else none) :: stack) 0 rest
    else if u = 0x7d ∨ u = 0x5d then scan stack.tail 0 rest
    else if u = 0x22 then
      match stringRest rest with
      | none => scan stack 0 rest
      | some n =>
        if colonNext (rest.drop n) then
          (addKey stack (Value.parse double (u :: rest.take n))).bind fun stack => scan stack n rest
        else scan stack n rest
    else scan stack 0 rest

/-- It is `none` where the code throws. -/
def profileJson (bytes : Bytes) : Option Value := do
  let text ← decodeFatal bytes
  scan double [] 0 text
  match ← Value.parse double text with
  | .obj fields => return .obj fields
  | _ => none

end

/-! ## What is accepted -/

mutual

/-- The objects and arrays inside each other. -/
def levels : Value → ℕ
  | .arr items => levelsItems items + 1
  | .obj fields => levelsFields fields + 1
  | _ => 0

def levelsItems : List Value → ℕ
  | [] => 0
  | x :: xs => max (levels x) (levelsItems xs)

def levelsFields : List (Units × Value) → ℕ
  | [] => 0
  | (_, x) :: fs => max (levels x) (levelsFields fs)

end

/-- A value that is accepted inside `n` objects and arrays. -/
def Allowed (n : ℕ) (x : Value) : Prop := x.Distinct ∧ n + levels x ≤ 32

def AllowedItems (n : ℕ) (xs : List Value) : Prop :=
  Value.KeyedItems (fun _ => True) xs ∧ n + levelsItems xs ≤ 32

def AllowedFields (n : ℕ) (fs : List (Units × Value)) : Prop :=
  Value.KeyedFields (fun _ => True) fs ∧ n + levelsFields fs ≤ 32

/-- Members with distinct keys, none of which is one of `keys`. -/
def Fresh (keys : List Units) (fs : List (Units × Value)) : Prop :=
  (fs.map (·.1)).Nodup ∧ ∀ k ∈ fs.map (·.1), k ∉ keys

variable {double : Units → Number} {stack stack' stack'' : Brackets} {s t r rest : Units} {u : UInt16} {n : ℕ} {P Q : Prop}

theorem allowed_arr {xs : List Value} : Allowed n (.arr xs) ↔ AllowedItems (n + 1) xs := by
  show _ ∧ n + (levelsItems xs + 1) ≤ 32 ↔ _ ∧ n + 1 + levelsItems xs ≤ 32
  rw [add_comm (levelsItems xs), ← add_assoc]
  rfl

theorem allowed_obj {fs : List (Units × Value)} :
    Allowed n (.obj fs) ↔ Fresh [] fs ∧ AllowedFields (n + 1) fs := by
  show (_ ∧ _) ∧ n + (levelsFields fs + 1) ≤ 32 ↔ (_ ∧ _) ∧ _ ∧ n + 1 + levelsFields fs ≤ 32
  rw [add_comm (levelsFields fs), ← add_assoc]
  simp only [List.not_mem_nil, not_false_eq_true, implies_true, and_true, and_assoc]

theorem allowedItems_nil (hn : n ≤ 32) : AllowedItems n [] := ⟨trivial, hn⟩

theorem allowedItems_cons {x : Value} {xs : List Value} :
    AllowedItems n (x :: xs) ↔ Allowed n x ∧ AllowedItems n xs := by
  show (_ ∧ _) ∧ n + max (levels x) (levelsItems xs) ≤ 32 ↔ (_ ∧ _) ∧ _ ∧ _
  constructor
  · rintro ⟨⟨hx, hxs⟩, hn⟩
    exact ⟨⟨hx, by omega⟩, hxs, by omega⟩
  · rintro ⟨⟨hx, hnx⟩, hxs, hnxs⟩
    exact ⟨⟨hx, hxs⟩, by omega⟩

theorem allowedFields_nil (hn : n ≤ 32) : AllowedFields n [] := ⟨trivial, hn⟩

theorem allowedFields_cons {k : Units} {x : Value} {fs : List (Units × Value)} :
    AllowedFields n ((k, x) :: fs) ↔ Allowed n x ∧ AllowedFields n fs := by
  show (_ ∧ _ ∧ _) ∧ n + max (levels x) (levelsFields fs) ≤ 32 ↔ (_ ∧ _) ∧ _ ∧ _
  constructor
  · rintro ⟨⟨-, hx, hfs⟩, hn⟩
    exact ⟨⟨hx, by omega⟩, hfs, by omega⟩
  · rintro ⟨⟨hx, hnx⟩, hfs, hnfs⟩
    exact ⟨⟨trivial, hx, hfs⟩, by omega⟩

theorem fresh_nil {keys : List Units} : Fresh keys [] := ⟨List.nodup_nil, by simp⟩

theorem fresh_cons {keys : List Units} {k : Units} {x : Value} {fs : List (Units × Value)} :
    Fresh keys ((k, x) :: fs) ↔ k ∉ keys ∧ Fresh (k :: keys) fs := by
  simp only [Fresh, List.map_cons, List.nodup_cons, List.mem_cons, forall_eq_or_imp, not_or]
  constructor
  · rintro ⟨⟨hk, hn⟩, hr, hrs⟩
    refine ⟨hr, hn, fun l hl => ⟨?_, hrs l hl⟩⟩
    rintro rfl
    exact hk hl
  · rintro ⟨hr, hn, hrs⟩
    exact ⟨⟨fun hk => (hrs k hk).1 rfl, hn⟩, hr, fun l hl => (hrs l hl).2⟩

/-! ## Units that the scan passes over -/

/-- Neither a bracket nor a quote. -/
def Dull (u : UInt16) : Prop := u ≠ 0x7b ∧ u ≠ 0x5b ∧ u ≠ 0x7d ∧ u ≠ 0x5d ∧ u ≠ 0x22

instance : DecidablePred Dull := fun u => inferInstanceAs (Decidable (u ≠ 0x7b ∧ _))

/-- The text begins with dull units, and `t` is the rest. -/
def Dulls (s t : Units) : Prop := ∃ p, s = p ++ t ∧ ∀ u ∈ p, Dull u

theorem Dulls.refl (s : Units) : Dulls s s := ⟨[], rfl, by simp⟩

theorem Dulls.trans (h : Dulls s t) (h' : Dulls t r) : Dulls s r := by
  obtain ⟨p, rfl, hp⟩ := h
  obtain ⟨q, rfl, hq⟩ := h'
  exact ⟨p ++ q, by rw [List.append_assoc], List.forall_mem_append.2 ⟨hp, hq⟩⟩

theorem Dulls.cons (hu : Dull u) (h : Dulls s t) : Dulls (u :: s) t := by
  obtain ⟨p, rfl, hp⟩ := h
  exact ⟨u :: p, rfl, List.forall_mem_cons.2 ⟨hu, hp⟩⟩

theorem dulls_dropWhile {p : UInt16 → Bool} (hp : ∀ u, p u = true → Dull u) (s : Units) : Dulls s (s.dropWhile p) :=
  ⟨s.takeWhile p, List.takeWhile_append_dropWhile.symm, fun u hu => hp u (List.mem_takeWhile_imp hu)⟩

theorem dull_space (h : Value.isJsonSpace u = true) : Dull u := by
  simp only [Value.isJsonSpace, Bool.or_eq_true, beq_iff_eq] at h
  rcases h with ((rfl | rfl) | rfl) | rfl <;> decide

theorem dull_digit (h : Units.isDigit u = true) : Dull u := by
  refine ⟨?_, ?_, ?_, ?_, ?_⟩ <;>
  · rintro rfl
    exact absurd h (by decide)

theorem dulls_space (s : Units) : Dulls s (Value.skipSpace s) := dulls_dropWhile (fun _ => dull_space) s

theorem dulls_digits {d : Units} (h : Value.parseDigits s = some (d, t)) : Dulls s t := by
  obtain ⟨-, hd, rfl, -⟩ := Value.parseDigits_eq_some h
  exact ⟨d, rfl, fun u hu => dull_digit (hd u hu)⟩

theorem dulls_integral {d : Units} (h : Value.parseIntegral s = some (d, t)) : Dulls s t := by
  unfold Value.parseIntegral at h
  split at h
  · cases h
    exact .cons (by decide) (.refl _)
  · exact dulls_digits h

theorem dulls_fraction {d : Units} (h : Value.parseFraction s = some (d, t)) : Dulls s t := by
  unfold Value.parseFraction at h
  split at h
  · obtain ⟨p, hp, h⟩ := Option.map_eq_some_iff.1 h
    cases h
    exact .cons (by decide) (dulls_digits hp)
  · cases h
    exact .refl _

theorem dulls_sign (s : Units) : Dulls s (Value.parseSign s).2 := by
  unfold Value.parseSign
  split
  · exact .cons (by decide) (.refl _)
  · exact .cons (by decide) (.refl _)
  · exact .refl _

theorem dulls_exponent {d : Units} (h : Value.parseExponent s = some (d, t)) : Dulls s t := by
  unfold Value.parseExponent at h
  split at h
  · cases h
    exact .refl _
  · next u rest =>
    split_ifs at h with hu
    · obtain ⟨p, hp, h⟩ := Option.map_eq_some_iff.1 h
      cases h
      refine .cons ?_ ((dulls_sign rest).trans (dulls_digits hp))
      rcases hu with rfl | rfl <;> decide
    · cases h
      exact .refl _

theorem dulls_unsigned {negative : Bool} {m : Number} (h : Value.parseUnsigned double negative s = some (m, t)) :
    Dulls s t := by
  simp only [Value.parseUnsigned_eq, Option.bind_eq_some_iff, Option.map_eq_some_iff, Prod.exists] at h
  obtain ⟨_, _, hi, _, _, hf, _, _, he, h⟩ := h
  cases h
  exact ((dulls_integral hi).trans (dulls_fraction hf)).trans (dulls_exponent he)

theorem dulls_number {m : Number} (h : Value.parseNumber double s = some (m, t)) : Dulls s t := by
  rw [Value.parseNumber_eq] at h
  split_ifs at h with hs
  · cases s with
    | nil => cases hs
    | cons u s =>
      cases hs
      exact .cons (by decide) (dulls_unsigned h)
  · exact dulls_unsigned h

theorem dulls_word {w : Units} (hw : ∀ u ∈ w, Dull u) (h : w.isPrefixOf s = true) : Dulls s (s.drop w.length) := by
  obtain ⟨t, rfl⟩ := List.isPrefixOf_iff_prefix.1 h
  exact ⟨w, by rw [List.drop_left], hw⟩

/-- A value without brackets or quotes. -/
theorem dulls_token {x : Value} (h : Value.readToken double s = some (x, t)) :
    Dulls s t ∧ x.Distinct ∧ levels x = 0 := by
  unfold Value.readToken at h
  split_ifs at h with h1 h2 h3
  · cases h
    exact ⟨dulls_word (by simp [Value.null_units, Dull]) h1, trivial, rfl⟩
  · cases h
    exact ⟨dulls_word (by simp [Value.true_units, Dull]) h2, trivial, rfl⟩
  · cases h
    exact ⟨dulls_word (by simp [Value.false_units, Dull]) h3, trivial, rfl⟩
  · obtain ⟨p, hp, h⟩ := Option.map_eq_some_iff.1 h
    cases h
    exact ⟨dulls_number hp, trivial, rfl⟩

theorem scan_dull (h : Dull u) : scan double stack 0 (u :: s) = scan double stack 0 s := by
  obtain ⟨h1, h2, h3, h4, h5⟩ := h
  rw [scan, if_neg (by simp [h1, h2]), if_neg (by simp [h3, h4]), if_neg h5]

theorem scan_dulls (h : Dulls s t) : scan double stack 0 s = scan double stack 0 t := by
  obtain ⟨p, rfl, hp⟩ := h
  induction p with
  | nil => rfl
  | cons u p ih =>
    obtain ⟨hu, hp⟩ := List.forall_mem_cons.1 hp
    rw [List.cons_append, scan_dull hu, ih hp]

theorem scan_skip (p : Units) : scan double stack p.length (p ++ t) = scan double stack 0 t := by
  induction p with
  | nil => rfl
  | cons u p ih => exact ih

/-! ## Strings -/

theorem isLineEnd_unescape {v : UInt16} (h : Value.unescape u = some v) : isLineEnd u = false := by
  rw [Bool.eq_false_iff]
  intro hu
  simp only [isLineEnd, Bool.or_eq_true, beq_iff_eq] at hu
  rcases hu with ((rfl | rfl) | rfl) | rfl <;> cases h

/-- A digit of base 16 neither ends a string nor escapes. -/
theorem hexValue_ne {v : ℕ} (h : Value.hexValue u = some v) : u ≠ 0x22 ∧ u ≠ 0x5c := by
  constructor <;>
  · rintro rfl
    cases h

theorem stringRest_plain (h : u ≠ 0x22) (h' : u ≠ 0x5c) : stringRest (u :: s) = (stringRest s).map (· + 1) := by
  rw [stringRest.eq_def]
  dsimp only
  rw [if_neg h, if_neg h']

theorem stringRest_escape (h : isLineEnd u = false) : stringRest (0x5c :: u :: s) = (stringRest s).map (· + 2) := by
  rw [stringRest.eq_def]
  dsimp only
  rw [if_neg (by decide), if_pos rfl, if_neg (by simp [h])]

/-- **A string of the grammar is a token of the scan**, and is parsed by itself. -/
theorem parseString_token {k : Units} (h : Value.parseString s = some (k, t)) :
    ∃ p, s = p ++ t ∧ stringRest s = some p.length ∧ Value.parseString p = some (k, []) := by
  fun_induction Value.parseString s generalizing k with
  | case1 => cases h
  | case2 rest =>
    cases h
    have hquote : stringRest (0x22 :: t) = some 1 := by rw [stringRest.eq_def]; exact if_pos rfl
    exact ⟨[0x22], rfl, hquote, rfl⟩
  | case3 => cases h
  | case4 a b c d rest hq ih =>
    simp only [Option.bind_eq_some_iff, Option.map_eq_some_iff, Prod.mk.injEq, Prod.exists] at h
    obtain ⟨v, hv, k', _, hp, rfl, rfl⟩ := h
    obtain ⟨p, rfl, hrest, hparse⟩ := ih hp
    have hhex := hv
    simp only [Value.hexUnits, Option.bind_eq_bind, Option.bind_eq_some_iff] at hhex
    obtain ⟨_, ha, _, hb, _, hc, _, hd, -⟩ := hhex
    refine ⟨0x5c :: 0x75 :: a :: b :: c :: d :: p, rfl, ?_, ?_⟩
    · rw [stringRest_escape (by decide), stringRest_plain (hexValue_ne ha).1 (hexValue_ne ha).2,
        stringRest_plain (hexValue_ne hb).1 (hexValue_ne hb).2, stringRest_plain (hexValue_ne hc).1 (hexValue_ne hc).2,
        stringRest_plain (hexValue_ne hd).1 (hexValue_ne hd).2, hrest]
      rfl
    · rw [Value.parseString.eq_def]
      dsimp only
      rw [if_neg (by decide), if_pos rfl, if_pos rfl, hv, Option.bind_some, hparse]
      rfl
  | case5 => cases h
  | case6 e rest he hq ih =>
    simp only [Option.bind_eq_some_iff, Option.map_eq_some_iff, Prod.mk.injEq, Prod.exists] at h
    obtain ⟨v, hv, k', _, hp, rfl, rfl⟩ := h
    obtain ⟨p, rfl, hrest, hparse⟩ := ih hp
    refine ⟨0x5c :: e :: p, rfl, ?_, ?_⟩
    · rw [stringRest_escape (isLineEnd_unescape hv), hrest]
      rfl
    · rw [Value.parseString.eq_def]
      dsimp only
      rw [if_neg (by decide), if_pos rfl, if_neg he, hv, Option.bind_some, hparse]
      rfl
  | case7 => cases h
  | case8 u rest hq hb hc ih =>
    simp only [Option.map_eq_some_iff, Prod.mk.injEq, Prod.exists] at h
    obtain ⟨k', _, hp, rfl, rfl⟩ := h
    obtain ⟨p, rfl, hrest, hparse⟩ := ih hp
    refine ⟨u :: p, rfl, ?_, ?_⟩
    · rw [stringRest_plain hq hb, hrest]
      rfl
    · rw [Value.parseString_plain hq hb hc, hparse]
      rfl

theorem parse_string {k p : Units} (h : Value.parseString p = some (k, [])) :
    Value.parse double (0x22 :: p) = some (.str k) := by
  have hread : Value.readValue double ((0x22 :: p).length + 1) (0x22 :: p) = some (.str k, []) := by
    rw [Value.readValue_string (Value.skipSpace_cons (by decide)), h]
    rfl
  rw [Value.parse_eq, Value.members, hread]
  rfl

/-- What comes after spaces. -/
theorem colonNext_eq (h : Value.skipSpace s = u :: t) (hu : Units.isSpace u = false) : colonNext s = (u == 0x3a) := by
  have hdrop : s.dropWhile Units.isSpace = u :: t := by
    unfold Value.skipSpace at h
    induction s with
    | nil => cases h
    | cons v s ih =>
      by_cases hv : Value.isJsonSpace v = true
      · rw [List.dropWhile_cons_of_pos hv] at h
        have hspace : Units.isSpace v = true := by
          simp only [Value.isJsonSpace, Bool.or_eq_true, beq_iff_eq] at hv
          rcases hv with ((rfl | rfl) | rfl) | rfl <;> decide
        rw [List.dropWhile_cons_of_pos hspace, ih h]
      · rw [List.dropWhile_cons_of_neg hv] at h
        cases h
        exact List.dropWhile_cons_of_neg (by simp [hu])
  rw [colonNext, hdrop, List.head?_cons]
  rfl

theorem colonNext_nil (h : Value.skipSpace s = []) : colonNext s = false := by
  have hall : ∀ u ∈ s, Value.isJsonSpace u = true := List.dropWhile_eq_nil_iff.1 h
  have hdrop : s.dropWhile Units.isSpace = [] := by
    refine List.dropWhile_eq_nil_iff.2 fun u hu => ?_
    have hj := hall u hu
    simp only [Value.isJsonSpace, Bool.or_eq_true, beq_iff_eq] at hj
    rcases hj with ((rfl | rfl) | rfl) | rfl <;> decide
  rw [colonNext, hdrop]
  rfl

theorem colonNext_items {xs : List Value} (h : Value.readItems double n s = some (xs, rest)) : colonNext s = false := by
  cases n with
  | zero => cases h
  | succ n =>
    rw [Value.readItems] at h
    generalize hs : Value.skipSpace s = r at h
    split at h
    · exact colonNext_eq hs (by decide)
    · exact colonNext_eq hs (by decide)
    · cases h

theorem colonNext_fields {fs : List (Units × Value)} (h : Value.readFields double n s = some (fs, rest)) :
    colonNext s = false := by
  cases n with
  | zero => cases h
  | succ n =>
    rw [Value.readFields] at h
    generalize hs : Value.skipSpace s = r at h
    split at h
    · exact colonNext_eq hs (by decide)
    · exact colonNext_eq hs (by decide)
    · cases h

theorem scan_string {k : Units} (h : Value.parseString s = some (k, t)) (ht : colonNext t = false) :
    scan double stack 0 (0x22 :: s) = scan double stack 0 t := by
  obtain ⟨p, rfl, hp, -⟩ := parseString_token h
  rw [scan, if_neg (by decide), if_neg (by decide), if_pos rfl, hp]
  dsimp only
  rw [List.drop_left, ht, if_neg (by simp), scan_skip]

theorem scan_key {k : Units} {keys : List Units} (h : Value.parseString s = some (k, t)) (ht : colonNext t = true) :
    scan double (some keys :: stack) 0 (0x22 :: s) =
      if k ∈ keys then none else scan double (some (k :: keys) :: stack) 0 t := by
  obtain ⟨p, rfl, hp, hparse⟩ := parseString_token h
  rw [scan, if_neg (by decide), if_neg (by decide), if_pos rfl, hp]
  dsimp only
  rw [List.drop_left, ht, if_pos rfl, List.take_left, parse_string hparse, addKey]
  by_cases hk : k ∈ keys
  · rw [if_pos (List.contains_iff_mem.2 hk), if_pos hk]
    rfl
  · rw [if_neg (mt List.contains_iff_mem.1 hk), if_neg hk]
    exact scan_skip p

/-! ## The scan of a value -/

/-- The scan comes to `rest` if the condition holds, and throws if not. -/
def Scans (double : Units → Number) (stack : Brackets) (s : Units) (P : Prop) (stack' : Brackets) (rest : Units) : Prop :=
  (P → scan double stack 0 s = scan double stack' 0 rest) ∧ (¬ P → scan double stack 0 s = none)

theorem Scans.trans (h : Scans double stack s P stack' t) (h' : Scans double stack' t Q stack'' r) :
    Scans double stack s (P ∧ Q) stack'' r := by
  constructor
  · rintro ⟨hp, hq⟩
    rw [h.1 hp, h'.1 hq]
  · intro hn
    by_cases hp : P
    · rw [h.1 hp]
      exact h'.2 fun hq => hn ⟨hp, hq⟩
    · exact h.2 hp

theorem Scans.congr (h : Scans double stack s P stack' t) (hpq : Q ↔ P) : Scans double stack s Q stack' t := by
  rwa [propext hpq]

/-- The scan goes on in the same way. -/
theorem Scans.after (h : Scans double stack' t P stack'' r)
    (hs : scan double stack 0 s = scan double stack' 0 t) : Scans double stack s P stack'' r := by
  unfold Scans
  rwa [hs]

theorem Scans.same (h : scan double stack 0 s = scan double stack' 0 t) (hp : P) : Scans double stack s P stack' t :=
  ⟨fun _ => h, fun hn => absurd hp hn⟩

theorem scan_array (hn : stack.length < 32) : scan double stack 0 (0x5b :: s) = scan double (none :: stack) 0 s := by
  rw [scan, if_pos (by decide), if_neg (by omega), if_neg (by decide)]

theorem scan_object (hn : stack.length < 32) : scan double stack 0 (0x7b :: s) = scan double (some [] :: stack) 0 s := by
  rw [scan, if_pos (by decide), if_neg (by omega), if_pos rfl]

theorem scan_deep (hn : 32 ≤ stack.length) (hu : u = 0x7b ∨ u = 0x5b) : scan double stack 0 (u :: s) = none := by
  rw [scan, if_pos hu, if_pos hn]

theorem Scans.deep {x : Value} (hn : 32 ≤ stack.length) (hu : u = 0x7b ∨ u = 0x5b) (hx : 1 ≤ levels x) :
    Scans double stack (u :: s) (Allowed stack.length x) stack' t := by
  refine ⟨fun ha => ?_, fun _ => scan_deep hn hu⟩
  have hlevels := ha.2
  omega

theorem scan_close (hu : u = 0x7d ∨ u = 0x5d) : scan double stack 0 (u :: s) = scan double stack.tail 0 s := by
  have hopen : ¬ (u = 0x7b ∨ u = 0x5b) := by
    rcases hu with rfl | rfl <;> decide
  rw [scan, if_neg hopen, if_pos hu]

/-- What reading with some fuel says about the scan. -/
structure Reads (double : Units → Number) (fuel : ℕ) : Prop where
  value : ∀ {s x rest stack}, Value.readValue double fuel s = some (x, rest) → colonNext rest = false →
    stack.length ≤ 32 → Scans double stack s (Allowed stack.length x) stack rest
  items : ∀ {s xs rest stack}, Value.readItems double fuel s = some (xs, rest) → stack.length < 32 →
    Scans double (none :: stack) s (AllowedItems (stack.length + 1) xs) stack rest
  field : ∀ {s k x rest stack keys}, Value.readField double fuel s = some (k, x, rest) → colonNext rest = false →
    stack.length < 32 → Scans double (some keys :: stack) s (k ∉ keys ∧ Allowed (stack.length + 1) x)
      (some (k :: keys) :: stack) rest
  fields : ∀ {s fs rest stack keys}, Value.readFields double fuel s = some (fs, rest) → stack.length < 32 →
    Scans double (some keys :: stack) s (Fresh keys fs ∧ AllowedFields (stack.length + 1) fs) stack rest

theorem reads_zero : Reads double 0 where
  value h := by cases h
  items h := by cases h
  field h := by cases h
  fields h := by cases h

theorem Reads.array (ih : Reads double n) {y : Value} {ys : List Value}
    (hy : Value.readValue double n (Value.skipSpace s) = some (y, r))
    (hys : Value.readItems double n r = some (ys, rest)) (hn : stack.length < 32) :
    Scans double stack (0x5b :: s) (Allowed stack.length (.arr (y :: ys))) stack rest := by
  have hvalue : Scans double (none :: stack) (Value.skipSpace s) (Allowed (stack.length + 1) y) (none :: stack) r :=
    ih.value hy (colonNext_items hys) hn
  have hitem : Scans double stack (0x5b :: s) (Allowed (stack.length + 1) y) (none :: stack) r :=
    hvalue.after ((scan_array hn).trans (scan_dulls (dulls_space s)))
  exact (hitem.trans (ih.items hys hn)).congr (allowed_arr.trans allowedItems_cons)

theorem Reads.object (ih : Reads double n) {k : Units} {y : Value} {fs : List (Units × Value)}
    (hf : Value.readField double n (Value.skipSpace s) = some (k, y, r))
    (hfs : Value.readFields double n r = some (fs, rest)) (hn : stack.length < 32) :
    Scans double stack (0x7b :: s) (Allowed stack.length (.obj ((k, y) :: fs))) stack rest := by
  have hfield : Scans double stack (0x7b :: s) (k ∉ [] ∧ Allowed (stack.length + 1) y) (some [k] :: stack) r :=
    (ih.field hf (colonNext_fields hfs) hn).after ((scan_object hn).trans (scan_dulls (dulls_space s)))
  refine (hfield.trans (ih.fields hfs hn)).congr ?_
  rw [allowed_obj, fresh_cons, allowedFields_cons]
  tauto

theorem Reads.value_succ (ih : Reads double n) {x : Value} (h : Value.readValue double (n + 1) s = some (x, rest))
    (hr : colonNext rest = false) (hn : stack.length ≤ 32) :
    Scans double stack s (Allowed stack.length x) stack rest := by
  cases hs : Value.skipSpace s with
  | nil =>
    rw [Value.readValue_nil hs] at h
    cases h
  | cons u t =>
    refine Scans.after ?_ (hs ▸ scan_dulls (dulls_space s) : _ = scan double stack 0 (u :: t))
    by_cases h1 : u = 0x22
    · subst h1
      rw [Value.readValue_string hs] at h
      obtain ⟨⟨k, r⟩, hp, h⟩ := Option.map_eq_some_iff.1 h
      cases h
      exact .same (scan_string hp hr) ⟨trivial, hn⟩
    by_cases h2 : u = 0x5b
    · subst h2
      by_cases he : ∃ r, Value.skipSpace t = 0x5d :: r
      · obtain ⟨r, he⟩ := he
        rw [Value.readValue_empty_array hs he] at h
        cases h
        rcases Nat.lt_or_ge stack.length 32 with hlt | hge
        · refine .same ?_ (allowed_arr.2 (allowedItems_nil hlt))
          rw [scan_array hlt, scan_dulls (dulls_space t), he, scan_close (Or.inr rfl)]
          rfl
        · exact .deep hge (Or.inr rfl) (by simp [levels])
      · rw [Value.readValue_array hs (not_exists.1 he)] at h
        simp only [Option.bind_eq_some_iff, Option.map_eq_some_iff, Prod.exists] at h
        obtain ⟨y, r, hy, ys, r', hys, h⟩ := h
        cases h
        rcases Nat.lt_or_ge stack.length 32 with hlt | hge
        · exact ih.array hy hys hlt
        · exact .deep hge (Or.inr rfl) (by simp [levels])
    by_cases h3 : u = 0x7b
    · subst h3
      by_cases he : ∃ r, Value.skipSpace t = 0x7d :: r
      · obtain ⟨r, he⟩ := he
        rw [Value.readValue_empty_object hs he] at h
        cases h
        rcases Nat.lt_or_ge stack.length 32 with hlt | hge
        · refine .same ?_ (allowed_obj.2 ⟨fresh_nil, allowedFields_nil hlt⟩)
          rw [scan_object hlt, scan_dulls (dulls_space t), he, scan_close (Or.inl rfl)]
          rfl
        · exact .deep hge (Or.inl rfl) (by simp [levels])
      · rw [Value.readValue_object hs (not_exists.1 he)] at h
        simp only [Option.bind_eq_some_iff, Option.map_eq_some_iff, Prod.exists] at h
        obtain ⟨k, y, r, hy, ys, r', hys, h⟩ := h
        cases h
        rcases Nat.lt_or_ge stack.length 32 with hlt | hge
        · exact ih.object hy hys hlt
        · exact .deep hge (Or.inl rfl) (by simp [levels])
    rw [Value.readValue_token hs h1 h2 h3] at h
    obtain ⟨hd, hx, hlevels⟩ := dulls_token h
    exact .same (scan_dulls hd) ⟨hx, by omega⟩

theorem Reads.items_succ (ih : Reads double n) {xs : List Value}
    (h : Value.readItems double (n + 1) s = some (xs, rest)) (hn : stack.length < 32) :
    Scans double (none :: stack) s (AllowedItems (stack.length + 1) xs) stack rest := by
  rw [Value.readItems] at h
  refine Scans.after ?_ (scan_dulls (dulls_space s))
  generalize Value.skipSpace s = r at h ⊢
  split at h
  · cases h
    exact .same (scan_close (Or.inr rfl)) (allowedItems_nil hn)
  · next t =>
    simp only [Option.bind_eq_some_iff, Option.map_eq_some_iff, Prod.exists] at h
    obtain ⟨y, r, hy, ys, r', hys, h⟩ := h
    cases h
    have hvalue : Scans double (none :: stack) t (Allowed (stack.length + 1) y) (none :: stack) r :=
      ih.value hy (colonNext_items hys) hn
    exact ((hvalue.after (scan_dull (by decide))).trans (ih.items hys hn)).congr allowedItems_cons
  · cases h

theorem Reads.field_succ (ih : Reads double n) {k : Units} {x : Value} {keys : List Units}
    (h : Value.readField double (n + 1) s = some (k, x, rest)) (hr : colonNext rest = false) (hn : stack.length < 32) :
    Scans double (some keys :: stack) s (k ∉ keys ∧ Allowed (stack.length + 1) x) (some (k :: keys) :: stack) rest := by
  rw [Value.readField] at h
  refine Scans.after ?_ (scan_dulls (dulls_space s))
  generalize Value.skipSpace s = r at h ⊢
  split at h
  · next t =>
    obtain ⟨⟨k', t'⟩, hk, h⟩ := Option.bind_eq_some_iff.1 h
    dsimp only at h
    generalize hs : Value.skipSpace t' = r at h
    split at h
    · next t'' =>
      obtain ⟨⟨y, r⟩, hy, h⟩ := Option.map_eq_some_iff.1 h
      cases h
      have hcolon : colonNext t' = true := colonNext_eq hs (by decide)
      have hskip : scan double (some (k :: keys) :: stack) 0 t' = scan double (some (k :: keys) :: stack) 0 t'' := by
        rw [scan_dulls (dulls_space t'), hs, scan_dull (by decide)]
      have hkey : Scans double (some keys :: stack) (0x22 :: t) (k ∉ keys) (some (k :: keys) :: stack) t'' := by
        constructor
        · intro hmem
          rw [scan_key hk hcolon, if_neg hmem, hskip]
        · intro hmem
          rw [scan_key hk hcolon, if_pos (not_not.1 hmem)]
      exact hkey.trans (ih.value hy hr hn)
    · cases h
  · cases h

theorem Reads.fields_succ (ih : Reads double n) {fs : List (Units × Value)} {keys : List Units}
    (h : Value.readFields double (n + 1) s = some (fs, rest)) (hn : stack.length < 32) :
    Scans double (some keys :: stack) s (Fresh keys fs ∧ AllowedFields (stack.length + 1) fs) stack rest := by
  rw [Value.readFields] at h
  refine Scans.after ?_ (scan_dulls (dulls_space s))
  generalize Value.skipSpace s = r at h ⊢
  split at h
  · cases h
    exact .same (scan_close (Or.inl rfl)) ⟨fresh_nil, allowedFields_nil hn⟩
  · next t =>
    simp only [Option.bind_eq_some_iff, Option.map_eq_some_iff, Prod.exists] at h
    obtain ⟨k, y, r, hf, ys, r', hfs, h⟩ := h
    cases h
    have hmember : Scans double (some keys :: stack) t (k ∉ keys ∧ Allowed (stack.length + 1) y)
        (some (k :: keys) :: stack) r := ih.field hf (colonNext_fields hfs) hn
    have hfield := hmember.after (scan_dull (by decide : Dull 0x2c))
    refine (hfield.trans (ih.fields hfs hn)).congr ?_
    rw [fresh_cons, allowedFields_cons]
    tauto
  · cases h

theorem reads (n : ℕ) : Reads double n := by
  induction n with
  | zero => exact reads_zero
  | succ n ih => exact ⟨ih.value_succ, ih.items_succ, ih.field_succ, ih.fields_succ⟩

/-- **The scan of a text of the grammar** throws unless its value is allowed. -/
theorem scan_text {raw : Value} (h : Value.members double s = some raw) :
    scan double [] 0 s = some () ↔ raw.Distinct ∧ levels raw ≤ 32 := by
  unfold Value.members at h
  split at h
  · next x rest hread =>
    split_ifs at h with hrest
    cases h
    have hscan : Scans double [] s (Allowed 0 raw) [] rest := (reads _).value hread (colonNext_nil hrest) (by simp)
    obtain ⟨hok, hno⟩ := hscan
    have hend : scan double [] 0 rest = some () := by
      rw [scan_dulls (dulls_space rest), hrest]
      rfl
    have hallowed : Allowed 0 raw ↔ raw.Distinct ∧ levels raw ≤ 32 := by
      rw [Allowed, Nat.zero_add]
    rw [← hallowed]
    by_cases hx : Allowed 0 raw
    · simp only [hok hx, hend, hx]
    · simp only [hno hx, hx, reduceCtorEq]
  · cases h

/-- The text without a byte order mark at its start. -/
def withoutMark (text : Units) : Units := if text.head? = some 0xfeff then text.drop 1 else text

/-- **The profile reader** accepts the UTF-8 texts of objects in which no object has a key twice and
    nothing is nested too deeply, and it returns what `JSON.parse` returns. -/
theorem profileJson_eq_some {bytes : Bytes} {value : Value} : profileJson double bytes = some value ↔
    ∃ text, WellFormed text ∧ encodeUtf8 text = bytes ∧ Value.parse double (withoutMark text) = some value ∧
      (∃ fields, value = .obj fields) ∧
      ∃ raw, Value.members double (withoutMark text) = some raw ∧ raw.Distinct ∧ levels raw ≤ 32 := by
  have hdecode : ∀ text, decodeFatal bytes = some text ↔
      ∃ s, WellFormed s ∧ encodeUtf8 s = bytes ∧ withoutMark s = text := by
    intro text
    simp only [decodeFatal, Option.map_eq_some_iff, decodeStrict_eq_some, and_assoc, withoutMark]
  unfold profileJson
  simp only [Option.bind_eq_bind, Option.bind_eq_some_iff, hdecode]
  constructor
  · rintro ⟨_, ⟨text, hw, hb, rfl⟩, ⟨⟩, hscan, v, hparse, hv⟩
    have hvalue : v = value ∧ ∃ fields, value = .obj fields := by
      split at hv
      · next fields =>
        cases hv
        exact ⟨rfl, fields, rfl⟩
      · cases hv
    obtain ⟨rfl, hfields⟩ := hvalue
    rw [Value.parse_eq] at hparse
    obtain ⟨raw, hraw, hmerged⟩ := Option.map_eq_some_iff.1 hparse
    refine ⟨text, hw, hb, ?_, hfields, raw, hraw, (scan_text hraw).1 hscan⟩
    rw [Value.parse_eq, hraw, Option.map_some, hmerged]
  · rintro ⟨text, hw, hb, hparse, ⟨fields, rfl⟩, raw, hraw, hallowed⟩
    exact ⟨_, ⟨text, hw, hb, rfl⟩, (), (scan_text hraw).2 hallowed, _, hparse, rfl⟩

end PaPlatform.Quota
