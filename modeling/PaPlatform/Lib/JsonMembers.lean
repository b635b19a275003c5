/-
  JSON texts with all their members.

  `JSON.parse` merges the members of an object that have one key.  Here a text is
  read with every member in its place, and `merged` is what `JSON.parse` makes of it.
-/
import PaPlatform.Lib.JsonRound

namespace Js.Value

variable (double : Units → Number)

/-- `null`, `true`, `false` or a number, and what comes after it. -/
def readToken (s : Units) : Option (Value × Units) :=
  if (units "null").isPrefixOf s then some (null, s.drop 4)
  else if (units "true").isPrefixOf s then some (bool true, s.drop 4)
  else if (units "false").isPrefixOf s then some (bool false, s.drop 5)
  else (parseNumber double s).map fun p => (num p.1, p.2)

mutual

/-- A value with all members, and what comes after it. -/
def readValue : ℕ → Units → Option (Value × Units)
  | 0, _ => none
  | fuel + 1, s =>
    match skipSpace s with
    | [] => none
    | u :: rest =>
      if u = 0x22 then (parseString rest).map fun p => (str p.1, p.2)
      else if u = 0x5b then
        match skipSpace rest with
        | 0x5d :: rest => some (arr [], rest)
        | rest => (readValue fuel rest).bind fun x =>
          (readItems fuel x.2).map fun xs => (arr (x.1 :: xs.1), xs.2)
      else if u = 0x7b then
        match skipSpace rest with
        | 0x7d :: rest => some (obj [], rest)
        | rest => (readField fuel rest).bind fun f =>
          (readFields fuel f.2.2).map fun fs => (obj ((f.1, f.2.1) :: fs.1), fs.2)
      else readToken double (u :: rest)

/-- The later items of an array. -/
def readItems : ℕ → Units → Option (List Value × Units)
  | 0, _ => none
  | fuel + 1, s =>
    match skipSpace s with
    | 0x5d :: rest => some ([], rest)
    | 0x2c :: rest => (readValue fuel rest).bind fun x =>
      (readItems fuel x.2).map fun xs => (x.1 :: xs.1, xs.2)
    | _ => none

/-- A member of an object. -/
def readField : ℕ → Units → Option (Units × Value × Units)
  | 0, _ => none
  | fuel + 1, s =>
    match skipSpace s with
    | 0x22 :: rest => (parseString rest).bind fun k =>
      match skipSpace k.2 with
      | 0x3a :: rest => (readValue fuel rest).map fun x => (k.1, x.1, x.2)
      | _ => none
    | _ => none

/-- The later members of an object. -/
def readFields : ℕ → Units → Option (List (Units × Value) × Units)
  | 0, _ => none
  | fuel + 1, s =>
    match skipSpace s with
    | 0x7d :: rest => some ([], rest)
    | 0x2c :: rest => (readField fuel rest).bind fun f =>
      (readFields fuel f.2.2).map fun fs => ((f.1, f.2.1) :: fs.1, fs.2)
    | _ => none

end

/-- A text with all its members. -/
def members (s : Units) : Option Value :=
  match readValue double (s.length + 1) s with
  | some (x, rest) => if skipSpace rest = [] then some x else none
  | none => none

mutual

/-- The last member of each key. -/
def merged : Value → Value
  | arr items => arr (mergedItems items)
  | obj fields => obj (mergedFields [] fields)
  | v => v

def mergedItems : List Value → List Value
  | [] => []
  | x :: xs => merged x :: mergedItems xs

/-- The members after those in an object. -/
def mergedFields (fields : List (Units × Value)) : List (Units × Value) → List (Units × Value)
  | [] => fields
  | (k, x) :: fs => mergedFields (set k (merged x) fields) fs

end

mutual

/-- The levels below a value. -/
def height : Value → ℕ
  | arr items => heightItems items
  | obj fields => heightFields fields
  | _ => 0

def heightItems : List Value → ℕ
  | [] => 0
  | x :: xs => max (height x + 1) (heightItems xs)

def heightFields : List (Units × Value) → ℕ
  | [] => 0
  | (_, x) :: fs => max (height x + 1) (heightFields fs)

end

variable {double}

/-- The parser reads what the members merge to. -/
structure Merges (double : Units → Number) (fuel : ℕ) : Prop where
  value : ∀ s, parseValue double fuel s = (readValue double fuel s).map fun p => (p.1.merged, p.2)
  items : ∀ s, parseItems double fuel s = (readItems double fuel s).map fun p => (mergedItems p.1, p.2)
  field : ∀ s, parseField double fuel s = (readField double fuel s).map fun p => (p.1, p.2.1.merged, p.2.2)
  fields : ∀ fs s, parseFields double fuel fs s = (readFields double fuel s).map fun p => (mergedFields fs p.1, p.2)

theorem merges_zero : Merges double 0 where
  value _ := rfl
  items _ := rfl
  field _ := rfl
  fields _ _ := rfl

/-- The items of an array after its bracket. -/
theorem Merges.value_items {fuel : ℕ} (ih : Merges double fuel) (t : Units) :
    (do
      let (x, rest) ← parseValue double fuel t
      let (xs, rest) ← parseItems double fuel rest
      return (arr (x :: xs), rest)) =
      Option.map (fun p : Value × Units => (p.1.merged, p.2)) ((readValue double fuel t).bind fun x =>
        (readItems double fuel x.2).map fun xs => (arr (x.1 :: xs.1), xs.2)) := by
  rw [ih.value]
  cases readValue double fuel t with
  | none => rfl
  | some x =>
    simp only [Option.map_some, Option.bind_eq_bind, Option.bind_some, ih.items]
    cases readItems double fuel x.2 <;> rfl

/-- The fields of an object after its brace. -/
theorem Merges.field_fields {fuel : ℕ} (ih : Merges double fuel) (t : Units) :
    (do
      let (k, x, rest) ← parseField double fuel t
      let (fs, rest) ← parseFields double fuel [(k, x)] rest
      return (obj fs, rest)) =
      Option.map (fun p : Value × Units => (p.1.merged, p.2)) ((readField double fuel t).bind fun f =>
        (readFields double fuel f.2.2).map fun fs => (obj ((f.1, f.2.1) :: fs.1), fs.2)) := by
  rw [ih.field]
  cases readField double fuel t with
  | none => rfl
  | some f =>
    simp only [Option.map_some, Option.bind_eq_bind, Option.bind_some, ih.fields]
    cases readFields double fuel f.2.2 <;> rfl

theorem merges_succ {fuel : ℕ} (ih : Merges double fuel) : Merges double (fuel + 1) where
  value := by
    intro s
    rw [parseValue, readValue]
    cases skipSpace s with
    | nil => rfl
    | cons u rest =>
      dsimp only
      split_ifs
      · simp only [Option.map_map, Function.comp_def, merged]
      · generalize skipSpace rest = t
        split
        · rfl
        · next hne =>
          -- the match on the right may be the same as that on the left
          first
            | split
              · exact absurd rfl (hne _)
              · exact ih.value_items t
            | exact ih.value_items t
      · generalize skipSpace rest = t
        split
        · rfl
        · next hne =>
          -- the match on the right may be the same as that on the left
          first
            | split
              · exact absurd rfl (hne _)
              · exact ih.field_fields t
            | exact ih.field_fields t
      · unfold readToken
        rw [if_pos ‹_›]
        rfl
      · unfold readToken
        rw [if_neg ‹¬ (units "null").isPrefixOf _ = true›, if_pos ‹_›]
        rfl
      · unfold readToken
        rw [if_neg ‹¬ (units "null").isPrefixOf _ = true›, if_neg ‹¬ (units "true").isPrefixOf _ = true›, if_pos ‹_›]
        rfl
      · unfold readToken
        rw [if_neg ‹¬ (units "null").isPrefixOf _ = true›, if_neg ‹¬ (units "true").isPrefixOf _ = true›,
          if_neg ‹¬ (units "false").isPrefixOf _ = true›]
        simp only [Option.map_map, Function.comp_def, merged]
  items := by
    intro s
    rw [parseItems, readItems]
    generalize skipSpace s = t
    split
    · rfl
    · next rest =>
      show _ = Option.map _ ((readValue double fuel rest).bind _)
      rw [ih.value]
      cases readValue double fuel rest with
      | none => rfl
      | some x =>
        simp only [Option.map_some, Option.bind_eq_bind, Option.bind_some, ih.items]
        cases readItems double fuel x.2 <;> rfl
    · next hclose hcomma =>
      first
        | rfl
        | split
          · exact absurd rfl (hclose _)
          · exact absurd rfl (hcomma _)
          · rfl
  field := by
    intro s
    rw [parseField, readField]
    generalize skipSpace s = t
    split
    · next rest =>
      show _ = Option.map _ ((parseString rest).bind _)
      cases parseString rest with
      | none => rfl
      | some k =>
        simp only [Option.bind_eq_bind, Option.bind_some]
        generalize skipSpace k.2 = t
        split
        · next rest =>
          show _ = Option.map _ ((readValue double fuel rest).map _)
          rw [ih.value]
          cases readValue double fuel rest <;> rfl
        · next hne =>
          first
            | rfl
            | split
              · exact absurd rfl (hne _)
              · rfl
    · next hne =>
      first
        | rfl
        | split
          · exact absurd rfl (hne _)
          · rfl
  fields := by
    intro fs s
    rw [parseFields, readFields]
    generalize skipSpace s = t
    split
    · rfl
    · next rest =>
      show _ = Option.map _ ((readField double fuel rest).bind _)
      rw [ih.field]
      cases readField double fuel rest with
      | none => rfl
      | some f =>
        simp only [Option.map_some, Option.bind_eq_bind, Option.bind_some, ih.fields]
        cases readFields double fuel f.2.2 <;> rfl
    · next hclose hcomma =>
      first
        | rfl
        | split
          · exact absurd rfl (hclose _)
          · exact absurd rfl (hcomma _)
          · rfl

theorem merges (fuel : ℕ) : Merges double fuel := by
  induction fuel with
  | zero => exact merges_zero
  | succ fuel ih => exact merges_succ ih

/-- **`JSON.parse`** merges the members of a text. -/
theorem parse_eq (s : Units) : parse double s = (members double s).map merged := by
  unfold parse members
  rw [(merges _).value]
  cases readValue double (s.length + 1) s with
  | none => rfl
  | some p =>
    dsimp only [Option.map_some]
    split_ifs <;> rfl

/-! ## The forms of a value -/

section forms

variable {fuel : ℕ} {s t rest : Units} {u : UInt16}

theorem readValue_nil (h : skipSpace s = []) : readValue double fuel s = none := by
  cases fuel with
  | zero => rfl
  | succ fuel =>
    show (match skipSpace s with | [] => none | u :: rest => _) = _
    rw [h]

theorem readValue_string (h : skipSpace s = 0x22 :: rest) :
    readValue double (fuel + 1) s = (parseString rest).map fun p => (str p.1, p.2) := by
  show (match skipSpace s with | [] => none | u :: rest => _) = _
  rw [h]
  rfl

theorem readValue_empty_array (h : skipSpace s = 0x5b :: t) (ht : skipSpace t = 0x5d :: rest) :
    readValue double (fuel + 1) s = some (arr [], rest) := by
  show (match skipSpace s with | [] => none | u :: rest => _) = _
  rw [h]
  show (match skipSpace t with | 0x5d :: rest => some (arr [], rest) | _ => _) = _
  rw [ht]
  rfl

theorem readValue_array (h : skipSpace s = 0x5b :: t) (ht : ∀ rest, skipSpace t ≠ 0x5d :: rest) :
    readValue double (fuel + 1) s = (readValue double fuel (skipSpace t)).bind fun x =>
      (readItems double fuel x.2).map fun xs => (arr (x.1 :: xs.1), xs.2) := by
  show (match skipSpace s with | [] => none | u :: rest => _) = _
  rw [h]
  show (match skipSpace t with | 0x5d :: rest => some (arr [], rest) | _ => _) = _
  split
  · next hr => exact absurd hr (ht _)
  · rfl

theorem readValue_empty_object (h : skipSpace s = 0x7b :: t) (ht : skipSpace t = 0x7d :: rest) :
    readValue double (fuel + 1) s = some (obj [], rest) := by
  show (match skipSpace s with | [] => none | u :: rest => _) = _
  rw [h]
  show (match skipSpace t with | 0x7d :: rest => some (obj [], rest) | _ => _) = _
  rw [ht]
  rfl

theorem readValue_object (h : skipSpace s = 0x7b :: t) (ht : ∀ rest, skipSpace t ≠ 0x7d :: rest) :
    readValue double (fuel + 1) s = (readField double fuel (skipSpace t)).bind fun f =>
      (readFields double fuel f.2.2).map fun fs => (obj ((f.1, f.2.1) :: fs.1), fs.2) := by
  show (match skipSpace s with | [] => none | u :: rest => _) = _
  rw [h]
  show (match skipSpace t with | 0x7d :: rest => some (obj [], rest) | _ => _) = _
  split
  · next hr => exact absurd hr (ht _)
  · rfl

theorem readValue_token (h : skipSpace s = u :: rest) (h1 : u ≠ 0x22) (h2 : u ≠ 0x5b) (h3 : u ≠ 0x7b) :
    readValue double (fuel + 1) s = readToken double (u :: rest) := by
  show (match skipSpace s with | [] => none | u :: rest => _) = _
  rw [h]
  show (if _ then _ else if _ then _ else if _ then _ else _) = _
  rw [if_neg h1, if_neg h2, if_neg h3]

end forms

/-! ## Fuel -/

theorem skipSpace_length (s : Units) : (skipSpace s).length ≤ s.length := List.length_dropWhile_le _ s

theorem parseString_length {s k t : Units} (h : parseString s = some (k, t)) : t.length < s.length := by
  fun_induction parseString s generalizing k with
  | case1 => simp at h
  | case2 rest =>
    simp only [Option.some.injEq, Prod.mk.injEq] at h
    simp [h.2]
  | case3 => simp at h
  | case4 a b c d rest hq ih =>
    simp only [Option.bind_eq_some_iff, Option.map_eq_some_iff, Prod.mk.injEq, Prod.exists] at h
    obtain ⟨v, -, k', t', hp, -, rfl⟩ := h
    have := ih hp
    simp only [List.length_cons]
    omega
  | case5 => simp at h
  | case6 e rest he hq ih =>
    simp only [Option.bind_eq_some_iff, Option.map_eq_some_iff, Prod.mk.injEq, Prod.exists] at h
    obtain ⟨v, -, k', t', hp, -, rfl⟩ := h
    have := ih hp
    simp only [List.length_cons]
    omega
  | case7 => simp at h
  | case8 u rest hq hb hc ih =>
    simp only [Option.map_eq_some_iff, Prod.mk.injEq, Prod.exists] at h
    obtain ⟨k', t', hp, -, rfl⟩ := h
    have := ih hp
    simp only [List.length_cons]
    omega

theorem parseDigits_length {s d t : Units} (h : parseDigits s = some (d, t)) : t.length < s.length := by
  unfold parseDigits at h
  split_ifs at h with he
  simp only [Option.some.injEq, Prod.mk.injEq] at h
  obtain ⟨-, rfl⟩ := h
  have hl := congrArg List.length (List.takeWhile_append_dropWhile (p := Units.isDigit) (l := s))
  have hp : 0 < (s.takeWhile Units.isDigit).length := by
    rw [List.length_pos_iff]
    simpa [List.isEmpty_iff] using he
  rw [List.length_append] at hl
  omega

theorem parseIntegral_length {s d t : Units} (h : parseIntegral s = some (d, t)) : t.length < s.length := by
  unfold parseIntegral at h
  split at h
  · simp only [Option.some.injEq, Prod.mk.injEq] at h
    simp [h.2]
  · exact parseDigits_length h

theorem parseFraction_length {s d t : Units} (h : parseFraction s = some (d, t)) : t.length ≤ s.length := by
  unfold parseFraction at h
  split at h
  · simp only [Option.map_eq_some_iff, Prod.mk.injEq, Prod.exists] at h
    obtain ⟨d', t', hp, -, rfl⟩ := h
    have := parseDigits_length hp
    simp only [List.length_cons]
    omega
  · simp only [Option.some.injEq, Prod.mk.injEq] at h
    simp [h.2]

theorem parseSign_length (s : Units) : (parseSign s).2.length ≤ s.length := by
  unfold parseSign
  split <;> simp

theorem parseExponent_length {s d t : Units} (h : parseExponent s = some (d, t)) : t.length ≤ s.length := by
  unfold parseExponent at h
  split at h
  · simp only [Option.some.injEq, Prod.mk.injEq] at h
    simp [← h.2]
  · next u rest =>
    split_ifs at h
    · simp only [Option.map_eq_some_iff, Prod.mk.injEq, Prod.exists] at h
      obtain ⟨d', t', hp, -, rfl⟩ := h
      have := parseDigits_length hp
      have := parseSign_length rest
      simp only [List.length_cons]
      omega
    · simp only [Option.some.injEq, Prod.mk.injEq] at h
      simp [← h.2]

theorem parseUnsigned_length {negative : Bool} {s t : Units} {n : Number}
    (h : parseUnsigned double negative s = some (n, t)) : t.length < s.length := by
  simp only [parseUnsigned, Option.bind_eq_bind, Option.bind_eq_some_iff, Prod.exists] at h
  obtain ⟨i, s1, h1, f, s2, h2, e, s3, h3, h⟩ := h
  have := parseIntegral_length h1
  have := parseFraction_length h2
  have := parseExponent_length h3
  have hs : t = s3 := by
    split_ifs at h <;> simp_all
  rw [hs]
  omega

theorem parseNumber_length {s t : Units} {n : Number} (h : parseNumber double s = some (n, t)) :
    t.length < s.length := by
  unfold parseNumber at h
  split at h
  · have := parseUnsigned_length h
    simp only [List.length_cons]
    omega
  · exact parseUnsigned_length h

theorem readToken_length {s t : Units} {x : Value} (h : readToken double s = some (x, t)) : t.length < s.length := by
  have hdrop : ∀ {word : Units} {n : ℕ}, word.isPrefixOf s = true → word.length = n + 1 →
      (s.drop (n + 1)).length < s.length := by
    intro word n hp hw
    have := (List.isPrefixOf_iff_prefix.1 hp).length_le
    rw [List.length_drop]
    omega
  unfold readToken at h
  split_ifs at h with h1 h2 h3
  · simp only [Option.some.injEq, Prod.mk.injEq] at h
    obtain ⟨-, rfl⟩ := h
    exact hdrop h1 rfl
  · simp only [Option.some.injEq, Prod.mk.injEq] at h
    obtain ⟨-, rfl⟩ := h
    exact hdrop h2 rfl
  · simp only [Option.some.injEq, Prod.mk.injEq] at h
    obtain ⟨-, rfl⟩ := h
    exact hdrop h3 rfl
  · simp only [Option.map_eq_some_iff, Prod.mk.injEq, Prod.exists] at h
    obtain ⟨n, t', hp, -, rfl⟩ := h
    exact parseNumber_length hp

/-- What is read is shorter, and more fuel does not change it. -/
structure Enough (double : Units → Number) (fuel : ℕ) : Prop where
  value : ∀ s x t, readValue double fuel s = some (x, t) →
    t.length < s.length ∧ ∀ more, s.length < more → readValue double more s = some (x, t)
  items : ∀ s xs t, readItems double fuel s = some (xs, t) →
    t.length < s.length ∧ ∀ more, s.length < more → readItems double more s = some (xs, t)
  field : ∀ s k x t, readField double fuel s = some (k, x, t) →
    t.length < s.length ∧ ∀ more, s.length < more → readField double more s = some (k, x, t)
  fields : ∀ s fs t, readFields double fuel s = some (fs, t) →
    t.length < s.length ∧ ∀ more, s.length < more → readFields double more s = some (fs, t)

theorem enough_zero : Enough double 0 where
  value _ x t h := nomatch (show none = some (x, t) from h)
  items _ xs t h := nomatch (show none = some (xs, t) from h)
  field _ k x t h := nomatch (show none = some (k, x, t) from h)
  fields _ fs t h := nomatch (show none = some (fs, t) from h)

theorem enough_value {fuel : ℕ} (ih : Enough double fuel) {s : Units} {x : Value} {t : Units}
    (h : readValue double (fuel + 1) s = some (x, t)) :
    t.length < s.length ∧ ∀ more, s.length < more + 1 → readValue double (more + 1) s = some (x, t) := by
  have hl := skipSpace_length s
  cases hs : skipSpace s with
  | nil => simp [readValue_nil hs] at h
  | cons u rest =>
    rw [hs, List.length_cons] at hl
    have hr := skipSpace_length rest
    by_cases h1 : u = 0x22
    · subst h1
      rw [readValue_string hs] at h
      refine ⟨?_, fun more _ => by rw [readValue_string hs, h]⟩
      simp only [Option.map_eq_some_iff, Prod.mk.injEq, Prod.exists] at h
      obtain ⟨k, t', hp, -, rfl⟩ := h
      have := parseString_length hp
      omega
    by_cases h2 : u = 0x5b
    · subst h2
      by_cases he : ∃ rest', skipSpace rest = 0x5d :: rest'
      · obtain ⟨rest', he⟩ := he
        rw [readValue_empty_array hs he] at h
        refine ⟨?_, fun more _ => by rw [readValue_empty_array hs he, h]⟩
        simp only [Option.some.injEq, Prod.mk.injEq] at h
        obtain ⟨-, rfl⟩ := h
        rw [he, List.length_cons] at hr
        omega
      · rw [readValue_array hs (not_exists.1 he)] at h
        simp only [Option.bind_eq_some_iff, Option.map_eq_some_iff, Prod.mk.injEq, Prod.exists] at h
        obtain ⟨y, t1, hy, ys, t2, hys, rfl, rfl⟩ := h
        obtain ⟨hl1, hm1⟩ := ih.value _ _ _ hy
        obtain ⟨hl2, hm2⟩ := ih.items _ _ _ hys
        refine ⟨by omega, fun more hmore => ?_⟩
        rw [readValue_array hs (not_exists.1 he), hm1 more (by omega), Option.bind_some, hm2 more (by omega)]
        rfl
    by_cases h3 : u = 0x7b
    · subst h3
      by_cases he : ∃ rest', skipSpace rest = 0x7d :: rest'
      · obtain ⟨rest', he⟩ := he
        rw [readValue_empty_object hs he] at h
        refine ⟨?_, fun more _ => by rw [readValue_empty_object hs he, h]⟩
        simp only [Option.some.injEq, Prod.mk.injEq] at h
        obtain ⟨-, rfl⟩ := h
        rw [he, List.length_cons] at hr
        omega
      · rw [readValue_object hs (not_exists.1 he)] at h
        simp only [Option.bind_eq_some_iff, Option.map_eq_some_iff, Prod.mk.injEq, Prod.exists] at h
        obtain ⟨k, y, t1, hy, ys, t2, hys, rfl, rfl⟩ := h
        obtain ⟨hl1, hm1⟩ := ih.field _ _ _ _ hy
        obtain ⟨hl2, hm2⟩ := ih.fields _ _ _ hys
        refine ⟨by omega, fun more hmore => ?_⟩
        rw [readValue_object hs (not_exists.1 he), hm1 more (by omega), Option.bind_some, hm2 more (by omega)]
        rfl
    rw [readValue_token hs h1 h2 h3] at h
    refine ⟨?_, fun more _ => by rw [readValue_token hs h1 h2 h3, h]⟩
    have := readToken_length h
    rw [List.length_cons] at this
    omega

theorem enough_items {fuel : ℕ} (ih : Enough double fuel) {s : Units} {xs : List Value} {t : Units}
    (h : readItems double (fuel + 1) s = some (xs, t)) :
    t.length < s.length ∧ ∀ more, s.length < more + 1 → readItems double (more + 1) s = some (xs, t) := by
  have hl := skipSpace_length s
  simp only [readItems] at h ⊢
  generalize skipSpace s = r at h hl ⊢
  split at h
  · refine ⟨?_, fun _ _ => h⟩
    simp only [Option.some.injEq, Prod.mk.injEq] at h
    rw [← h.2]
    exact hl
  · next rest =>
    rw [List.length_cons] at hl
    simp only [Option.bind_eq_some_iff, Option.map_eq_some_iff, Prod.mk.injEq, Prod.exists] at h
    obtain ⟨y, t1, hy, ys, t2, hys, rfl, rfl⟩ := h
    obtain ⟨hl1, hm1⟩ := ih.value _ _ _ hy
    obtain ⟨hl2, hm2⟩ := ih.items _ _ _ hys
    refine ⟨by omega, fun more hmore => ?_⟩
    show (readValue double more rest).bind _ = _
    rw [hm1 more (by omega), Option.bind_some, hm2 more (by omega)]
    rfl
  · simp at h

theorem enough_field {fuel : ℕ} (ih : Enough double fuel) {s k : Units} {x : Value} {t : Units}
    (h : readField double (fuel + 1) s = some (k, x, t)) :
    t.length < s.length ∧ ∀ more, s.length < more + 1 → readField double (more + 1) s = some (k, x, t) := by
  have hl := skipSpace_length s
  simp only [readField] at h ⊢
  generalize skipSpace s = r at h hl ⊢
  split at h
  · next rest =>
    rw [List.length_cons] at hl
    cases hk : parseString rest with
    | none => simp [hk] at h
    | some p =>
      obtain ⟨k', r⟩ := p
      have hp := parseString_length hk
      have hr := skipSpace_length r
      rw [hk, Option.bind_some] at h
      dsimp only at h
      generalize hg : skipSpace r = r' at h hr
      split at h
      · next rest' =>
        rw [List.length_cons] at hr
        simp only [Option.map_eq_some_iff, Prod.mk.injEq, Prod.exists] at h
        obtain ⟨y, t1, hy, rfl, rfl, rfl⟩ := h
        obtain ⟨hl1, hm1⟩ := ih.value _ _ _ hy
        refine ⟨by omega, fun more hmore => ?_⟩
        dsimp only [Option.bind_some]
        rw [hg]
        show (readValue double more rest').map _ = _
        rw [hm1 more (by omega)]
        rfl
      · simp at h
  · simp at h

theorem enough_fields {fuel : ℕ} (ih : Enough double fuel) {s : Units} {fs : List (Units × Value)} {t : Units}
    (h : readFields double (fuel + 1) s = some (fs, t)) :
    t.length < s.length ∧ ∀ more, s.length < more + 1 → readFields double (more + 1) s = some (fs, t) := by
  have hl := skipSpace_length s
  simp only [readFields] at h ⊢
  generalize skipSpace s = r at h hl ⊢
  split at h
  · refine ⟨?_, fun _ _ => h⟩
    simp only [Option.some.injEq, Prod.mk.injEq] at h
    rw [← h.2]
    exact hl
  · next rest =>
    rw [List.length_cons] at hl
    simp only [Option.bind_eq_some_iff, Option.map_eq_some_iff, Prod.mk.injEq, Prod.exists] at h
    obtain ⟨k, y, t1, hy, ys, t2, hys, rfl, rfl⟩ := h
    obtain ⟨hl1, hm1⟩ := ih.field _ _ _ _ hy
    obtain ⟨hl2, hm2⟩ := ih.fields _ _ _ hys
    refine ⟨by omega, fun more hmore => ?_⟩
    show (readField double more rest).bind _ = _
    rw [hm1 more (by omega), Option.bind_some, hm2 more (by omega)]
    rfl
  · simp at h

theorem exists_fuel {n m : ℕ} (h : n < m) : ∃ k, m = k + 1 ∧ n < k + 1 :=
  ⟨m - 1, by omega, by omega⟩

theorem enough (fuel : ℕ) : Enough double fuel := by
  induction fuel with
  | zero => exact enough_zero
  | succ fuel ih => exact {
      value := fun s x t h => ⟨(enough_value ih h).1, fun more hm => by
        obtain ⟨k, rfl, hk⟩ := exists_fuel hm
        exact (enough_value ih h).2 k hk⟩
      items := fun s xs t h => ⟨(enough_items ih h).1, fun more hm => by
        obtain ⟨k, rfl, hk⟩ := exists_fuel hm
        exact (enough_items ih h).2 k hk⟩
      field := fun s k x t h => ⟨(enough_field ih h).1, fun more hm => by
        obtain ⟨k, rfl, hk⟩ := exists_fuel hm
        exact (enough_field ih h).2 k hk⟩
      fields := fun s fs t h => ⟨(enough_fields ih h).1, fun more hm => by
        obtain ⟨k, rfl, hk⟩ := exists_fuel hm
        exact (enough_fields ih h).2 k hk⟩ }

/-- **The fuel of `members` is enough**: no fuel reads more. -/
theorem members_eq_some {s : Units} {x : Value} :
    members double s = some x ↔ ∃ fuel rest, readValue double fuel s = some (x, rest) ∧ skipSpace rest = [] := by
  constructor
  · intro h
    unfold members at h
    split at h
    · next y rest hr =>
      split_ifs at h with he
      cases h
      exact ⟨_, rest, hr, he⟩
    · simp at h
  · rintro ⟨fuel, rest, hr, he⟩
    unfold members
    rw [((enough fuel).value _ _ _ hr).2 _ (by omega)]
    exact if_pos he

end Js.Value
