/-
  `JSON.stringify(value, null, 2)`: a value on several lines, and what is read of it.
-/
import PaPlatform.Lib.Utf8

namespace Js.Value

/-- A new line at a depth. -/
def gap (depth : ℕ) : Units := 0x0a :: List.replicate (2 * depth) 0x20

mutual

/-- `JSON.stringify(value, null, 2)`, inside of `depth` brackets. -/
def pretty (depth : ℕ) : Value → Units
  | arr (x :: xs) => 0x5b :: (gap (depth + 1) ++ (pretty (depth + 1) x ++ prettyItems depth xs))
  | obj ((k, x) :: fs) =>
    0x7b :: (gap (depth + 1) ++ (quote k ++ 0x3a :: 0x20 :: (pretty (depth + 1) x ++ prettyFields depth fs)))
  | v => stringify v

/-- The later items of an array, and its closing bracket. -/
def prettyItems (depth : ℕ) : List Value → Units
  | [] => gap depth ++ [0x5d]
  | x :: xs => 0x2c :: (gap (depth + 1) ++ (pretty (depth + 1) x ++ prettyItems depth xs))

/-- The later fields of an object, and its closing brace. -/
def prettyFields (depth : ℕ) : List (Units × Value) → Units
  | [] => gap depth ++ [0x7d]
  | (k, x) :: fs =>
    0x2c :: (gap (depth + 1) ++ (quote k ++ 0x3a :: 0x20 :: (pretty (depth + 1) x ++ prettyFields depth fs)))

end

variable {double : Units → Number} {rest s : Units} {depth fuel : ℕ}

theorem gap_spaces (depth : ℕ) : ∀ u ∈ gap depth, isJsonSpace u = true := by
  rintro u hu
  rcases List.mem_cons.1 hu with rfl | hu
  · decide
  · rw [List.eq_of_mem_replicate hu]
    decide

theorem skipSpace_append (h : ∀ u ∈ s, isJsonSpace u = true) (rest : Units) : skipSpace (s ++ rest) = skipSpace rest :=
  List.dropWhile_append_of_pos h

theorem skipSpace_gap (depth : ℕ) (rest : Units) : skipSpace (gap depth ++ rest) = skipSpace rest :=
  skipSpace_append (gap_spaces depth) rest

/-- What is read does not depend on the spaces before it. -/
theorem readValue_gap (double : Units → Number) (fuel depth : ℕ) (rest : Units) :
    readValue double fuel (gap depth ++ rest) = readValue double fuel rest := by
  cases fuel with
  | zero => rfl
  | succ fuel => rw [readValue, readValue, skipSpace_gap]

theorem readValue_blank (double : Units → Number) (fuel : ℕ) (rest : Units) :
    readValue double fuel (0x20 :: rest) = readValue double fuel rest := by
  cases fuel with
  | zero => rfl
  | succ fuel => rw [readValue, readValue, show skipSpace (0x20 :: rest) = skipSpace rest from rfl]

theorem readField_gap (double : Units → Number) (fuel depth : ℕ) (rest : Units) :
    readField double fuel (gap depth ++ rest) = readField double fuel rest := by
  cases fuel with
  | zero => rfl
  | succ fuel => rw [readField, readField, skipSpace_gap]

theorem pretty_head {v : Value} (hv : v.Written double) (depth : ℕ) : ∃ u t, pretty depth v = u :: t ∧ Starts u := by
  cases v with
  | arr items =>
    cases items with
    | nil => exact written_head (v := arr []) hv
    | cons x xs => exact ⟨_, _, rfl, by unfold Starts; decide⟩
  | obj fields =>
    cases fields with
    | nil => exact written_head (v := obj []) hv
    | cons f fs => exact ⟨_, _, rfl, by unfold Starts; decide⟩
  | null => exact written_head (v := null) hv
  | bool b => exact written_head (v := bool b) hv
  | num n => exact written_head (v := num n) hv
  | str s => exact written_head (v := str s) hv

theorem stops_prettyItems (depth : ℕ) (xs : List Value) (rest : Units) : Stops (prettyItems depth xs ++ rest) := by
  cases xs <;> exact stops_cons (by decide)

theorem stops_prettyFields (depth : ℕ) (fs : List (Units × Value)) (rest : Units) :
    Stops (prettyFields depth fs ++ rest) := by
  cases fs <;> exact stops_cons (by decide)

mutual

theorem readValue_pretty : ∀ (v : Value) (fuel depth : ℕ) (rest : Units), v.Written double →
    (pretty depth v).length < fuel → Stops rest → readValue double fuel (pretty depth v ++ rest) = some (v, rest)
  | v, 0, _, _, _, hf, _ => absurd hf (Nat.not_lt_zero _)
  | null, fuel + 1, _, rest, hv, hf, hr => readValue_stringify null (fuel + 1) rest hv hf hr
  | bool b, fuel + 1, _, rest, hv, hf, hr => readValue_stringify (bool b) (fuel + 1) rest hv hf hr
  | num n, fuel + 1, _, rest, hv, hf, hr => readValue_stringify (num n) (fuel + 1) rest hv hf hr
  | str s, fuel + 1, _, rest, hv, hf, hr => readValue_stringify (str s) (fuel + 1) rest hv hf hr
  | arr [], fuel + 1, _, rest, hv, hf, hr => readValue_stringify (arr []) (fuel + 1) rest hv hf hr
  | obj [], fuel + 1, _, rest, hv, hf, hr => readValue_stringify (obj []) (fuel + 1) rest hv hf hr
  | arr (x :: xs), fuel + 1, depth, rest, hv, hf, _ => by
    obtain ⟨hx, hxs⟩ : Written double x ∧ WrittenItems double xs := hv
    have hlen : (pretty (depth + 1) x).length + (prettyItems depth xs).length < fuel := by
      simp only [pretty, List.length_cons, List.length_append] at hf
      omega
    have hvalue := readValue_pretty x fuel (depth + 1) (prettyItems depth xs ++ rest) hx (by omega)
      (stops_prettyItems depth xs rest)
    have hitems := readItems_pretty xs fuel depth rest hxs (by omega)
    obtain ⟨u, t, ht, hspace, hne, -⟩ := pretty_head hx (depth + 1)
    have htext : skipSpace (pretty depth (arr (x :: xs)) ++ rest) =
        0x5b :: (gap (depth + 1) ++ (pretty (depth + 1) x ++ (prettyItems depth xs ++ rest))) := by
      simp only [pretty, List.cons_append, List.append_assoc]
      exact skipSpace_cons (by decide)
    have hfirst : skipSpace (gap (depth + 1) ++ (pretty (depth + 1) x ++ (prettyItems depth xs ++ rest))) =
        pretty (depth + 1) x ++ (prettyItems depth xs ++ rest) := by
      rw [skipSpace_gap, ht]
      exact skipSpace_cons hspace
    rw [readValue_array htext, hfirst, hvalue, Option.bind_some, hitems]
    · rfl
    · intro tail he
      rw [hfirst, ht] at he
      exact hne (List.cons.inj he).1
  | obj ((k, x) :: fs), fuel + 1, depth, rest, hv, hf, _ => by
    obtain ⟨hx, hfs⟩ : Written double x ∧ WrittenFields double fs := hv
    have hlen : (pretty (depth + 1) x).length + (prettyFields depth fs).length + 1 < fuel := by
      simp only [pretty, quote, List.length_cons, List.length_append] at hf
      omega
    have hfield := readField_pretty k x fuel (depth + 1) (prettyFields depth fs ++ rest) hx (by omega)
      (stops_prettyFields depth fs rest)
    have hfields := readFields_pretty fs fuel depth rest hfs (by omega)
    have htext : skipSpace (pretty depth (obj ((k, x) :: fs)) ++ rest) = 0x7b :: (gap (depth + 1) ++
        (quote k ++ 0x3a :: 0x20 :: (pretty (depth + 1) x ++ (prettyFields depth fs ++ rest)))) := by
      simp only [pretty, List.cons_append, List.append_assoc]
      exact skipSpace_cons (by decide)
    have hfirst : skipSpace (gap (depth + 1) ++
        (quote k ++ 0x3a :: 0x20 :: (pretty (depth + 1) x ++ (prettyFields depth fs ++ rest)))) =
        quote k ++ 0x3a :: 0x20 :: (pretty (depth + 1) x ++ (prettyFields depth fs ++ rest)) := by
      rw [skipSpace_gap]
      exact skipSpace_cons (by decide)
    rw [readValue_object htext, hfirst, hfield, Option.bind_some]
    · dsimp only
      rw [hfields]
      rfl
    · intro tail he
      rw [hfirst] at he
      exact absurd (List.cons.inj he).1 (by decide)

theorem readItems_pretty : ∀ (xs : List Value) (fuel depth : ℕ) (rest : Units), WrittenItems double xs →
    (prettyItems depth xs).length < fuel → readItems double fuel (prettyItems depth xs ++ rest) = some (xs, rest)
  | _, 0, _, _, _, hf => absurd hf (Nat.not_lt_zero _)
  | [], fuel + 1, depth, rest, _, _ => by
    have hend : skipSpace (prettyItems depth [] ++ rest) = 0x5d :: rest := by
      rw [prettyItems, List.append_assoc, skipSpace_gap]
      exact skipSpace_cons (by decide)
    rw [readItems, hend]
    rfl
  | x :: xs, fuel + 1, depth, rest, hv, hf => by
    obtain ⟨hx, hxs⟩ : Written double x ∧ WrittenItems double xs := hv
    have hlen : (pretty (depth + 1) x).length + (prettyItems depth xs).length < fuel := by
      simp only [prettyItems, List.length_cons, List.length_append] at hf
      omega
    have hvalue := readValue_pretty x fuel (depth + 1) (prettyItems depth xs ++ rest) hx (by omega)
      (stops_prettyItems depth xs rest)
    have hitems := readItems_pretty xs fuel depth rest hxs (by omega)
    have hcomma : skipSpace (prettyItems depth (x :: xs) ++ rest) =
        0x2c :: (gap (depth + 1) ++ (pretty (depth + 1) x ++ (prettyItems depth xs ++ rest))) := by
      simp only [prettyItems, List.cons_append, List.append_assoc]
      exact skipSpace_cons (by decide)
    rw [readItems, hcomma]
    show ((readValue double fuel (gap (depth + 1) ++ _)).bind _) = _
    rw [readValue_gap, hvalue, Option.bind_some, hitems]
    rfl

theorem readField_pretty : ∀ (k : Units) (x : Value) (fuel depth : ℕ) (rest : Units), x.Written double →
    (pretty depth x).length + 1 < fuel → Stops rest →
    readField double fuel (quote k ++ 0x3a :: 0x20 :: (pretty depth x ++ rest)) = some (k, x, rest)
  | _, _, 0, _, _, _, hf, _ => absurd hf (Nat.not_lt_zero _)
  | k, x, fuel + 1, depth, rest, hx, hf, hr => by
    have hvalue := readValue_pretty x fuel depth rest hx (by omega) hr
    have hquote : readField double (fuel + 1) (quote k ++ 0x3a :: 0x20 :: (pretty depth x ++ rest)) =
        (parseString ((escape k ++ [0x22]) ++ 0x3a :: 0x20 :: (pretty depth x ++ rest))).bind fun p =>
          match skipSpace p.2 with
          | 0x3a :: rest => (readValue double fuel rest).map fun x => (p.1, x.1, x.2)
          | _ => none := rfl
    rw [hquote, readString_quote, Option.bind_some]
    show (readValue double fuel (0x20 :: (pretty depth x ++ rest))).map _ = _
    rw [readValue_blank, hvalue]
    rfl

theorem readFields_pretty : ∀ (fs : List (Units × Value)) (fuel depth : ℕ) (rest : Units), WrittenFields double fs →
    (prettyFields depth fs).length < fuel → readFields double fuel (prettyFields depth fs ++ rest) = some (fs, rest)
  | _, 0, _, _, _, hf => absurd hf (Nat.not_lt_zero _)
  | [], fuel + 1, depth, rest, _, _ => by
    have hend : skipSpace (prettyFields depth [] ++ rest) = 0x7d :: rest := by
      rw [prettyFields, List.append_assoc, skipSpace_gap]
      exact skipSpace_cons (by decide)
    rw [readFields, hend]
    rfl
  | (k, x) :: fs, fuel + 1, depth, rest, hv, hf => by
    obtain ⟨hx, hfs⟩ : Written double x ∧ WrittenFields double fs := hv
    have hlen : (pretty (depth + 1) x).length + (prettyFields depth fs).length + 1 < fuel := by
      simp only [prettyFields, quote, List.length_cons, List.length_append] at hf
      omega
    have hfield := readField_pretty k x fuel (depth + 1) (prettyFields depth fs ++ rest) hx (by omega)
      (stops_prettyFields depth fs rest)
    have hfields := readFields_pretty fs fuel depth rest hfs (by omega)
    have hcomma : skipSpace (prettyFields depth ((k, x) :: fs) ++ rest) = 0x2c :: (gap (depth + 1) ++
        (quote k ++ 0x3a :: 0x20 :: (pretty (depth + 1) x ++ (prettyFields depth fs ++ rest)))) := by
      simp only [prettyFields, List.cons_append, List.append_assoc]
      exact skipSpace_cons (by decide)
    rw [readFields, hcomma]
    show ((readField double fuel (gap (depth + 1) ++ _)).bind _) = _
    rw [readField_gap, hfield, Option.bind_some]
    dsimp only
    rw [hfields]
    rfl

end

theorem space_stops (u : UInt16) (h : isJsonSpace u = true) :
    Units.isDigit u = false ∧ u ≠ 0x2e ∧ u ≠ 0x65 ∧ u ≠ 0x45 := by
  unfold isJsonSpace at h
  simp only [Bool.or_eq_true, beq_iff_eq] at h
  rcases h with ((rfl | rfl) | rfl) | rfl <;> decide

/-- **A value on several lines is read back**, when spaces follow. -/
theorem parse_pretty {v : Value} (hw : v.Written double) (ho : v.Ordered) (depth : ℕ) {after : Units}
    (ha : ∀ u ∈ after, isJsonSpace u = true) : parse double (pretty depth v ++ after) = some v := by
  have hend : skipSpace after = [] := List.dropWhile_eq_nil_iff.2 ha
  have hstops : Stops after := by
    cases after with
    | nil => rintro u ⟨⟩
    | cons u after => exact stops_cons (space_stops u (ha u List.mem_cons_self))
  have hread := readValue_pretty v ((pretty depth v ++ after).length + 1) depth after hw
    (by rw [List.length_append]; omega) hstops
  rw [parse_eq, members, hread]
  dsimp only
  rw [if_pos hend, Option.map_some, merged_ordered v ho]

/-! ## Bytes -/

theorem wellFormed_gap (depth : ℕ) : Units.WellFormed (gap depth) := by
  refine Units.wellFormed_of_ascii ?_
  rintro u hu
  unfold gap at hu
  rcases List.mem_cons.1 hu with rfl | hu
  · decide
  · rw [List.eq_of_mem_replicate hu]
    decide

mutual

/-- The text on several lines is well formed. -/
theorem wellFormed_pretty : ∀ (v : Value) (depth : ℕ), v.Written double → Units.WellFormed (pretty depth v)
  | null, _, hv => Units.wellFormed_stringify null hv
  | bool b, _, hv => Units.wellFormed_stringify (bool b) hv
  | num n, _, hv => Units.wellFormed_stringify (num n) hv
  | str s, _, hv => Units.wellFormed_stringify (str s) hv
  | arr [], _, hv => Units.wellFormed_stringify (arr []) hv
  | obj [], _, hv => Units.wellFormed_stringify (obj []) hv
  | arr (x :: xs), depth, hv => by
    obtain ⟨hx, hxs⟩ : Written double x ∧ WrittenItems double xs := hv
    exact .unit (by decide) ((wellFormed_gap _).append
      ((wellFormed_pretty x (depth + 1) hx).append (wellFormed_prettyItems xs depth hxs)))
  | obj ((k, x) :: fs), depth, hv => by
    obtain ⟨hx, hfs⟩ : Written double x ∧ WrittenFields double fs := hv
    exact .unit (by decide) ((wellFormed_gap _).append ((Units.wellFormed_quote k).append (.unit (by decide)
      (.unit (by decide) ((wellFormed_pretty x (depth + 1) hx).append (wellFormed_prettyFields fs depth hfs))))))

theorem wellFormed_prettyItems : ∀ (xs : List Value) (depth : ℕ), WrittenItems double xs →
    Units.WellFormed (prettyItems depth xs)
  | [], depth, _ => (wellFormed_gap depth).append (.unit (by decide) .nil)
  | x :: xs, depth, hv => by
    obtain ⟨hx, hxs⟩ : Written double x ∧ WrittenItems double xs := hv
    exact .unit (by decide) ((wellFormed_gap _).append
      ((wellFormed_pretty x (depth + 1) hx).append (wellFormed_prettyItems xs depth hxs)))

theorem wellFormed_prettyFields : ∀ (fs : List (Units × Value)) (depth : ℕ), WrittenFields double fs →
    Units.WellFormed (prettyFields depth fs)
  | [], depth, _ => (wellFormed_gap depth).append (.unit (by decide) .nil)
  | (k, x) :: fs, depth, hv => by
    obtain ⟨hx, hfs⟩ : Written double x ∧ WrittenFields double fs := hv
    exact .unit (by decide) ((wellFormed_gap _).append ((Units.wellFormed_quote k).append (.unit (by decide)
      (.unit (by decide) ((wellFormed_pretty x (depth + 1) hx).append (wellFormed_prettyFields fs depth hfs))))))

end

end Js.Value
