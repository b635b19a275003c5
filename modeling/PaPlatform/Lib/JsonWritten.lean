/-
  Values that are read back from their text: `JSON.parse(JSON.stringify(v))`.

  The numbers are finite, that is, the platform reads their texts back, and the
  fields of each object are in the order that an object keeps.
-/
import PaPlatform.Lib.JsonNumbers

namespace Js.Value

variable {double : Units → Number} {rest : Units} {k l : Units} {x : Value} {fields fs : List (Units × Value)}

/-! ## Numbers -/

/-- Integral digits. -/
def IsIntegral (i : Units) : Prop :=
  i = [0x30] ∨ ∃ u d, i = u :: d ∧ u ≠ 0x30 ∧ ∀ v ∈ i, Units.isDigit v = true

/-- The text of a number that is not a safe integer. -/
def IsLexeme (s : Units) : Prop :=
  ∃ sign i f e, s = sign ++ i ++ f ++ e ∧ (sign = [] ∨ sign = [0x2d]) ∧ IsIntegral i ∧ IsFraction f ∧ IsExponent e ∧
    (f = [] → e = [] → 2 ^ 53 ≤ ofDecimal i)

/-- A finite number: a safe integer, or a number that its text is rounded to. -/
def IsFinite (double : Units → Number) : Number → Prop
  | .int n => n.natAbs < 2 ^ 53
  | .float lexeme => IsLexeme lexeme ∧ double lexeme = .float lexeme

theorem IsIntegral.parse {i : Units} (h : IsIntegral i) (hr : NoDigit rest) :
    parseIntegral (i ++ rest) = some (i, rest) := by
  rcases h with rfl | ⟨u, d, rfl, hu, hdigits⟩
  · rfl
  · unfold parseIntegral
    split
    · next he => exact absurd (List.cons.inj he).1 hu
    · exact parseDigits_append hdigits (List.cons_ne_nil u d) hr

theorem IsIntegral.head {i : Units} (h : IsIntegral i) : ∃ u d, i = u :: d ∧ Units.isDigit u = true := by
  rcases h with rfl | ⟨u, d, rfl, -, hdigits⟩
  · exact ⟨_, _, rfl, rfl⟩
  · exact ⟨u, d, rfl, hdigits u (List.mem_cons_self ..)⟩

/-- **A finite number is read back.** -/
theorem parseNumber_finite {n : Number} (hn : IsFinite double n) (hr : Stops rest) :
    parseNumber double (n.text ++ rest) = some (n, rest) := by
  cases n with
  | int n => exact parseNumber_text (n := .int n) hn hr
  | float lexeme =>
    obtain ⟨⟨sign, i, f, e, rfl, hs, hi, hf, he, hbig⟩, hdouble⟩ := hn
    show parseNumber double (sign ++ i ++ f ++ e ++ rest) = _
    have hsign : (if (sign ≠ [] : Bool) then [0x2d] else [] : Units) = sign := by
      rcases hs with rfl | rfl <;> rfl
    rw [parseNumber_parts hs (fun _ => hi.parse) hi.head hf he hr, numberOf, if_neg, hsign, hdouble]
    rintro ⟨hf, he, hlt⟩
    exact absurd (hbig hf he) (Nat.not_le.2 hlt)

theorem text_finite {n : Number} (hn : IsFinite double n) :
    ∃ u t, n.text = u :: t ∧ (Units.isDigit u = true ∨ u = 0x2d) := by
  cases n with
  | int n => exact text_head (n := .int n) hn
  | float lexeme =>
    obtain ⟨⟨sign, i, f, e, rfl, hs, hi, -⟩, -⟩ := hn
    obtain ⟨u, d, rfl, hu⟩ := hi.head
    rcases hs with rfl | rfl
    · exact ⟨u, d ++ f ++ e, rfl, Or.inl hu⟩
    · exact ⟨0x2d, u :: d ++ f ++ e, rfl, Or.inr rfl⟩

/-! ## Texts -/

mutual

/-- All numbers are finite. -/
def Written (double : Units → Number) : Value → Prop
  | num n => IsFinite double n
  | arr items => WrittenItems double items
  | obj fields => WrittenFields double fields
  | _ => True

def WrittenItems (double : Units → Number) : List Value → Prop
  | [] => True
  | x :: xs => Written double x ∧ WrittenItems double xs

def WrittenFields (double : Units → Number) : List (Units × Value) → Prop
  | [] => True
  | (_, x) :: fs => Written double x ∧ WrittenFields double fs

end

theorem written_head {v : Value} (hv : v.Written double) : ∃ u t, v.stringify = u :: t ∧ Starts u := by
  cases v with
  | null => exact ⟨_, _, rfl, by unfold Starts; decide⟩
  | bool b => cases b <;> exact ⟨_, _, rfl, by unfold Starts; decide⟩
  | num n =>
    obtain ⟨u, t, ht, hu⟩ := text_finite hv
    exact ⟨u, t, ht, (starts_number hu).1⟩
  | str s => exact ⟨_, _, rfl, by unfold Starts; decide⟩
  | arr items => cases items <;> exact ⟨_, _, rfl, by unfold Starts; decide⟩
  | obj fields => cases fields <;> exact ⟨_, _, rfl, by unfold Starts; decide⟩

theorem readToken_finite {n : Number} (hn : IsFinite double n) (hr : Stops rest) :
    readToken double (n.text ++ rest) = some (num n, rest) := by
  obtain ⟨u, t, ht, hu⟩ := text_finite hn
  obtain ⟨-, -, -, -, hnull, htrue, hfalse⟩ := starts_number hu
  have hparse := parseNumber_finite hn hr
  rw [ht, List.cons_append] at hparse ⊢
  rw [readToken, null_units, true_units, false_units, if_neg (not_isPrefixOf hnull), if_neg (not_isPrefixOf htrue),
    if_neg (not_isPrefixOf hfalse), hparse]
  rfl

theorem readString_quote (s rest : Units) : parseString ((escape s ++ [0x22]) ++ rest) = some (s, rest) := by
  rw [List.append_assoc]
  exact parseString_escape s rest

mutual

theorem readValue_stringify : ∀ (v : Value) (fuel : ℕ) (rest : Units), v.Written double →
    v.stringify.length < fuel → Stops rest → readValue double fuel (v.stringify ++ rest) = some (v, rest)
  | v, 0, _, _, hf, _ => absurd hf (Nat.not_lt_zero _)
  | null, fuel + 1, rest, _, _, _ => rfl
  | bool true, fuel + 1, rest, _, _, _ => rfl
  | bool false, fuel + 1, rest, _, _, _ => rfl
  | num n, fuel + 1, rest, hv, _, hr => by
    obtain ⟨u, t, ht, hu⟩ := text_finite hv
    obtain ⟨hstarts, h1, h2, h3, -⟩ := starts_number hu
    have hspace : skipSpace ((num n).stringify ++ rest) = u :: (t ++ rest) := by
      show skipSpace (n.text ++ rest) = _
      rw [ht]
      exact skipSpace_cons hstarts.1
    have htoken := readToken_finite hv hr
    rw [ht, List.cons_append] at htoken
    rw [readValue_token hspace h1 h2 h3, htoken]
  | str s, fuel + 1, rest, _, _, _ => by
    have hspace : skipSpace ((str s).stringify ++ rest) = 0x22 :: ((escape s ++ [0x22]) ++ rest) :=
      skipSpace_cons (by decide)
    rw [readValue_string hspace, readString_quote]
    rfl
  | arr [], fuel + 1, rest, _, _, _ => rfl
  | arr (x :: xs), fuel + 1, rest, hv, hf, _ => by
    obtain ⟨hx, hxs⟩ : Written double x ∧ WrittenItems double xs := hv
    have hlen : (arr (x :: xs)).stringify.length = x.stringify.length + (stringifyItems xs).length + 1 := by
      simp [stringify]
    have hvalue := readValue_stringify x fuel (stringifyItems xs ++ rest) hx (by omega) (stops_items xs rest)
    have hitems := readItems_stringify xs fuel rest hxs (by omega)
    obtain ⟨u, t, ht, hspace, hne, -⟩ := written_head hx
    have htext : skipSpace ((arr (x :: xs)).stringify ++ rest) = 0x5b :: (x.stringify ++ (stringifyItems xs ++ rest)) := by
      simp only [stringify, List.cons_append, List.append_assoc]
      exact skipSpace_cons (by decide)
    have hfirst : skipSpace (x.stringify ++ (stringifyItems xs ++ rest)) = x.stringify ++ (stringifyItems xs ++ rest) := by
      rw [ht]
      exact skipSpace_cons hspace
    rw [readValue_array htext, hfirst, hvalue, Option.bind_some, hitems]
    · rfl
    · intro tail he
      rw [hfirst, ht] at he
      exact hne (List.cons.inj he).1
  | obj [], fuel + 1, rest, _, _, _ => rfl
  | obj ((k, x) :: fs), fuel + 1, rest, hv, hf, _ => by
    obtain ⟨hx, hfs⟩ : Written double x ∧ WrittenFields double fs := hv
    have hlen : (obj ((k, x) :: fs)).stringify.length =
        x.stringify.length + (stringifyFields fs).length + (escape k).length + 4 := by
      simp [stringify, quote]
      omega
    have hfield := readField_stringify k x fuel (stringifyFields fs ++ rest) hx (by omega) (stops_fields fs rest)
    have hfields := readFields_stringify fs fuel rest hfs (by omega)
    have htext : skipSpace ((obj ((k, x) :: fs)).stringify ++ rest) =
        0x7b :: (quote k ++ 0x3a :: (x.stringify ++ (stringifyFields fs ++ rest))) := by
      simp only [stringify, List.cons_append, List.append_assoc]
      exact skipSpace_cons (by decide)
    have hfirst : skipSpace (quote k ++ 0x3a :: (x.stringify ++ (stringifyFields fs ++ rest))) =
        quote k ++ 0x3a :: (x.stringify ++ (stringifyFields fs ++ rest)) := skipSpace_cons (by decide)
    rw [readValue_object htext, hfirst, hfield, Option.bind_some]
    · dsimp only
      rw [hfields]
      rfl
    · intro tail he
      rw [hfirst] at he
      exact absurd (List.cons.inj he).1 (by decide)

theorem readItems_stringify : ∀ (xs : List Value) (fuel : ℕ) (rest : Units), WrittenItems double xs →
    (stringifyItems xs).length < fuel → readItems double fuel (stringifyItems xs ++ rest) = some (xs, rest)
  | _, 0, _, _, hf => absurd hf (Nat.not_lt_zero _)
  | [], fuel + 1, rest, _, _ => rfl
  | x :: xs, fuel + 1, rest, hv, hf => by
    obtain ⟨hx, hxs⟩ : Written double x ∧ WrittenItems double xs := hv
    have hlen : (stringifyItems (x :: xs)).length = x.stringify.length + (stringifyItems xs).length + 1 := by
      simp [stringifyItems]
    have hvalue := readValue_stringify x fuel (stringifyItems xs ++ rest) hx (by omega) (stops_items xs rest)
    have hitems := readItems_stringify xs fuel rest hxs (by omega)
    have hcomma : readItems double (fuel + 1) (stringifyItems (x :: xs) ++ rest) =
        (readValue double fuel (x.stringify ++ (stringifyItems xs ++ rest))).bind fun y =>
          (readItems double fuel y.2).map fun ys => (y.1 :: ys.1, ys.2) := by
      rw [← List.append_assoc]
      rfl
    rw [hcomma, hvalue, Option.bind_some, hitems]
    rfl

theorem readField_stringify : ∀ (k : Units) (x : Value) (fuel : ℕ) (rest : Units), x.Written double →
    x.stringify.length + 1 < fuel → Stops rest →
    readField double fuel (quote k ++ 0x3a :: (x.stringify ++ rest)) = some (k, x, rest)
  | _, _, 0, _, _, hf, _ => absurd hf (Nat.not_lt_zero _)
  | k, x, fuel + 1, rest, hx, hf, hr => by
    have hvalue := readValue_stringify x fuel rest hx (by omega) hr
    have hquote : readField double (fuel + 1) (quote k ++ 0x3a :: (x.stringify ++ rest)) =
        (parseString ((escape k ++ [0x22]) ++ 0x3a :: (x.stringify ++ rest))).bind fun p =>
          match skipSpace p.2 with
          | 0x3a :: rest => (readValue double fuel rest).map fun x => (p.1, x.1, x.2)
          | _ => none := rfl
    rw [hquote, readString_quote, Option.bind_some]
    show (readValue double fuel (x.stringify ++ rest)).map _ = _
    rw [hvalue]
    rfl

theorem readFields_stringify : ∀ (fs : List (Units × Value)) (fuel : ℕ) (rest : Units), WrittenFields double fs →
    (stringifyFields fs).length < fuel → readFields double fuel (stringifyFields fs ++ rest) = some (fs, rest)
  | _, 0, _, _, hf => absurd hf (Nat.not_lt_zero _)
  | [], fuel + 1, rest, _, _ => rfl
  | (k, x) :: fs, fuel + 1, rest, hv, hf => by
    obtain ⟨hx, hfs⟩ : Written double x ∧ WrittenFields double fs := hv
    have hlen : (stringifyFields ((k, x) :: fs)).length =
        x.stringify.length + (stringifyFields fs).length + (escape k).length + 4 := by
      simp [stringifyFields, quote]
      omega
    have hfield := readField_stringify k x fuel (stringifyFields fs ++ rest) hx (by omega) (stops_fields fs rest)
    have hfields := readFields_stringify fs fuel rest hfs (by omega)
    have htext : stringifyFields ((k, x) :: fs) ++ rest =
        0x2c :: (quote k ++ 0x3a :: (x.stringify ++ (stringifyFields fs ++ rest))) := by
      simp [stringifyFields]
    have hcomma : readFields double (fuel + 1) (stringifyFields ((k, x) :: fs) ++ rest) =
        (readField double fuel (quote k ++ 0x3a :: (x.stringify ++ (stringifyFields fs ++ rest)))).bind fun f =>
          (readFields double fuel f.2.2).map fun fs => ((f.1, f.2.1) :: fs.1, fs.2) := by
      rw [htext]
      rfl
    rw [hcomma, hfield, Option.bind_some]
    dsimp only
    rw [hfields]
    rfl

end

/-- **A value is read back with all its members.** -/
theorem members_stringify {v : Value} (hv : v.Written double) : members double v.stringify = some v := by
  have hread := readValue_stringify v (v.stringify.length + 1) [] hv (Nat.lt_succ_self _) (by rintro u ⟨⟩)
  rw [List.append_nil] at hread
  rw [members, hread]
  rfl

/-! ## Order -/

/-- The keys are distinct, and in the order that an object keeps. -/
def InOrder (fields : List (Units × Value)) : Prop :=
  fields.Pairwise fun f g => f.1 ≠ g.1 ∧ after g.1 f.1 = false

theorem set_last (h : InOrder (fields ++ [(k, x)])) : set k x fields = fields ++ [(k, x)] := by
  obtain ⟨-, -, hlast⟩ := List.pairwise_append.1 h
  have hany : ¬ fields.any (·.1 == k) = true := by
    simp only [List.any_eq_true, beq_iff_eq, not_exists, not_and]
    exact fun f hf => (hlast f hf (k, x) (List.mem_singleton_self _)).1
  have hafter : ∀ f ∈ fields, (!after k f.1) = true := by
    intro f hf
    rw [(hlast f hf (k, x) (List.mem_singleton_self _)).2]
    rfl
  unfold set
  rw [if_neg hany, List.takeWhile_eq_self_iff.2 hafter, List.dropWhile_eq_nil_iff.2 hafter]

mutual

/-- The fields of each object are in order. -/
def Ordered : Value → Prop
  | arr items => OrderedItems items
  | obj fields => InOrder fields ∧ OrderedFields fields
  | _ => True

def OrderedItems : List Value → Prop
  | [] => True
  | x :: xs => Ordered x ∧ OrderedItems xs

def OrderedFields : List (Units × Value) → Prop
  | [] => True
  | (_, x) :: fs => Ordered x ∧ OrderedFields fs

end

mutual

theorem merged_ordered : ∀ v : Value, v.Ordered → merged v = v
  | null, _ | bool _, _ | num _, _ | str _, _ => rfl
  | arr items, hv => congrArg arr (mergedItems_ordered items hv)
  | obj fields, hv => congrArg obj (mergedFields_ordered fields [] hv.2 hv.1)

theorem mergedItems_ordered : ∀ xs : List Value, OrderedItems xs → mergedItems xs = xs
  | [], _ => rfl
  | x :: xs, hv => by
    obtain ⟨hx, hxs⟩ : Ordered x ∧ OrderedItems xs := hv
    rw [mergedItems, merged_ordered x hx, mergedItems_ordered xs hxs]

theorem mergedFields_ordered : ∀ fs fields : List (Units × Value), OrderedFields fs → InOrder (fields ++ fs) →
    mergedFields fields fs = fields ++ fs
  | [], fields, _, _ => (List.append_nil fields).symm
  | (k, x) :: fs, fields, hv, ho => by
    obtain ⟨hx, hfs⟩ : Ordered x ∧ OrderedFields fs := hv
    rw [← List.singleton_append, ← List.append_assoc] at ho
    have hset : set k x fields = fields ++ [(k, x)] := set_last (List.pairwise_append.1 ho).1
    rw [mergedFields, merged_ordered x hx, hset, mergedFields_ordered fs _ hfs ho, List.append_assoc]
    rfl

end

/-- **A value is read back.** -/
theorem parse_written {v : Value} (hw : v.Written double) (ho : v.Ordered) : parse double v.stringify = some v := by
  rw [parse_eq, members_stringify hw, Option.map_some, merged_ordered v ho]

/-! ## Plain values -/

mutual

/-- The numbers are safe integers and the keys are distinct names, none of which is
    an array index. -/
def Plain : Value → Prop
  | num n => Safe n
  | arr items => PlainItems items
  | obj fields => (fields.map (·.1)).Nodup ∧ PlainFields fields
  | _ => True

def PlainItems : List Value → Prop
  | [] => True
  | x :: xs => Plain x ∧ PlainItems xs

def PlainFields : List (Units × Value) → Prop
  | [] => True
  | (k, x) :: fs => isIndex k = false ∧ Plain x ∧ PlainFields fs

end

mutual

theorem plain_written : ∀ v : Value, v.Plain → v.Written double
  | null, _ | bool _, _ | str _, _ => trivial
  | num (.int _), hv => hv
  | num (.float _), hv => hv.elim
  | arr items, hv => plainItems_written items hv
  | obj fields, hv => plainFields_written fields hv.2

theorem plainItems_written : ∀ xs : List Value, PlainItems xs → WrittenItems double xs
  | [], _ => trivial
  | x :: xs, hv => ⟨plain_written x hv.1, plainItems_written xs hv.2⟩

theorem plainFields_written : ∀ fs : List (Units × Value), PlainFields fs → WrittenFields double fs
  | [], _ => trivial
  | (_, x) :: fs, hv => ⟨plain_written x hv.2.1, plainFields_written fs hv.2.2⟩

end

/-- Distinct names are in order. -/
theorem inOrder_names (hn : (fields.map (·.1)).Nodup) (hi : ∀ f ∈ fields, isIndex f.1 = false) : InOrder fields := by
  rw [List.Nodup, List.pairwise_map] at hn
  refine hn.imp_of_mem fun hf hg hne => ⟨hne, ?_⟩
  rw [after, hi _ hg]
  rfl

mutual

theorem plain_ordered : ∀ v : Value, v.Plain → v.Ordered
  | null, _ | bool _, _ | str _, _ | num _, _ => trivial
  | arr items, hv => plainItems_ordered items hv
  | obj fields, hv => ⟨inOrder_names hv.1 (plainFields_ordered fields hv.2).2, (plainFields_ordered fields hv.2).1⟩

theorem plainItems_ordered : ∀ xs : List Value, PlainItems xs → OrderedItems xs
  | [], _ => trivial
  | x :: xs, hv => ⟨plain_ordered x hv.1, plainItems_ordered xs hv.2⟩

theorem plainFields_ordered : ∀ fs : List (Units × Value), PlainFields fs →
    OrderedFields fs ∧ ∀ f ∈ fs, isIndex f.1 = false
  | [], _ => ⟨trivial, by simp⟩
  | (_, x) :: fs, hv => by
    obtain ⟨hfs, hnames⟩ := plainFields_ordered fs hv.2.2
    refine ⟨⟨plain_ordered x hv.2.1, hfs⟩, ?_⟩
    rw [List.forall_mem_cons]
    exact ⟨hv.1, hnames⟩

end

/-- **JSON text is read back.** -/
theorem parse_stringify {v : Value} (hv : v.Plain) : parse double v.stringify = some v :=
  parse_written (plain_written v hv) (plain_ordered v hv)

theorem stringify_injective {v w : Value} (hv : v.Plain) (hw : w.Plain) (h : v.stringify = w.stringify) :
    v = w := by
  have hparse := @parse_stringify .float _ hv
  rw [h, parse_stringify hw] at hparse
  exact (Option.some.inj hparse).symm

end Js.Value
