/-
  Strings and safe integers are read back from their JSON texts.
-/
import PaPlatform.Lib.JsonText

namespace Js.Value

open Units

variable {double : Units → Number}

/-! ## Strings -/

theorem hexValue_hexUnit : ∀ n < 16, hexValue (hexUnit n) = some n := by decide

theorem hexUnits_escapeNumber (u : UInt16) :
    hexUnits (hexUnit (u.toNat / 4096)) (hexUnit (u.toNat / 256 % 16)) (hexUnit (u.toNat / 16 % 16))
      (hexUnit (u.toNat % 16)) = some u := by
  have hu := u.toNat_lt
  unfold hexUnits
  rw [hexValue_hexUnit _ (by omega), hexValue_hexUnit _ (by omega), hexValue_hexUnit _ (by omega),
    hexValue_hexUnit _ (by omega)]
  have hdigits : ((u.toNat / 4096 * 16 + u.toNat / 256 % 16) * 16 + u.toNat / 16 % 16) * 16 + u.toNat % 16 =
      u.toNat := by omega
  show some (UInt16.ofNat _) = some u
  rw [hdigits, UInt16.ofNat_toNat]

theorem parseString_plain {u : UInt16} {rest : Units} (hq : u ≠ 0x22) (hb : u ≠ 0x5c) (hc : ¬ u < 0x20) :
    parseString (u :: rest) = (parseString rest).map fun p => (u :: p.1, p.2) := by
  rw [parseString.eq_def]
  dsimp only
  rw [if_neg hq, if_neg hb, if_neg hc]

theorem parseString_number {u : UInt16} {rest : Units} :
    parseString (escapeNumber u ++ rest) = (parseString rest).map fun p => (u :: p.1, p.2) := by
  show parseString (0x5c :: 0x75 :: _ :: _ :: _ :: _ :: rest) = _
  rw [parseString.eq_def]
  dsimp only
  rw [if_neg (by decide), if_pos rfl, if_pos rfl, hexUnits_escapeNumber]
  rfl

theorem unescape_letter : ∀ e ∈ escapes, e.2 ≠ 0x75 ∧ unescape e.2 = some e.1 := by
  intro e he
  simp only [escapes, List.mem_cons, List.not_mem_nil, or_false] at he
  rcases he with rfl | rfl | rfl | rfl | rfl | rfl | rfl <;> exact ⟨by decide, by decide⟩

theorem parseString_letter {u letter : UInt16} {rest : Units} (h : (u, letter) ∈ escapes) :
    parseString (0x5c :: letter :: rest) = (parseString rest).map fun p => (u :: p.1, p.2) := by
  obtain ⟨hne, hu⟩ := unescape_letter _ h
  rw [parseString.eq_def]
  dsimp only
  rw [if_neg (by decide), if_pos rfl, if_neg hne, hu]
  rfl

theorem mem_of_lookup {u letter : UInt16} (h : escapes.lookup u = some letter) : (u, letter) ∈ escapes := by
  rw [List.lookup_eq_some_iff] at h
  obtain ⟨l₁, l₂, hl, -⟩ := h
  rw [hl]
  exact List.mem_append_right _ (List.mem_cons_self ..)

theorem parseString_unit {u : UInt16} {rest : Units} :
    parseString (escapeUnit u ++ rest) = (parseString rest).map fun p => (u :: p.1, p.2) := by
  unfold escapeUnit
  split
  · next letter hl => exact parseString_letter (mem_of_lookup hl)
  · next hl =>
    split_ifs with hn
    · exact parseString_number
    · refine parseString_plain ?_ ?_ fun hlt => hn (Or.inl hlt)
      · rintro rfl
        exact absurd hl (by decide)
      · rintro rfl
        exact absurd hl (by decide)

theorem parseString_surrogate {u : UInt16} {rest : Units} (h : isHigh u = true ∨ isLow u = true) :
    parseString (u :: rest) = (parseString rest).map fun p => (u :: p.1, p.2) := by
  have hu : 0xd800 ≤ u := by
    rcases h with h | h
    · exact of_decide_eq_true (Bool.and_eq_true_iff.1 h).1
    · exact UInt16.le_trans (by decide) (of_decide_eq_true (Bool.and_eq_true_iff.1 h).1)
  have hne : ∀ v : UInt16, v < 0xd800 → u ≠ v := by
    rintro v hv rfl
    exact UInt16.not_le.2 hv hu
  exact parseString_plain (hne _ (by decide)) (hne _ (by decide))
    (UInt16.not_lt.2 (UInt16.le_trans (by decide) hu))

/-- **A string is read back.** -/
theorem parseString_escape (s rest : Units) : parseString (escape s ++ 0x22 :: rest) = some (s, rest) := by
  fun_induction escape s with
  | case1 =>
    rw [List.nil_append, parseString.eq_def]
    rfl
  | case2 u =>
    rw [parseString_unit, parseString.eq_def]
    rfl
  | case3 u v s hpair ih =>
    simp only [Bool.and_eq_true] at hpair
    rw [List.cons_append, List.cons_append, parseString_surrogate (Or.inl hpair.1),
      parseString_surrogate (Or.inr hpair.2), ih]
    rfl
  | case4 u v s hpair ih =>
    rw [List.append_assoc, parseString_unit, ih]
    rfl

/-! ## Numbers -/

/-- The text does not go on with a number. -/
def Stops (rest : Units) : Prop :=
  ∀ u ∈ rest.head?, Units.isDigit u = false ∧ u ≠ 0x2e ∧ u ≠ 0x65 ∧ u ≠ 0x45

theorem stops_cons {u : UInt16} {rest : Units}
    (h : Units.isDigit u = false ∧ u ≠ 0x2e ∧ u ≠ 0x65 ∧ u ≠ 0x45) : Stops (u :: rest) := by
  rintro v ⟨⟩
  exact h

theorem isDigit_ofNat : ∀ d < 10, Units.isDigit (UInt16.ofNat (48 + d)) = true := by decide

theorem decimal_digits (n : ℕ) : ∀ u ∈ decimal n, Units.isDigit u = true := by
  unfold decimal
  split_ifs
  · intro u hu
    rw [List.mem_singleton.1 hu]
    exact isDigit_ofNat 0 (by decide)
  · intro u hu
    obtain ⟨d, hd, rfl⟩ := List.mem_map.1 (List.mem_reverse.1 hu)
    exact isDigit_ofNat d (Nat.digits_lt_base (by decide) hd)

theorem decimal_ne_nil (n : ℕ) : decimal n ≠ [] := by
  unfold decimal
  split_ifs with h
  · exact List.cons_ne_nil _ _
  · simpa [Nat.digits_ne_nil_iff_ne_zero] using h

theorem ofDecimal_decimal (n : ℕ) : ofDecimal (decimal n) = n := by
  unfold ofDecimal decimal
  split_ifs with h
  · rw [h]
    rfl
  · rw [← List.map_reverse, List.reverse_reverse, List.map_map]
    have hdigits : (Nat.digits 10 n).map ((fun u : UInt16 => u.toNat - 48) ∘ fun d => UInt16.ofNat (48 + d)) =
        Nat.digits 10 n := by
      refine (List.map_congr_left fun d hd => ?_).trans (List.map_id _)
      have hlt : d < 10 := Nat.digits_lt_base (by decide) hd
      rw [Function.comp_apply, UInt16.toNat_ofNat_of_lt' (Nat.lt_trans (Nat.add_lt_add_left hlt 48) (by decide)), Nat.add_sub_cancel_left]
      rfl
    rw [hdigits, Nat.ofDigits_digits]

theorem decimal_injective {m n : ℕ} (h : decimal m = decimal n) : m = n := by
  have hof := congrArg ofDecimal h
  rwa [ofDecimal_decimal, ofDecimal_decimal] at hof

theorem decimal_head {n : ℕ} (hn : n ≠ 0) : ∃ u s, decimal n = u :: s ∧ u ≠ 0x30 := by
  have hne : Nat.digits 10 n ≠ [] := Nat.digits_ne_nil_iff_ne_zero.2 hn
  have hlast := Nat.getLast_digit_ne_zero 10 hn
  have hlt : (Nat.digits 10 n).getLast hne < 10 := Nat.digits_lt_base (by decide) (List.getLast_mem hne)
  refine ⟨UInt16.ofNat (48 + (Nat.digits 10 n).getLast hne),
    ((Nat.digits 10 n).dropLast.map fun d => UInt16.ofNat (48 + d)).reverse, ?_, ?_⟩
  · unfold decimal
    rw [if_neg hn]
    conv_lhs => rw [← List.dropLast_append_getLast hne]
    rw [List.map_append, List.reverse_append]
    rfl
  · intro he
    have he := congrArg UInt16.toNat he
    rw [UInt16.toNat_ofNat_of_lt' (Nat.lt_trans (Nat.add_lt_add_left hlt 48) (by decide))] at he
    have he : 48 + (Nat.digits 10 n).getLast hne = 48 + 0 := he
    exact hlast (Nat.add_left_cancel he)

theorem parseDigits_append {s rest : Units} (hs : ∀ u ∈ s, Units.isDigit u = true) (hne : s ≠ [])
    (hr : ∀ u ∈ rest.head?, Units.isDigit u = false) : parseDigits (s ++ rest) = some (s, rest) := by
  have htake : (s ++ rest).takeWhile Units.isDigit = s := by
    rw [List.takeWhile_append_of_pos hs]
    cases rest with
    | nil => exact List.append_nil s
    | cons u rest => rw [List.takeWhile_cons_of_neg (by simp [hr u rfl]), List.append_nil]
  have hdrop : (s ++ rest).dropWhile Units.isDigit = rest := by
    rw [List.dropWhile_append_of_pos hs]
    cases rest with
    | nil => rfl
    | cons u rest => exact List.dropWhile_cons_of_neg (by simp [hr u rfl])
  unfold parseDigits
  rw [htake, hdrop, if_neg (by simpa using hne)]

theorem parseIntegral_decimal {n : ℕ} {rest : Units} (hr : Stops rest) :
    parseIntegral (decimal n ++ rest) = some (decimal n, rest) := by
  by_cases hn : n = 0
  · subst hn
    rfl
  · obtain ⟨u, s, hs, hu⟩ := decimal_head hn
    have hdigits := parseDigits_append (decimal_digits n) (decimal_ne_nil n) fun u hu => (hr u hu).1
    rw [hs, List.cons_append] at hdigits ⊢
    unfold parseIntegral
    split
    · next he => exact absurd (List.cons.inj he).1 hu
    · exact hdigits

theorem parseFraction_stops {rest : Units} (hr : Stops rest) : parseFraction rest = some ([], rest) := by
  unfold parseFraction
  split
  · exact absurd rfl (hr _ rfl).2.1
  · rfl

theorem parseExponent_stops {rest : Units} (hr : Stops rest) : parseExponent rest = some ([], rest) := by
  unfold parseExponent
  split
  · rfl
  · next u rest => rw [if_neg (not_or.2 ⟨(hr u rfl).2.2.1, (hr u rfl).2.2.2⟩)]

theorem parseUnsigned_decimal {n : ℕ} {rest : Units} {negative : Bool} (hn : n < 2 ^ 53) (hr : Stops rest) :
    parseUnsigned double negative (decimal n ++ rest) = some (.int (if negative then -(n : ℤ) else n), rest) := by
  unfold parseUnsigned
  rw [parseIntegral_decimal hr, Option.bind_eq_bind, Option.bind_some]
  dsimp only
  rw [parseFraction_stops hr, Option.bind_some]
  dsimp only
  rw [parseExponent_stops hr, Option.bind_some]
  dsimp only
  rw [ofDecimal_decimal, if_pos ⟨rfl, rfl, hn⟩]
  rfl

/-- A safe integer. -/
def Safe : Number → Prop
  | .int n => n.natAbs < 2 ^ 53
  | .float _ => False

/-- **A safe integer is read back.** -/
theorem parseNumber_text {n : Number} {rest : Units} (hn : Safe n) (hr : Stops rest) :
    parseNumber double (n.text ++ rest) = some (n, rest) := by
  cases n with
  | float lexeme => exact hn.elim
  | int n =>
    unfold Number.text
    dsimp only
    split_ifs with hneg
    · show parseUnsigned double true (decimal n.natAbs ++ rest) = _
      rw [parseUnsigned_decimal hn hr, if_pos rfl]
      have hn : -((n.natAbs : ℕ) : ℤ) = n := by omega
      rw [hn]
    · have hparse := @parseUnsigned_decimal double _ _ false hn hr
      have hdigits := decimal_digits n.natAbs
      cases hd : decimal n.natAbs with
      | nil => exact absurd hd (decimal_ne_nil _)
      | cons u s =>
        rw [hd] at hparse hdigits
        rw [List.cons_append] at hparse ⊢
        unfold parseNumber
        split
        · next he =>
          have hu := hdigits u (List.mem_cons_self ..)
          rw [(List.cons.inj he).1] at hu
          exact absurd hu (by decide)
        · rw [hparse]
          have hn : ((n.natAbs : ℕ) : ℤ) = n := by omega
          simp [hn]

/-! ## The text of a value -/

theorem skipSpace_cons {u : UInt16} {rest : Units} (h : isJsonSpace u = false) :
    skipSpace (u :: rest) = u :: rest :=
  List.dropWhile_cons_of_neg (by simp [h])

theorem text_head {n : Number} (hn : Safe n) :
    ∃ u t, n.text = u :: t ∧ (Units.isDigit u = true ∨ u = 0x2d) := by
  cases n with
  | float lexeme => exact hn.elim
  | int n =>
    unfold Number.text
    dsimp only
    split_ifs
    · exact ⟨_, _, rfl, Or.inr rfl⟩
    · have hdigits := decimal_digits n.natAbs
      cases hd : decimal n.natAbs with
      | nil => exact absurd hd (decimal_ne_nil _)
      | cons u s =>
        rw [hd] at hdigits
        exact ⟨u, s, rfl, Or.inl (hdigits u (List.mem_cons_self ..))⟩

/-- The units that a text of a value can start with. -/
def Starts (u : UInt16) : Prop := isJsonSpace u = false ∧ u ≠ 0x5d ∧ u ≠ 0x7d

theorem starts_number {u : UInt16} (h : Units.isDigit u = true ∨ u = 0x2d) :
    Starts u ∧ u ≠ 0x22 ∧ u ≠ 0x5b ∧ u ≠ 0x7b ∧ u ≠ 0x6e ∧ u ≠ 0x74 ∧ u ≠ 0x66 := by
  rcases h with h | rfl
  · have hlt : u < 0x3a := by
      have h := of_decide_eq_true (Bool.and_eq_true_iff.1 h).2
      exact UInt16.lt_of_le_of_lt h (by decide)
    have hge : 0x30 ≤ u := of_decide_eq_true (Bool.and_eq_true_iff.1 h).1
    have hne : ∀ v : UInt16, (v < 0x30 ∨ 0x3a ≤ v) → u ≠ v := by
      rintro v (hv | hv) rfl
      · exact UInt16.not_le.2 hv hge
      · exact UInt16.not_le.2 hlt hv
    refine ⟨⟨?_, hne _ (by decide), hne _ (by decide)⟩, hne _ (by decide), hne _ (by decide), hne _ (by decide),
      hne _ (by decide), hne _ (by decide), hne _ (by decide)⟩
    simp only [isJsonSpace, Bool.or_eq_false_iff, beq_eq_false_iff_ne]
    exact ⟨⟨⟨hne _ (by decide), hne _ (by decide)⟩, hne _ (by decide)⟩, hne _ (by decide)⟩
  · unfold Starts
    decide

theorem stops_items (xs : List Value) (rest : Units) : Stops (stringifyItems xs ++ rest) := by
  cases xs <;> exact stops_cons (by decide)

theorem stops_fields (fs : List (Units × Value)) (rest : Units) : Stops (stringifyFields fs ++ rest) := by
  cases fs <;> exact stops_cons (by decide)

theorem null_units : units "null" = [0x6e, 0x75, 0x6c, 0x6c] := rfl

theorem true_units : units "true" = [0x74, 0x72, 0x75, 0x65] := rfl

theorem false_units : units "false" = [0x66, 0x61, 0x6c, 0x73, 0x65] := rfl

theorem not_isPrefixOf {u v : UInt16} {s t : Units} (h : u ≠ v) : ¬ (v :: s).isPrefixOf (u :: t) = true := by
  simp [List.isPrefixOf, h.symm]

end Js.Value
