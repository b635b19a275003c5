/-
  The text of a JSON number: its integral digits, its fraction and its exponent are
  read again without what comes after them.
-/
import PaPlatform.Lib.JsonMembers

namespace Js.Value

variable {double : Units → Number} {s t rest : Units}

theorem parseDigits_eq_some {d : Units} (h : parseDigits s = some (d, rest)) :
    d ≠ [] ∧ (∀ u ∈ d, Units.isDigit u = true) ∧ s = d ++ rest ∧ ∀ u ∈ rest.head?, Units.isDigit u = false := by
  unfold parseDigits at h
  split_ifs at h with he
  simp only [Option.some.injEq, Prod.mk.injEq] at h
  obtain ⟨rfl, rfl⟩ := h
  refine ⟨by simpa [List.isEmpty_iff] using he, fun u hu => List.mem_takeWhile_imp hu,
    (List.takeWhile_append_dropWhile).symm, fun u hu => ?_⟩
  have hd := List.head?_dropWhile_not Units.isDigit s
  rw [Option.mem_def] at hu
  rw [hu] at hd
  exact hd

/-- The text does not go on with a digit. -/
def NoDigit (s : Units) : Prop := ∀ u ∈ s.head?, Units.isDigit u = false

theorem parseIntegral_eq_some {d : Units} (h : parseIntegral s = some (d, rest)) :
    s = d ++ rest ∧ (∃ u l, d = u :: l ∧ Units.isDigit u = true) ∧
      ∀ tail, NoDigit tail → parseIntegral (d ++ tail) = some (d, tail) := by
  unfold parseIntegral at h
  split at h
  · simp only [Option.some.injEq, Prod.mk.injEq] at h
    obtain ⟨rfl, rfl⟩ := h
    exact ⟨rfl, ⟨_, _, rfl, rfl⟩, fun tail _ => rfl⟩
  · next hne =>
    obtain ⟨hd, hdigits, rfl, -⟩ := parseDigits_eq_some h
    cases d with
    | nil => exact absurd rfl hd
    | cons u l =>
      refine ⟨rfl, ⟨u, l, rfl, hdigits u (List.mem_cons_self ..)⟩, fun tail htail => ?_⟩
      unfold parseIntegral
      split
      · next he => exact absurd (by rw [List.cons_append, (List.cons.inj he).1]) (hne (l ++ rest))
      · exact parseDigits_append hdigits hd htail

/-- A fraction, or nothing. -/
def IsFraction (f : Units) : Prop := f = [] ∨ ∃ d, f = 0x2e :: d ∧ d ≠ [] ∧ ∀ u ∈ d, Units.isDigit u = true

/-- An exponent, or nothing. -/
def IsExponent (e : Units) : Prop :=
  e = [] ∨ ∃ u sign d, e = u :: (sign ++ d) ∧ (u = 0x65 ∨ u = 0x45) ∧ (sign = [] ∨ sign = [0x2b] ∨ sign = [0x2d]) ∧
    d ≠ [] ∧ ∀ u ∈ d, Units.isDigit u = true

theorem parseFraction_eq_some {f : Units} (h : parseFraction s = some (f, rest)) : IsFraction f := by
  unfold parseFraction at h
  split at h
  · simp only [Option.map_eq_some_iff, Prod.mk.injEq, Prod.exists] at h
    obtain ⟨d, t, hp, rfl, rfl⟩ := h
    have hd := parseDigits_eq_some hp
    exact Or.inr ⟨d, rfl, hd.1, hd.2.1⟩
  · simp only [Option.some.injEq, Prod.mk.injEq] at h
    exact Or.inl h.1.symm

theorem parseFraction_eq_none (h : parseFraction s = none) : ∃ t, s = 0x2e :: t := by
  unfold parseFraction at h
  split at h
  · exact ⟨_, rfl⟩
  · simp at h

theorem parseSign_cases (s : Units) : ((parseSign s).1 = [] ∨ (parseSign s).1 = [0x2b] ∨ (parseSign s).1 = [0x2d]) := by
  unfold parseSign
  split <;> simp

theorem parseExponent_eq_some {e : Units} (h : parseExponent s = some (e, rest)) : IsExponent e := by
  unfold parseExponent at h
  split at h
  · simp only [Option.some.injEq, Prod.mk.injEq] at h
    exact Or.inl h.1.symm
  · next u t =>
    split_ifs at h with hu
    · simp only [Option.map_eq_some_iff, Prod.mk.injEq, Prod.exists] at h
      obtain ⟨d, r, hp, rfl, rfl⟩ := h
      have hd := parseDigits_eq_some hp
      exact Or.inr ⟨u, _, d, rfl, hu, parseSign_cases t, hd.1, hd.2.1⟩
    · simp only [Option.some.injEq, Prod.mk.injEq] at h
      exact Or.inl h.1.symm

theorem parseExponent_eq_none (h : parseExponent s = none) : ∃ u t, s = u :: t ∧ (u = 0x65 ∨ u = 0x45) := by
  unfold parseExponent at h
  split at h
  · simp at h
  · next u t =>
    split_ifs at h with hu
    exact ⟨u, t, rfl, hu⟩

theorem digit_ne {u : UInt16} (h : Units.isDigit u = true) : u ≠ 0x2e ∧ u ≠ 0x2b ∧ u ≠ 0x2d ∧ u ≠ 0x65 ∧ u ≠ 0x45 := by
  refine ⟨?_, ?_, ?_, ?_, ?_⟩ <;>
    · rintro rfl
      exact absurd h (by decide)

/-- The text goes on with neither a digit nor a fraction. -/
def NoFraction (s : Units) : Prop := ∀ u ∈ s.head?, Units.isDigit u = false ∧ u ≠ 0x2e

/-- An exponent is read as a whole. -/
theorem parseExponent_append {e : Units} (h : IsExponent e) (hr : Stops rest) :
    parseExponent (e ++ rest) = some (e, rest) := by
  rcases h with rfl | ⟨u, sign, d, rfl, hu, hsign, hd, hdigits⟩
  · exact parseExponent_stops hr
  · have hs : parseSign (sign ++ (d ++ rest)) = (sign, d ++ rest) := by
      rcases hsign with rfl | rfl | rfl
      · cases d with
        | nil => exact absurd rfl hd
        | cons v l =>
          have hv := digit_ne (hdigits v (List.mem_cons_self ..))
          rw [List.nil_append, List.cons_append]
          unfold parseSign
          split
          · next he => exact absurd (List.cons.inj he).1 hv.2.1
          · next he => exact absurd (List.cons.inj he).1 hv.2.2.1
          · rfl
      · rfl
      · rfl
    rw [List.cons_append, List.append_assoc, parseExponent, if_pos hu, hs,
      parseDigits_append hdigits hd fun v hv => (hr v hv).1]
    rfl

theorem IsExponent.noFraction {e : Units} (h : IsExponent e) (hr : Stops rest) : NoFraction (e ++ rest) := by
  rcases h with rfl | ⟨u, sign, d, rfl, hu, -⟩
  · exact fun v hv => ⟨(hr v hv).1, (hr v hv).2.1⟩
  · rintro v ⟨⟩
    rcases hu with rfl | rfl <;> decide

/-- A fraction is read without its exponent. -/
theorem parseFraction_append {f : Units} (hf : IsFraction f) (hr : NoFraction rest) :
    parseFraction (f ++ rest) = some (f, rest) := by
  rcases hf with rfl | ⟨d, rfl, hd, hdigits⟩
  · rw [List.nil_append]
    unfold parseFraction
    split
    · exact absurd rfl (hr _ rfl).2
    · rfl
  · show (parseDigits (d ++ rest)).map _ = _
    rw [parseDigits_append hdigits hd fun v hv => (hr v hv).1]
    rfl

theorem IsFraction.noDigit {f : Units} (hf : IsFraction f) (hr : NoFraction rest) : NoDigit (f ++ rest) := by
  rcases hf with rfl | ⟨d, rfl, -⟩
  · exact fun v hv => (hr v hv).1
  · rintro v ⟨⟩
    rfl

/-- The number with an integral part, a fraction and an exponent. -/
def numberOf (double : Units → Number) (negative : Bool) (integral fraction exponent : Units) : Number :=
  if fraction = [] ∧ exponent = [] ∧ ofDecimal integral < 2 ^ 53 then
    .int (if negative then -(ofDecimal integral : ℤ) else ofDecimal integral)
  else double ((if negative then [0x2d] else []) ++ integral ++ fraction ++ exponent)

theorem parseUnsigned_eq {negative : Bool} : parseUnsigned double negative s =
    (parseIntegral s).bind fun i => (parseFraction i.2).bind fun f => (parseExponent f.2).map fun e =>
      (numberOf double negative i.1 f.1 e.1, e.2) := by
  unfold parseUnsigned numberOf
  cases parseIntegral s with
  | none => rfl
  | some i =>
    simp only [Option.bind_eq_bind, Option.bind_some]
    cases parseFraction i.2 with
    | none => rfl
    | some f =>
      simp only [Option.bind_some]
      cases parseExponent f.2 with
      | none => rfl
      | some e =>
        simp only [Option.bind_some, Option.map_some]
        split_ifs <;> rfl

theorem parseNumber_eq : parseNumber double s =
    if s.head? = some 0x2d then parseUnsigned double true (s.drop 1) else parseUnsigned double false s := by
  unfold parseNumber
  split
  · rfl
  · next hne =>
    rw [if_neg]
    intro hs
    cases s with
    | nil => cases hs
    | cons u t =>
      simp only [List.head?_cons, Option.some.injEq] at hs
      subst hs
      exact hne t rfl

/-- A sign, integral digits, a fraction and an exponent are a number. -/
theorem parseNumber_parts {sign i f e : Units} (hs : sign = [] ∨ sign = [0x2d])
    (hi : ∀ tail, NoDigit tail → parseIntegral (i ++ tail) = some (i, tail))
    (hd : ∃ u l, i = u :: l ∧ Units.isDigit u = true) (hf : IsFraction f) (he : IsExponent e) (hr : Stops rest) :
    parseNumber double (sign ++ i ++ f ++ e ++ rest) = some (numberOf double (sign ≠ []) i f e, rest) := by
  have hu : ∀ negative, parseUnsigned double negative (i ++ (f ++ (e ++ rest))) =
      some (numberOf double negative i f e, rest) := by
    intro negative
    have hfraction := he.noFraction hr
    rw [parseUnsigned_eq, hi _ (hf.noDigit hfraction), Option.bind_some, parseFraction_append hf hfraction,
      Option.bind_some, parseExponent_append he hr]
    rfl
  rw [parseNumber_eq, List.append_assoc, List.append_assoc, List.append_assoc]
  rcases hs with rfl | rfl
  · obtain ⟨u, l, rfl, hd⟩ := hd
    rw [if_neg (by
      intro h
      simp only [List.nil_append, List.cons_append, List.head?_cons, Option.some.injEq] at h
      rw [h] at hd
      exact absurd hd (by decide)), List.nil_append, hu]
    rfl
  · rw [if_pos (by rfl)]
    show parseUnsigned double true (i ++ (f ++ (e ++ rest))) = _
    rw [hu]
    rfl

theorem parseNumber_token {sign i f e : Units} (hs : sign = [] ∨ sign = [0x2d])
    (hi : ∀ tail, NoDigit tail → parseIntegral (i ++ tail) = some (i, tail))
    (hd : ∃ u l, i = u :: l ∧ Units.isDigit u = true) (hf : IsFraction f) (he : IsExponent e) :
    parseNumber double (sign ++ i ++ f ++ e) = some (numberOf double (sign ≠ []) i f e, []) := by
  have h := @parseNumber_parts double [] sign i f e hs hi hd hf he (by rintro u ⟨⟩)
  rwa [List.append_nil] at h

end Js.Value
