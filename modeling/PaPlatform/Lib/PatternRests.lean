/-
  Patterns that assert nothing of the units around them.

  Where such a pattern ends depends on the text after it only (`rests`), and its
  match is the first end (`first`).
-/
import PaPlatform.Lib.Pattern

namespace Js.Pattern

/-- There is no assertion in the pattern. -/
def plain : Pattern → Bool
  | edge _ => false
  | seq a b | alt a b => plain a && plain b
  | star a => plain a
  | empty | unit _ => true

/-- The rests after a greedy repetition. -/
def iterations (f : Units → List Units) : ℕ → Units → List Units
  | 0, s => [s]
  | fuel + 1, s => (f s).flatMap (fun t => if t.length < s.length then iterations f fuel t else []) ++ [s]

/-- The rests of a text after a plain pattern, in the order in which they are tried. -/
def rests : Pattern → Units → List Units
  | empty, s => [s]
  | unit p, s =>
    match s with
    | [] => []
    | u :: rest => if p u then [rest] else []
  | edge _, _ => []
  | seq a b, s => (rests a s).flatMap (rests b)
  | alt a b, s => rests a s ++ rests b s
  | star a, s => iterations (rests a) s.length s

/-- The rest after the match. -/
def first (a : Pattern) (s : Units) : Option Units := (rests a s).head?

variable {a b : Pattern} {p : UInt16 → Bool} {s t : Units} {u : UInt16} {K : Units → Option Units}

theorem repeats_iterations {f : Place → List Place} {g : Units → List Units}
    (h : ∀ x, (f x).map (·.2) = g x.2) (fuel : ℕ) (x : Place) :
    (repeats f fuel x).map (·.2) = iterations g fuel x.2 := by
  induction fuel generalizing x with
  | zero => rfl
  | succ fuel ih =>
    have hinner : ∀ y : Place, (if y.2.length < x.2.length then repeats f fuel y else []).map (·.2) =
        if y.2.length < x.2.length then iterations g fuel y.2 else [] := by
      intro y
      split_ifs
      · exact ih y
      · rfl
    rw [repeats, iterations, List.map_append, List.map_flatMap, ← h, List.flatMap_map]
    simp only [hinner, List.map_cons, List.map_nil]

/-- The unit before a place does not matter. -/
theorem ends_rests (h : a.plain = true) (x : Place) : (a.ends x).map (·.2) = a.rests x.2 := by
  induction a generalizing x with
  | empty => rfl
  | unit p =>
    obtain ⟨before, s⟩ := x
    cases s with
    | nil => rfl
    | cons u s =>
      simp only [ends, rests]
      split_ifs <;> rfl
  | edge p => cases h
  | seq a b iha ihb =>
    obtain ⟨ha, hb⟩ := Bool.and_eq_true_iff.1 h
    simp only [ends, rests, List.map_flatMap, ihb hb]
    rw [← iha ha, List.flatMap_map]
  | alt a b iha ihb =>
    obtain ⟨ha, hb⟩ := Bool.and_eq_true_iff.1 h
    simp only [ends, rests, List.map_append, iha ha, ihb hb]
  | star a ih => exact repeats_iterations (ih h) _ x

/-- The match of a plain pattern. -/
theorem find_eq (h : a.plain = true) (s : Units) : a.find s = (a.first s).map fun rest => s.length - rest.length := by
  have hends := ends_rests h (none, s)
  rw [find, first, ← hends, List.head?_map, Option.map_map]
  rfl

/-! ## The first rest -/

theorem first_seq (a b : Pattern) (s : Units) : (seq a b).first s = (a.rests s).findSome? b.first := List.head?_flatMap

theorem first_alt (a b : Pattern) (s : Units) : (alt a b).first s = (a.first s).or (b.first s) := List.head?_append

theorem first_unit : (unit p).first (u :: s) = if p u then some s else none := by
  simp only [first, rests]
  split_ifs <;> rfl

theorem rests_star_nil : (star (unit p)).rests [] = [[]] := rfl

theorem rests_star_cons : (star (unit p)).rests (u :: s) =
    if p u then (star (unit p)).rests s ++ [u :: s] else [u :: s] := by
  simp only [rests, List.length_cons, iterations]
  split_ifs
  · simp
  · rfl

/-- A greedy repetition, before what cannot begin with one of its units. -/
theorem findSome_star (h : ∀ u t, p u = true → K (u :: t) = none) :
    ((star (unit p)).rests s).findSome? K = K (s.dropWhile p) := by
  induction s with
  | nil => simp [rests_star_nil]
  | cons u s ih =>
    rw [rests_star_cons]
    split_ifs with hu
    · rw [List.findSome?_append, ih, List.dropWhile_cons_of_pos hu, List.findSome?_singleton, h u s hu, Option.or_none]
    · rw [List.dropWhile_cons_of_neg hu, List.findSome?_singleton]

theorem first_star : (star (unit p)).first s = some (s.dropWhile p) := by
  induction s with
  | nil => rfl
  | cons u s ih =>
    rw [first] at ih ⊢
    rw [rests_star_cons]
    split_ifs with hu
    · rw [List.head?_append, ih, List.dropWhile_cons_of_pos hu, Option.some_or]
    · rw [List.dropWhile_cons_of_neg hu]
      rfl

theorem rests_plus : (plus (unit p)).rests (u :: s) = if p u then (star (unit p)).rests s else [] := by
  rw [plus, rests, rests]
  split_ifs
  · rw [List.flatMap_singleton]
  · rfl

/-- One unit or more. -/
theorem first_plus : (plus (unit p)).first (u :: s) = if p u then some (s.dropWhile p) else none := by
  rw [first, rests_plus]
  split_ifs
  · exact first_star
  · rfl

/-- An optional part is read if it is there. -/
theorem first_opt (a : Pattern) (s : Units) : (opt a).first s = some ((a.first s).getD s) := by
  rw [opt, first_alt, show empty.first s = some s from rfl]
  cases a.first s <;> rfl

/-- After a part that has a rest, what always has one is read there. -/
theorem first_seq_of_some {r : Units} (h : a.first s = some t) (hb : b.first t = some r) :
    (seq a b).first s = some r := by
  obtain ⟨l, hl⟩ := List.head?_eq_some_iff.1 h
  rw [first_seq, hl, List.findSome?_cons, hb]

end Js.Pattern
