/-
  Chains of moves.

  A history of compare-and-set operations is a list of moves `(a, b)`: the value
  that the operation expected and the value that it left.  `Path a moves b` says
  that the moves lead from `a` to `b`, each from where the one before ended.
-/
import Mathlib

namespace Chain

universe u
variable {α : Type u} {a b c : α} {m m' : α × α} {l l' : List (α × α)}

/-- The moves `l` lead from `a` to `b`. -/
inductive Path : α → List (α × α) → α → Prop
  | nil (a : α) : Path a [] a
  | cons {a b c : α} {l : List (α × α)} : Path b l c → Path a ((a, b) :: l) c

theorem Path.append (h : Path a l b) (h' : Path b l' c) : Path a (l ++ l') c := by
  induction h with
  | nil => exact h'
  | cons _ ih => exact .cons (ih h')

/-- One more move, from the current value. -/
theorem Path.snoc (h : Path a l b) (c : α) : Path a (l ++ [(b, c)]) c := h.append (.cons (.nil c))

theorem path_nil : Path a [] b ↔ a = b := by
  constructor
  · intro h
    cases h
    rfl
  · rintro rfl
    exact .nil a

/-- The first move starts at the first value. -/
theorem Path.first (h : Path a (m :: l) b) : m.1 = a := by
  cases h
  rfl

/-- **The current value** is what the last move left, or the first value. -/
theorem Path.last (h : Path a l b) : b = (l.getLast?.map (·.2)).getD a := by
  induction h with
  | nil => rfl
  | @cons a b c l _ ih =>
    cases l with
    | nil => exact ih
    | cons m l =>
      rw [ih, List.getLast?_cons_cons]
      cases hl : (m :: l).getLast? with
      | none => simp at hl
      | some m' => rfl

/-- **A move starts where the one before ended.** -/
theorem Path.isChain (h : Path a l b) : l.IsChain fun m m' => m'.1 = m.2 := by
  induction h with
  | nil => exact .nil
  | @cons a b c l h ih =>
    cases l with
    | nil => exact .singleton _
    | cons m l => exact ih.cons_cons h.first

end Chain
