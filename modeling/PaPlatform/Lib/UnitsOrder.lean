/-
  The order of strings by their units: `<` of JavaScript.
-/
import PaPlatform.Lib.Comparator
import PaPlatform.Lib.Units

namespace Js.Units

open Comparator

/-- `left < right ? -1 : left > right ? 1 : 0`. -/
def compareUnits (left right : Units) : ℤ := if left < right then -1 else if right < left then 1 else 0

variable {s t : Units}

/-- The key of a text. -/
def textKey (s : Units) : List ℕ := s.map UInt16.toNat

theorem textKey_lt : textKey s < textKey t ↔ s < t := by
  induction s generalizing t with
  | nil => cases t <;> simp [textKey]
  | cons u s ih =>
    cases t with
    | nil => simp [textKey]
    | cons v t =>
      show u.toNat :: textKey s < v.toNat :: textKey t ↔ _
      rw [List.cons_lt_cons_iff, List.cons_lt_cons_iff, ih, UInt16.lt_iff_toNat_lt, UInt16.toNat_inj]

theorem textKey_injective : Function.Injective textKey :=
  List.map_injective_iff.2 fun _ _ h => UInt16.toNat_inj.1 h

theorem compareUnits_decides (l r : Units) : Decides (compareUnits l r) (textKey l) (textKey r) := by
  unfold compareUnits Decides
  rw [textKey_lt, textKey_lt]
  split_ifs with h h'
  · exact Or.inl ⟨rfl, h⟩
  · exact Or.inr (Or.inr ⟨rfl, h'⟩)
  · rw [← textKey_lt] at h h'
    exact Or.inr (Or.inl ⟨rfl, le_antisymm (not_lt.1 h') (not_lt.1 h)⟩)

end Js.Units
