/-
  Lists that are cut at a separator: what was put between separators is found again.
-/
import Mathlib

namespace Separated

universe u
variable {α : Type u} [DecidableEq α] {x : α} {field : List α} {fields : List (List α)} {rest : List α}

theorem splitOn_cons (h : x ∉ field) : (field ++ x :: rest).splitOn x = field :: rest.splitOn x := by
  have hf : ∀ y ∈ field, (y == x) = false := by
    rintro y hy
    rw [beq_eq_false_iff_ne]
    rintro rfl
    exact h hy
  rw [List.splitOn, List.splitOnP_append_cons_of_forall_mem hf x (by simp), ← List.splitOn]

/-- Each field is followed by the separator. -/
theorem splitOn_terminated (h : ∀ f ∈ fields, x ∉ f) :
    (fields.flatMap (· ++ [x])).splitOn x = fields ++ [[]] := by
  induction fields with
  | nil => exact List.splitOn_nil x
  | cons f fields ih =>
    rw [List.forall_mem_cons] at h
    rw [List.flatMap_cons, List.append_assoc, List.singleton_append, splitOn_cons h.1, ih h.2, List.cons_append]

/-! ## The first part -/

/-- The parts before and after the first `part`. -/
def breakOn (part : List α) : List α → Option (List α × List α)
  | [] => if part.isPrefixOf [] then some ([], []) else none
  | u :: rest =>
    if part.isPrefixOf (u :: rest) then some ([], (u :: rest).drop part.length)
    else (breakOn part rest).map fun r => (u :: r.1, r.2)

theorem breakOn_eq {part s before after : List α} (h : breakOn part s = some (before, after)) :
    s = before ++ part ++ after := by
  induction s generalizing before with
  | nil =>
    unfold breakOn at h
    split_ifs at h with hp
    rw [Option.some.injEq, Prod.mk.injEq] at h
    obtain ⟨rfl, rfl⟩ := h
    simpa using hp
  | cons u s ih =>
    unfold breakOn at h
    split_ifs at h with hp
    · rw [Option.some.injEq, Prod.mk.injEq] at h
      obtain ⟨rfl, rfl⟩ := h
      rcases List.isPrefixOf_iff_prefix.1 hp with ⟨t, ht⟩
      rw [← ht, List.drop_left, List.nil_append]
    · rcases Option.map_eq_some_iff.1 h with ⟨⟨b, a⟩, hr, heq⟩
      rw [Prod.mk.injEq] at heq
      obtain ⟨rfl, rfl⟩ := heq
      rw [ih hr]
      rfl

end Separated
