/-
  The latest entry of a log that satisfies a predicate.

  `latest p l` is `[...l].reverse().find(p)`.
-/
import Mathlib

namespace Latest

universe u v
variable {α : Type u} {β : Type v} {p q : α → Bool} {l l' : List α} {a : α}

/-- The last element of `l` that satisfies `p`. -/
def latest (p : α → Bool) (l : List α) : Option α := l.reverse.find? p

@[simp] theorem latest_nil : latest p [] = none := rfl

theorem latest_snoc : latest p (l ++ [a]) = if p a = true then some a else latest p l := by
  rw [latest, List.reverse_append, List.reverse_singleton, List.singleton_append, List.find?_cons]
  cases p a <;> rfl

theorem latest_snoc_pos (h : p a = true) : latest p (l ++ [a]) = some a := by
  rw [latest_snoc, if_pos h]

theorem latest_snoc_neg (h : p a = false) : latest p (l ++ [a]) = latest p l := by
  rw [latest_snoc, h, if_neg (by simp)]

theorem mem_of_latest (h : latest p l = some a) : a ∈ l :=
  List.mem_reverse.1 (List.mem_of_find?_eq_some h)

theorem latest_satisfies (h : latest p l = some a) : p a = true := List.find?_some h

theorem latest_eq_none : latest p l = none ↔ ∀ a ∈ l, p a = false := by
  simp [latest]

theorem latest_congr (h : ∀ a ∈ l, p a = q a) : latest p l = latest q l := by
  induction l using List.reverseRecOn with
  | nil => rfl
  | append_singleton l a ih =>
    rw [latest_snoc, latest_snoc, h a (by simp), ih fun b hb => h b (by simp [hb])]

theorem latest_map {f : α → β} {p : β → Bool} :
    latest p (l.map f) = (latest (fun a => p (f a)) l).map f := by
  rw [latest, ← List.map_reverse, List.find?_map]
  rfl

theorem latest_eq_getLast : latest p l = (l.filter p).getLast? := by
  rw [latest, ← List.head?_filter, List.filter_reverse, List.head?_reverse]

/-- **A filter that keeps the latest entry keeps it the latest.** -/
theorem latest_filter (h : ∀ a, latest p l = some a → q a = true) :
    latest p (l.filter q) = latest p l := by
  induction l using List.reverseRecOn with
  | nil => rfl
  | append_singleton l a ih =>
    rw [List.filter_append, latest_snoc]
    by_cases hp : p a = true
    · have hq : q a = true := h a (latest_snoc_pos hp)
      rw [List.filter_singleton, hq, cond_true, if_pos hp, latest_snoc_pos hp]
    · rw [if_neg hp]
      rw [latest_snoc_neg (by simpa using hp)] at h
      rw [← ih h, List.filter_singleton]
      cases q a with
      | true => rw [cond_true, latest_snoc_neg (by simpa using hp)]
      | false => rw [cond_false, List.append_nil]

end Latest
