/-
  Comparators that return a number: below, at or above zero.

  A comparator that is decided by keys of a linear order is a strict order, up to
  equal keys.
-/
import Mathlib

namespace Comparator

universe u v
variable {α : Type u} {κ : Type v} [LinearOrder κ]

/-- `n` is the order of `x` and `y`. -/
def Decides (n : ℤ) (x y : κ) : Prop := n = -1 ∧ x < y ∨ n = 0 ∧ x = y ∨ n = 1 ∧ y < x

/-- The comparator is decided by a key. -/
def DecidedBy (compare : α → α → ℤ) (key : α → κ) : Prop := ∀ a b, Decides (compare a b) (key a) (key b)

variable {n m : ℤ} {x y : κ} {compare : α → α → ℤ} {key : α → κ} {a b c : α}

theorem Decides.zero_iff (h : Decides n x y) : n = 0 ↔ x = y := by
  rcases h with ⟨rfl, h⟩ | ⟨rfl, h⟩ | ⟨rfl, h⟩
  · simp [h.ne]
  · simp [h]
  · simp [h.ne']

theorem Decides.neg_iff (h : Decides n x y) : n < 0 ↔ x < y := by
  rcases h with ⟨rfl, h⟩ | ⟨rfl, rfl⟩ | ⟨rfl, h⟩
  · simp [h]
  · simp
  · simp [h.le]

theorem Decides.eq_neg (h : Decides n x y) (h' : Decides m y x) : m = -n := by
  rcases h with ⟨rfl, h⟩ | ⟨rfl, rfl⟩ | ⟨rfl, h⟩ <;> rcases h' with ⟨rfl, h'⟩ | ⟨rfl, h'⟩ | ⟨rfl, h'⟩
  · exact absurd h' h.asymm
  · exact absurd h'.symm h.ne
  · rfl
  · exact absurd h' (lt_irrefl x)
  · rfl
  · exact absurd h' (lt_irrefl x)
  · rfl
  · exact absurd h' h.ne
  · exact absurd h' h.asymm

/-- The first difference decides. -/
theorem Decides.lex {μ : Type u} [LinearOrder μ] {x' y' : μ} (h : Decides n x y) (h' : Decides m x' y') :
    Decides (if n ≠ 0 then n else m) (toLex (x, x')) (toLex (y, y')) := by
  unfold Decides
  rw [Prod.Lex.toLex_lt_toLex, Prod.Lex.toLex_lt_toLex]
  rcases h with ⟨rfl, h⟩ | ⟨rfl, rfl⟩ | ⟨rfl, h⟩
  · exact Or.inl ⟨rfl, Or.inl h⟩
  · rw [if_neg (by simp)]
    rcases h' with ⟨rfl, h'⟩ | ⟨rfl, rfl⟩ | ⟨rfl, h'⟩
    · exact Or.inl ⟨rfl, Or.inr ⟨rfl, h'⟩⟩
    · exact Or.inr (Or.inl ⟨rfl, rfl⟩)
    · exact Or.inr (Or.inr ⟨rfl, Or.inr ⟨rfl, h'⟩⟩)
  · exact Or.inr (Or.inr ⟨rfl, Or.inl h⟩)

/-- The first different items decide. -/
theorem Decides.cons {xs ys : List κ} (h : Decides n x y) (h' : Decides m xs ys) :
    Decides (if n ≠ 0 then n else m) (x :: xs) (y :: ys) := by
  unfold Decides
  rw [List.cons_lt_cons_iff, List.cons_lt_cons_iff]
  rcases h with ⟨rfl, h⟩ | ⟨rfl, rfl⟩ | ⟨rfl, h⟩
  · exact Or.inl ⟨rfl, Or.inl h⟩
  · rw [if_neg (by simp)]
    rcases h' with ⟨rfl, h'⟩ | ⟨rfl, rfl⟩ | ⟨rfl, h'⟩
    · exact Or.inl ⟨rfl, Or.inr ⟨rfl, h'⟩⟩
    · exact Or.inr (Or.inl ⟨rfl, rfl⟩)
    · exact Or.inr (Or.inr ⟨rfl, Or.inr ⟨rfl, h'⟩⟩)
  · exact Or.inr (Or.inr ⟨rfl, Or.inl h⟩)

/-! ## Strict orders -/

theorem DecidedBy.antisymm (h : DecidedBy compare key) : compare b a = -compare a b := (h a b).eq_neg (h b a)

theorem DecidedBy.zero_iff (h : DecidedBy compare key) : compare a b = 0 ↔ key a = key b := (h a b).zero_iff

theorem DecidedBy.neg_iff (h : DecidedBy compare key) : compare a b < 0 ↔ key a < key b := (h a b).neg_iff

theorem DecidedBy.trans (h : DecidedBy compare key) (hab : compare a b < 0) (hbc : compare b c < 0) :
    compare a c < 0 := by
  rw [h.neg_iff] at hab hbc ⊢
  exact hab.trans hbc

theorem DecidedBy.le_iff (h : DecidedBy compare key) : compare a b ≤ 0 ↔ key a ≤ key b := by
  rw [le_iff_lt_or_eq, h.neg_iff, h.zero_iff, ← le_iff_lt_or_eq]

/-- Sorting by the comparator sorts by the key. -/
theorem DecidedBy.sorted (h : DecidedBy compare key) (l : List α) :
    (l.mergeSort fun a b => compare a b ≤ 0).Pairwise fun a b => key a ≤ key b := by
  refine (List.pairwise_mergeSort ?_ ?_ l).imp ?_
  · intro a b c hab hbc
    rw [decide_eq_true_eq, h.le_iff] at *
    exact hab.trans hbc
  · intro a b
    rw [Bool.or_eq_true, decide_eq_true_eq, decide_eq_true_eq, h.le_iff, h.le_iff]
    exact le_total _ _
  · intro a b hab
    rwa [decide_eq_true_eq, h.le_iff] at hab

/-- The first item with a value is not above another that has one. -/
theorem findSome_sorted {β : Type u} {f : α → Option β} {l : List α} {r : β}
    (hs : l.Pairwise fun a b => key a ≤ key b) (ha : a ∈ l) (hf : (f a).isSome = true) (h : l.findSome? f = some r) :
    ∃ a' ∈ l, f a' = some r ∧ key a' ≤ key a := by
  induction l with
  | nil => exact absurd ha List.not_mem_nil
  | cons c l ih =>
    rw [List.pairwise_cons] at hs
    rw [List.findSome?_cons] at h
    cases hc : f c with
    | some y =>
      rw [hc] at h
      rw [← Option.some.inj h]
      refine ⟨c, List.mem_cons_self, hc, ?_⟩
      rcases List.mem_cons.1 ha with rfl | ha
      · exact le_rfl
      · exact hs.1 a ha
    | none =>
      rw [hc] at h
      rcases List.mem_cons.1 ha with rfl | ha
      · rw [hc] at hf
        exact absurd hf (by simp)
      · rcases ih hs.2 ha h with ⟨a', ha', h'⟩
        exact ⟨a', List.mem_cons_of_mem _ ha', h'⟩

end Comparator
