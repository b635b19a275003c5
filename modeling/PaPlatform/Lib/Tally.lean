/-
  Counting the occurrences of keys, in the order in which they first occur.
-/
import Mathlib

namespace Tally

universe u
variable {κ : Type u} [DecidableEq κ] {k : κ} {m : List (κ × ℕ)} {l : List κ} {n : ℕ}

/-- `counts.set(key, (counts.get(key) ?? 0) + 1)`. -/
def bump (k : κ) : List (κ × ℕ) → List (κ × ℕ)
  | [] => [(k, 1)]
  | (k', n) :: m => if k' = k then (k', n + 1) :: m else (k', n) :: bump k m

def tally (l : List κ) : List (κ × ℕ) := l.foldl (fun m k => bump k m) []

/-- Each key of `l` stands in `m` once, with the number of its occurrences. -/
structure Counts (m : List (κ × ℕ)) (l : List κ) : Prop where
  nodup : (m.map Prod.fst).Nodup
  mem : ∀ k n, (k, n) ∈ m ↔ n = l.count k ∧ 0 < n

theorem mem_keys_bump {x : κ} : x ∈ (bump k m).map Prod.fst ↔ x = k ∨ x ∈ m.map Prod.fst := by
  induction m with
  | nil => simp [bump]
  | cons e m ih =>
    obtain ⟨k', n⟩ := e
    by_cases hk : k' = k
    · subst hk
      simp [bump]
    · simp only [bump, if_neg hk, List.map_cons, List.mem_cons, ih]
      constructor
      · rintro (h | h | h)
        · exact Or.inr (Or.inl h)
        · exact Or.inl h
        · exact Or.inr (Or.inr h)
      · rintro (h | h | h)
        · exact Or.inr (Or.inl h)
        · exact Or.inl h
        · exact Or.inr (Or.inr h)

theorem nodup_bump (h : (m.map Prod.fst).Nodup) : ((bump k m).map Prod.fst).Nodup := by
  induction m with
  | nil => simp [bump]
  | cons e m ih =>
    obtain ⟨k', n⟩ := e
    rw [List.map_cons, List.nodup_cons] at h
    by_cases hk : k' = k
    · simp only [bump, if_pos hk, List.map_cons, List.nodup_cons]
      exact h
    · simp only [bump, if_neg hk, List.map_cons, List.nodup_cons]
      refine ⟨fun hm => ?_, ih h.2⟩
      rcases mem_keys_bump.1 hm with hm | hm
      · exact hk hm
      · exact h.1 hm

theorem mem_bump_of_ne {x : κ} (hx : x ≠ k) : (x, n) ∈ bump k m ↔ (x, n) ∈ m := by
  induction m with
  | nil => simp [bump, hx]
  | cons e m ih =>
    obtain ⟨k', n'⟩ := e
    by_cases hk : k' = k
    · subst hk
      simp [bump, hx]
    · simp only [bump, if_neg hk, List.mem_cons, ih]

theorem mem_bump_self (h : (m.map Prod.fst).Nodup) :
    (k, n) ∈ bump k m ↔ (k ∉ m.map Prod.fst ∧ n = 1) ∨ ∃ n', (k, n') ∈ m ∧ n = n' + 1 := by
  induction m with
  | nil => simp [bump]
  | cons e m ih =>
    obtain ⟨k', n₀⟩ := e
    rw [List.map_cons, List.nodup_cons] at h
    by_cases hk : k' = k
    · subst hk
      have hnot : ∀ i, (k', i) ∉ m := fun i hm => h.1 (List.mem_map.2 ⟨_, hm, rfl⟩)
      simp [bump, hnot]
    · simp [bump, if_neg hk, Ne.symm hk, ih h.2]

theorem Counts.bump (h : Counts m l) : Counts (bump k m) (l ++ [k]) := by
  refine ⟨nodup_bump h.nodup, fun x n => ?_⟩
  by_cases hx : x = k
  · subst hx
    rw [mem_bump_self h.nodup, List.count_append, List.count_singleton_self]
    constructor
    · rintro (⟨hx, rfl⟩ | ⟨n', hn', rfl⟩)
      · have hzero : l.count x = 0 := by
          by_contra hne
          exact hx (List.mem_map.2 ⟨(x, l.count x), (h.mem x _).2 ⟨rfl, by omega⟩, rfl⟩)
        omega
      · have hcount := (h.mem x n').1 hn'
        omega
    · rintro ⟨hn, -⟩
      by_cases hzero : l.count x = 0
      · refine Or.inl ⟨fun hx => ?_, by omega⟩
        obtain ⟨⟨y, i⟩, hi, rfl⟩ := List.mem_map.1 hx
        have hcount := (h.mem y i).1 hi
        have hy : l.count y = 0 := hzero
        omega
      · exact Or.inr ⟨l.count x, (h.mem x _).2 ⟨rfl, by omega⟩, hn⟩
  · rw [mem_bump_of_ne hx, h.mem, List.count_append, List.count_singleton]
    rw [if_neg (by simpa using Ne.symm hx), Nat.add_zero]

/-- **`tally` counts.** -/
theorem counts_tally (l : List κ) : Counts (tally l) l := by
  induction l using List.reverseRecOn with
  | nil => exact ⟨List.nodup_nil, fun k n => by simp [tally]⟩
  | append_singleton l k ih =>
    have htally : tally (l ++ [k]) = Tally.bump k (tally l) := by
      rw [tally, List.foldl_append]
      rfl
    rw [htally]
    exact ih.bump

theorem Counts.perm {m' : List (κ × ℕ)} (h : Counts m l) (hp : m'.Perm m) : Counts m' l :=
  ⟨(hp.map _).nodup_iff.2 h.nodup, fun k n => hp.mem_iff.trans (h.mem k n)⟩

/-- **A tally belongs to the lists with the same keys, in any order.** -/
theorem Counts.iff_perm {l' : List κ} (h : Counts m l) : Counts m l' ↔ l.Perm l' := by
  constructor
  · intro h'
    refine List.perm_iff_count.2 fun k => ?_
    by_contra hne
    rcases Nat.lt_or_gt_of_ne hne with hlt | hgt
    · have hk := ((h.mem k _).1 ((h'.mem k _).2 ⟨rfl, by omega⟩)).1
      omega
    · have hk := ((h'.mem k _).1 ((h.mem k _).2 ⟨rfl, by omega⟩)).1
      omega
  · intro hp
    exact ⟨h.nodup, fun k n => by rw [h.mem, hp.count_eq]⟩

theorem Counts.filter_pos (h : Counts m l) : m.filter (fun e => decide (0 < e.2)) = m := by
  refine List.filter_eq_self.2 ?_
  rintro ⟨k, n⟩ hmem
  exact decide_eq_true ((h.mem k n).1 hmem).2

end Tally
