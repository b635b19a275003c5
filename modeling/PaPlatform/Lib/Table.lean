/-
  The values of a finite map, one for each key.

  `insert` puts a value in front of those of the other keys, so a property of
  all values is kept if it is kept by the rest and by the new value.
-/
import Mathlib

namespace Table

universe u v
variable {κ : Type u} {α : Type v}

/-- The values, each under its key. -/
def values (s : AList fun _ : κ => α) : List α := s.entries.map (·.2)

@[simp] theorem values_empty : values (∅ : AList fun _ : κ => α) = [] := rfl

variable [DecidableEq κ] {s : AList fun _ : κ => α} {k l : κ} {a b : α}

@[simp] theorem values_insert : values (s.insert k a) = a :: values (s.erase k) := rfl

theorem erase_of_lookup_none (h : s.lookup k = none) : s.erase k = s := by
  refine AList.ext ?_
  exact List.kerase_of_notMem_keys (AList.lookup_eq_none.1 h)

theorem values_insert_of_none (h : s.lookup k = none) : values (s.insert k a) = a :: values s := by
  rw [values_insert, erase_of_lookup_none h]

/-- **A key is one of its values and the rest.** -/
theorem perm_entries (h : s.lookup k = some a) : s.entries.Perm (⟨k, a⟩ :: (s.erase k).entries) := by
  refine List.lookup_ext s.nodupKeys (s.insert k a).nodupKeys fun l b => ?_
  show b ∈ s.lookup l ↔ b ∈ (s.insert k a).lookup l
  by_cases hl : l = k
  · subst hl
    rw [h, AList.lookup_insert]
  · rw [AList.lookup_insert_ne hl]

theorem perm_values (h : s.lookup k = some a) : (values s).Perm (a :: values (s.erase k)) :=
  (perm_entries h).map _

theorem mem_values : a ∈ values s ↔ ∃ k, s.lookup k = some a := by
  constructor
  · intro h
    obtain ⟨⟨k, b⟩, hb, rfl⟩ := List.mem_map.1 h
    exact ⟨k, AList.mem_lookup_iff.2 hb⟩
  · rintro ⟨k, h⟩
    exact List.mem_map.2 ⟨⟨k, a⟩, AList.mem_lookup_iff.1 h, rfl⟩

theorem mem_values_of_erase (h : a ∈ values (s.erase k)) : a ∈ values s := by
  obtain ⟨l, hl⟩ := mem_values.1 h
  refine mem_values.2 ⟨l, ?_⟩
  by_cases hlk : l = k
  · subst hlk
    simp at hl
  · rwa [AList.lookup_erase_ne hlk] at hl

theorem lookup_insert_eq : (s.insert k a).lookup l = if l = k then some a else s.lookup l := by
  split_ifs with h
  · subst h
    exact AList.lookup_insert s
  · exact AList.lookup_insert_ne h

end Table
