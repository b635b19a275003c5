/-
  An ordinary JavaScript object used as a map from strings to objects.

  Besides its own properties such an object has a prototype.  Assigning an
  object to the key `__proto__` replaces the prototype instead of adding an own
  property; reading that key returns the prototype, and a spread copies the own
  properties only.
-/
import Mathlib.Data.List.AList

namespace Js

/-- A map from strings to objects of type `α`. -/
structure Record (α : Type) where
  own : AList fun _ : String => α
  /-- The prototype, when an assignment has replaced it. -/
  proto : Option α

namespace Record

variable {α : Type}

/-- The key that names the prototype. -/
def protoKey : String := "__proto__"

/-- `{}`. -/
def empty : Record α := ⟨∅, none⟩

instance : EmptyCollection (Record α) := ⟨empty⟩

/-- `r[key]`. -/
def get? (r : Record α) (key : String) : Option α :=
  if key = protoKey then r.proto else r.own.lookup key

/-- `Object.hasOwn(r, key)`. -/
def hasOwn (r : Record α) (key : String) : Bool := (r.own.lookup key).isSome

/-- `r[key] = value`. -/
def set (r : Record α) (key : String) (value : α) : Record α :=
  if key = protoKey then { r with proto := some value } else { r with own := r.own.insert key value }

/-- `delete r[key]`. -/
def delete (r : Record α) (key : String) : Record α := { r with own := r.own.erase key }

/-- `{ ...r }`. -/
def spread (r : Record α) : Record α := ⟨r.own, none⟩

variable {r : Record α} {k l : String} {v w : α}

@[simp] theorem get?_empty : (∅ : Record α).get? k = none := by
  change (empty : Record α).get? k = none
  unfold get? empty; split_ifs <;> simp

@[simp] theorem hasOwn_empty : (∅ : Record α).hasOwn k = false := by
  change (empty : Record α).hasOwn k = false
  simp [hasOwn, empty]

theorem get?_set : (r.set k v).get? l = if l = k then some v else r.get? l := by
  unfold set get?
  by_cases hk : k = protoKey
  · subst hk; simp only [if_pos]; split_ifs <;> rfl
  · simp only [if_neg hk]
    by_cases hl : l = k
    · subst hl; simp [hk]
    · simp [hl]

theorem get?_set_eq_some : (r.set k v).get? l = some w ↔ (l = k ∧ v = w) ∨ (l ≠ k ∧ r.get? l = some w) := by
  rw [get?_set]; split_ifs with h <;> simp [h]

/-- A spread keeps no prototype. -/
theorem get?_of_spread (h : r.spread.get? k = some v) : r.get? k = some v := by
  unfold spread get? at *
  split_ifs at h ⊢
  exact h

theorem get?_of_delete (h : (r.delete k).get? l = some v) :
    r.get? l = some v ∧ (l ≠ k ∨ l = protoKey) := by
  unfold delete get? at *
  split_ifs at h ⊢ with hl
  · exact ⟨h, Or.inr hl⟩
  · by_cases hk : l = k
    · subst hk; simp at h
    · rw [AList.lookup_erase_ne hk] at h
      exact ⟨h, Or.inl hk⟩

theorem get?_of_delete_spread (h : (r.spread.delete k).get? l = some v) :
    r.get? l = some v ∧ l ≠ k := by
  obtain ⟨h1, h2⟩ := get?_of_delete h
  refine ⟨get?_of_spread h1, ?_⟩
  rcases h2 with h2 | rfl
  · exact h2
  · simp [spread, get?] at h1

/-- An assignment removes no own property. -/
theorem hasOwn_set_of (h : r.hasOwn l = true) : (r.set k v).hasOwn l = true := by
  unfold set hasOwn at *
  split_ifs
  · exact h
  · by_cases hl : l = k
    · subst hl; simp
    · simpa [hl] using h

@[simp] theorem hasOwn_spread : r.spread.hasOwn k = r.hasOwn k := rfl

end Record

end Js
