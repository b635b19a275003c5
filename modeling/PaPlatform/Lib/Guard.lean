/-
  Guarded computations in `Except`.

  A function that starts with `if (p) throw e` is a chain of `throwIf`s; a
  result `.ok b` of such a chain is inverted by `simp` into the negated guards
  and the values they protect.
-/
import Mathlib.Tactic.Common

namespace Guard

universe u v
variable {κ : Type u} {α β : Type v}

/-- `if (p) throw e`. -/
def throwIf (p : Prop) [Decidable p] (e : κ) : Except κ PUnit.{v + 1} :=
  if p then .error e else .ok ⟨⟩

@[simp] theorem throwIf_eq_ok {p : Prop} [Decidable p] {e : κ} {u : PUnit.{v + 1}} :
    throwIf p e = .ok u ↔ ¬ p := by
  unfold throwIf; split_ifs with h <;> simp [h]

theorem throwIf_neg {p : Prop} [Decidable p] {e : κ} (h : ¬ p) :
    throwIf.{u, v} p e = .ok ⟨⟩ := if_neg h

theorem throwIf_pos {p : Prop} [Decidable p] {e : κ} (h : p) :
    throwIf.{u, v} p e = .error e := if_pos h

/-- `if (p) x`. -/
def doIf (p : Prop) [Decidable p] (x : Except κ Unit) : Except κ Unit := if p then x else .ok ()

@[simp] theorem doIf_eq_ok {p : Prop} [Decidable p] {x : Except κ Unit} {u : Unit} :
    doIf p x = .ok u ↔ (p → x = .ok u) := by
  unfold doIf
  split_ifs with h <;> simp [h]

@[simp] theorem bind_eq_ok {x : Except κ α} {f : α → Except κ β} {b : β} :
    (x >>= f) = .ok b ↔ ∃ a, x = .ok a ∧ f a = .ok b := by
  cases x with
  | error e => simp [bind, Except.bind]
  | ok a => simp [bind, Except.bind]

@[simp] theorem pure_eq_ok {a b : α} : (pure a : Except κ α) = .ok b ↔ a = b := by
  simp [pure, Except.pure]

theorem map_eq_ok {x : Except κ α} {f : α → β} {b : β} :
    x.map f = .ok b ↔ ∃ a, x = .ok a ∧ f a = b := by
  cases x with
  | error e => simp [Except.map]
  | ok a => simp [Except.map]

@[simp] theorem ok_bind {a : α} {f : α → Except κ β} : (Except.ok a >>= f) = f a := rfl

@[simp] theorem error_bind {e : κ} {f : α → Except κ β} :
    ((Except.error e : Except κ α) >>= f) = .error e := rfl

/-- An `Option` that must be present. -/
def require (o : Option α) (e : κ) : Except κ α := o.elim (.error e) .ok

@[simp] theorem require_eq_ok {o : Option α} {e : κ} {a : α} : require o e = .ok a ↔ o = some a := by
  cases o <;> simp [require]

theorem require_some {a : α} {e : κ} : require (some a) e = .ok a := rfl

/-- The computation succeeds. -/
def Ok (x : Except κ α) : Prop := ∃ a, x = .ok a

theorem ok_or_error (x : Except κ α) : Ok x ∨ ∃ e, x = .error e := by
  cases x with
  | error e => exact Or.inr ⟨e, rfl⟩
  | ok a => exact Or.inl ⟨a, rfl⟩

end Guard
