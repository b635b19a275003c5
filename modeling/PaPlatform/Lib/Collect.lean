/-
  Checks that collect their errors.

  `check m` runs `m`; an error that is caught is put in a list, any other goes on.
  `Collects m p` says that `m` always returns, only adds errors to the list, and
  adds none if and only if `p`.
-/
import PaPlatform.Lib.Effect

namespace Collect

open Effect Guard

variable {ε κ α β : Type}

/-- A run that collects errors `ε`, and that may throw a `κ`. -/
abbrev Collector (ε κ : Type) := Eff (List ε) κ

section
variable (caught : κ → Option ε)

/-- `try { run(); } catch (error) { if (…) errors.push(error); else throw error; }`. -/
def attempt (m : Collector ε κ α) : Collector ε κ (Option α) :=
  tryCatch (some <$> m) fun e =>
    match caught e with
    | some error => do
      modify (· ++ [error])
      return none
    | none => throw e

def check (m : Collector ε κ Unit) : Collector ε κ Unit := do
  let _ ← attempt caught m

end

/-- Every error of a call is caught. -/
def Safe (caught : κ → Option ε) (x : Except κ α) : Prop := ∀ e, x = .error e → (caught e).isSome

/-- A run that returns, and that adds no error if and only if `p`. -/
def Collects (m : Collector ε κ Unit) (p : Prop) : Prop :=
  ∀ errors, ∃ more, outcome m errors = (.ok (), errors ++ more) ∧ (more = [] ↔ p)

variable {caught : κ → Option ε} {m m' : Collector ε κ Unit} {p q : Prop} {x : Except κ α}

theorem Collects.iff (h : Collects m p) (hpq : p ↔ q) : Collects m q := by
  intro errors
  obtain ⟨more, hm, hp⟩ := h errors
  exact ⟨more, hm, hp.trans hpq⟩

theorem collects_pure : Collects (pure () : Collector ε κ Unit) True :=
  fun errors => ⟨[], by simp, by simp⟩

theorem Collects.bind (h : Collects m p) (h' : Collects m' q) : Collects (do m; m') (p ∧ q) := by
  intro errors
  obtain ⟨more, hm, hp⟩ := h errors
  obtain ⟨more', hm', hq⟩ := h' (errors ++ more)
  refine ⟨more ++ more', ?_, by rw [List.append_eq_nil_iff, hp, hq]⟩
  rw [outcome_bind, hm]
  dsimp only
  rw [hm', List.append_assoc]

/-- A loop collects the errors of its rounds. -/
theorem collects_forM {f : β → Collector ε κ Unit} {P : β → Prop} {l : List β}
    (h : ∀ b ∈ l, Collects (f b) (P b)) : Collects (l.forM f) (∀ b ∈ l, P b) := by
  induction l with
  | nil => exact collects_pure.iff (by simp)
  | cons b l ih =>
    show Collects (do f b; l.forM f) _
    exact ((h b (by simp)).bind (ih fun c hc => h c (by simp [hc]))).iff (by simp)

theorem outcome_liftM {errors : List ε} :
    outcome (liftM x : Collector ε κ α) errors = (x, errors) := by
  cases x <;> rfl

theorem outcome_attempt {m : Collector ε κ α} {errors : List ε} : outcome (attempt caught m) errors =
    match outcome m errors with
    | (.ok a, s) => (.ok (some a), s)
    | (.error e, s) =>
      match caught e with
      | some error => (.ok none, s ++ [error])
      | none => (.error e, s) := by
  have hrun : outcome (attempt caught m) errors =
      match outcome (some <$> m) errors with
      | (.ok a, s) => (.ok a, s)
      | (.error e, s) => outcome (match caught e with
        | some error => (do modify (· ++ [error]); return none : Collector ε κ (Option α))
        | none => throw e) s := by
    show (ExceptT.run (tryCatch (some <$> m) _)).run errors = _
    simp only [outcome, ExceptT.run_tryCatch, StateT.run_bind]
    rcases (StateT.run (ExceptT.run (some <$> m)) errors) with ⟨_ | _, s⟩ <;> rfl
  have hmap : outcome (some <$> m) errors =
      match outcome m errors with
      | (.ok a, s) => (.ok (some a), s)
      | (.error e, s) => (.error e, s) := by
    rw [map_eq_pure_bind, outcome_bind]
    rcases outcome m errors with ⟨_ | _, s⟩ <;> rfl
  rw [hrun, hmap]
  rcases outcome m errors with ⟨e | a, s⟩
  · dsimp only
    cases caught e <;> rfl
  · rfl

/-- A check whose error is caught. -/
theorem collects_check {m : Collector ε κ Unit} (h : ∀ errors, (∃ more, outcome m errors = (.ok (), errors ++ more) ∧
      (more = [] ↔ p)) ∨ ¬ p ∧ ∃ e error more, caught e = some error ∧ outcome m errors = (.error e, errors ++ more)) :
    Collects (check caught m) p := by
  intro errors
  unfold check
  rw [outcome_bind, outcome_attempt]
  rcases h errors with ⟨more, hm, hp⟩ | ⟨hp, e, error, more, he, hm⟩
  · exact ⟨more, by rw [hm]; rfl, hp⟩
  · refine ⟨more ++ [error], ?_, by simp [hp]⟩
    rw [hm]
    dsimp only
    rw [he, ← List.append_assoc]
    rfl

/-- A check of one call. -/
theorem collects_call (h : Safe caught x) : Collects (check caught (do let _ ← liftM x)) (Ok x) := by
  refine collects_check fun errors => ?_
  rw [outcome_bind, outcome_liftM]
  cases x with
  | ok a => exact Or.inl ⟨[], by simp, by simp [Ok]⟩
  | error e =>
    obtain ⟨error, he⟩ := Option.isSome_iff_exists.1 (h e rfl)
    exact Or.inr ⟨by simp [Ok], e, error, [], he, by simp⟩

/-- A check of a call, and of what it returns. -/
theorem collects_then {f : α → Collector ε κ Unit} {P : α → Prop} (h : Safe caught x)
    (hf : ∀ a, x = .ok a → Collects (f a) (P a)) :
    Collects (check caught (do let a ← liftM x; f a)) (∃ a, x = .ok a ∧ P a) := by
  refine collects_check fun errors => ?_
  rw [outcome_bind, outcome_liftM]
  cases x with
  | ok a =>
    obtain ⟨more, hm, hp⟩ := hf a rfl errors
    exact Or.inl ⟨more, hm, by simp [hp]⟩
  | error e =>
    obtain ⟨error, he⟩ := Option.isSome_iff_exists.1 (h e rfl)
    exact Or.inr ⟨by simp, e, error, [], he, by simp⟩

end Collect
