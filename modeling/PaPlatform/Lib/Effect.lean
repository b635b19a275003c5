/-
  Computations that may fail, on a state that survives the failure.

  `wp m Q E s` says of the run of `m` in the state `s` that a result satisfies
  `Q` and a failure satisfies `E`, each together with the state that is left
  behind.  The rules follow the syntax of the computation; a loop takes an
  invariant.
-/
import PaPlatform.Lib.Guard

namespace Effect

variable {σ κ α β : Type}

/-- A computation on `σ` that may fail with a `κ`. -/
abbrev Eff (σ κ : Type) := ExceptT κ (StateM σ)

/-- The outcome of `m` in `s`, and the state it leaves. -/
def outcome (m : Eff σ κ α) (s : σ) : Except κ α × σ := m.run.run s

/-- `if (p) throw e`. -/
def failIf (p : Prop) [Decidable p] (e : κ) : Eff σ κ PUnit := if p then throw e else pure ⟨⟩

/-- An `Option` that must be present. -/
def demand (o : Option α) (e : κ) : Eff σ κ α := o.elim (throw e) pure

/-- The weakest precondition of `m`. -/
def wp (m : Eff σ κ α) (Q : α → σ → Prop) (E : κ → σ → Prop) (s : σ) : Prop :=
  match outcome m s with
  | (.ok a, s') => Q a s'
  | (.error e, s') => E e s'

variable {m : Eff σ κ α} {f : α → Eff σ κ β} {Q Q' : α → σ → Prop} {R : β → σ → Prop}
  {E E' : κ → σ → Prop} {s s' : σ} {a : α} {e : κ}

theorem wp_of_ok (h : outcome m s = (.ok a, s')) : wp m Q E s ↔ Q a s' := by
  simp only [wp, h]

theorem wp_of_error (h : outcome m s = (.error e, s')) : wp m Q E s ↔ E e s' := by
  simp only [wp, h]

/-- **The rule of consequence.** -/
theorem wp_mono (h : wp m Q E s) (hQ : ∀ a s', Q a s' → Q' a s') (hE : ∀ e s', E e s' → E' e s') :
    wp m Q' E' s := by
  unfold wp at *
  rcases hm : outcome m s with ⟨e | a, s'⟩
  · simp only [hm] at h ⊢
    exact hE _ _ h
  · simp only [hm] at h ⊢
    exact hQ _ _ h

/-- What is said of the state alone is said of the state that is left. -/
theorem wp_state {P : σ → Prop} : wp m (fun _ => P) (fun _ => P) s ↔ P (outcome m s).2 := by
  unfold wp
  rcases outcome m s with ⟨_ | _, s'⟩ <;> exact Iff.rfl

/-- What a run returns and leaves. -/
theorem wp_exact : wp m (fun b t => b = a ∧ t = s') (fun _ _ => False) s ↔
    outcome m s = (.ok a, s') := by
  unfold wp
  rcases outcome m s with ⟨_ | _, t⟩ <;> simp

/-! ## One rule for each construct -/

@[simp] theorem outcome_pure : outcome (pure a : Eff σ κ α) s = (.ok a, s) := rfl

@[simp] theorem outcome_throw : outcome (throw e : Eff σ κ α) s = (.error e, s) := rfl

theorem outcome_bind : outcome (m >>= f) s =
    match outcome m s with
    | (.ok a, s') => outcome (f a) s'
    | (.error e, s') => (.error e, s') := by
  simp only [outcome, ExceptT.run_bind, StateT.run_bind]
  rcases (StateT.run (ExceptT.run m) s) with ⟨_ | _, s'⟩ <;> rfl

@[simp] theorem wp_pure : wp (pure a) Q E s ↔ Q a s := Iff.rfl

@[simp] theorem wp_throw : wp (throw e : Eff σ κ α) Q E s ↔ E e s := Iff.rfl

@[simp] theorem wp_get {Q : σ → σ → Prop} : wp (get : Eff σ κ σ) Q E s ↔ Q s s := Iff.rfl

@[simp] theorem wp_set {Q : PUnit → σ → Prop} : wp (set s' : Eff σ κ PUnit) Q E s ↔ Q ⟨⟩ s' := Iff.rfl

@[simp] theorem wp_modify {g : σ → σ} {Q : PUnit → σ → Prop} :
    wp (modify g : Eff σ κ PUnit) Q E s ↔ Q ⟨⟩ (g s) := Iff.rfl

@[simp] theorem wp_bind : wp (m >>= f) R E s ↔ wp m (fun a s' => wp (f a) R E s') E s := by
  unfold wp
  rw [outcome_bind]
  rcases outcome m s with ⟨_ | _, s'⟩ <;> rfl

@[simp] theorem wp_liftM {x : Except κ α} : wp (liftM x : Eff σ κ α) Q E s ↔
    (∀ a, x = .ok a → Q a s) ∧ ∀ e, x = .error e → E e s := by
  cases x with
  | error e =>
    refine ⟨fun h => ⟨by simp, fun e' he => by cases he; exact h⟩, fun h => h.2 e rfl⟩
  | ok a => exact ⟨fun h => ⟨fun a' ha => by cases ha; exact h, by simp⟩, fun h => h.1 a rfl⟩

@[simp] theorem wp_ite {p : Prop} [Decidable p] {m' : Eff σ κ α} :
    wp (if p then m else m') Q E s ↔ (p → wp m Q E s) ∧ (¬ p → wp m' Q E s) := by
  split_ifs with h <;> simp [h]

@[simp] theorem wp_failIf {p : Prop} [Decidable p] {Q : PUnit → σ → Prop} :
    wp (failIf p e) Q E s ↔ (p → E e s) ∧ (¬ p → Q ⟨⟩ s) := by
  simp only [failIf, wp_ite, wp_throw, wp_pure]

@[simp] theorem wp_demand {o : Option α} :
    wp (demand o e) Q E s ↔ (o = none → E e s) ∧ ∀ a, o = some a → Q a s := by
  cases o with
  | none => simp [demand]
  | some a => simp [demand]

@[simp] theorem wp_tryCatch {h : κ → Eff σ κ α} :
    wp (tryCatch m h) Q E s ↔ wp m Q (fun e s' => wp (h e) Q E s') s := by
  have hrun : outcome (tryCatch m h) s =
      match outcome m s with
      | (.ok a, s') => (.ok a, s')
      | (.error e, s') => outcome (h e) s' := by
    show (ExceptT.run (tryCatch m h)).run s = _
    simp only [outcome, ExceptT.run_tryCatch, StateT.run_bind]
    rcases (StateT.run (ExceptT.run m) s) with ⟨_ | _, s'⟩ <;> rfl
  unfold wp
  rw [hrun]
  rcases outcome m s with ⟨_ | _, s'⟩ <;> rfl

-- the rules are all there is to know; unfolding would run the computation
attribute [irreducible] wp

end Effect
