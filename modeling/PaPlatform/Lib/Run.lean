/-
  Runs of a partial step function, and past-time properties of their histories.

  `step s e` either rejects the event `e` in the state `s` or accepts it with a
  next state.  A run is described by its history: the list of accepted steps,
  oldest first, each with the states before and after it.  `Since P Q h` says
  that some step of `h` satisfies `P` and that every later one satisfies `Q`.
-/
import PaPlatform.Lib.Guard
import Mathlib.Data.List.Induction

namespace Run

universe u v
variable {κ : Type u} {σ ε : Type v}

/-- An accepted step. -/
structure Step (σ ε : Type v) where
  before : σ
  event : ε
  after : σ

/-! ## Runs -/

section
variable (step : σ → ε → Except κ σ)

/-- `exec s es` applies `step` to the events `es` one after another. -/
def exec : σ → List ε → Except κ σ
  | s, [] => .ok s
  | s, e :: es => step s e >>= fun s' => exec s' es

/-- The runs from `s₀`: their history and the state they reach. -/
inductive Reaches (s₀ : σ) : List (Step σ ε) → σ → Prop
  | nil : Reaches s₀ [] s₀
  | snoc {h : List (Step σ ε)} {s s' : σ} {e : ε} :
      Reaches s₀ h s → step s e = .ok s' → Reaches s₀ (h ++ [⟨s, e, s'⟩]) s'

end

variable {step : σ → ε → Except κ σ} {s₀ s s' : σ} {h : List (Step σ ε)}

theorem exec_append (s : σ) (es fs : List ε) :
    exec step s (es ++ fs) = (exec step s es >>= fun s' => exec step s' fs) := by
  induction es generalizing s with
  | nil => rfl
  | cons e es ih =>
    simp only [List.cons_append, exec]
    cases step s e with
    | error k => rfl
    | ok s' => exact ih s'

theorem exec_snoc (s : σ) (es : List ε) (e : ε) :
    exec step s (es ++ [e]) = (exec step s es >>= fun s' => step s' e) := by
  rw [exec_append]
  congr 1; funext s'
  cases h : step s' e <;> simp [exec, h]

theorem Reaches.exec_eq (hr : Reaches step s₀ h s) : exec step s₀ (h.map Step.event) = .ok s := by
  induction hr with
  | nil => rfl
  | snoc _ hs ih => rw [List.map_append, List.map_singleton, exec_snoc, ih]; exact hs

/-- **Every accepted sequence of events is a run.** -/
theorem reaches_of_exec {es : List ε} (he : exec step s₀ es = .ok s) :
    ∃ h, Reaches step s₀ h s ∧ h.map Step.event = es := by
  induction es using List.reverseRecOn generalizing s with
  | nil => cases he; exact ⟨[], .nil, rfl⟩
  | append_singleton es e ih =>
    rw [exec_snoc, Guard.bind_eq_ok] at he
    obtain ⟨s₁, h₁, hs⟩ := he
    obtain ⟨h, hr, rfl⟩ := ih h₁
    exact ⟨h ++ [⟨s₁, e, s⟩], .snoc hr hs, by simp⟩

/-- A history determines the state it reaches. -/
theorem Reaches.last {t : σ} {e : ε} (hr : Reaches step s₀ (h ++ [⟨s, e, s'⟩]) t) :
    Reaches step s₀ h s ∧ step s e = .ok s' ∧ t = s' := by
  generalize hk : h ++ [(⟨s, e, s'⟩ : Step σ ε)] = k at hr
  cases hr with
  | nil => simp at hk
  | snoc hr hs =>
    obtain ⟨rfl, hl⟩ := List.append_inj' hk rfl
    cases hl
    exact ⟨hr, hs, rfl⟩

/-- Every step of a history was accepted, in a state reached by the steps
    before it. -/
theorem Reaches.split {t : σ} {pre post : List (Step σ ε)} {st : Step σ ε}
    (hr : Reaches step s₀ (pre ++ st :: post) t) :
    Reaches step s₀ pre st.before ∧ step st.before st.event = .ok st.after ∧
      Reaches step s₀ (pre ++ [st]) st.after := by
  induction post using List.reverseRecOn generalizing t with
  | nil =>
    obtain ⟨h1, h2, rfl⟩ := hr.last
    exact ⟨h1, h2, hr⟩
  | append_singleton post st' ih =>
    rw [← List.cons_append, ← List.append_assoc] at hr
    exact ih hr.last.1

theorem Reaches.unique {t : σ} (hr : Reaches step s₀ h s) (ht : Reaches step s₀ h t) : s = t := by
  have heq := hr.exec_eq.symm.trans ht.exec_eq
  exact Except.ok.inj heq

/-- **The invariant rule**: what holds at the start and is kept by every
    accepted step holds of every state reached. -/
theorem Reaches.invariant {P : List (Step σ ε) → σ → Prop} (h₀ : P [] s₀)
    (hstep : ∀ h s e s', Reaches step s₀ h s → P h s → step s e = .ok s' →
      P (h ++ [⟨s, e, s'⟩]) s')
    (hr : Reaches step s₀ h s) : P h s := by
  induction hr with
  | nil => exact h₀
  | snoc hr hs ih => exact hstep _ _ _ _ hr ih hs

/-- **The restricted invariant rule**: what every step with `C` keeps holds
    throughout a run of such steps. -/
theorem Reaches.throughout {C : σ → ε → Prop} {I : σ → Prop} (h₀ : I s₀)
    (hstep : ∀ s e s', I s → C s e → step s e = .ok s' → I s')
    (hr : Reaches step s₀ h s) (hc : ∀ st ∈ h, C st.before st.event) :
    I s ∧ ∀ st ∈ h, I st.before ∧ I st.after := by
  induction hr with
  | nil => exact ⟨h₀, by simp⟩
  | @snoc h s s' e hr hs ih =>
    obtain ⟨hI, hall⟩ := ih fun st hst => hc st (by simp [hst])
    have hI' : I s' := hstep s e s' hI (hc ⟨s, e, s'⟩ (by simp)) hs
    refine ⟨hI', fun st hst => ?_⟩
    rcases List.mem_append.1 hst with hst | hst
    · exact hall st hst
    · rw [List.mem_singleton.1 hst]
      exact ⟨hI, hI'⟩

/-- **The order rule**: a preorder that every accepted step respects orders the
    states of a run. -/
theorem Reaches.relates {R : σ → σ → Prop} (hrefl : ∀ s, R s s)
    (htrans : ∀ a b c, R a b → R b c → R a c)
    (hstep : ∀ h s e s', Reaches step s₀ h s → step s e = .ok s' → R s s')
    (hr : Reaches step s₀ h s) : ∀ st ∈ h, R st.before s ∧ R st.after s := by
  induction hr with
  | nil => simp
  | snoc hr hs ih =>
    intro st hst
    have hR := hstep _ _ _ _ hr hs
    rcases List.mem_append.1 hst with hst | hst
    · exact ⟨htrans _ _ _ (ih st hst).1 hR, htrans _ _ _ (ih st hst).2 hR⟩
    · rw [List.mem_singleton.1 hst]
      exact ⟨hR, hrefl _⟩

/-! ## Past-time properties -/

variable {τ : Type v}

/-- Some step satisfies `P`, and all later ones satisfy `Q`. -/
def Since (P Q : τ → Prop) (h : List τ) : Prop :=
  ∃ pre st post, h = pre ++ st :: post ∧ P st ∧ ∀ x ∈ post, Q x

variable {P P' Q Q' : τ → Prop} {x : τ} {l : List τ}

theorem since_snoc : Since P Q (l ++ [x]) ↔ P x ∨ (Since P Q l ∧ Q x) := by
  constructor
  · rintro ⟨pre, st, post, hl, hP, hQ⟩
    rcases post.eq_nil_or_concat with rfl | ⟨post, y, rfl⟩
    · obtain ⟨-, hx⟩ := List.append_inj' hl rfl
      cases hx; exact Or.inl hP
    · rw [List.concat_eq_append, ← List.cons_append, ← List.append_assoc] at hl
      obtain ⟨rfl, hx⟩ := List.append_inj' hl rfl
      cases hx
      exact Or.inr ⟨⟨pre, st, post, rfl, hP, fun z hz => hQ z (by simp [hz])⟩, hQ _ (by simp)⟩
  · rintro (hP | ⟨⟨pre, st, post, rfl, hP, hQ⟩, hx⟩)
    · exact ⟨l, x, [], rfl, hP, by simp⟩
    · refine ⟨pre, st, post ++ [x], by simp, hP, fun z hz => ?_⟩
      rcases List.mem_append.1 hz with hz | hz
      · exact hQ z hz
      · rw [List.mem_singleton.1 hz]; exact hx

theorem since_self (hP : P x) : Since P Q (l ++ [x]) := since_snoc.2 (Or.inl hP)

theorem Since.snoc (h : Since P Q l) (hQ : Q x) : Since P Q (l ++ [x]) := since_snoc.2 (Or.inr ⟨h, hQ⟩)

theorem Since.imp (h : Since P Q l) (hP : ∀ y, P y → P' y) (hQ : ∀ y, Q y → Q' y) : Since P' Q' l := by
  obtain ⟨pre, st, post, rfl, h1, h2⟩ := h
  exact ⟨pre, st, post, rfl, hP _ h1, fun y hy => hQ y (h2 y hy)⟩

/-- If no step with `P` satisfies `P'` or `Q'`, the step that `P'` speaks of
    comes after the one that `P` speaks of. -/
theorem Since.after (h : Since P Q l) (h' : Since P' Q' l) (hP : ∀ y, P y → ¬ P' y ∧ ¬ Q' y) :
    ∃ pre y mid z post, l = pre ++ y :: (mid ++ z :: post) ∧ P y ∧ P' z ∧
      (∀ w ∈ mid ++ z :: post, Q w) ∧ ∀ w ∈ post, Q' w := by
  obtain ⟨pre, y, rest, rfl, hy, hrest⟩ := h
  obtain ⟨pre', z, post, hl, hz, hpost⟩ := h'
  rcases List.append_eq_append_iff.1 hl with ⟨mid, rfl, hmid⟩ | ⟨mid, rfl, hmid⟩
  · cases mid with
    | nil =>
      obtain ⟨rfl, -⟩ := List.cons_eq_cons.1 hmid
      exact absurd hz (hP _ hy).1
    | cons x mid =>
      obtain ⟨rfl, rfl⟩ := List.cons_eq_cons.1 hmid
      exact ⟨pre, y, mid, z, post, rfl, hy, hz, hrest, hpost⟩
  · cases mid with
    | nil =>
      obtain ⟨rfl, -⟩ := List.cons_eq_cons.1 hmid
      exact absurd hz (hP _ hy).1
    | cons x mid =>
      obtain ⟨rfl, rfl⟩ := List.cons_eq_cons.1 hmid
      exact absurd (hpost y (by simp)) (hP _ hy).2

end Run
