/-
  Following the pointers of a finite map to a value.

  `step k a` says what the entry `a` of the key `k` is: a value, a pointer to
  another key, or neither.  `chase` follows the pointers and visits no key
  twice; with as much fuel as the map has entries it finds exactly what a path
  leads to (`chase_eq_some`).
-/
import PaPlatform.Lib.Table

namespace Chase

universe u v w
variable {κ : Type u} {α : Type v} {β : Type w} [DecidableEq κ]

/-- Follow the pointers from `k`; a key that was visited is erased. -/
def chase (step : κ → α → Option (κ ⊕ β)) : ℕ → AList (fun _ : κ => α) → κ → Option β
  | 0, _, _ => none
  | n + 1, m, k =>
    match (m.lookup k).bind (step k) with
    | none => none
    | some (.inl k') => chase step n (m.erase k) k'
    | some (.inr b) => some b

/-- `Leads step m d k l b`: from `k`, `d` pointers lead to the value `b` of `l`. -/
inductive Leads (step : κ → α → Option (κ ⊕ β)) (m : AList fun _ : κ => α) :
    ℕ → κ → κ → β → Prop
  | here {k : κ} {a : α} {b : β} : m.lookup k = some a → step k a = some (.inr b) →
      Leads step m 0 k k b
  | there {d : ℕ} {k k' l : κ} {a : α} {b : β} : m.lookup k = some a →
      step k a = some (.inl k') → Leads step m d k' l b → Leads step m (d + 1) k l b

variable {step : κ → α → Option (κ ⊕ β)} {m : AList fun _ : κ => α} {k l x y : κ} {a : α} {b c : β}
  {d e n : ℕ}

theorem Leads.unique (h : Leads step m d k x b) (h' : Leads step m e k y c) :
    d = e ∧ x = y ∧ b = c := by
  induction h generalizing e with
  | here hk hs =>
    cases h' with
    | here hk' hs' =>
      rw [hk] at hk'; cases hk'
      rw [hs] at hs'; cases hs'
      exact ⟨rfl, rfl, rfl⟩
    | there hk' hs' _ =>
      rw [hk] at hk'; cases hk'
      rw [hs] at hs'; cases hs'
  | there hk hs _ ih =>
    cases h' with
    | here hk' hs' =>
      rw [hk] at hk'; cases hk'
      rw [hs] at hs'; cases hs'
    | there hk' hs' h' =>
      rw [hk] at hk'; cases hk'
      rw [hs] at hs'; cases hs'
      obtain ⟨rfl, rfl, rfl⟩ := ih h'
      exact ⟨rfl, rfl, rfl⟩

/-- A path does not visit a key from which the way is longer. -/
theorem Leads.erase (h : Leads step m d k x b) (hl : Leads step m e l y c) (hlt : d < e) :
    Leads step (m.erase l) d k x b := by
  induction h with
  | @here k _ _ hk hs =>
    have hne : k ≠ l := by
      rintro rfl
      have := ((Leads.here hk hs).unique hl).1
      omega
    exact .here (by rw [AList.lookup_erase_ne hne]; exact hk) hs
  | @there _ k _ _ _ _ hk hs hp ih =>
    have hne : k ≠ l := by
      rintro rfl
      have := ((Leads.there hk hs hp).unique hl).1
      omega
    exact .there (by rw [AList.lookup_erase_ne hne]; exact hk) hs (ih (by omega))

theorem length_erase (h : m.lookup k = some a) : (m.erase k).entries.length + 1 = m.entries.length := by
  rw [(Table.perm_entries h).length_eq, List.length_cons]

/-- A path is shorter than the map is large. -/
theorem Leads.lt_length (h : Leads step m d k x b) : d < m.entries.length := by
  induction d generalizing m k with
  | zero =>
    cases h with
    | here hk _ =>
      have := length_erase hk
      omega
  | succ d ih =>
    cases h with
    | there hk hs hp =>
      have := ih (hp.erase (.there hk hs hp) (Nat.lt_succ_self d))
      have := length_erase hk
      omega

theorem chase_of_leads (h : Leads step m d k x b) (hn : d < n) : chase step n m k = some b := by
  induction d generalizing m k n with
  | zero =>
    cases h with
    | here hk hs =>
      cases n with
      | zero => omega
      | succ n => simp only [chase, hk, Option.bind_some, hs]
  | succ d ih =>
    cases h with
    | there hk hs hp =>
      cases n with
      | zero => omega
      | succ n =>
        simp only [chase, hk, Option.bind_some, hs]
        exact ih (hp.erase (.there hk hs hp) (Nat.lt_succ_self d)) (by omega)

theorem lookup_of_erase (h : (m.erase l).lookup x = some a) : m.lookup x = some a := by
  by_cases hxl : x = l
  · subst hxl
    simp at h
  · rwa [AList.lookup_erase_ne hxl] at h

theorem Leads.of_erase (h : Leads step (m.erase l) d k x b) : Leads step m d k x b := by
  induction h with
  | here hk hs => exact .here (lookup_of_erase hk) hs
  | there hk hs _ ih => exact .there (lookup_of_erase hk) hs ih

theorem leads_of_chase (h : chase step n m k = some b) : ∃ d x, Leads step m d k x b := by
  induction n generalizing m k with
  | zero => cases h
  | succ n ih =>
    rw [chase] at h
    rcases hk : m.lookup k with _ | a
    · rw [hk] at h
      cases h
    · rw [hk, Option.bind_some] at h
      rcases hs : step k a with _ | k' | b'
      · rw [hs] at h
        cases h
      · rw [hs] at h
        obtain ⟨d, x, hd⟩ := ih h
        exact ⟨d + 1, x, .there hk hs hd.of_erase⟩
      · rw [hs] at h
        cases h
        exact ⟨0, k, .here hk hs⟩

/-- **With one unit of fuel for each entry, `chase` finds what a path leads
    to.** -/
theorem chase_eq_some (hn : m.entries.length ≤ n) :
    chase step n m k = some b ↔ ∃ d x, Leads step m d k x b := by
  constructor
  · exact leads_of_chase
  · rintro ⟨d, x, h⟩
    exact chase_of_leads h (h.lt_length.trans_le hn)

theorem Leads.ends (h : Leads step m d k x b) : ∃ a, m.lookup x = some a ∧ step x a = some (.inr b) := by
  induction h with
  | here hk hs => exact ⟨_, hk, hs⟩
  | there _ _ _ ih => exact ih

/-! ## Paths after an update -/

/-- A path depends on the entries alone. -/
theorem Leads.congr {m' : AList fun _ : κ => α} (h : Leads step m d k x b)
    (hm : ∀ y, m'.lookup y = m.lookup y) : Leads step m' d k x b := by
  induction h with
  | here hk hs => exact .here ((hm _).trans hk) hs
  | there hk hs _ ih => exact .there ((hm _).trans hk) hs ih

/-- A new key changes no path. -/
theorem Leads.insert_fresh (h : Leads step m d k x b) (hl : m.lookup l = none) :
    Leads step (m.insert l a) d k x b := by
  have hkeep : ∀ {y a'}, m.lookup y = some a' → (m.insert l a).lookup y = some a' := by
    intro y a' hy
    rw [Table.lookup_insert_eq, if_neg]
    · exact hy
    · rintro rfl
      rw [hl] at hy
      cases hy
  induction h with
  | here hk hs => exact .here (hkeep hk) hs
  | there hk hs _ ih => exact .there (hkeep hk) hs ih

/-- A path that ends elsewhere does not notice a new entry for a value. -/
theorem Leads.insert_other (h : Leads step m d k x b) (hl : Leads step m 0 l l c) (hx : x ≠ l) :
    Leads step (m.insert l a) d k x b := by
  induction h with
  | @here k _ _ hk hs => exact .here (by rw [AList.lookup_insert_ne hx]; exact hk) hs
  | @there _ k _ _ _ _ hk hs hp ih =>
    have hne : k ≠ l := by
      rintro rfl
      have := ((Leads.there hk hs hp).unique hl).1
      omega
    exact .there (by rw [AList.lookup_insert_ne hne]; exact hk) hs (ih hx)

/-- A path that ends at a value goes on from its new entry. -/
theorem Leads.insert_end (h : Leads step m d k l b) (hnew : Leads step (m.insert l a) e l x c) :
    Leads step (m.insert l a) (d + e) k x c := by
  induction h with
  | here => rwa [Nat.zero_add]
  | @there d k _ l _ _ hk hs hp ih =>
    obtain ⟨a', ha', hs'⟩ := hp.ends
    have hne : k ≠ l := by
      rintro rfl
      have := ((Leads.there hk hs hp).unique (.here ha' hs')).1
      omega
    rw [Nat.succ_add_eq_add_succ, Nat.add_succ]
    exact .there (by rw [AList.lookup_insert_ne hne]; exact hk) hs (ih hnew)

end Chase
