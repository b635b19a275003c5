/-
  The ancestors of a key in a graph of dependencies.

  `ancestors` is a search that rejects a cycle and a key without an entry, and
  keeps what it found for a key.  What it finds is the transitive closure, and a
  search that succeeds shows that there is no infinite descent from the key.
  `grow` is induction over a finite set, along the dependencies.
-/
import Mathlib

namespace Ancestry

open Relation

universe u
variable {κ : Type u}

/-- What was found for the keys so far. -/
abbrev Cache (κ : Type u) := κ → Option (List κ)

/-- Search each of the keys; they and their ancestors are found. -/
def collect (search : Cache κ → κ → Option (List κ × Cache κ)) :
    List κ → List κ → Cache κ → Option (List κ × Cache κ)
  | [], found, cache => some (found, cache)
  | dep :: deps, found, cache => do
    let prior ← search cache dep
    collect search deps (found ++ dep :: prior.1) prior.2

/-- `a` is a dependency of `b`. -/
def Dep (byId : κ → Option (List κ)) (a b : κ) : Prop := ∃ deps, byId b = some deps ∧ a ∈ deps

variable {byId : κ → Option (List κ)} {cache : Cache κ} {id x : κ} {deps found keys visiting : List κ}
  {r : List κ × Cache κ} {search search' : Cache κ → κ → Option (List κ × Cache κ)} {n : ℕ}

/-- `found` are the ancestors of the key, and the descent from it ends. -/
structure Explored (byId : κ → Option (List κ)) (id : κ) (found : List κ) : Prop where
  acc : Acc (Dep byId) id
  mem : ∀ x, x ∈ found ↔ TransGen (Dep byId) x id

/-- Only explored keys are kept. -/
def Sound (byId : κ → Option (List κ)) (cache : Cache κ) : Prop :=
  ∀ id found, cache id = some found → Explored byId id found

theorem sound_empty : Sound byId fun _ => none := nofun

theorem collect_explored (hsearch : ∀ {cache id r}, Sound byId cache → search cache id = some r →
      Sound byId r.2 ∧ Explored byId id r.1) (hc : Sound byId cache) (h : collect search deps found cache = some r) :
    Sound byId r.2 ∧ (∀ dep ∈ deps, Acc (Dep byId) dep) ∧
      ∀ x, x ∈ r.1 ↔ x ∈ found ∨ ∃ dep ∈ deps, ReflTransGen (Dep byId) x dep := by
  induction deps generalizing found cache with
  | nil =>
    obtain rfl := Option.some.inj h
    exact ⟨hc, nofun, fun x => by simp⟩
  | cons dep deps ih =>
    obtain ⟨prior, hprior, h⟩ := Option.bind_eq_some_iff.1 h
    obtain ⟨hc', he⟩ := hsearch hc hprior
    obtain ⟨hr, hacc, hmem⟩ := ih hc' h
    refine ⟨hr, List.forall_mem_cons.2 ⟨he.acc, hacc⟩, fun x => ?_⟩
    rw [hmem x, List.mem_append, List.mem_cons, he.mem, or_assoc, List.exists_mem_cons_iff, reflTransGen_iff_eq_or_transGen]
    simp only [eq_comm]

theorem collect_congr (h : ∀ cache id, search cache id = search' cache id) :
    collect search deps found cache = collect search' deps found cache := by
  have heq : search = search' := by
    funext cache id
    exact h cache id
  rw [heq]

/-- No key from which the descent ends is an ancestor of itself. -/
theorem not_ancestor_self {R : κ → κ → Prop} (h : Acc R x) : ¬ TransGen R x x := by
  have ht := h.transGen
  clear h
  induction ht with
  | intro x _ ih => exact fun hx => ih x hx hx

/-- Every set of keys that is not empty has one without dependencies in it. -/
theorem exists_first {R : κ → κ → Prop} {S : Finset κ} (hacc : Acc R x) (hx : x ∈ S) :
    ∃ m ∈ S, ∀ y ∈ S, ¬ R y m := by
  induction hacc with
  | intro x _ ih =>
    by_cases h : ∃ y ∈ S, R y x
    · obtain ⟨y, hy, hr⟩ := h
      exact ih y hr hy
    · refine ⟨x, hx, fun y hy hr => h ⟨y, hy, hr⟩⟩

section
variable [DecidableEq κ]

/-- The ancestors of a key, on the way from the keys of `visiting`. -/
def ancestors (byId : κ → Option (List κ)) : ℕ → List κ → Cache κ → κ → Option (List κ × Cache κ)
  | 0, _, _, _ => none
  | n + 1, visiting, cache, id =>
    if id ∈ visiting then none
    else
      match cache id with
      | some found => some (found, cache)
      | none => do
        let deps ← byId id
        let found ← collect (ancestors byId n (id :: visiting)) deps [] cache
        return (found.1, Function.update found.2 id (some found.1))

theorem Sound.update (h : Sound byId cache) (he : Explored byId id found) :
    Sound byId (Function.update cache id (some found)) := by
  intro id' found' hx
  by_cases heq : id' = id
  · subst heq
    rw [Function.update_self] at hx
    obtain rfl := Option.some.inj hx
    exact he
  · rw [Function.update_of_ne heq] at hx
    exact h id' found' hx

/-- **What a search finds are the ancestors**, and no cycle leads to the key. -/
theorem ancestors_explored (hc : Sound byId cache) (h : ancestors byId n visiting cache id = some r) :
    Sound byId r.2 ∧ Explored byId id r.1 := by
  induction n generalizing visiting cache id r with
  | zero => cases h
  | succ n ih =>
    rw [ancestors] at h
    split_ifs at h
    cases hid : cache id with
    | some found =>
      rw [hid] at h
      obtain rfl := Option.some.inj h
      exact ⟨hc, hc id found hid⟩
    | none =>
      rw [hid] at h
      obtain ⟨deps, hdeps, h⟩ := Option.bind_eq_some_iff.1 h
      obtain ⟨found, hfound, h⟩ := Option.bind_eq_some_iff.1 h
      obtain rfl := Option.some.inj h
      obtain ⟨hs, hacc, hmem⟩ := collect_explored ih hc hfound
      have he : Explored byId id found.1 := by
        constructor
        · refine Acc.intro _ fun y hy => ?_
          obtain ⟨deps', hdeps', hy⟩ := hy
          obtain rfl := Option.some.inj (hdeps.symm.trans hdeps')
          exact hacc y hy
        · intro x
          rw [hmem x, TransGen.tail'_iff]
          constructor
          · rintro (hx | ⟨dep, hdep, hx⟩)
            · cases hx
            · exact ⟨dep, hx, deps, hdeps, hdep⟩
          · rintro ⟨dep, hx, deps', hdeps', hdep⟩
            obtain rfl := Option.some.inj (hdeps.symm.trans hdeps')
            exact Or.inr ⟨dep, hdep, hx⟩
      exact ⟨hs.update he, he⟩

/-- More fuel than keys changes nothing: the search always ends. -/
theorem ancestors_fuel (hkeys : ∀ id deps, byId id = some deps → id ∈ keys) (hv : visiting.Nodup)
    (hsub : visiting ⊆ keys) (hn : keys.length < visiting.length + n) :
    ancestors byId n visiting cache id = ancestors byId (n + 1) visiting cache id := by
  induction n generalizing visiting cache id with
  | zero =>
    have hle := (hv.subperm hsub).length_le
    omega
  | succ n ih =>
    rw [ancestors]
    conv_rhs => rw [ancestors]
    by_cases hmem : id ∈ visiting
    · rw [if_pos hmem, if_pos hmem]
    · rw [if_neg hmem, if_neg hmem]
      cases cache id with
      | some found => rfl
      | none =>
        cases hid : byId id with
        | none => rfl
        | some deps =>
          have hcongr : collect (ancestors byId n (id :: visiting)) deps [] cache =
              collect (ancestors byId (n + 1) (id :: visiting)) deps [] cache := by
            refine collect_congr fun cache' id' => ?_
            refine ih (List.nodup_cons.2 ⟨hmem, hv⟩) (List.cons_subset.2 ⟨hkeys id deps hid, hsub⟩) ?_
            rw [List.length_cons]
            omega
          show (collect _ deps [] cache >>= _) = (collect _ deps [] cache >>= _)
          rw [hcongr]

/-- **Induction along the dependencies**: a finite set with all its ancestors is
    reached key by key, each after its dependencies. -/
theorem grow {R : κ → κ → Prop} {A : Finset κ} {P : Finset κ → Prop} (hacc : ∀ x ∈ A, Acc R x)
    (hempty : P ∅) (hstep : ∀ D x, D ⊆ A → x ∈ A → x ∉ D → (∀ y ∈ A, R y x → y ∈ D) → P D → P (insert x D)) : P A := by
  have hgrow : ∀ n D, (A \ D).card = n → D ⊆ A → P D → P A := by
    intro n
    induction n with
    | zero =>
      intro D hn hD hP
      have hsub : A ⊆ D := Finset.sdiff_eq_empty_iff_subset.1 (Finset.card_eq_zero.1 hn)
      rwa [← Finset.Subset.antisymm hD hsub]
    | succ n ih =>
      intro D hn hD hP
      obtain ⟨x, hx⟩ : (A \ D).Nonempty := by
        rw [← Finset.card_pos]
        omega
      obtain ⟨m, hm, hfirst⟩ := exists_first (hacc x (Finset.mem_sdiff.1 hx).1) hx
      obtain ⟨hmA, hmD⟩ := Finset.mem_sdiff.1 hm
      refine ih (insert m D) ?_ (Finset.insert_subset hmA hD) (hstep D m hD hmA hmD ?_ hP)
      · rw [Finset.sdiff_insert, Finset.card_erase_of_mem hm]
        omega
      · intro y hy hr
        by_contra hyD
        exact hfirst y (Finset.mem_sdiff.2 ⟨hy, hyD⟩) hr
  exact hgrow _ ∅ rfl (Finset.empty_subset A) hempty

end

end Ancestry
