/-
  Depth-first search for a cycle, with an explicit stack.

  A node is `visiting` while it is on the stack and `visited` when all that it
  depends on is.  `hasCycle` says whether the search from the roots meets a node
  that is `visiting`; with enough fuel it does so exactly when some root is not
  accessible along the dependencies (`hasCycle_eq_false_iff`).
-/
import Mathlib

namespace Dfs

universe u
variable {α : Type u} [DecidableEq α] (deps : α → List α)

inductive Color where
  | visiting
  | visited
  deriving DecidableEq

/-- A node on the stack, and how many of its dependencies were looked at. -/
structure Frame (α : Type u) where
  id : α
  index : ℕ

inductive Search (α : Type u) where
  | cycle
  | finished (color : α → Option Color)
  | unfinished

/-- Color a node that is met for the first time. -/
def enter (color : α → Option Color) (x : α) : α → Option Color :=
  if color x = none then Function.update color x (some .visiting) else color

/-- One look at the top frame; `none` is a cycle. -/
def visit (color : α → Option Color) (f : Frame α) (rest : List (Frame α)) :
    Option ((α → Option Color) × List (Frame α)) :=
  let color := enter color f.id
  match (deps f.id)[f.index]? with
  | none => some (Function.update color f.id (some .visited), rest)
  | some d =>
    let stack := { f with index := f.index + 1 } :: rest
    if color d = some .visiting then none
    else if color d = some .visited then some (color, stack)
    else some (color, ⟨d, 0⟩ :: stack)

/-- Look at the top frame until the stack is empty. -/
def loop : ℕ → (α → Option Color) → List (Frame α) → Search α
  | _, color, [] => .finished color
  | 0, _, _ :: _ => .unfinished
  | n + 1, color, f :: rest =>
    match visit deps color f rest with
    | none => .cycle
    | some (color, stack) => loop n color stack

/-- Search from the roots one after another. -/
def search (fuel : ℕ) : List α → (α → Option Color) → Search α
  | [], color => .finished color
  | r :: roots, color =>
    if color r = some .visited then search fuel roots color
    else
      match loop deps fuel color [⟨r, 0⟩] with
      | .finished color => search fuel roots color
      | other => other

/-- The search does not end without a cycle. -/
def hasCycle (fuel : ℕ) (roots : List α) : Bool :=
  match search deps fuel roots (fun _ => none) with
  | .finished _ => false
  | _ => true

/-- `Dep deps y x`: `x` depends on `y`. -/
def Dep (y x : α) : Prop := y ∈ deps x

variable {deps} {color : α → Option Color} {x y r : α} {f : Frame α} {rest stack : List (Frame α)}
  {U : Finset α} {above : Option α}

/-! ## The invariant of the loop -/

/-- What was looked at is visited, but for the dependency that the next frame is
    about. -/
def Seen (deps : α → List α) (color : α → Option Color) (above : Option α) : List (Frame α) → Prop
  | [] => True
  | f :: rest => (∀ d ∈ (deps f.id).take f.index, color d = some .visited ∨ above = some d) ∧
      Seen deps color (some f.id) rest

structure Inv (deps : α → List α) (U : Finset α) (r : α) (color : α → Option Color)
    (stack : List (Frame α)) : Prop where
  acc : ∀ x, color x = some .visited → Acc (Dep deps) x
  visiting : ∀ x, color x = some .visiting → x ∈ stack.map (·.id)
  below : ∀ f ∈ stack.tail, color f.id = some .visiting
  top : ∀ f ∈ stack.head?, color f.id ≠ some .visited
  chain : stack.IsChain fun f g => f.id ∈ deps g.id
  seen : Seen deps color none stack
  root : color r = some .visited ∨ r ∈ stack.map (·.id)
  reach : ∀ f ∈ stack, Relation.ReflTransGen (Dep deps) f.id r
  inside : ∀ f ∈ stack, f.id ∈ U

theorem enter_eq (h : color x ≠ some .visited) : enter color x = Function.update color x (some .visiting) := by
  unfold enter
  split_ifs with hn
  · rfl
  · have hv : color x = some .visiting := by
      cases hc : color x with
      | none => exact absurd hc hn
      | some k =>
        cases k with
        | visiting => rfl
        | visited => exact absurd hc h
    rw [← hv, Function.update_eq_self]

/-- What is visited stays seen when colors are added. -/
theorem Seen.mono {color' : α → Option Color} {above' : Option α} (hs : Seen deps color above stack)
    (hc : ∀ x, color x = some .visited → color' x = some .visited)
    (ha : ∀ d, above = some d → color' d = some .visited ∨ above' = some d) :
    Seen deps color' above' stack := by
  induction stack generalizing above above' with
  | nil => trivial
  | cons f rest ih =>
    refine ⟨fun d hd => ?_, ih hs.2 fun d hd => Or.inr hd⟩
    rcases hs.1 d hd with h | h
    · exact Or.inl (hc d h)
    · exact ha d h

/-- The top frame is reached from every frame of the stack. -/
theorem Inv.transGen (hi : Inv deps U r color (f :: rest)) {g : Frame α} (hg : g ∈ rest) :
    Relation.TransGen (Dep deps) f.id g.id := by
  have hpair : (f :: rest).Pairwise fun f g => Relation.TransGen (Dep deps) f.id g.id :=
    (hi.chain.imp (S := fun f g : Frame α => Relation.TransGen (Dep deps) f.id g.id)
      fun _ _ h => Relation.TransGen.single h).pairwise
  exact (List.pairwise_cons.1 hpair).1 g hg

/-- What is accessible is on no cycle. -/
theorem not_loop {R : α → α → Prop} (h : Acc R x) : ¬ R x x := by
  induction h with
  | intro x _ ih => exact fun hl => ih x hl hl

/-- **A node that is met while it is visited lies on a cycle below the root.** -/
theorem Inv.cycle (hi : Inv deps U r color (f :: rest)) {d : α} (hd : d ∈ deps f.id)
    (hc : enter color f.id d = some .visiting) : ¬ Acc (Dep deps) r := by
  intro hacc
  have hmem : d ∈ (f :: rest).map (·.id) := by
    rw [enter_eq (hi.top f rfl)] at hc
    by_cases he : d = f.id
    · simp [he]
    · rw [Function.update_of_ne he] at hc
      exact hi.visiting d hc
  obtain ⟨g, hg, rfl⟩ := List.mem_map.1 hmem
  have hloop : Relation.TransGen (Dep deps) g.id g.id := by
    rcases List.mem_cons.1 hg with rfl | hg
    · exact .single hd
    · exact Relation.TransGen.head (show Dep deps g.id f.id from hd) (hi.transGen hg)
  have hg : Acc (Dep deps) g.id := by
    rcases Relation.reflTransGen_iff_eq_or_transGen.1 (hi.reach g hg) with he | ht
    · rwa [← he]
    · exact Acc.inv_of_transGen hacc ht
  exact not_loop hg.transGen hloop

theorem Inv.enter (hi : Inv deps U r color (f :: rest)) :
    Inv deps U r (enter color f.id) (f :: rest) ∧ enter color f.id f.id = some .visiting := by
  have hne := hi.top f rfl
  rw [enter_eq hne]
  have hold : ∀ x, color x = some .visited → Function.update color f.id (some .visiting) x = some .visited := by
    intro x hx
    rw [Function.update_of_ne (fun he : x = f.id => hne (he ▸ hx)), hx]
  refine ⟨⟨fun x hx => ?_, fun x hx => ?_, fun g hg => ?_, fun g hg => ?_, hi.chain, ?_,
    hi.root.imp_left (hold r), hi.reach, hi.inside⟩, Function.update_self ..⟩
  · by_cases he : x = f.id
    · subst he
      simp at hx
    · exact hi.acc x (by rwa [Function.update_of_ne he] at hx)
  · by_cases he : x = f.id
    · simp [he]
    · exact hi.visiting x (by rwa [Function.update_of_ne he] at hx)
  · by_cases he : g.id = f.id
    · simp [he]
    · rw [Function.update_of_ne he]
      exact hi.below g hg
  · cases hg
    simp
  · exact hi.seen.mono hold fun d hd => by cases hd

/-- A frame whose dependencies are all visited leaves the stack. -/
theorem Inv.pop (hi : Inv deps U r color (f :: rest)) (hlen : (deps f.id).length ≤ f.index) :
    Inv deps U r (Function.update color f.id (some .visited)) rest := by
  have hacc : Acc (Dep deps) f.id := by
    refine Acc.intro _ fun d hd => hi.acc d ?_
    have hs := hi.seen.1 d (by rw [List.take_of_length_le hlen]; exact hd)
    exact hs.resolve_right (by simp)
  have hother : ∀ g ∈ rest, g.id ≠ f.id := by
    intro g hg he
    have ht := hi.transGen hg
    rw [he] at ht
    exact not_loop hacc.transGen ht
  have hold : ∀ x, color x = some .visited →
      Function.update color f.id (some .visited) x = some .visited := by
    intro x hx
    by_cases he : x = f.id
    · simp [he]
    · rw [Function.update_of_ne he, hx]
  refine ⟨fun x hx => ?_, fun x hx => ?_, fun g hg => ?_, fun g hg => ?_, hi.chain.tail, ?_, ?_,
    fun g hg => hi.reach g (List.mem_cons_of_mem _ hg), fun g hg => hi.inside g (List.mem_cons_of_mem _ hg)⟩
  · by_cases he : x = f.id
    · exact he ▸ hacc
    · exact hi.acc x (by rwa [Function.update_of_ne he] at hx)
  · by_cases he : x = f.id
    · subst he
      simp at hx
    · rw [Function.update_of_ne he] at hx
      simpa [he] using hi.visiting x hx
  · have hmem : g ∈ rest := List.mem_of_mem_tail hg
    rw [Function.update_of_ne (hother g hmem)]
    exact hi.below g hmem
  · have hmem : g ∈ rest := List.mem_of_mem_head? hg
    rw [Function.update_of_ne (hother g hmem), hi.below g hmem]
    simp
  · exact hi.seen.2.mono hold fun d hd => by
      cases hd
      exact Or.inl (Function.update_self ..)
  · rcases hi.root with h | h
    · exact Or.inl (hold r h)
    · rcases List.mem_cons.1 h with he | h
      · exact Or.inl (by simp [he])
      · exact Or.inr h

/-- A dependency that is visited is passed over. -/
theorem Inv.look (hi : Inv deps U r color (f :: rest)) {d : α} (hd : (deps f.id)[f.index]? = some d)
    (hc : color d = some .visited) : Inv deps U r color ({ f with index := f.index + 1 } :: rest) := by
  refine ⟨hi.acc, hi.visiting, hi.below, fun g hg => ?_, ?_, ⟨fun x hx => ?_, hi.seen.2⟩, hi.root,
    fun g hg => ?_, fun g hg => ?_⟩
  · cases hg
    exact hi.top f rfl
  · cases rest with
    | nil => exact List.isChain_singleton _
    | cons g rest => exact List.isChain_cons_cons.2 (List.isChain_cons_cons.1 hi.chain)
  · rw [List.take_add_one, hd] at hx
    rcases List.mem_append.1 hx with hx | hx
    · exact hi.seen.1 x hx
    · rw [Option.toList_some, List.mem_singleton] at hx
      exact Or.inl (hx ▸ hc)
  · rcases List.mem_cons.1 hg with rfl | hg
    · exact hi.reach f (by simp)
    · exact hi.reach g (by simp [hg])
  · rcases List.mem_cons.1 hg with rfl | hg
    · exact hi.inside f (by simp)
    · exact hi.inside g (by simp [hg])

/-- A dependency that was not met yet goes on top of the stack. -/
theorem Inv.push (hU : ∀ x ∈ U, ∀ d ∈ deps x, d ∈ U) (hi : Inv deps U r color (f :: rest))
    (hv : color f.id = some .visiting) {d : α} (hd : (deps f.id)[f.index]? = some d)
    (hc : color d = none) :
    Inv deps U r color (⟨d, 0⟩ :: { f with index := f.index + 1 } :: rest) := by
  have hmem : d ∈ deps f.id := List.mem_of_getElem? hd
  refine ⟨hi.acc, fun x hx => ?_, fun g hg => ?_, fun g hg => ?_, ?_,
    ⟨fun x hx => by simp at hx, fun x hx => ?_, hi.seen.2⟩, ?_, fun g hg => ?_, fun g hg => ?_⟩
  · exact List.mem_cons_of_mem _ (hi.visiting x hx)
  · rcases List.mem_cons.1 hg with rfl | hg
    · exact hv
    · exact hi.below g hg
  · cases hg
    simp [hc]
  · refine List.isChain_cons_cons.2 ⟨hmem, ?_⟩
    cases rest with
    | nil => exact List.isChain_singleton _
    | cons g rest => exact List.isChain_cons_cons.2 (List.isChain_cons_cons.1 hi.chain)
  · rw [List.take_add_one, hd] at hx
    rcases List.mem_append.1 hx with hx | hx
    · exact Or.inl ((hi.seen.1 x hx).resolve_right (by simp))
    · rw [Option.toList_some, List.mem_singleton] at hx
      exact Or.inr (by rw [hx])
  · exact hi.root.imp_right fun h => List.mem_cons_of_mem _ h
  · rcases List.mem_cons.1 hg with rfl | hg
    · exact (hi.reach f (by simp)).head hmem
    rcases List.mem_cons.1 hg with rfl | hg
    · exact hi.reach f (by simp)
    · exact hi.reach g (by simp [hg])
  · rcases List.mem_cons.1 hg with rfl | hg
    · exact hU f.id (hi.inside f (by simp)) d hmem
    rcases List.mem_cons.1 hg with rfl | hg
    · exact hi.inside f (by simp)
    · exact hi.inside g (by simp [hg])

/-! ## Fuel -/

/-- The looks that a node takes. -/
def weight (deps : α → List α) (x : α) : ℕ := (deps x).length + 2

/-- The nodes that may still go on the stack. -/
def pending (U : Finset α) (color : α → Option Color) (stack : List (Frame α)) : Finset α :=
  U.filter fun x => color x ≠ some .visited ∧ x ∉ stack.map (·.id)

/-- A bound of the looks until the stack is empty. -/
def potential (deps : α → List α) (U : Finset α) (color : α → Option Color) (stack : List (Frame α)) : ℕ :=
  ∑ x ∈ pending U color stack, weight deps x +
    (stack.map fun f => (deps f.id).length - f.index + 1).sum

theorem potential_pop : potential deps U (Function.update color f.id (some .visited)) rest <
    potential deps U color (f :: rest) := by
  have hsub : pending U (Function.update color f.id (some .visited)) rest ⊆ pending U color (f :: rest) := by
    intro x hx
    rw [pending, Finset.mem_filter] at hx ⊢
    obtain ⟨hU, hc, hn⟩ := hx
    have he : x ≠ f.id := by
      rintro rfl
      exact hc (Function.update_self ..)
    rw [Function.update_of_ne he] at hc
    exact ⟨hU, hc, by simpa [he] using hn⟩
  have hsum := Finset.sum_le_sum_of_subset (f := weight deps) hsub
  simp only [potential, List.map_cons, List.sum_cons]
  omega

theorem potential_look (hlt : f.index < (deps f.id).length) :
    potential deps U color ({ f with index := f.index + 1 } :: rest) < potential deps U color (f :: rest) := by
  have hp : pending U color ({ f with index := f.index + 1 } :: rest) = pending U color (f :: rest) := rfl
  simp only [potential, List.map_cons, List.sum_cons, hp]
  omega

theorem potential_push {d : α} (hlt : f.index < (deps f.id).length) (hd : d ∈ U) (hc : color d = none)
    (hn : d ∉ (f :: rest).map (·.id)) :
    potential deps U color (⟨d, 0⟩ :: { f with index := f.index + 1 } :: rest) <
      potential deps U color (f :: rest) := by
  have hmem : d ∈ pending U color (f :: rest) := by
    rw [pending, Finset.mem_filter]
    exact ⟨hd, by simp [hc], hn⟩
  have hsub : pending U color (⟨d, 0⟩ :: { f with index := f.index + 1 } :: rest) ⊆
      (pending U color (f :: rest)).erase d := by
    intro x hx
    rw [pending, Finset.mem_filter] at hx
    obtain ⟨hU, hcx, hnx⟩ := hx
    rw [List.map_cons, List.mem_cons, not_or] at hnx
    rw [Finset.mem_erase, pending, Finset.mem_filter]
    exact ⟨hnx.1, hU, hcx, hnx.2⟩
  have hsum := Finset.sum_le_sum_of_subset (f := weight deps) hsub
  have herase := Finset.add_sum_erase (pending U color (f :: rest)) (weight deps) hmem
  have hw : weight deps d = (deps d).length + 2 := rfl
  simp only [potential, List.map_cons, List.sum_cons]
  omega

/-! ## The search -/

/-- What a search says: a cycle below the roots, or colors with `Q`. -/
def Search.Tells (deps : α → List α) (roots : List α) (Q : (α → Option Color) → Prop) : Search α → Prop
  | cycle => ¬ ∀ r ∈ roots, Acc (Dep deps) r
  | finished color => Q color
  | unfinished => False

theorem loop_tells (hU : ∀ x ∈ U, ∀ d ∈ deps x, d ∈ U) {n : ℕ} (hi : Inv deps U r color stack)
    (hn : potential deps U color stack ≤ n) :
    (loop deps n color stack).Tells deps [r] fun color' => Inv deps U r color' [] := by
  induction n generalizing color stack with
  | zero =>
    cases stack with
    | nil => exact hi
    | cons f rest => simp [potential] at hn
  | succ n ih =>
    cases stack with
    | nil => exact hi
    | cons f rest =>
      obtain ⟨hi', hv⟩ := hi.enter
      have hpot : potential deps U (enter color f.id) (f :: rest) ≤ n + 1 := by
        have hp : pending U (enter color f.id) (f :: rest) ⊆ pending U color (f :: rest) := by
          intro x hx
          rw [pending, Finset.mem_filter] at hx ⊢
          obtain ⟨hU, hc, hn⟩ := hx
          rw [enter_eq (hi.top f rfl), Function.update_of_ne (by simp at hn; exact hn.1)] at hc
          exact ⟨hU, hc, hn⟩
        have hsum := Finset.sum_le_sum_of_subset (f := weight deps) hp
        simp only [potential] at hn ⊢
        omega
      rw [loop, visit]
      dsimp only
      cases hd : (deps f.id)[f.index]? with
      | none =>
        have hlen := List.getElem?_eq_none_iff.1 hd
        refine ih (hi'.pop hlen) ?_
        have hlt := @potential_pop α _ deps (enter color f.id) f rest U
        omega
      | some d =>
        have hlt : f.index < (deps f.id).length := (List.getElem?_eq_some_iff.1 hd).1
        dsimp only
        by_cases hc : enter color f.id d = some .visiting
        · rw [if_pos hc]
          simpa [Search.Tells] using hi.cycle (List.mem_of_getElem? hd) hc
        · rw [if_neg hc]
          by_cases hc' : enter color f.id d = some .visited
          · rw [if_pos hc']
            refine ih (hi'.look hd hc') ?_
            have hlook := @potential_look α _ deps (enter color f.id) f rest U hlt
            omega
          · rw [if_neg hc']
            have hnone : enter color f.id d = none := by
              cases hk : enter color f.id d with
              | none => rfl
              | some k =>
                cases k with
                | visiting => exact absurd hk hc
                | visited => exact absurd hk hc'
            have hout : d ∉ (f :: rest).map (·.id) := by
              intro hmem
              obtain ⟨g, hg, rfl⟩ := List.mem_map.1 hmem
              rcases List.mem_cons.1 hg with rfl | hg
              · exact hc hv
              · exact hc (hi'.below g hg)
            refine ih (hi'.push hU hv hd hnone) ?_
            have hin : d ∈ U := hU f.id (hi.inside f (by simp)) d (List.mem_of_getElem? hd)
            have hpush := @potential_push α _ deps (enter color f.id) f rest U d hlt hin hnone hout
            omega

/-- Between two roots every node is visited or not met. -/
structure Clean (deps : α → List α) (color : α → Option Color) : Prop where
  acc : ∀ x, color x = some .visited → Acc (Dep deps) x
  idle : ∀ x, color x ≠ some .visiting

theorem Clean.start (hc : Clean deps color) (hr : r ∈ U) (hn : color r ≠ some .visited) :
    Inv deps U r color [⟨r, 0⟩] := by
  refine ⟨hc.acc, fun x hx => absurd hx (hc.idle x), by simp, ?_, List.isChain_singleton _,
    ⟨fun x hx => by simp at hx, trivial⟩, Or.inr (by simp), ?_, ?_⟩
  · intro f hf
    cases hf
    exact hn
  · intro f hf
    rw [List.mem_singleton.1 hf]
  · intro f hf
    rw [List.mem_singleton.1 hf]
    exact hr

theorem Inv.clean (hi : Inv deps U r color []) : Clean deps color ∧ Acc (Dep deps) r := by
  refine ⟨⟨hi.acc, fun x hx => ?_⟩, hi.acc r ?_⟩
  · simpa using hi.visiting x hx
  · simpa using hi.root

theorem search_tells (hU : ∀ x ∈ U, ∀ d ∈ deps x, d ∈ U) {fuel : ℕ} {roots : List α}
    (hf : ∑ x ∈ U, weight deps x ≤ fuel) (hr : ∀ r ∈ roots, r ∈ U) (hc : Clean deps color) :
    (search deps fuel roots color).Tells deps roots fun _ => ∀ r ∈ roots, Acc (Dep deps) r := by
  induction roots generalizing color with
  | nil => simp [search, Search.Tells]
  | cons r roots ih =>
    have ih' : ∀ {color'}, Clean deps color' → Acc (Dep deps) r →
        (search deps fuel roots color').Tells deps (r :: roots)
          fun _ => ∀ x ∈ r :: roots, Acc (Dep deps) x := by
      intro color' hc' hacc
      have h := ih (fun x hx => hr x (by simp [hx])) hc'
      cases hs : search deps fuel roots color' with
      | cycle =>
        rw [hs] at h
        exact fun hall => h fun x hx => hall x (by simp [hx])
      | finished color'' =>
        rw [hs] at h
        exact List.forall_mem_cons.2 ⟨hacc, h⟩
      | unfinished =>
        rw [hs] at h
        exact h
    rw [search]
    by_cases hv : color r = some .visited
    · rw [if_pos hv]
      exact ih' hc (hc.acc r hv)
    · rw [if_neg hv]
      have hin : r ∈ U := hr r (by simp)
      have hpot : potential deps U color [⟨r, 0⟩] ≤ fuel := by
        have hsub : pending U color [⟨r, 0⟩] ⊆ U.erase r := by
          intro x hx
          rw [pending, Finset.mem_filter] at hx
          rw [Finset.mem_erase]
          exact ⟨by simpa using hx.2.2, hx.1⟩
        have hsum := Finset.sum_le_sum_of_subset (f := weight deps) hsub
        have herase := Finset.add_sum_erase U (weight deps) hin
        have hw : weight deps r = (deps r).length + 2 := rfl
        simp only [potential, List.map_cons, List.map_nil, List.sum_cons, List.sum_nil]
        omega
      have h := loop_tells hU (hc.start hin hv) hpot
      cases hl : loop deps fuel color [⟨r, 0⟩] with
      | cycle =>
        rw [hl] at h
        exact fun hall => h fun x hx => hall x (by simp [List.mem_singleton.1 hx])
      | finished color' =>
        rw [hl] at h
        exact ih' h.clean.1 h.clean.2
      | unfinished =>
        rw [hl] at h
        exact h.elim

/-- **The search is exact**: it finds no cycle exactly when every root is
    accessible along the dependencies. -/
theorem hasCycle_eq_false_iff (hU : ∀ x ∈ U, ∀ d ∈ deps x, d ∈ U) {fuel : ℕ} {roots : List α}
    (hf : ∑ x ∈ U, weight deps x ≤ fuel) (hr : ∀ r ∈ roots, r ∈ U) :
    hasCycle deps fuel roots = false ↔ ∀ r ∈ roots, Acc (Dep deps) r := by
  have hc : Clean deps fun _ => none := ⟨by simp, by simp⟩
  have h := search_tells hU hf hr hc
  unfold hasCycle
  cases hs : search deps fuel roots fun _ => none with
  | cycle =>
    rw [hs] at h
    exact ⟨(fun hf => by cases hf), fun hall => absurd hall h⟩
  | finished color =>
    rw [hs] at h
    exact ⟨fun _ => h, fun _ => rfl⟩
  | unfinished =>
    rw [hs] at h
    exact h.elim

end Dfs
