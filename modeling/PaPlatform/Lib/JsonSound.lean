/-
  Values that are written and read back unchanged.

  They are kept by the operations that build a value: an item is added to an array, or
  a property is set.
-/
import PaPlatform.Lib.JsonBytes
import PaPlatform.Lib.JsonSame

namespace Js.Value

open Js.Units

variable {double : Units → Number} {n : ℕ} {k l : Units} {x v : Value} {xs : List Value} {fs : List (Units × Value)}

/-! ## Properties in order -/

theorem inOrder_keys {fs gs : List (Units × Value)} (h : fs.map (·.1) = gs.map (·.1)) (ho : InOrder fs) : InOrder gs := by
  have hkeys : ∀ fs : List (Units × Value), InOrder fs ↔
      (fs.map (·.1)).Pairwise fun k l => k ≠ l ∧ after l k = false := by
    intro fs
    rw [List.pairwise_map]
    rfl
  rw [hkeys] at ho ⊢
  rwa [← h]

theorem keys_replace (k : Units) (x : Value) (fs : List (Units × Value)) :
    (fs.map fun f => if f.1 = k then (k, x) else f).map (·.1) = fs.map (·.1) := by
  rw [List.map_map]
  refine List.map_congr_left fun f _ => ?_
  dsimp only [Function.comp_apply]
  split_ifs with hk
  · exact hk.symm
  · rfl

theorem mem_set {f : Units × Value} (h : f ∈ set k x fs) : f = (k, x) ∨ f ∈ fs := by
  unfold set at h
  split_ifs at h
  · obtain ⟨g, hg, rfl⟩ := List.mem_map.1 h
    split_ifs
    · exact Or.inl rfl
    · exact Or.inr hg
  · rcases List.mem_append.1 h with h | h
    · exact Or.inr (List.takeWhile_sublist _ |>.subset h)
    · rcases List.mem_cons.1 h with h | h
      · exact Or.inl h
      · exact Or.inr (List.dropWhile_sublist _ |>.subset h)

/-- What comes after a key comes after the keys before it. -/
theorem after_trans {m : Units} (hk : after k l = true) (hl : after m l = false) : after m k = false := by
  simp only [after, Bool.and_eq_true, Bool.or_eq_true, Bool.not_eq_true', decide_eq_true_eq, Bool.and_eq_false_iff,
    Bool.or_eq_false_iff, Bool.not_eq_false', decide_eq_false_iff_not] at hk hl ⊢
  rcases hl with hm | ⟨hl, hle⟩
  · exact Or.inl hm
  · refine Or.inr ⟨hk.1, ?_⟩
    rcases hk.2 with hn | hlt
    · rw [hl] at hn
      cases hn
    · omega

theorem after_self_false (hk : after k l = true) : after l k = false := by
  refine after_trans hk ?_
  simp only [after, Bool.and_eq_false_iff, Bool.or_eq_false_iff, Bool.not_eq_false', decide_eq_false_iff_not, lt_irrefl,
    not_false_eq_true, and_true]
  cases isIndex l <;> simp

/-- **Properties stay in order.** -/
theorem set_inOrder (k : Units) (x : Value) (h : InOrder fs) : InOrder (set k x fs) := by
  unfold set
  split_ifs with hany
  · exact inOrder_keys (keys_replace k x fs).symm h
  · have hne : ∀ f ∈ fs, f.1 ≠ k := by
      intro f hf he
      exact hany (List.any_eq_true.2 ⟨f, hf, beq_iff_eq.2 he⟩)
    have hparts := List.takeWhile_append_dropWhile (p := fun f : Units × Value => !after k f.1) (l := fs)
    have hbefore := fun f hf => @List.mem_takeWhile_imp _ (fun f : Units × Value => !after k f.1) fs f hf
    have hhead := List.head?_dropWhile_not (fun f : Units × Value => !after k f.1) fs
    generalize fs.takeWhile (fun f => !after k f.1) = left at hparts hbefore ⊢
    generalize fs.dropWhile (fun f => !after k f.1) = right at hparts hhead ⊢
    subst hparts
    obtain ⟨hleft, hright, hboth⟩ := List.pairwise_append.1 h
    have hlater : ∀ g ∈ right, k ≠ g.1 ∧ after g.1 k = false := by
      intro g hg
      refine ⟨(hne g (List.mem_append_right _ hg)).symm, ?_⟩
      cases right with
      | nil => cases hg
      | cons first right =>
        have hfirst : after k first.1 = true := by simpa using hhead
        rcases List.mem_cons.1 hg with rfl | hg
        · exact after_self_false hfirst
        · exact after_trans hfirst ((List.pairwise_cons.1 hright).1 g hg).2
    refine List.pairwise_append.2 ⟨hleft, List.pairwise_cons.2 ⟨hlater, hright⟩, fun f hf g hg => ?_⟩
    rcases List.mem_cons.1 hg with rfl | hg
    · exact ⟨hne f (List.mem_append_left _ hf), by simpa using hbefore f hf⟩
    · exact hboth f hf g hg

/-! ## Costs -/

theorem costFields_append (fs gs : List (Units × Value)) : costFields (fs ++ gs) = costFields fs + costFields gs := by
  induction fs with
  | nil => simp [costFields]
  | cons f fs ih =>
    obtain ⟨k, x⟩ := f
    simp only [List.cons_append, costFields, ih]
    omega

/-- A property adds no more than its key and its value. -/
theorem costFields_set (k : Units) (x : Value) (h : InOrder fs) :
    costFields (set k x fs) ≤ costFields fs + (byteLength k + x.cost) := by
  unfold set
  split_ifs with hany
  · obtain ⟨f, hf, hk⟩ := List.any_eq_true.1 hany
    obtain ⟨left, right, rfl⟩ := List.append_of_mem hf
    obtain ⟨l, y⟩ := f
    obtain rfl : l = k := beq_iff_eq.1 hk
    obtain ⟨-, hright, hleft⟩ := List.pairwise_append.1 h
    have hsame : ∀ gs : List (Units × Value), (∀ g ∈ gs, g.1 ≠ l) →
        (gs.map fun f => if f.1 = l then (l, x) else f) = gs := by
      intro gs hgs
      refine (List.map_congr_left fun g hg => ?_).trans (List.map_id gs)
      rw [if_neg (hgs g hg)]
      rfl
    rw [List.map_append, List.map_cons, if_pos rfl, hsame left fun g hg => (hleft g hg (l, y) (by simp)).1,
      hsame right fun g hg => ((List.pairwise_cons.1 hright).1 g hg).1.symm]
    simp only [costFields_append, costFields]
    omega
  · have hparts := List.takeWhile_append_dropWhile (p := fun f : Units × Value => !after k f.1) (l := fs)
    have hcost := congrArg costFields hparts
    rw [costFields_append] at hcost
    simp only [costFields_append, costFields]
    omega

/-! ## Sound values -/

/-- A value of at most `n` levels that is written and read back. -/
def Sound (double : Units → Number) (n : ℕ) (v : Value) : Prop :=
  v.Written double ∧ v.Ordered ∧ v.Paired ∧ v.height < n

theorem Sound.mono {m : ℕ} (h : v.Sound double n) (hnm : n ≤ m) : v.Sound double m :=
  ⟨h.1, h.2.1, h.2.2.1, h.2.2.2.trans_le hnm⟩

theorem sound_arr : (arr xs).Sound double (n + 1) ↔ ∀ x ∈ xs, x.Sound double n := by
  show (WrittenItems double xs ∧ OrderedItems xs ∧ PairedItems xs ∧ heightItems xs < n + 1) ↔ _
  induction xs with
  | nil => simp [WrittenItems, OrderedItems, PairedItems, heightItems]
  | cons x xs ih =>
    rw [List.forall_mem_cons, ← ih]
    simp only [WrittenItems, OrderedItems, PairedItems, heightItems, Sound, sup_lt_iff, Nat.add_lt_add_iff_right]
    tauto

theorem sound_obj : (obj fs).Sound double (n + 1) ↔ InOrder fs ∧ ∀ f ∈ fs, f.1.WellFormed ∧ f.2.Sound double n := by
  show (WrittenFields double fs ∧ (InOrder fs ∧ OrderedFields fs) ∧ PairedFields fs ∧ heightFields fs < n + 1) ↔ _
  have hfields : (WrittenFields double fs ∧ OrderedFields fs ∧ PairedFields fs ∧ heightFields fs < n + 1) ↔
      ∀ f ∈ fs, f.1.WellFormed ∧ f.2.Sound double n := by
    induction fs with
    | nil => simp [WrittenFields, OrderedFields, PairedFields, heightFields]
    | cons f fs ih =>
      obtain ⟨k, x⟩ := f
      rw [List.forall_mem_cons, ← ih]
      simp only [WrittenFields, OrderedFields, PairedFields, heightFields, Sound, sup_lt_iff, Nat.add_lt_add_iff_right]
      tauto
  rw [← hfields]
  tauto

theorem sound_str {s : Units} : (str s).Sound double (n + 1) ↔ s.WellFormed :=
  ⟨fun h => h.2.2.1, fun h => ⟨trivial, trivial, h, Nat.succ_pos n⟩⟩

theorem sound_num {m : Number} : (num m).Sound double (n + 1) ↔ IsFinite double m :=
  ⟨fun h => h.1, fun h => ⟨h, trivial, trivial, Nat.succ_pos n⟩⟩

theorem sound_bool {b : Bool} : (bool b).Sound double (n + 1) := ⟨trivial, trivial, trivial, Nat.succ_pos n⟩

theorem sound_null : null.Sound double (n + 1) := ⟨trivial, trivial, trivial, Nat.succ_pos n⟩

theorem inOrder_nodup (h : InOrder fs) : (fs.map (·.1)).Nodup := by
  rw [List.Nodup, List.pairwise_map]
  exact h.imp fun hfg => hfg.1

mutual

theorem ordered_distinct : ∀ v : Value, v.Ordered → v.Distinct
  | null, _ | bool _, _ | num _, _ | str _, _ => trivial
  | arr xs, hv => orderedItems_distinct xs hv
  | obj fs, hv => ⟨inOrder_nodup hv.1, orderedFields_distinct fs hv.2⟩

theorem orderedItems_distinct : ∀ xs : List Value, OrderedItems xs → KeyedItems (fun _ => True) xs
  | [], _ => trivial
  | x :: xs, hv => ⟨ordered_distinct x hv.1, orderedItems_distinct xs hv.2⟩

theorem orderedFields_distinct : ∀ fs : List (Units × Value), OrderedFields fs → KeyedFields (fun _ => True) fs
  | [], _ => trivial
  | (_, x) :: fs, hv => ⟨trivial, ordered_distinct x hv.1, orderedFields_distinct fs hv.2⟩

end

end Js.Value
