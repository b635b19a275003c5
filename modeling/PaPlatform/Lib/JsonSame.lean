/-
  Equality of JSON values, whatever the order of the fields of their objects.

  Sorting the fields of every object decides it, for any order that tells the keys
  apart.
-/
import PaPlatform.Lib.Utf8

namespace Js.Value

mutual

/-- The same JSON value: the objects have the same keys, with the same values. -/
def Same : Value → Value → Prop
  | null, null => True
  | bool a, bool b => a = b
  | num m, num n => m = n
  | str s, str t => s = t
  | arr xs, arr ys => SameItems xs ys
  | obj fs, obj gs => fs.length = gs.length ∧ SameFields fs gs
  | _, _ => False

def SameItems : List Value → List Value → Prop
  | [], [] => True
  | x :: xs, y :: ys => Same x y ∧ SameItems xs ys
  | _, _ => False

/-- Each field of the first object is a field of the second one. -/
def SameFields : List (Units × Value) → List (Units × Value) → Prop
  | [], _ => True
  | (k, x) :: fs, gs => (∃ y, (k, y) ∈ gs ∧ Same x y) ∧ SameFields fs gs

end

theorem lookup_of_mem {β : Type} {entries : List (Units × β)} {k : Units} {b : β}
    (hnodup : (entries.map (·.1)).Nodup) (h : (k, b) ∈ entries) : entries.lookup k = some b := by
  obtain ⟨l₁, l₂, rfl⟩ := List.append_of_mem h
  refine List.lookup_eq_some_iff.2 ⟨l₁, l₂, rfl, fun e he => ?_⟩
  rw [List.map_append, List.nodup_append] at hnodup
  rw [bne_iff_ne, ne_comm]
  exact hnodup.2.2 e.1 (List.mem_map_of_mem he) k (List.mem_cons_self ..)

mutual

/-- The keys of each object are distinct, and have a property. -/
def Keyed (p : Units → Prop) : Value → Prop
  | arr items => KeyedItems p items
  | obj fields => (fields.map (·.1)).Nodup ∧ KeyedFields p fields
  | _ => True

def KeyedItems (p : Units → Prop) : List Value → Prop
  | [] => True
  | x :: xs => Keyed p x ∧ KeyedItems p xs

def KeyedFields (p : Units → Prop) : List (Units × Value) → Prop
  | [] => True
  | (k, x) :: fs => p k ∧ Keyed p x ∧ KeyedFields p fs

end

mutual

def decideKeyed (p : Units → Prop) [DecidablePred p] : ∀ v : Value, Decidable (v.Keyed p)
  | null | bool _ | num _ | str _ => isTrue trivial
  | arr items => decideKeyedItems p items
  | obj fields => @instDecidableAnd _ _ (inferInstanceAs (Decidable (List.Nodup _))) (decideKeyedFields p fields)

def decideKeyedItems (p : Units → Prop) [DecidablePred p] : ∀ xs : List Value, Decidable (KeyedItems p xs)
  | [] => isTrue trivial
  | x :: xs => @instDecidableAnd _ _ (decideKeyed p x) (decideKeyedItems p xs)

def decideKeyedFields (p : Units → Prop) [DecidablePred p] :
    ∀ fs : List (Units × Value), Decidable (KeyedFields p fs)
  | [] => isTrue trivial
  | (k, x) :: fs => @instDecidableAnd _ _ (inferInstanceAs (Decidable (p k)))
      (@instDecidableAnd _ _ (decideKeyed p x) (decideKeyedFields p fs))

end

instance {p : Units → Prop} [DecidablePred p] {v : Value} : Decidable (v.Keyed p) := decideKeyed p v

variable {le : Units → Units → Bool} {p q : Units → Prop} {v w : Value} {xs ys : List Value}
  {fs gs : List (Units × Value)}

theorem keyedItems_iff : KeyedItems p xs ↔ ∀ x ∈ xs, Keyed p x := by
  induction xs with
  | nil => simp [KeyedItems]
  | cons x xs ih => simp [KeyedItems, ih]

theorem keyedFields_iff : KeyedFields p fs ↔ ∀ f ∈ fs, p f.1 ∧ Keyed p f.2 := by
  induction fs with
  | nil => simp [KeyedFields]
  | cons f fs ih => simp [KeyedFields, ih, and_assoc]

theorem plainItems_iff : PlainItems xs ↔ ∀ x ∈ xs, Plain x := by
  induction xs with
  | nil => simp [PlainItems]
  | cons x xs ih => simp [PlainItems, ih]

theorem plainFields_iff : PlainFields fs ↔ ∀ f ∈ fs, isIndex f.1 = false ∧ Plain f.2 := by
  induction fs with
  | nil => simp [PlainFields]
  | cons f fs ih => simp [PlainFields, ih, and_assoc]

theorem sameFields_iff : SameFields fs gs ↔ ∀ f ∈ fs, ∃ y, (f.1, y) ∈ gs ∧ Same f.2 y := by
  induction fs with
  | nil => simp [SameFields]
  | cons f fs ih => simp [SameFields, ih]

/-! ## Sorting -/

variable (le) in
/-- Sort fields by their keys. -/
def sortFields {α : Type} (fields : List (Units × α)) : List (Units × α) := fields.mergeSort fun f g => le f.1 g.1

mutual

/-- Sort the fields of every object. -/
def sorted (le : Units → Units → Bool) : Value → Value
  | arr items => arr (sortedItems le items)
  | obj fields => obj (sortFields le (sortedFields le fields))
  | v => v

def sortedItems (le : Units → Units → Bool) : List Value → List Value
  | [] => []
  | x :: xs => sorted le x :: sortedItems le xs

def sortedFields (le : Units → Units → Bool) : List (Units × Value) → List (Units × Value)
  | [] => []
  | (k, x) :: fs => (k, sorted le x) :: sortedFields le fs

end

theorem sortedItems_eq : sortedItems le xs = xs.map (sorted le) := by
  induction xs with
  | nil => rfl
  | cons x xs ih => rw [sortedItems, ih, List.map_cons]

theorem sortedFields_eq : sortedFields le fs = fs.map fun f => (f.1, sorted le f.2) := by
  induction fs with
  | nil => rfl
  | cons f fs ih => rw [sortedFields, ih, List.map_cons]

theorem sortedFields_keys : (sortedFields le fs).map (·.1) = fs.map (·.1) := by
  rw [sortedFields_eq, List.map_map]
  rfl

theorem sortFields_perm {α : Type} (fields : List (Units × α)) : (sortFields le fields).Perm fields :=
  List.mergeSort_perm _ _

theorem sortFields_map {α β : Type} (g : α → β) (fields : List (Units × α)) :
    (sortFields le fields).map (fun f => (f.1, g f.2)) = sortFields le (fields.map fun f => (f.1, g f.2)) :=
  List.map_mergeSort fun _ _ _ _ => rfl

theorem mem_sorted {f : Units × Value} : f ∈ sortFields le (sortedFields le fs) ↔
    ∃ g ∈ fs, f = (g.1, sorted le g.2) := by
  rw [(sortFields_perm _).mem_iff, sortedFields_eq, List.mem_map]
  exact exists_congr fun g => and_congr_right fun _ => eq_comm

/-- An order that tells keys with a property apart. -/
structure KeyOrder (le : Units → Units → Bool) (p : Units → Prop) : Prop where
  trans : ∀ a b c, le a b → le b c → le a c
  total : ∀ a b, le a b || le b a
  antisymm : ∀ a b, p a → p b → le a b → le b a → a = b

/-- Fields with distinct keys are sorted in one way. -/
theorem sortFields_eq_of_perm {α : Type} {fields fields' : List (Units × α)} (ho : KeyOrder le p)
    (hp : ∀ f ∈ fields, p f.1) (hnodup : (fields.map (·.1)).Nodup) (h : fields.Perm fields') :
    sortFields le fields = sortFields le fields' := by
  have hsorted : ∀ l : List (Units × α), (sortFields le l).Pairwise fun f g => le f.1 g.1 :=
    List.pairwise_mergeSort (fun a b c => ho.trans a.1 b.1 c.1) fun a b => ho.total a.1 b.1
  refine List.Perm.eq_of_pairwise ?_ (hsorted fields) (hsorted fields')
    ((sortFields_perm fields).trans (h.trans (sortFields_perm fields').symm))
  intro f g hf hg hfg hgf
  have hf := (sortFields_perm fields).mem_iff.1 hf
  have hg := h.mem_iff.2 ((sortFields_perm fields').mem_iff.1 hg)
  exact List.inj_on_of_nodup_map hnodup hf hg (ho.antisymm f.1 g.1 (hp f hf) (hp g hg) hfg hgf)

/-! ## Equality -/

mutual

theorem same_of_sorted : ∀ v w : Value, v.sorted le = w.sorted le → Same v w
  | null, w, h => by cases w <;> first | trivial | simp [sorted] at h
  | bool a, w, h => by
    cases w <;> simp [sorted] at h
    exact h
  | num m, w, h => by
    cases w <;> simp [sorted] at h
    exact h
  | str s, w, h => by
    cases w <;> simp [sorted] at h
    exact h
  | arr xs, w, h => by
    cases w <;> simp only [sorted, arr.injEq, reduceCtorEq] at h
    exact sameItems_of_sorted xs _ h
  | obj fs, w, h => by
    cases w <;> simp only [sorted, obj.injEq, reduceCtorEq] at h
    next gs =>
    have hgs := @sortFields_perm le _ (sortedFields le gs)
    rw [← h] at hgs
    have hperm := (@sortFields_perm le _ (sortedFields le fs)).symm.trans hgs
    refine ⟨?_, sameFields_of_sorted fs gs fun f hf => ?_⟩
    · simpa [sortedFields_eq] using hperm.length_eq
    · exact hperm.mem_iff.1 hf

theorem sameItems_of_sorted : ∀ xs ys : List Value, sortedItems le xs = sortedItems le ys → SameItems xs ys
  | [], [], _ => trivial
  | [], _ :: _, h => by simp [sortedItems] at h
  | _ :: _, [], h => by simp [sortedItems] at h
  | x :: xs, y :: ys, h =>
    ⟨same_of_sorted x y (List.cons.inj h).1, sameItems_of_sorted xs ys (List.cons.inj h).2⟩

theorem sameFields_of_sorted : ∀ fs gs : List (Units × Value),
    (∀ f ∈ sortedFields le fs, f ∈ sortedFields le gs) → SameFields fs gs
  | [], _, _ => trivial
  | (k, x) :: fs, gs, h => by
    refine ⟨?_, sameFields_of_sorted fs gs fun f hf => h f (List.mem_cons_of_mem _ hf)⟩
    have hmem := h _ (List.mem_cons_self ..)
    rw [sortedFields_eq, List.mem_map] at hmem
    obtain ⟨⟨l, y⟩, hy, he⟩ := hmem
    obtain ⟨hl, he⟩ := Prod.mk.inj he
    exact ⟨y, hl ▸ hy, same_of_sorted x y he.symm⟩

end

mutual

theorem sorted_of_same (ho : KeyOrder le p) : ∀ v w : Value, v.Keyed p → w.Keyed p → Same v w →
    v.sorted le = w.sorted le
  | null, w, _, _, h => by cases w <;> first | rfl | exact h.elim
  | bool a, w, _, _, h => by
    cases w <;> first | exact h.elim | skip
    exact congrArg bool h
  | num m, w, _, _, h => by
    cases w <;> first | exact h.elim | skip
    exact congrArg num h
  | str s, w, _, _, h => by
    cases w <;> first | exact h.elim | skip
    exact congrArg str h
  | arr xs, w, hv, hw, h => by
    cases w <;> first | exact h.elim | skip
    exact congrArg arr (sortedItems_of_same ho xs _ hv hw h)
  | obj fs, w, hv, hw, h => by
    cases w <;> first | exact h.elim | skip
    next gs =>
    obtain ⟨hnodup, hfs⟩ : (fs.map Prod.fst).Nodup ∧ KeyedFields p fs := hv
    obtain ⟨-, hgs⟩ : (gs.map Prod.fst).Nodup ∧ KeyedFields p gs := hw
    obtain ⟨hlength, hfields⟩ : fs.length = gs.length ∧ SameFields fs gs := h
    have hsub := sortedFields_of_same ho fs gs hfs hgs hfields
    have hkeys : ((sortedFields le fs).map (·.1)).Nodup := by
      rw [sortedFields_keys]
      exact hnodup
    have hperm : (sortedFields le fs).Perm (sortedFields le gs) := by
      refine (List.subperm_of_subset hkeys.of_map hsub).perm_of_length_le ?_
      simp [sortedFields_eq, hlength]
    refine congrArg obj (sortFields_eq_of_perm ho (fun f hf => ?_) hkeys hperm)
    rw [sortedFields_eq, List.mem_map] at hf
    obtain ⟨g, hg, rfl⟩ := hf
    exact (keyedFields_iff.1 hfs g hg).1

theorem sortedItems_of_same (ho : KeyOrder le p) : ∀ xs ys : List Value, KeyedItems p xs → KeyedItems p ys →
    SameItems xs ys → sortedItems le xs = sortedItems le ys
  | [], [], _, _, _ => rfl
  | [], _ :: _, _, _, h => h.elim
  | _ :: _, [], _, _, h => h.elim
  | x :: xs, y :: ys, hv, hw, h => by
    rw [sortedItems, sorted_of_same ho x y hv.1 hw.1 h.1, sortedItems_of_same ho xs ys hv.2 hw.2 h.2, sortedItems]

theorem sortedFields_of_same (ho : KeyOrder le p) : ∀ fs gs : List (Units × Value), KeyedFields p fs →
    KeyedFields p gs → SameFields fs gs → sortedFields le fs ⊆ sortedFields le gs
  | [], _, _, _, _ => List.nil_subset _
  | (k, x) :: fs, gs, hv, hw, h => by
    obtain ⟨⟨y, hy, hxy⟩, hrest⟩ := h
    refine List.cons_subset.2 ⟨?_, sortedFields_of_same ho fs gs hv.2.2 hw hrest⟩
    rw [sorted_of_same ho x y hv.2.1 (keyedFields_iff.1 hw _ hy).2 hxy, sortedFields_eq]
    exact List.mem_map_of_mem (f := fun f : Units × Value => (f.1, sorted le f.2)) hy

end

/-- **Sorting decides equality.** -/
theorem sorted_eq_iff (ho : KeyOrder le p) (hv : v.Keyed p) (hw : w.Keyed p) :
    v.sorted le = w.sorted le ↔ Same v w :=
  ⟨same_of_sorted v w, sorted_of_same ho v w hv hw⟩

theorem sorted_keys : ((sortFields le (sortedFields le fs)).map (·.1)).Nodup ↔ (fs.map (·.1)).Nodup := by
  rw [((sortFields_perm (sortedFields le fs)).map (·.1)).nodup_iff, sortedFields_keys]

mutual

theorem keyed_sorted : ∀ v : Value, (v.sorted le).Keyed p ↔ v.Keyed p
  | null | bool _ | num _ | str _ => Iff.rfl
  | arr xs => keyed_sortedItems xs
  | obj fs => by
    show (List.map Prod.fst _).Nodup ∧ KeyedFields p _ ↔ (List.map Prod.fst fs).Nodup ∧ KeyedFields p fs
    refine and_congr sorted_keys ?_
    rw [keyedFields_iff, ← keyed_sortedFields fs, keyedFields_iff]
    exact forall_congr' fun f => by rw [(sortFields_perm _).mem_iff]

theorem keyed_sortedItems : ∀ xs : List Value, KeyedItems p (sortedItems le xs) ↔ KeyedItems p xs
  | [] => Iff.rfl
  | x :: xs => and_congr (keyed_sorted x) (keyed_sortedItems xs)

theorem keyed_sortedFields : ∀ fs : List (Units × Value), KeyedFields p (sortedFields le fs) ↔ KeyedFields p fs
  | [] => Iff.rfl
  | (_, x) :: fs => and_congr_right fun _ => and_congr (keyed_sorted x) (keyed_sortedFields fs)

end

mutual

theorem plain_sorted : ∀ v : Value, (v.sorted le).Plain ↔ v.Plain
  | null | bool _ | num _ | str _ => Iff.rfl
  | arr xs => plain_sortedItems xs
  | obj fs => by
    show (List.map Prod.fst _).Nodup ∧ PlainFields _ ↔ (List.map Prod.fst fs).Nodup ∧ PlainFields fs
    refine and_congr sorted_keys ?_
    rw [plainFields_iff, ← plain_sortedFields fs, plainFields_iff]
    exact forall_congr' fun f => by rw [(sortFields_perm _).mem_iff]

theorem plain_sortedItems : ∀ xs : List Value, PlainItems (sortedItems le xs) ↔ PlainItems xs
  | [] => Iff.rfl
  | x :: xs => and_congr (plain_sorted x) (plain_sortedItems xs)

theorem plain_sortedFields : ∀ fs : List (Units × Value), PlainFields (sortedFields le fs) ↔ PlainFields fs
  | [] => Iff.rfl
  | (_, x) :: fs => and_congr_right fun _ => and_congr (plain_sorted x) (plain_sortedFields fs)

end

/-- **The sorted text of a value decides equality.** -/
theorem stringify_sorted_iff (ho : KeyOrder le p) (hv : v.Keyed p) (hw : w.Keyed p) (hv' : v.Plain)
    (hw' : w.Plain) : (v.sorted le).stringify = (w.sorted le).stringify ↔ Same v w := by
  rw [← sorted_eq_iff ho hv hw]
  exact ⟨stringify_injective ((plain_sorted v).2 hv') ((plain_sorted w).2 hw'), congrArg stringify⟩

/-! ## The order by units -/

/-- The order of `Array.prototype.sort`. -/
def unitsLe (s t : Units) : Bool := decide (s ≤ t)

theorem unitsLe_order : KeyOrder unitsLe fun _ => True where
  trans := by
    intro a b c hab hbc
    exact decide_eq_true (List.le_trans (of_decide_eq_true hab) (of_decide_eq_true hbc))
  total := by
    intro a b
    rw [Bool.or_eq_true]
    exact (List.le_total a b).imp decide_eq_true decide_eq_true
  antisymm := by
    intro a b _ _ hab hba
    exact List.le_antisymm (of_decide_eq_true hab) (of_decide_eq_true hba)

/-- The keys of each object are distinct. -/
abbrev Distinct (v : Value) : Prop := v.Keyed fun _ => True

mutual

theorem Keyed.imp (hpq : ∀ k, p k → q k) : ∀ v : Value, v.Keyed p → v.Keyed q
  | null, _ | bool _, _ | num _, _ | str _, _ => trivial
  | arr xs, h => KeyedItems.imp hpq xs h
  | obj fs, h => ⟨h.1, KeyedFields.imp hpq fs h.2⟩

theorem KeyedItems.imp (hpq : ∀ k, p k → q k) : ∀ xs : List Value, KeyedItems p xs → KeyedItems q xs
  | [], _ => trivial
  | x :: xs, h => ⟨Keyed.imp hpq x h.1, KeyedItems.imp hpq xs h.2⟩

theorem KeyedFields.imp (hpq : ∀ k, p k → q k) :
    ∀ fs : List (Units × Value), KeyedFields p fs → KeyedFields q fs
  | [], _ => trivial
  | (k, x) :: fs, h => ⟨hpq k h.1, Keyed.imp hpq x h.2.1, KeyedFields.imp hpq fs h.2.2⟩

end

theorem Keyed.distinct (h : v.Keyed p) : v.Distinct := Keyed.imp (fun _ _ => trivial) v h

theorem same_iff (hv : v.Distinct) (hw : w.Distinct) : Same v w ↔ v.sorted unitsLe = w.sorted unitsLe :=
  (sorted_eq_iff unitsLe_order hv hw).symm

theorem Same.symm (hv : v.Distinct) (hw : w.Distinct) (h : Same v w) : Same w v :=
  (same_iff hw hv).2 ((same_iff hv hw).1 h).symm

theorem Same.trans {u : Value} (hv : v.Distinct) (hw : w.Distinct) (hu : u.Distinct) (h : Same v w)
    (h' : Same w u) : Same v u :=
  (same_iff hv hu).2 (((same_iff hv hw).1 h).trans ((same_iff hw hu).1 h'))

/-- The same value has the same keys. -/
theorem Same.keyed (hv : v.Keyed p) (hw : w.Distinct) (h : Same v w) : w.Keyed p := by
  have hsorted := (@keyed_sorted unitsLe _ v).2 hv
  rw [(same_iff hv.distinct hw).1 h] at hsorted
  exact (keyed_sorted w).1 hsorted

/-! ## What is parsed -/

variable {double : Units → Number}

/-- Fields with distinct keys, each of a value without repeated keys. -/
def DistinctFields (fields : List (Units × Value)) : Prop :=
  (fields.map (·.1)).Nodup ∧ ∀ f ∈ fields, f.2.Distinct

theorem distinct_obj : (obj fs).Distinct ↔ DistinctFields fs := by
  show _ ∧ KeyedFields _ fs ↔ _
  rw [keyedFields_iff]
  simp [DistinctFields]

theorem set_distinct {k : Units} {x : Value} (hx : x.Distinct) (h : DistinctFields fs) :
    DistinctFields (set k x fs) := by
  unfold set
  split_ifs with hany
  · refine ⟨?_, fun f hf => ?_⟩
    · rw [List.map_map]
      have hkeys : fs.map ((fun f : Units × Value => f.1) ∘ fun f => if f.1 = k then (k, x) else f) =
          fs.map (·.1) := by
        refine List.map_congr_left fun f _ => ?_
        dsimp only [Function.comp_apply]
        split_ifs with hk
        · exact hk.symm
        · rfl
      rw [hkeys]
      exact h.1
    · obtain ⟨g, hg, rfl⟩ := List.mem_map.1 hf
      split_ifs
      · exact hx
      · exact h.2 g hg
  · have hparts := List.takeWhile_append_dropWhile (p := fun f : Units × Value => !after k f.1) (l := fs)
    have hperm : (fs.takeWhile (fun f => !after k f.1) ++ (k, x) :: fs.dropWhile fun f => !after k f.1).Perm
        ((k, x) :: fs) := by
      conv_rhs => rw [← hparts]
      exact List.perm_middle
    refine ⟨(hperm.map _).nodup_iff.2 (List.nodup_cons.2 ⟨fun hmem => hany ?_, h.1⟩), fun f hf => ?_⟩
    · obtain ⟨f, hf, he⟩ := List.mem_map.1 hmem
      exact List.any_eq_true.2 ⟨f, hf, beq_iff_eq.2 he⟩
    · rcases List.mem_cons.1 (hperm.mem_iff.1 hf) with rfl | hf
      · exact hx
      · exact h.2 f hf

/-- What each parser reads with some calls left. -/
structure ParsesDistinct (double : Units → Number) (fuel : ℕ) : Prop where
  value : ∀ s p, parseValue double fuel s = some p → p.1.Distinct
  items : ∀ s p, parseItems double fuel s = some p → ∀ x ∈ p.1, x.Distinct
  field : ∀ s p, parseField double fuel s = some p → p.2.1.Distinct
  fields : ∀ fs s p, DistinctFields fs → parseFields double fuel fs s = some p → DistinctFields p.1

theorem parsesDistinct_zero : ParsesDistinct double 0 :=
  ⟨fun _ p h => (nomatch (show none = some p from h)), fun _ p h => (nomatch (show none = some p from h)),
    fun _ p h => (nomatch (show none = some p from h)), fun _ _ p _ h => (nomatch (show none = some p from h))⟩

theorem parsesDistinct_succ {fuel : ℕ} (ih : ParsesDistinct double fuel) : ParsesDistinct double (fuel + 1) where
  value := by
    intro s p h
    rw [parseValue] at h
    split at h
    · simp at h
    · split_ifs at h
      · obtain ⟨q, -, rfl⟩ := Option.map_eq_some_iff.1 h
        trivial
      · split at h
        · obtain rfl : _ = p := by simpa using h
          trivial
        · simp only [Option.bind_eq_bind, Option.bind_eq_some_iff, Option.pure_def, Option.some.injEq] at h
          obtain ⟨q, hq, r, hr, rfl⟩ := h
          exact keyedItems_iff.2 (List.forall_mem_cons.2 ⟨ih.value _ _ hq, ih.items _ _ hr⟩)
      · split at h
        · obtain rfl : _ = p := by simpa using h
          exact distinct_obj.2 ⟨List.nodup_nil, by simp⟩
        · simp only [Option.bind_eq_bind, Option.bind_eq_some_iff, Option.pure_def, Option.some.injEq] at h
          obtain ⟨q, hq, r, hr, rfl⟩ := h
          exact distinct_obj.2 (ih.fields _ _ _ ⟨by simp, by simpa using ih.field _ _ hq⟩ hr)
      · obtain rfl : _ = p := by simpa using h
        trivial
      · obtain rfl : _ = p := by simpa using h
        trivial
      · obtain rfl : _ = p := by simpa using h
        trivial
      · obtain ⟨q, -, rfl⟩ := Option.map_eq_some_iff.1 h
        trivial
  items := by
    intro s p h
    rw [parseItems] at h
    split at h
    · obtain rfl : _ = p := by simpa using h
      simp
    · simp only [Option.bind_eq_bind, Option.bind_eq_some_iff, Option.pure_def, Option.some.injEq] at h
      obtain ⟨q, hq, r, hr, rfl⟩ := h
      exact List.forall_mem_cons.2 ⟨ih.value _ _ hq, ih.items _ _ hr⟩
    · simp at h
  field := by
    intro s p h
    rw [parseField] at h
    split at h
    · simp only [Option.bind_eq_bind, Option.bind_eq_some_iff] at h
      obtain ⟨q, -, h⟩ := h
      split at h
      · simp only [Option.bind_eq_some_iff, Option.pure_def, Option.some.injEq] at h
        obtain ⟨r, hr, rfl⟩ := h
        exact ih.value _ _ hr
      · simp at h
    · simp at h
  fields := by
    intro fs s p hd h
    rw [parseFields] at h
    split at h
    · obtain rfl : _ = p := by simpa using h
      exact hd
    · simp only [Option.bind_eq_bind, Option.bind_eq_some_iff] at h
      obtain ⟨q, hq, h⟩ := h
      exact ih.fields _ _ _ (set_distinct (ih.field _ _ hq) hd) h
    · simp at h

theorem parsesDistinct (fuel : ℕ) : ParsesDistinct double fuel := by
  induction fuel with
  | zero => exact parsesDistinct_zero
  | succ fuel ih => exact parsesDistinct_succ ih

/-- **A parsed value has no repeated keys.** -/
theorem parse_distinct {s : Units} (h : parse double s = some v) : v.Distinct := by
  unfold parse at h
  split at h
  · next x rest hx =>
    split_ifs at h
    rw [Option.some.injEq] at h
    exact h ▸ (parsesDistinct _).value _ _ hx
  · simp at h

end Js.Value
