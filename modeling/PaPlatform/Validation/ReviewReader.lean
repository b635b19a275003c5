/-
  The reader of review evidence accepts exactly the texts whose members are good: no
  object has a key twice, no string has a lone surrogate, and no value is more than
  64 levels below the root.
-/
import PaPlatform.Validation.ReviewJson

namespace PaPlatform.Validation.Review

open Js Units Guard

open Value (skipSpace parse set)

variable {double : Units → Number} {path : Units}

/-! ## What is good -/

variable {fuel depth index : ℕ} {location s t rest : Units} {row : List (Units × Value)}

/-- A value that is accepted at a depth. -/
def Good (depth : ℕ) (x : Value) : Prop := x.Distinct ∧ x.Paired ∧ depth + x.height ≤ 64

/-- Items that are accepted in an array at a depth. -/
def GoodItems (depth : ℕ) (xs : List Value) : Prop :=
  Value.KeyedItems (fun _ => True) xs ∧ Value.PairedItems xs ∧ depth + Value.heightItems xs ≤ 64

/-- Members that are accepted in an object at a depth, whatever their keys. -/
def GoodFields (depth : ℕ) (fs : List (Units × Value)) : Prop :=
  Value.KeyedFields (fun _ => True) fs ∧ Value.PairedFields fs ∧ depth + Value.heightFields fs ≤ 64

/-- Members with distinct keys, none of which is in a row. -/
def Fresh (row fs : List (Units × Value)) : Prop :=
  (fs.map (·.1)).Nodup ∧ ∀ k ∈ fs.map (·.1), k ∉ row.map (·.1)

theorem good_arr {xs : List Value} : Good depth (.arr xs) ↔ GoodItems depth xs := Iff.rfl

theorem good_obj {fs : List (Units × Value)} : Good depth (.obj fs) ↔ Fresh [] fs ∧ GoodFields depth fs := by
  show ((_ ∧ _) ∧ _ ∧ _) ↔ (_ ∧ _) ∧ _ ∧ _ ∧ _
  simp only [List.map_nil, List.not_mem_nil, not_false_eq_true, implies_true, and_true, and_assoc]
  rfl

theorem goodItems_nil : GoodItems depth [] ↔ depth ≤ 64 :=
  ⟨fun h => h.2.2, fun h => ⟨trivial, trivial, h⟩⟩

theorem goodItems_cons {x : Value} {xs : List Value} :
    GoodItems depth (x :: xs) ↔ Good (depth + 1) x ∧ GoodItems depth xs := by
  show ((_ ∧ _) ∧ (_ ∧ _) ∧ depth + max (x.height + 1) (Value.heightItems xs) ≤ 64) ↔ (_ ∧ _ ∧ _) ∧ _ ∧ _ ∧ _
  constructor
  · rintro ⟨⟨hk, hks⟩, ⟨hp, hps⟩, hh⟩
    exact ⟨⟨hk, hp, by omega⟩, hks, hps, by omega⟩
  · rintro ⟨⟨hk, hp, hh⟩, hks, hps, hhs⟩
    exact ⟨⟨hk, hks⟩, ⟨hp, hps⟩, by omega⟩

theorem goodFields_nil : GoodFields depth [] ↔ depth ≤ 64 :=
  ⟨fun h => h.2.2, fun h => ⟨trivial, trivial, h⟩⟩

theorem goodFields_cons {k : Units} {x : Value} {fs : List (Units × Value)} :
    GoodFields depth ((k, x) :: fs) ↔ WellFormed k ∧ Good (depth + 1) x ∧ GoodFields depth fs := by
  show ((_ ∧ _ ∧ _) ∧ (_ ∧ _ ∧ _) ∧ depth + max (x.height + 1) (Value.heightFields fs) ≤ 64) ↔
    _ ∧ (_ ∧ _ ∧ _) ∧ _ ∧ _ ∧ _
  constructor
  · rintro ⟨⟨-, hk, hks⟩, ⟨hw, hp, hps⟩, hh⟩
    exact ⟨hw, ⟨hk, hp, by omega⟩, hks, hps, by omega⟩
  · rintro ⟨hw, ⟨hk, hp, hh⟩, hks, hps, hhs⟩
    exact ⟨⟨trivial, hk, hks⟩, ⟨hw, hp, hps⟩, by omega⟩

theorem mem_keys_set {k l : Units} {x : Value} : l ∈ (set k x row).map (·.1) ↔ l = k ∨ l ∈ row.map (·.1) := by
  unfold Value.set
  split_ifs with hany
  · have hkeys : (row.map fun f => if f.1 = k then (k, x) else f).map (·.1) = row.map (·.1) := by
      rw [List.map_map]
      refine List.map_congr_left fun f _ => ?_
      simp only [Function.comp_apply]
      split_ifs with hf
      · exact hf.symm
      · rfl
    rw [hkeys]
    simp only [List.any_eq_true, beq_iff_eq] at hany
    obtain ⟨f, hf, hk⟩ := hany
    refine ⟨Or.inr, ?_⟩
    rintro (rfl | h)
    · exact List.mem_map.2 ⟨f, hf, hk⟩
    · exact h
  · have hrow := List.takeWhile_append_dropWhile (p := fun f : Units × Value => !Value.after k f.1) (l := row)
    conv_rhs => rw [← hrow]
    simp only [List.map_append, List.map_cons, List.mem_append, List.mem_cons]
    tauto

theorem fresh_nil : Fresh row [] := ⟨List.nodup_nil, by simp⟩

theorem fresh_cons {k : Units} {x y : Value} {fs : List (Units × Value)} :
    Fresh row ((k, x) :: fs) ↔ k ∉ row.map (·.1) ∧ Fresh (set k y row) fs := by
  unfold Fresh
  simp only [List.map_cons, List.nodup_cons, List.mem_cons, forall_eq_or_imp, mem_keys_set, not_or]
  constructor
  · rintro ⟨⟨hk, hn⟩, hr, hrs⟩
    refine ⟨hr, hn, fun l hl => ⟨?_, hrs l hl⟩⟩
    rintro rfl
    exact hk hl
  · rintro ⟨hr, hn, hrs⟩
    exact ⟨⟨fun hk => (hrs k hk).1 rfl, hn⟩, hr, fun l hl => (hrs l hl).2⟩

/-! ## The forms of a value -/

theorem malformed_ne {α : Type} {a : α} : (malformed path : Reviewed α) ≠ .ok a := by
  rintro ⟨⟩

theorem value_deep (h : 64 < depth) : value double path fuel depth location s = malformed path := by
  cases fuel with
  | zero => rw [value]
  | succ fuel => rw [value, if_pos h]

theorem value_nil (h : skipSpace s = []) : value double path fuel depth location s = malformed path := by
  cases fuel with
  | zero => rw [value]
  | succ fuel =>
    rw [value, h]
    split_ifs <;> rfl

theorem value_string (hd : depth ≤ 64) (h : skipSpace s = 0x22 :: rest) :
    value double path (fuel + 1) depth location s = (string double path rest).map fun p => (.str p.1, p.2) := by
  rw [value, if_neg (by omega), h]
  rfl

theorem value_empty_array (hd : depth ≤ 64) (h : skipSpace s = 0x5b :: t) (ht : skipSpace t = 0x5d :: rest) :
    value double path (fuel + 1) depth location s = .ok (.arr [], rest) := by
  rw [value, if_neg (by omega), h]
  dsimp only
  rw [if_neg (by decide), if_neg (by decide), if_pos rfl, ht]
  rfl

theorem value_array (hd : depth ≤ 64) (h : skipSpace s = 0x5b :: t) (ht : ∀ rest, skipSpace t ≠ 0x5d :: rest) :
    value double path (fuel + 1) depth location s = (do
      let x ← value double path fuel (depth + 1) (itemAt location 0) (skipSpace t)
      let xs ← items double path fuel depth location 1 x.2
      return (.arr (x.1 :: xs.1), xs.2)) := by
  rw [value, if_neg (by omega), h]
  dsimp only
  rw [if_neg (by decide), if_neg (by decide), if_pos rfl]
  split
  · next hr => exact absurd hr (ht _)
  · rfl

theorem value_empty_object (hd : depth ≤ 64) (h : skipSpace s = 0x7b :: t) (ht : skipSpace t = 0x7d :: rest) :
    value double path (fuel + 1) depth location s = .ok (.obj [], rest) := by
  rw [value, if_neg (by omega), h]
  dsimp only
  rw [if_neg (by decide), if_pos rfl, ht]
  rfl

theorem value_object (hd : depth ≤ 64) (h : skipSpace s = 0x7b :: t) (ht : ∀ rest, skipSpace t ≠ 0x7d :: rest) :
    value double path (fuel + 1) depth location s = (do
      let row ← member double path fuel depth location [] (skipSpace t)
      let row ← members double path fuel depth location row.1 row.2
      return (.obj row.1, row.2)) := by
  rw [value, if_neg (by omega), h]
  dsimp only
  rw [if_neg (by decide), if_pos rfl]
  split
  · next hr => exact absurd hr (ht _)
  · rfl

theorem value_token {u : UInt16} (hd : depth ≤ 64) (h : skipSpace s = u :: rest) (h1 : u ≠ 0x22) (h2 : u ≠ 0x5b)
    (h3 : u ≠ 0x7b) : value double path (fuel + 1) depth location s =
      match token (u :: rest) with
      | none => malformed path
      | some (text, rest) =>
        match parse double text with
        | some x => .ok (x, rest)
        | none => .error .syntaxError := by
  rw [value, if_neg (by omega), h]
  show (if _ then _ else if _ then _ else if _ then _ else _) = _
  rw [if_neg h1, if_neg h3]
  exact if_neg h2

/-! ## The reader against the members of a text -/

theorem Stuck.skipSpace (h : Stuck s) : ∃ u t, Value.skipSpace s = u :: t ∧ (u = 0x2e ∨ u = 0x65 ∨ u = 0x45) := by
  obtain ⟨u, t, rfl, hu⟩ := h
  refine ⟨u, t, Value.skipSpace_cons ?_, hu⟩
  rcases hu with rfl | rfl | rfl <;> rfl

theorem items_stuck (h : Stuck s) : items double path fuel depth location index s = malformed path := by
  obtain ⟨u, t, hs, hu⟩ := h.skipSpace
  cases fuel with
  | zero => rw [items]
  | succ fuel =>
    rw [items, hs]
    rcases hu with rfl | rfl | rfl <;> rfl

theorem members_stuck (h : Stuck s) : members double path fuel depth location row s = malformed path := by
  obtain ⟨u, t, hs, hu⟩ := h.skipSpace
  cases fuel with
  | zero => rw [members]
  | succ fuel =>
    rw [members, hs]
    rcases hu with rfl | rfl | rfl <;> rfl

theorem any_key {k : Units} : row.any (·.1 == k) = true ↔ k ∈ row.map (·.1) := by
  simp only [List.any_eq_true, beq_iff_eq, List.mem_map]

/-- What the reader accepts is good, and it is what the members merge to. -/
structure Reads (double : Units → Number) (path : Units) (fuel : ℕ) : Prop where
  value : ∀ depth location s v rest, value double path fuel depth location s = .ok (v, rest) →
    (∃ x, Value.readValue double fuel s = some (x, rest) ∧ v = x.merged ∧ Good depth x) ∨ Stuck rest
  items : ∀ depth location index s vs rest, depth ≤ 64 →
    items double path fuel depth location index s = .ok (vs, rest) →
    ∃ xs, Value.readItems double fuel s = some (xs, rest) ∧ vs = Value.mergedItems xs ∧ GoodItems depth xs
  member : ∀ depth location row s row' rest, member double path fuel depth location row s = .ok (row', rest) →
    (∃ k x, Value.readField double fuel s = some (k, x, rest) ∧ row' = set k x.merged row ∧
      k ∉ row.map (·.1) ∧ WellFormed k ∧ Good (depth + 1) x) ∨ Stuck rest
  members : ∀ depth location row s row' rest, depth ≤ 64 →
    members double path fuel depth location row s = .ok (row', rest) →
    ∃ fs, Value.readFields double fuel s = some (fs, rest) ∧ row' = Value.mergedFields row fs ∧ Fresh row fs ∧
      GoodFields depth fs

theorem reads_zero : Reads double path 0 where
  value _ _ _ _ _ h := by rw [value] at h; exact absurd h malformed_ne
  items _ _ _ _ _ _ _ h := by rw [items] at h; exact absurd h malformed_ne
  member _ _ _ _ _ _ h := by rw [member] at h; exact absurd h malformed_ne
  members _ _ _ _ _ _ _ h := by rw [members] at h; exact absurd h malformed_ne

theorem good_str {k : Units} (hd : depth ≤ 64) (h : WellFormed k) : Good depth (.str k) := ⟨trivial, h, hd⟩

theorem Scalar.good {x : Value} (h : Scalar x) (hd : depth ≤ 64) : Good depth x :=
  ⟨h.2.2.1, h.2.2.2, by rw [h.2.1]; exact hd⟩

theorem reads_value (ih : Reads double path fuel) {v : Value}
    (h : value double path (fuel + 1) depth location s = .ok (v, rest)) :
    (∃ x, Value.readValue double (fuel + 1) s = some (x, rest) ∧ v = x.merged ∧ Good depth x) ∨ Stuck rest := by
  rcases Nat.lt_or_ge 64 depth with hd | hd
  · rw [value_deep hd] at h
    exact absurd h malformed_ne
  cases hs : skipSpace s with
  | nil =>
    rw [value_nil hs] at h
    exact absurd h malformed_ne
  | cons u t =>
    by_cases h1 : u = 0x22
    · subst h1
      rw [value_string hd hs, map_eq_ok] at h
      obtain ⟨⟨k, r⟩, hk, h⟩ := h
      cases h
      rw [string_eq_ok] at hk
      exact Or.inl ⟨.str k, by rw [Value.readValue_string hs, hk.1]; rfl, rfl, good_str hd hk.2⟩
    by_cases h2 : u = 0x5b
    · subst h2
      by_cases he : ∃ r, skipSpace t = 0x5d :: r
      · obtain ⟨r, he⟩ := he
        rw [value_empty_array hd hs he] at h
        cases h
        exact Or.inl ⟨_, Value.readValue_empty_array hs he, rfl, good_arr.2 (goodItems_nil.2 hd)⟩
      · rw [value_array hd hs (not_exists.1 he)] at h
        simp only [bind_eq_ok, pure_eq_ok] at h
        obtain ⟨⟨y, r1⟩, hy, ⟨ys, r2⟩, hys, h⟩ := h
        cases h
        rcases ih.value _ _ _ _ _ hy with ⟨x, hx, rfl, hgood⟩ | hstuck
        · obtain ⟨xs, hxs, rfl, hgoods⟩ := ih.items _ _ _ _ _ _ hd hys
          refine Or.inl ⟨.arr (x :: xs), ?_, rfl, good_arr.2 (goodItems_cons.2 ⟨hgood, hgoods⟩)⟩
          rw [Value.readValue_array hs (not_exists.1 he), hx, Option.bind_some, hxs]
          rfl
        · rw [items_stuck hstuck] at hys
          exact absurd hys malformed_ne
    by_cases h3 : u = 0x7b
    · subst h3
      by_cases he : ∃ r, skipSpace t = 0x7d :: r
      · obtain ⟨r, he⟩ := he
        rw [value_empty_object hd hs he] at h
        cases h
        exact Or.inl ⟨_, Value.readValue_empty_object hs he, rfl, good_obj.2 ⟨fresh_nil, goodFields_nil.2 hd⟩⟩
      · rw [value_object hd hs (not_exists.1 he)] at h
        simp only [bind_eq_ok, pure_eq_ok] at h
        obtain ⟨⟨row1, r1⟩, hy, ⟨row2, r2⟩, hys, h⟩ := h
        cases h
        rcases ih.member _ _ _ _ _ _ hy with ⟨k, x, hx, rfl, hk, hw, hgood⟩ | hstuck
        · obtain ⟨fs, hfs, rfl, hfresh, hgoods⟩ := ih.members _ _ _ _ _ _ hd hys
          refine Or.inl ⟨.obj ((k, x) :: fs), ?_, rfl,
            good_obj.2 ⟨fresh_cons.2 ⟨hk, hfresh⟩, goodFields_cons.2 ⟨hw, hgood, hgoods⟩⟩⟩
          rw [Value.readValue_object hs (not_exists.1 he), hx, Option.bind_some, hfs]
          rfl
        · rw [members_stuck hstuck] at hys
          exact absurd hys malformed_ne
    rw [value_token hd hs h1 h2 h3] at h
    cases ht : token (u :: t) with
    | none =>
      rw [ht] at h
      exact absurd h malformed_ne
    | some p =>
      obtain ⟨text, r⟩ := p
      obtain ⟨x, hx, hread | ⟨-, hstuck⟩⟩ := @token_eq_some double _ _ _ ht
      · rw [ht] at h
        dsimp only at h
        rw [hx] at h
        cases h
        obtain ⟨hscalar, -⟩ := token_of_readToken hread
        exact Or.inl ⟨_, (Value.readValue_token hs h1 h2 h3).trans hread, hscalar.1.symm, hscalar.good hd⟩
      · rw [ht] at h
        dsimp only at h
        rw [hx] at h
        cases h
        exact Or.inr hstuck

theorem reads_items (ih : Reads double path fuel) {vs : List Value} (hd : depth ≤ 64)
    (h : items double path (fuel + 1) depth location index s = .ok (vs, rest)) :
    ∃ xs, Value.readItems double (fuel + 1) s = some (xs, rest) ∧ vs = Value.mergedItems xs ∧ GoodItems depth xs := by
  rw [items] at h
  rw [Value.readItems]
  generalize skipSpace s = r at h ⊢
  split at h
  · cases h
    exact ⟨[], rfl, rfl, goodItems_nil.2 hd⟩
  · next t =>
    simp only [bind_eq_ok, pure_eq_ok] at h
    obtain ⟨⟨y, r1⟩, hy, ⟨ys, r2⟩, hys, h⟩ := h
    cases h
    rcases ih.value _ _ _ _ _ hy with ⟨x, hx, rfl, hgood⟩ | hstuck
    · obtain ⟨xs, hxs, rfl, hgoods⟩ := ih.items _ _ _ _ _ _ hd hys
      refine ⟨x :: xs, ?_, rfl, goodItems_cons.2 ⟨hgood, hgoods⟩⟩
      show (Value.readValue double fuel t).bind _ = _
      rw [hx, Option.bind_some, hxs]
      rfl
    · rw [items_stuck hstuck] at hys
      exact absurd hys malformed_ne
  · exact absurd h malformed_ne

theorem reads_member (ih : Reads double path fuel) {row' : List (Units × Value)}
    (h : member double path (fuel + 1) depth location row s = .ok (row', rest)) :
    (∃ k x, Value.readField double (fuel + 1) s = some (k, x, rest) ∧ row' = set k x.merged row ∧
      k ∉ row.map (·.1) ∧ WellFormed k ∧ Good (depth + 1) x) ∨ Stuck rest := by
  rw [member] at h
  rw [Value.readField]
  generalize skipSpace s = r at h ⊢
  split at h
  · next t =>
    simp only [bind_eq_ok] at h
    obtain ⟨⟨k, r⟩, hk, h⟩ := h
    rw [string_eq_ok] at hk
    dsimp only at h
    split at h
    · next t' hr =>
      simp only [failIf, bind_eq_ok, throwIf_eq_ok, pure_eq_ok] at h
      obtain ⟨-, hnew, ⟨y, r1⟩, hy, h⟩ := h
      cases h
      rcases ih.value _ _ _ _ _ hy with ⟨x, hx, rfl, hgood⟩ | hstuck
      · refine Or.inl ⟨k, x, ?_, rfl, ?_, hk.2, hgood⟩
        · show (Value.parseString t).bind _ = _
          rw [hk.1, Option.bind_some]
          dsimp only
          rw [hr]
          show (Value.readValue double fuel t').map _ = _
          rw [hx]
          rfl
        · exact fun hmem => hnew (any_key.2 hmem)
      · exact Or.inr hstuck
    · exact absurd h malformed_ne
  · exact absurd h malformed_ne

theorem reads_members (ih : Reads double path fuel) {row' : List (Units × Value)} (hd : depth ≤ 64)
    (h : members double path (fuel + 1) depth location row s = .ok (row', rest)) :
    ∃ fs, Value.readFields double (fuel + 1) s = some (fs, rest) ∧ row' = Value.mergedFields row fs ∧ Fresh row fs ∧
      GoodFields depth fs := by
  rw [members] at h
  rw [Value.readFields]
  generalize skipSpace s = r at h ⊢
  split at h
  · cases h
    exact ⟨[], rfl, rfl, fresh_nil, goodFields_nil.2 hd⟩
  · next t =>
    simp only [bind_eq_ok] at h
    obtain ⟨⟨row1, r1⟩, hy, hys⟩ := h
    rcases ih.member _ _ _ _ _ _ hy with ⟨k, x, hx, rfl, hk, hw, hgood⟩ | hstuck
    · obtain ⟨fs, hfs, rfl, hfresh, hgoods⟩ := ih.members _ _ _ _ _ _ hd hys
      refine ⟨(k, x) :: fs, ?_, rfl, fresh_cons.2 ⟨hk, hfresh⟩, goodFields_cons.2 ⟨hw, hgood, hgoods⟩⟩
      show (Value.readField double fuel t).bind _ = _
      rw [hx, Option.bind_some, hfs]
      rfl
    · rw [members_stuck hstuck] at hys
      exact absurd hys malformed_ne
  · exact absurd h malformed_ne

theorem reads (fuel : ℕ) : Reads double path fuel := by
  induction fuel with
  | zero => exact reads_zero
  | succ fuel ih => exact {
      value := fun _ _ _ _ _ h => reads_value ih h
      items := fun _ _ _ _ _ _ hd h => reads_items ih hd h
      member := fun _ _ _ _ _ _ h => reads_member ih h
      members := fun _ _ _ _ _ _ hd h => reads_members ih hd h }

/-- The reader accepts what is good. -/
structure Accepts (double : Units → Number) (path : Units) (fuel : ℕ) : Prop where
  value : ∀ depth location s x rest, Value.readValue double fuel s = some (x, rest) → Good depth x →
    value double path fuel depth location s = .ok (x.merged, rest)
  items : ∀ depth location index s xs rest, Value.readItems double fuel s = some (xs, rest) → GoodItems depth xs →
    items double path fuel depth location index s = .ok (Value.mergedItems xs, rest)
  member : ∀ depth location row s k x rest, Value.readField double fuel s = some (k, x, rest) →
    k ∉ row.map (·.1) → WellFormed k → Good (depth + 1) x →
    member double path fuel depth location row s = .ok (set k x.merged row, rest)
  members : ∀ depth location row s fs rest, Value.readFields double fuel s = some (fs, rest) → Fresh row fs →
    GoodFields depth fs → members double path fuel depth location row s = .ok (Value.mergedFields row fs, rest)

theorem accepts_zero : Accepts double path 0 where
  value _ _ _ _ _ h := by simp [Value.readValue] at h
  items _ _ _ _ _ _ h := by simp [Value.readItems] at h
  member _ _ _ _ _ _ _ h := by simp [Value.readField] at h
  members _ _ _ _ _ _ h := by simp [Value.readFields] at h

theorem accepts_value (ih : Accepts double path fuel) {x : Value}
    (h : Value.readValue double (fuel + 1) s = some (x, rest)) (hgood : Good depth x) :
    value double path (fuel + 1) depth location s = .ok (x.merged, rest) := by
  have hd : depth ≤ 64 := le_trans (Nat.le_add_right _ _) hgood.2.2
  cases hs : skipSpace s with
  | nil => simp [Value.readValue_nil hs] at h
  | cons u t =>
    by_cases h1 : u = 0x22
    · subst h1
      rw [Value.readValue_string hs, Option.map_eq_some_iff] at h
      obtain ⟨⟨k, r⟩, hk, h⟩ := h
      cases h
      rw [value_string hd hs, string_eq_ok.2 ⟨hk, hgood.2.1⟩]
      rfl
    by_cases h2 : u = 0x5b
    · subst h2
      by_cases he : ∃ r, skipSpace t = 0x5d :: r
      · obtain ⟨r, he⟩ := he
        rw [Value.readValue_empty_array hs he] at h
        cases h
        exact value_empty_array hd hs he
      · rw [Value.readValue_array hs (not_exists.1 he)] at h
        simp only [Option.bind_eq_some_iff, Option.map_eq_some_iff, Prod.exists] at h
        obtain ⟨y, r1, hy, ys, r2, hys, h⟩ := h
        cases h
        obtain ⟨hg, hgs⟩ := goodItems_cons.1 (good_arr.1 hgood)
        rw [value_array hd hs (not_exists.1 he), ih.value _ _ _ _ _ hy hg, ok_bind, ih.items _ _ _ _ _ _ hys hgs]
        rfl
    by_cases h3 : u = 0x7b
    · subst h3
      by_cases he : ∃ r, skipSpace t = 0x7d :: r
      · obtain ⟨r, he⟩ := he
        rw [Value.readValue_empty_object hs he] at h
        cases h
        exact value_empty_object hd hs he
      · rw [Value.readValue_object hs (not_exists.1 he)] at h
        simp only [Option.bind_eq_some_iff, Option.map_eq_some_iff, Prod.exists] at h
        obtain ⟨k, y, r1, hy, ys, r2, hys, h⟩ := h
        cases h
        obtain ⟨hfresh, hgoods⟩ := good_obj.1 hgood
        obtain ⟨hk, hfresh⟩ := (@fresh_cons _ _ _ y.merged _).1 hfresh
        obtain ⟨hw, hg, hgs⟩ := goodFields_cons.1 hgoods
        rw [value_object hd hs (not_exists.1 he), ih.member _ _ _ _ _ _ _ hy hk hw hg, ok_bind,
          ih.members _ _ _ _ _ _ hys hfresh hgs]
        rfl
    rw [Value.readValue_token hs h1 h2 h3] at h
    obtain ⟨hscalar, text, ht, hx⟩ := token_of_readToken h
    rw [value_token hd hs h1 h2 h3, ht]
    dsimp only
    rw [hx, hscalar.1]

theorem accepts_items (ih : Accepts double path fuel) {xs : List Value}
    (h : Value.readItems double (fuel + 1) s = some (xs, rest)) (hgood : GoodItems depth xs) :
    items double path (fuel + 1) depth location index s = .ok (Value.mergedItems xs, rest) := by
  rw [Value.readItems] at h
  rw [items]
  generalize skipSpace s = r at h ⊢
  split at h
  · cases h
    rfl
  · next t =>
    simp only [Option.bind_eq_some_iff, Option.map_eq_some_iff, Prod.exists] at h
    obtain ⟨y, r1, hy, ys, r2, hys, h⟩ := h
    cases h
    obtain ⟨hg, hgs⟩ := goodItems_cons.1 hgood
    show (value double path fuel (depth + 1) (itemAt location index) t >>= _) = _
    rw [ih.value _ _ _ _ _ hy hg, ok_bind, ih.items _ _ _ _ _ _ hys hgs]
    rfl
  · cases h

theorem accepts_member (ih : Accepts double path fuel) {k : Units} {x : Value}
    (h : Value.readField double (fuel + 1) s = some (k, x, rest)) (hk : k ∉ row.map (·.1)) (hw : WellFormed k)
    (hgood : Good (depth + 1) x) :
    member double path (fuel + 1) depth location row s = .ok (set k x.merged row, rest) := by
  rw [Value.readField] at h
  rw [member]
  generalize skipSpace s = r at h ⊢
  split at h
  · next t =>
    simp only [Option.bind_eq_some_iff] at h
    obtain ⟨⟨l, r⟩, hl, h⟩ := h
    dsimp only at h
    split at h
    · next t' hr =>
      simp only [Option.map_eq_some_iff, Prod.exists] at h
      obtain ⟨y, r1, hy, h⟩ := h
      cases h
      show (string double path t >>= _) = _
      rw [string_eq_ok.2 ⟨hl, hw⟩, ok_bind]
      dsimp only
      rw [hr]
      show (failIf _ _ _ _ >>= fun _ => value double path fuel (depth + 1) _ t' >>= _) = _
      rw [failIf, throwIf_neg (fun hany => hk (any_key.1 hany)), ok_bind, ih.value _ _ _ _ _ hy hgood]
      rfl
    · cases h
  · cases h

theorem accepts_members (ih : Accepts double path fuel) {fs : List (Units × Value)}
    (h : Value.readFields double (fuel + 1) s = some (fs, rest)) (hfresh : Fresh row fs)
    (hgood : GoodFields depth fs) :
    members double path (fuel + 1) depth location row s = .ok (Value.mergedFields row fs, rest) := by
  rw [Value.readFields] at h
  rw [members]
  generalize skipSpace s = r at h ⊢
  split at h
  · cases h
    rfl
  · next t =>
    simp only [Option.bind_eq_some_iff, Option.map_eq_some_iff, Prod.exists] at h
    obtain ⟨k, y, r1, hy, ys, r2, hys, h⟩ := h
    cases h
    obtain ⟨hk, hfresh⟩ := (@fresh_cons _ _ _ y.merged _).1 hfresh
    obtain ⟨hw, hg, hgs⟩ := goodFields_cons.1 hgood
    show (member double path fuel depth location row t >>= _) = _
    rw [ih.member _ _ _ _ _ _ _ hy hk hw hg, ok_bind, ih.members _ _ _ _ _ _ hys hfresh hgs]
    rfl
  · cases h

theorem accepts (fuel : ℕ) : Accepts double path fuel := by
  induction fuel with
  | zero => exact accepts_zero
  | succ fuel ih => exact {
      value := fun _ _ _ _ _ h hg => accepts_value ih h hg
      items := fun _ _ _ _ _ _ h hg => accepts_items ih h hg
      member := fun _ _ _ _ _ _ _ h hk hw hg => accepts_member ih h hk hw hg
      members := fun _ _ _ _ _ _ h hf hg => accepts_members ih h hf hg }

/-! ## Evidence -/

theorem failIf_eq_ok {p : Prop} [Decidable p] {code : ReviewContractErrorCode} {reason : String} {u : Unit} :
    failIf p code path reason = .ok u ↔ ¬ p := throwIf_eq_ok

theorem fail_ne {α : Type} {code : ReviewContractErrorCode} {reason : String} {a : α} :
    (fail code path reason : Reviewed α) ≠ .ok a := by
  rintro ⟨⟩

theorem text_eq_ok {input : Input} {limit : ℕ} : text input limit path = .ok s ↔ input.toBytes.length ≤ limit ∧
    byteOrderMark.isPrefixOf input.toBytes = false ∧ input.unpaired = false ∧ decodeStrict input.toBytes = some s := by
  unfold text
  simp only [bind_eq_ok, failIf_eq_ok, exists_const, not_lt, Bool.not_eq_true]
  cases decodeStrict input.toBytes with
  | none => simp [fail_ne]
  | some t => simp

theorem jsonSpace_space {u : UInt16} (h : Value.isJsonSpace u = true) : isSpace u = true := by
  simp only [Value.isJsonSpace, Bool.or_eq_true, beq_iff_eq, or_assoc] at h
  rcases h with rfl | rfl | rfl | rfl <;> decide

/-- What is an object begins with a brace. -/
theorem trimStart_brace (h : skipSpace s = 0x7b :: rest) : (trimStart s).head? = some 0x7b := by
  unfold trimStart
  unfold skipSpace at h
  induction s with
  | nil => cases h
  | cons u t ih =>
    by_cases hu : Value.isJsonSpace u = true
    · rw [List.dropWhile_cons_of_pos hu] at h
      rw [List.dropWhile_cons_of_pos (jsonSpace_space hu)]
      exact ih h
    · rw [List.dropWhile_cons_of_neg hu] at h
      cases h
      rw [List.dropWhile_cons_of_neg (by decide)]
      rfl

/-- A text that begins with a brace has no other value than an object. -/
theorem skipSpace_brace (h : (trimStart s).head? = some 0x7b) {u : UInt16} (hs : skipSpace s = u :: rest)
    (hu : isSpace u = false) : u = 0x7b := by
  unfold trimStart at h
  unfold skipSpace at hs
  induction s with
  | nil => cases hs
  | cons v t ih =>
    by_cases hv : Value.isJsonSpace v = true
    · rw [List.dropWhile_cons_of_pos hv] at hs
      rw [List.dropWhile_cons_of_pos (jsonSpace_space hv)] at h
      exact ih h hs
    · rw [List.dropWhile_cons_of_neg hv] at hs
      cases hs
      rw [List.dropWhile_cons_of_neg (by simp [hu])] at h
      exact (Option.some.inj h)

theorem digit_cases {u : UInt16} (h : isDigit u = true) : ∃ n < 10, u = UInt16.ofNat (48 + n) := by
  simp only [Units.isDigit, within, unit, Bool.and_eq_true, decide_eq_true_eq, UInt16.le_iff_toNat_le] at h
  have hlow : 48 ≤ u.toNat := h.1
  have hhigh : u.toNat ≤ 57 := h.2
  refine ⟨u.toNat - 48, by omega, ?_⟩
  rw [Nat.add_sub_cancel' hlow, UInt16.ofNat_toNat]

theorem digit_not_space {u : UInt16} (h : isDigit u = true) : isSpace u = false := by
  have hall : ∀ n < 10, isSpace (UInt16.ofNat (48 + n)) = false := by decide
  obtain ⟨n, hn, rfl⟩ := digit_cases h
  exact hall n hn

theorem leads_of_numberToken {p : Units × Units} (h : numberToken s = some p) : Leads s := by
  unfold numberToken at h
  simp only [Option.map_eq_some_iff, Prod.exists] at h
  obtain ⟨i, r, hi, -⟩ := h
  by_cases hs : s.head? = some 0x2d
  · obtain ⟨t, rfl⟩ := List.head?_eq_some_iff.1 hs
    exact ⟨_, t, rfl, Or.inr rfl⟩
  · rw [if_neg hs] at hi
    obtain ⟨happ, ⟨u, l, rfl, hu⟩, -⟩ := Value.parseIntegral_eq_some hi
    exact ⟨u, l ++ r, happ, Or.inl hu⟩

/-- The first unit of a token. -/
theorem readToken_head {u : UInt16} {p : Value × Units} (h : Value.readToken double (u :: t) = some p) :
    isSpace u = false ∧ ∀ fs, p.1 ≠ .obj fs := by
  unfold Value.readToken at h
  split_ifs at h with h1 h2 h3
  · cases h
    have hu := (Bool.and_eq_true_iff.1 h1).1
    rw [beq_iff_eq] at hu
    exact ⟨hu ▸ rfl, by rintro fs ⟨⟩⟩
  · cases h
    have hu := (Bool.and_eq_true_iff.1 h2).1
    rw [beq_iff_eq] at hu
    exact ⟨hu ▸ rfl, by rintro fs ⟨⟩⟩
  · cases h
    have hu := (Bool.and_eq_true_iff.1 h3).1
    rw [beq_iff_eq] at hu
    exact ⟨hu ▸ rfl, by rintro fs ⟨⟩⟩
  · rw [Option.map_eq_some_iff] at h
    obtain ⟨⟨n, r⟩, hn, rfl⟩ := h
    obtain ⟨text, ht⟩ := numberToken_of_parseNumber hn
    obtain ⟨v, l, hv, hl⟩ := leads_of_numberToken ht
    cases hv
    refine ⟨?_, by rintro fs ⟨⟩⟩
    rcases hl with hl | rfl
    · exact digit_not_space hl
    · rfl

/-- A value is an object when it begins with a brace. -/
theorem readValue_obj {x : Value} (h : Value.readValue double (fuel + 1) s = some (x, rest)) :
    (∃ fs, x = .obj fs) ↔ (trimStart s).head? = some 0x7b := by
  cases hs : skipSpace s with
  | nil => simp [Value.readValue_nil hs] at h
  | cons u t =>
    have hne : isSpace u = false → (∀ fs, x ≠ .obj fs) → u ≠ 0x7b →
        ((∃ fs, x = .obj fs) ↔ (trimStart s).head? = some 0x7b) := by
      intro hu hx hb
      constructor
      · rintro ⟨fs, rfl⟩
        exact absurd rfl (hx fs)
      · exact fun htrim => absurd (skipSpace_brace htrim hs hu) hb
    by_cases h1 : u = 0x22
    · subst h1
      rw [Value.readValue_string hs, Option.map_eq_some_iff] at h
      obtain ⟨p, -, hp⟩ := h
      cases hp
      exact hne rfl (by rintro fs ⟨⟩) (by decide)
    by_cases h2 : u = 0x5b
    · subst h2
      refine hne rfl ?_ (by decide)
      by_cases he : ∃ r, skipSpace t = 0x5d :: r
      · obtain ⟨r, he⟩ := he
        rw [Value.readValue_empty_array hs he] at h
        cases h
        rintro fs ⟨⟩
      · rw [Value.readValue_array hs (not_exists.1 he)] at h
        simp only [Option.bind_eq_some_iff, Option.map_eq_some_iff, Prod.exists] at h
        obtain ⟨y, r1, -, ys, r2, -, h⟩ := h
        cases h
        rintro fs ⟨⟩
    by_cases h3 : u = 0x7b
    · subst h3
      refine ⟨fun _ => trimStart_brace hs, fun _ => ?_⟩
      by_cases he : ∃ r, skipSpace t = 0x7d :: r
      · obtain ⟨r, he⟩ := he
        rw [Value.readValue_empty_object hs he] at h
        cases h
        exact ⟨_, rfl⟩
      · rw [Value.readValue_object hs (not_exists.1 he)] at h
        simp only [Option.bind_eq_some_iff, Option.map_eq_some_iff, Prod.exists] at h
        obtain ⟨k, y, r1, -, ys, r2, -, h⟩ := h
        cases h
        exact ⟨_, rfl⟩
    rw [Value.readValue_token hs h1 h2 h3] at h
    obtain ⟨hu, hx⟩ := readToken_head h
    exact hne hu hx h3

/-- An accepted text, and what it is read to. -/
theorem json_eq_ok {input : Input} {limit : ℕ} {v : Value} : json double input limit path = .ok v ↔
    ∃ s, text input limit path = .ok s ∧ ∃ x, Value.members double s = some x ∧ (∃ fs, x = .obj fs) ∧ Good 0 x ∧
      v = x.merged := by
  unfold json
  simp only [bind_eq_ok, failIf_eq_ok, ne_eq, not_not]
  refine exists_congr fun s => and_congr_right fun _ => ?_
  constructor
  · rintro ⟨-, htrim, ⟨w, rest⟩, hw, h⟩
    dsimp only at h
    split_ifs at h with hrest
    · cases h
      rcases reads_value (reads _) hw with ⟨x, hx, rfl, hgood⟩ | hstuck
      · exact ⟨x, Value.members_eq_some.2 ⟨_, rest, hx, hrest⟩, (readValue_obj hx).2 htrim, hgood, rfl⟩
      · obtain ⟨u, t, hs, -⟩ := hstuck.skipSpace
        rw [hrest] at hs
        cases hs
    · exact absurd h malformed_ne
  · rintro ⟨x, hx, hobj, hgood, rfl⟩
    unfold Value.members at hx
    split at hx
    · next y rest hy =>
      split_ifs at hx with hrest
      cases hx
      refine ⟨(), (readValue_obj hy).1 hobj, _, accepts_value (accepts _) hy hgood, ?_⟩
      rw [if_pos hrest]
      rfl
    · cases hx

/-- **The reader of review evidence.** -/
theorem parseReviewEvidenceJson_iff (double : Units → Number) (input : Bytes) (source : Units) (v : Value) :
    parseReviewEvidenceJson double input source = .ok v ↔
      input.length ≤ maxReviewArtifactBytes ∧ byteOrderMark.isPrefixOf input = false ∧
        ∃ s, decodeStrict input = some s ∧ parse double s = some v ∧ (∃ fields, v = .obj fields) ∧
          ∃ x, Value.members double s = some x ∧ x.Distinct ∧ x.Paired ∧ x.height ≤ 64 := by
  unfold parseReviewEvidenceJson
  rw [json_eq_ok]
  simp only [text_eq_ok, Input.toBytes, Input.unpaired, true_and, Good, Nat.zero_add]
  constructor
  · rintro ⟨s, ⟨hl, hb, hs⟩, x, hx, ⟨fs, rfl⟩, ⟨hd, hp, hh⟩, rfl⟩
    exact ⟨hl, hb, s, hs, by rw [Value.parse_eq, hx]; rfl, ⟨_, rfl⟩, _, hx, hd, hp, hh⟩
  · rintro ⟨hl, hb, s, hs, hv, ⟨fs, rfl⟩, x, hx, hd, hp, hh⟩
    rw [Value.parse_eq, hx, Option.map_some, Option.some.injEq] at hv
    refine ⟨s, ⟨hl, hb, hs⟩, x, hx, ?_, ⟨hd, hp, hh⟩, hv.symm⟩
    cases x with
    | obj gs => exact ⟨gs, rfl⟩
    | _ => cases hv

end PaPlatform.Validation.Review
