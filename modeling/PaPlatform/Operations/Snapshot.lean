/-
  Snapshots: what they give is sound and within the budget, and the snapshot of a plain
  value is the value itself.
-/
import PaPlatform.Lib.JsonSound
import PaPlatform.Operations.Result

namespace PaPlatform.Operations

open Js Js.Units Guard

open Value (Sound cost costItems costFields InOrder IsFinite)

open Validation.Review (unpaired unpaired_eq_false)

variable {ν ρ : Type} {number : ν → Number} {heap : ρ → JsObject ν ρ} {double : Units → Number}

/-! ## What a snapshot gives -/

/-- A visit gives sound values of a height, within its budget. -/
def Visits (double : Units → Number) (n : ℕ) (visit : JsValue ν ρ → ℤ → Accepted (Value × ℤ)) : Prop :=
  ∀ v before w left, visit v before = .ok (w, left) → w.Sound double n ∧ 0 ≤ left ∧ w.cost + left ≤ before

theorem visitItems_sound {n : ℕ} {visit : JsValue ν ρ → ℤ → Accepted (Value × ℤ)} (hv : Visits double n visit)
    {descriptors : List (Units × Descriptor ν ρ)} {is : List ℕ} {before left : ℤ} {ws : List Value} (hb : 0 ≤ before)
    (h : visitItems visit descriptors is before = .ok (ws, left)) :
    (∀ w ∈ ws, w.Sound double n) ∧ 0 ≤ left ∧ costItems ws + left ≤ before := by
  induction is generalizing before ws with
  | nil =>
    cases h
    exact ⟨by simp, hb, by simp [costItems]⟩
  | cons i is ih =>
    rw [visitItems] at h
    split at h
    · simp only [bind_eq_ok, pure_eq_ok, Prod.mk.injEq, Prod.exists] at h
      obtain ⟨w, b, hw, ws', b', hws, rfl, rfl⟩ := h
      obtain ⟨hsound, hpos, hcost⟩ := hv _ _ _ _ hw
      obtain ⟨hsounds, hpos', hcosts⟩ := ih hpos hws
      refine ⟨List.forall_mem_cons.2 ⟨hsound, hsounds⟩, hpos', ?_⟩
      rw [costItems]
      push_cast
      omega
    · cases h

theorem visitFields_sound {n : ℕ} {visit : JsValue ν ρ → ℤ → Accepted (Value × ℤ)} (hv : Visits double n visit)
    {descriptors : List (Units × Descriptor ν ρ)} {before left : ℤ} {result fields : List (Units × Value)}
    (hb : 0 ≤ before) (ho : InOrder result) (hr : ∀ f ∈ result, f.1.WellFormed ∧ f.2.Sound double n)
    (h : visitFields visit descriptors result before = .ok (fields, left)) :
    (InOrder fields ∧ ∀ f ∈ fields, f.1.WellFormed ∧ f.2.Sound double n) ∧ 0 ≤ left ∧
      costFields fields + left ≤ costFields result + before := by
  induction descriptors generalizing before result with
  | nil =>
    cases h
    exact ⟨⟨ho, hr⟩, hb, le_rfl⟩
  | cons d ds ih =>
    obtain ⟨key, d⟩ := d
    rcases d with ⟨v, _ | _⟩ | _
    · cases h
    · simp only [visitFields, bind_eq_ok, throwIf_eq_ok, Prod.exists, exists_const, Bool.not_eq_true, not_lt] at h
      obtain ⟨hkey, hbudget, x, b, hx, h⟩ := h
      obtain ⟨hsound, hpos, hcost⟩ := hv _ _ _ _ hx
      have hkey := unpaired_eq_false.1 hkey
      have hset := Value.costFields_set key x ho
      have hmem : ∀ f ∈ Value.set key x result, f.1.WellFormed ∧ f.2.Sound double n := by
        intro f hf
        rcases Value.mem_set hf with rfl | hf
        · exact ⟨hkey, hsound⟩
        · exact hr f hf
      obtain ⟨hfields, hpos', hcosts⟩ := ih hpos (Value.set_inOrder key x ho) hmem h
      exact ⟨hfields, hpos', by omega⟩
    · cases h

/-- **A snapshot is sound.** -/
theorem visit_sound (hn : ∀ n, isFinite (number n) = true → IsFinite double (number n)) (levels : ℕ) :
    Visits double levels (visit number heap levels) := by
  induction levels with
  | zero => exact fun v before w left h => by cases h
  | succ levels ih =>
    intro v before w left h
    unfold visit at h
    dsimp only at h
    split_ifs at h with hb
    rw [not_lt] at hb
    cases v with
    | null =>
      cases h
      exact ⟨Value.sound_null, hb, by simp [cost]⟩
    | bool b =>
      cases h
      exact ⟨Value.sound_bool, hb, by simp [cost]⟩
    | num n =>
      dsimp only at h
      split_ifs at h with hfin
      · cases h
        exact ⟨Value.sound_num.2 (hn n hfin), hb, by simp [cost]⟩
      · cases h
    | str s =>
      simp only [bind_eq_ok, throwIf_eq_ok, pure_eq_ok, exists_const, Prod.mk.injEq, not_lt, Bool.not_eq_true] at h
      obtain ⟨hlen, hpair, rfl, rfl⟩ := h
      refine ⟨Value.sound_str.2 (unpaired_eq_false.1 hpair), hlen, ?_⟩
      rw [cost]
      push_cast
      omega
    | other => cases h
    | object ref =>
      simp only [bind_eq_ok, throwIf_eq_ok, exists_const] at h
      obtain ⟨-, -, h⟩ := h
      split_ifs at h with harr
      · simp only [bind_eq_ok, throwIf_eq_ok, pure_eq_ok, exists_const, Prod.mk.injEq, Prod.exists] at h
        obtain ⟨-, ws, b, hws, rfl, rfl⟩ := h
        obtain ⟨hsound, hpos, hcost⟩ := visitItems_sound ih hb hws
        refine ⟨Value.sound_arr.2 hsound, hpos, ?_⟩
        rw [cost]
        push_cast
        omega
      · simp only [bind_eq_ok, pure_eq_ok, Prod.mk.injEq, Prod.exists] at h
        obtain ⟨fields, b, hfields, rfl, rfl⟩ := h
        obtain ⟨hsound, hpos, hcost⟩ := visitFields_sound ih hb .nil (by simp) hfields
        refine ⟨Value.sound_obj.2 hsound, hpos, ?_⟩
        rw [cost]
        push_cast
        rw [costFields] at hcost
        omega

/-! ## Plain values -/

mutual

/-- No array is longer than an array may be. -/
def Small : Value → Prop
  | .arr items => items.length ≤ 65536 ∧ SmallItems items
  | .obj fields => SmallFields fields
  | _ => True

def SmallItems : List Value → Prop
  | [] => True
  | x :: xs => Small x ∧ SmallItems xs

def SmallFields : List (Units × Value) → Prop
  | [] => True
  | (_, x) :: fs => Small x ∧ SmallFields fs

end

/-- The visit of a plain value gives the value, at its cost. -/
def Returns (visit : JsValue Number Value → ℤ → Accepted (Value × ℤ)) (x : Value) : Prop :=
  ∀ before w left, visit (js x) before = .ok (w, left) ↔ w = x ∧ Small x ∧ (x.cost : ℤ) ≤ before ∧ left = before - x.cost

theorem visitItems_js {visit : JsValue Number Value → ℤ → Accepted (Value × ℤ)} {xs : List Value}
    (hv : ∀ x ∈ xs, Returns visit x) {descriptors : List (Units × Descriptor Number Value)} {i : ℕ}
    (hd : ∀ p ∈ xs.zipIdx i, descriptors.lookup (decimal p.2) = some (.data (js p.1) true)) {before left : ℤ}
    {ws : List Value} (hb : 0 ≤ before) : visitItems visit descriptors (List.range' i xs.length) before = .ok (ws, left) ↔
      ws = xs ∧ SmallItems xs ∧ (costItems xs : ℤ) ≤ before ∧ left = before - costItems xs := by
  induction xs generalizing i before ws with
  | nil =>
    simp only [List.length_nil, List.range'_zero, visitItems, Except.ok.injEq, Prod.mk.injEq, SmallItems, costItems,
      true_and]
    constructor
    · rintro ⟨rfl, rfl⟩
      exact ⟨rfl, hb, by simp⟩
    · rintro ⟨rfl, -, rfl⟩
      exact ⟨rfl, by simp⟩
  | cons x xs ih =>
    rw [List.zipIdx_cons, List.forall_mem_cons] at hd
    rw [List.forall_mem_cons] at hv
    rw [List.length_cons, List.range'_succ, visitItems, hd.1]
    simp only [bind_eq_ok, pure_eq_ok, Prod.exists, Prod.mk.injEq, hv.1 _ _ _, SmallItems, costItems]
    constructor
    · rintro ⟨w, b, ⟨rfl, hsmall, hcost, rfl⟩, ws', b', hws, rfl, rfl⟩
      obtain ⟨rfl, hsmalls, hcosts, rfl⟩ := (ih hv.2 hd.2 (by omega)).1 hws
      exact ⟨rfl, ⟨hsmall, hsmalls⟩, by push_cast; omega, by push_cast; omega⟩
    · rintro ⟨rfl, ⟨hsmall, hsmalls⟩, hcost, rfl⟩
      push_cast at hcost
      refine ⟨x, _, ⟨rfl, hsmall, by omega, rfl⟩, xs, _, ?_, rfl, rfl⟩
      rw [ih hv.2 hd.2 (by omega)]
      exact ⟨rfl, hsmalls, by omega, by push_cast; omega⟩

theorem visitFields_js {visit : JsValue Number Value → ℤ → Accepted (Value × ℤ)} {fs result fields : List (Units × Value)}
    (hv : ∀ f ∈ fs, f.1.WellFormed ∧ Returns visit f.2) (ho : InOrder (result ++ fs)) {before left : ℤ} (hb : 0 ≤ before) :
    visitFields visit (fs.map fun f => (f.1, .data (js f.2) true)) result before = .ok (fields, left) ↔
      fields = result ++ fs ∧ SmallFields fs ∧ (costFields fs : ℤ) ≤ before ∧ left = before - costFields fs := by
  induction fs generalizing result before with
  | nil =>
    simp only [List.map_nil, visitFields, Except.ok.injEq, Prod.mk.injEq, SmallFields, costFields, List.append_nil, true_and]
    constructor
    · rintro ⟨rfl, rfl⟩
      exact ⟨rfl, hb, by simp⟩
    · rintro ⟨rfl, -, rfl⟩
      exact ⟨rfl, by simp⟩
  | cons f fs ih =>
    obtain ⟨k, x⟩ := f
    rw [List.forall_mem_cons] at hv
    obtain ⟨⟨hk, hx⟩, hv⟩ := hv
    have hpaired : unpaired k = false := unpaired_eq_false.2 hk
    rw [← List.singleton_append, ← List.append_assoc] at ho
    have hset : Value.set k x result = result ++ [(k, x)] := Value.set_last (List.pairwise_append.1 ho).1
    simp only [List.map_cons, visitFields, bind_eq_ok, throwIf_eq_ok, exists_const, Prod.exists, hx _ _ _, hpaired, SmallFields,
      costFields]
    constructor
    · rintro ⟨-, hkey, w, b, ⟨rfl, hsmall, hcost, rfl⟩, h⟩
      rw [hset] at h
      obtain ⟨rfl, hsmalls, hcosts, rfl⟩ := (ih hv ho (by omega)).1 h
      exact ⟨by simp, ⟨hsmall, hsmalls⟩, by push_cast; omega, by push_cast; omega⟩
    · rintro ⟨rfl, ⟨hsmall, hsmalls⟩, hcost, rfl⟩
      push_cast at hcost
      refine ⟨by simp, by omega, x, _, ⟨rfl, hsmall, by omega, rfl⟩, ?_⟩
      rw [hset, ih hv ho (by omega)]
      exact ⟨by simp, hsmalls, by omega, by push_cast; omega⟩

/-- An item stands at its index. -/
theorem lookup_item {items : List Value} {last : List (Units × Descriptor Number Value)} :
    ∀ p ∈ items.zipIdx, (itemDescriptors items ++ last).lookup (decimal p.2) = some (.data (js p.1) true) := by
  intro p hp
  have hkeys : (itemDescriptors items).map (·.1) = (List.range items.length).map decimal := by
    rw [itemDescriptors, List.map_map, List.range_eq_range', ← List.zipIdx_map_snd, List.map_map]
    rfl
  have hnodup : ((itemDescriptors items).map (·.1)).Nodup := by
    rw [hkeys]
    exact List.nodup_range.map fun m n => Value.decimal_injective
  have hmem : (decimal p.2, .data (js p.1) true) ∈ itemDescriptors items := List.mem_map_of_mem hp
  rw [List.lookup_append, Value.lookup_of_mem hnodup hmem, Option.some_or]

/-- **The snapshot of a plain value is the value.** -/
theorem visit_js {levels : ℕ} {v : Value} (hv : v.Sound double levels) : Returns (visit id plainObject levels) v := by
  induction levels generalizing v with
  | zero => exact absurd hv.2.2.2 (Nat.not_lt_zero _)
  | succ levels ih =>
    intro before w left
    unfold visit
    dsimp only
    by_cases hb : before - 1 < 0
    · have hcost : 1 ≤ v.cost := by
        cases v <;> simp [cost]
      rw [if_pos hb]
      constructor
      · rintro ⟨⟩
      · rintro ⟨-, -, hle, -⟩
        omega
    · rw [if_neg hb]
      rw [not_lt] at hb
      have hscalar : ∀ x : Value, Small x → x.cost = 1 →
          ((Except.ok (x, before - 1) : Accepted (Value × ℤ)) = .ok (w, left) ↔
          w = x ∧ Small x ∧ (x.cost : ℤ) ≤ before ∧ left = before - x.cost) := by
        intro x hsmall hcost
        simp only [Except.ok.injEq, Prod.mk.injEq, hcost, hsmall, true_and]
        push_cast
        constructor
        · rintro ⟨rfl, rfl⟩
          exact ⟨rfl, by omega, rfl⟩
        · rintro ⟨rfl, -, rfl⟩
          exact ⟨rfl, rfl⟩
      cases v with
      | null => exact hscalar _ trivial rfl
      | bool b => exact hscalar _ trivial rfl
      | num n =>
        have hfin : isFinite n = true := by
          obtain ⟨u, t, ht, hu⟩ := Value.text_finite (Value.sound_num.1 hv)
          have hne : u ≠ 0x6e := by
            rcases hu with hu | rfl
            · rintro rfl
              exact absurd hu (by decide)
            · decide
          rw [isFinite, ht, Value.null_units, bne_iff_ne]
          exact fun h => hne (List.cons.inj h).1
        show (if isFinite n = true then _ else _) = _ ↔ _
        rw [if_pos hfin]
        exact hscalar (.num n) trivial rfl
      | str s =>
        have hpaired := unpaired_eq_false.2 (Value.sound_str.1 hv)
        simp only [js, bind_eq_ok, throwIf_eq_ok, exists_const, pure_eq_ok, Prod.mk.injEq, hpaired, cost, Small]
        push_cast
        constructor
        · rintro ⟨hlen, -, rfl, rfl⟩
          exact ⟨rfl, trivial, by omega, by omega⟩
        · rintro ⟨rfl, -, hle, rfl⟩
          exact ⟨by omega, by simp, rfl, by omega⟩
      | arr items =>
        have hitems := Value.sound_arr.1 hv
        have hvisit := fun ws left => @visitItems_js _ items (fun x hx => ih (hitems x hx))
          (plainObject (.arr items)).descriptors 0 lookup_item _ left ws hb
        rw [← List.range_eq_range'] at hvisit
        have hlength : (itemDescriptors items).length = items.length := by simp [itemDescriptors]
        have hcount : (plainObject (.arr items)).descriptors.length = items.length + 1 := by
          rw [plainObject, List.length_append, hlength]
          rfl
        have harray : (plainObject (.arr items)).isArray = true := rfl
        simp only [js, bind_eq_ok, throwIf_eq_ok, exists_const, harray, if_true, hcount, pure_eq_ok, Prod.exists,
          Prod.mk.injEq]
        constructor
        · rintro ⟨-, -, hshort, ws, b, hws, rfl, rfl⟩
          obtain ⟨rfl, hsmall, hcost, rfl⟩ := (hvisit ws b).1 hws
          have hshort : ¬ (65536 < ws.length ∨ ws.length + 1 ≠ ws.length + 1) := hshort
          rw [cost]
          push_cast
          exact ⟨rfl, ⟨by omega, hsmall⟩, by omega, by omega⟩
        · rintro ⟨rfl, ⟨hshort, hsmall⟩, hcost, rfl⟩
          rw [cost, Nat.cast_add, Nat.cast_one] at hcost ⊢
          have hbounds : ¬ (65536 < items.length ∨ items.length + 1 ≠ items.length + 1) := by omega
          exact ⟨by simp, by simp [plainObject], hbounds, items, _, (hvisit _ _).2 ⟨rfl, hsmall, by omega, rfl⟩, rfl,
            by omega⟩
      | obj fields =>
        obtain ⟨ho, hfields⟩ := Value.sound_obj.1 hv
        have hvisit := fun ws left => @visitFields_js (visit id plainObject levels) fields [] ws
          (fun f hf => ⟨(hfields f hf).1, ih (hfields f hf).2⟩) ho _ left hb
        have harray : (plainObject (.obj fields)).isArray = false := rfl
        simp only [js, bind_eq_ok, throwIf_eq_ok, exists_const, harray, Bool.false_eq_true, ↓reduceIte, pure_eq_ok,
          Prod.exists, Prod.mk.injEq]
        constructor
        · rintro ⟨-, -, ws, b, hws, rfl, rfl⟩
          obtain ⟨rfl, hsmall, hcost, rfl⟩ := (hvisit ws b).1 hws
          rw [cost]
          push_cast
          exact ⟨rfl, hsmall, by omega, by omega⟩
        · rintro ⟨rfl, hsmall, hcost, rfl⟩
          rw [cost, Nat.cast_add, Nat.cast_one] at hcost ⊢
          exact ⟨by simp [plainObject], by simp [plainObject], fields, _, (hvisit _ _).2 ⟨rfl, hsmall, by omega, rfl⟩, rfl,
            by omega⟩

/-- Plain values whose objects have these prototypes. -/
def plainWith (prototype : Value → Prototype) (v : Value) : JsObject Number Value :=
  { plainObject v with prototype := prototype v }

/-- The prototype of a plain object does not matter. -/
theorem visit_plainWith {prototype : Value → Prototype} (hp : ∀ v, prototype v ≠ .other) (levels : ℕ) :
    visit id (plainWith prototype) levels = visit id plainObject levels := by
  have hnone : ∀ v, (plainObject v).prototype = .other → (plainObject v).isArray = true := by
    intro v h
    cases v <;> first | rfl | cases h
  induction levels with
  | zero => rfl
  | succ levels ih =>
    funext v before
    unfold visit
    rw [ih]
    cases v with
    | object ref =>
      have hother : ¬ ((plainWith prototype ref).isArray = false ∧ (plainWith prototype ref).prototype = .other) :=
        fun h => hp ref h.2
      have hplain : ¬ ((plainObject ref).isArray = false ∧ (plainObject ref).prototype = .other) := by
        rintro ⟨harr, h⟩
        rw [hnone ref h] at harr
        cases harr
      dsimp only
      rw [throwIf_neg hother, throwIf_neg hplain]
      rfl
    | _ => rfl

theorem snapshotPlain_eq {v : Value} (hv : v.Sound double 65) {w : Value} :
    snapshotPlain v = .ok w ↔ w = v ∧ Small v ∧ v.cost ≤ 1048576 := by
  unfold snapshotPlain snapshot
  simp only [map_eq_ok, Prod.exists, visit_js hv _ _ _]
  constructor
  · rintro ⟨_, left, ⟨rfl, hsmall, hcost, -⟩, rfl⟩
    exact ⟨rfl, hsmall, by omega⟩
  · rintro ⟨rfl, hsmall, hcost⟩
    exact ⟨w, _, ⟨rfl, hsmall, by omega, rfl⟩, rfl⟩

mutual

/-- A cheap value has short arrays. -/
theorem small_of_cost : ∀ v : Value, v.cost ≤ 65536 → Small v
  | .null, _ | .bool _, _ | .num _, _ | .str _, _ => trivial
  | .arr xs, h => by
    have hitems := smallItems_of_cost xs
    rw [cost] at h
    exact ⟨by omega, (hitems (by omega)).2⟩
  | .obj fs, h => by
    rw [cost] at h
    exact smallFields_of_cost fs (by omega)

theorem smallItems_of_cost : ∀ xs : List Value, costItems xs ≤ 65536 → xs.length ≤ costItems xs ∧ SmallItems xs
  | [], _ => ⟨le_rfl, trivial⟩
  | x :: xs, h => by
    have hone : 1 ≤ x.cost := by cases x <;> simp [cost]
    rw [costItems] at h
    obtain ⟨hlen, hsmalls⟩ := smallItems_of_cost xs (by omega)
    refine ⟨?_, small_of_cost x (by omega), hsmalls⟩
    rw [costItems, List.length_cons]
    omega

theorem smallFields_of_cost : ∀ fs : List (Units × Value), costFields fs ≤ 65536 → SmallFields fs
  | [], _ => trivial
  | (k, x) :: fs, h => by
    rw [costFields] at h
    exact ⟨small_of_cost x (by omega), smallFields_of_cost fs (by omega)⟩

end

end PaPlatform.Operations
