/-
  What the handoff parser accepts, and what it returns for it.

  Each check is turned into a property of the property it reads; each object that is
  parsed is characterized by the properties of its fields.  From this come that the
  returned value is the parsed one, and that it is accepted again.
-/
import PaPlatform.Validation.Schema

namespace PaPlatform.Validation

open Js Units Guard

variable {input : Option Value} {path : Units} {keys optional : List String}
  {fields : List (Units × Value)} {s : Units}

/-! ## Checks -/

theorem failIf_eq_ok {p : Prop} [Decidable p] {reason : String} {u : Unit} :
    failIf p path reason = .ok u ↔ ¬ p := throwIf_eq_ok

/-- The input is an object with the required keys and no others but the optional ones. -/
structure ObjectAt (input : Option Value) (keys optional : List String) (fields : List (Units × Value)) : Prop where
  input : input = some (.obj fields)
  known : ∀ f ∈ fields, f.1 ∈ keys.map units
  required : ∀ k ∈ keys, k ∉ optional → (own fields k).isSome

theorem objectAt_eq_ok : objectAt input path keys optional = .ok fields ↔ ObjectAt input keys optional fields := by
  unfold objectAt fail
  constructor
  · intro h
    split at h
    · next fs =>
      split at h
      · simp at h
      · next hknown =>
        split at h
        · simp at h
        · next hrequired =>
          obtain rfl : fs = fields := by simpa using h
          refine ⟨rfl, fun f hf => ?_, fun k hk ho => ?_⟩
          · have := List.find?_eq_none.1 hknown f.1 (List.mem_map_of_mem hf)
            simpa using this
          · have := List.find?_eq_none.1 hrequired k hk
            simpa [ho, Option.isSome_iff_ne_none] using this
    · simp at h
  · rintro ⟨rfl, hknown, hrequired⟩
    have hk : (fields.map (·.1)).find? (fun k => !(keys.map units).contains k) = none := by
      refine List.find?_eq_none.2 fun k hk => ?_
      obtain ⟨f, hf, rfl⟩ := List.mem_map.1 hk
      simpa using hknown f hf
    have hr : keys.find? (fun k => !optional.contains k && (own fields k).isNone) = none := by
      refine List.find?_eq_none.2 fun k hk => ?_
      by_cases ho : k ∈ optional
      · simp [ho]
      · simpa [ho, Option.isSome_iff_ne_none] using hrequired k hk ho
    dsimp only
    rw [hk]
    dsimp only
    rw [hr]

theorem arrayAt_eq_ok {items : List Value} : arrayAt input path = .ok items ↔ input = some (.arr items) := by
  unfold arrayAt fail
  split <;> simp_all

theorem stringAt_eq_ok : stringAt input path = .ok s ↔ input = some (.str s) := by
  unfold stringAt fail
  split <;> simp_all

/-- A string of a bounded length without a NUL. -/
def Bounded (minimum maximum : ℕ) (s : Units) : Prop := minimum ≤ s.length ∧ s.length ≤ maximum ∧ s.contains 0 = false

theorem boundedStringAt_eq_ok {minimum maximum : ℕ} : boundedStringAt input path minimum maximum = .ok s ↔
    input = some (.str s) ∧ Bounded minimum maximum s := by
  unfold boundedStringAt Bounded
  simp only [bind_eq_ok, stringAt_eq_ok, throwIf_eq_ok, failIf_eq_ok, pure_eq_ok, not_or, not_lt,
    Bool.not_eq_true]
  constructor
  · rintro ⟨s, hs, -, hlength, -, hnul, rfl⟩
    exact ⟨hs, hlength.1, hlength.2, hnul⟩
  · rintro ⟨hs, hmin, hmax, hnul⟩
    exact ⟨s, hs, ⟨⟩, ⟨hmin, hmax⟩, ⟨⟩, hnul, rfl⟩

/-- An absolute path. -/
def IsPath (s : Units) : Prop := Bounded 1 4096 s ∧ s.head? = some (unit '/')

theorem absolutePathAt_eq_ok : absolutePathAt input path = .ok s ↔ input = some (.str s) ∧ IsPath s := by
  unfold absolutePathAt IsPath
  simp only [bind_eq_ok, boundedStringAt_eq_ok, failIf_eq_ok, pure_eq_ok, not_not, Bool.not_eq_true]
  constructor
  · rintro ⟨s, ⟨hs, hb⟩, -, hhead, -, -, rfl⟩
    exact ⟨hs, hb, hhead⟩
  · rintro ⟨hs, hb, hhead⟩
    exact ⟨s, ⟨hs, hb⟩, ⟨⟩, hhead, ⟨⟩, hb.2.2, rfl⟩

theorem sha256At_eq_ok : sha256At input path = .ok s ↔ input = some (.str s) ∧ isHex 64 s = true := by
  unfold sha256At
  simp only [bind_eq_ok, stringAt_eq_ok, failIf_eq_ok, pure_eq_ok, Bool.not_eq_false]
  constructor
  · rintro ⟨s, hs, -, hhex, rfl⟩
    exact ⟨hs, hhex⟩
  · rintro ⟨hs, hhex⟩
    exact ⟨s, hs, ⟨⟩, hhex, rfl⟩

theorem integerAt_eq_ok {minimum maximum : ℕ} {n : ℤ} : integerAt input path minimum maximum = .ok n ↔
    input = some (.num (.int n)) ∧ minimum ≤ n ∧ n ≤ maximum := by
  unfold integerAt fail
  split
  · next m =>
    split_ifs with h
    · constructor
      · intro he
        simp at he
      · rintro ⟨he, hmin, hmax⟩
        obtain rfl : m = n := by simpa using he
        omega
    · constructor
      · intro he
        obtain rfl : m = n := by simpa using he
        exact ⟨rfl, by omega⟩
      · rintro ⟨he, -⟩
        obtain rfl : m = n := by simpa using he
        rfl
  · next h =>
    constructor
    · intro he
      simp at he
    · rintro ⟨rfl, -⟩
      exact absurd rfl (h n)

theorem literalAt_eq_ok {expected : String} {u : Unit} : literalAt input expected path = .ok u ↔
    input = some (.str (units expected)) := by
  unfold literalAt fail
  split
  · simp [failIf_eq_ok]
  · next h =>
    constructor
    · intro he
      simp at he
    · rintro rfl
      exact absurd rfl (h _)

theorem trueAt_eq_ok {u : Unit} : trueAt input path = .ok u ↔ input = some (.bool true) := by
  unfold trueAt fail
  split <;> simp_all

theorem optionalSha256At_eq_ok {sha : Option Units} : optionalSha256At input path = .ok sha ↔
    input = sha.map Value.str ∧ ∀ s ∈ sha, isHex 64 s = true := by
  unfold optionalSha256At
  cases input with
  | none =>
    cases sha with
    | none => simp
    | some s => simp
  | some v =>
    dsimp only
    rw [map_eq_ok]
    cases sha with
    | none => simp
    | some s => simp [sha256At_eq_ok]

/-! ## Lists -/

variable {α : Type} {f : ℕ → Value → Checked α} {toValue : α → Value}

theorem parseEach_forall {items : List Value} {as : List α} {index : ℕ} (h : parseEach f index items = .ok as) :
    List.Forall₂ (fun a x => ∃ i, f i x = .ok a) as items := by
  induction items generalizing index as with
  | nil =>
    obtain rfl : [] = as := by simpa [parseEach] using h
    exact .nil
  | cons x items ih =>
    simp only [parseEach, bind_eq_ok, pure_eq_ok] at h
    obtain ⟨a, ha, as, has, rfl⟩ := h
    exact .cons ⟨index, ha⟩ (ih has)

theorem parseEach_mem {items : List Value} {as : List α} {index : ℕ} (h : parseEach f index items = .ok as) :
    ∀ a ∈ as, ∃ i x, f i x = .ok a := by
  have hall := parseEach_forall h
  clear h
  induction hall with
  | nil => simp
  | cons hax _ ih =>
    obtain ⟨i, hi⟩ := hax
    exact List.forall_mem_cons.2 ⟨⟨i, _, hi⟩, ih⟩

theorem parseEach_again {as : List α} {index : ℕ} (h : ∀ a ∈ as, ∀ i, f i (toValue a) = .ok a) :
    parseEach f index (as.map toValue) = .ok as := by
  induction as generalizing index with
  | nil => rfl
  | cons a as ih =>
    rw [List.map_cons, parseEach, h a (List.mem_cons_self ..), ok_bind,
      ih fun b hb => h b (List.mem_cons_of_mem _ hb)]
    rfl

theorem sameItems_of_forall {as : List α} {items : List Value}
    (h : List.Forall₂ (fun a x => Value.Same (toValue a) x) as items) : Value.SameItems (as.map toValue) items := by
  induction h with
  | nil => trivial
  | cons hax _ ih => exact ⟨hax, ih⟩

/-! ## Objects -/

/-- A name that is kept. -/
def GoodName (k : Units) : Prop := isEnvironmentName k = true ∧ k ≠ proto

instance : DecidablePred GoodName := fun _ => inferInstanceAs (Decidable (_ ∧ _))

/-- Distinct names that are kept. -/
def GoodNames (keys : List String) : Prop := (keys.map units).Nodup ∧ ∀ k ∈ keys.map units, GoodName k

instance : DecidablePred GoodNames := fun _ => inferInstanceAs (Decidable (_ ∧ _))

/-- A value that is read back from its text, all of whose names are kept. -/
def Good (v : Value) : Prop := v.Plain ∧ v.Keyed GoodName

/-- An environment name starts with no digit. -/
theorem isIndex_name {k : Units} (h : isEnvironmentName k = true) : Value.isIndex k = false := by
  cases k with
  | nil => simp [isEnvironmentName] at h
  | cons u rest =>
    have hu : Units.isDigit u = false := by
      have h := (Bool.and_eq_true_iff.1 h).1
      rw [← Bool.not_eq_true]
      intro hd
      have hlt : u ≤ 0x39 := of_decide_eq_true (Bool.and_eq_true_iff.1 hd).2
      simp only [Bool.or_eq_true, within, Bool.and_eq_true, decide_eq_true_eq, beq_iff_eq] at h
      rcases h with (⟨h, -⟩ | ⟨h, -⟩) | rfl
      · exact absurd (UInt16.le_trans h hlt) (by decide)
      · exact absurd (UInt16.le_trans h hlt) (by decide)
      · exact absurd hlt (by decide)
    simp [Value.isIndex, hu]

theorem good_obj (hnodup : (fields.map (·.1)).Nodup) (hnames : ∀ f ∈ fields, GoodName f.1)
    (hgood : ∀ f ∈ fields, Good f.2) : Good (.obj fields) :=
  ⟨⟨hnodup, Value.plainFields_iff.2 fun f hf => ⟨isIndex_name (hnames f hf).1, (hgood f hf).1⟩⟩,
    hnodup, Value.keyedFields_iff.2 fun f hf => ⟨hnames f hf, (hgood f hf).2⟩⟩

theorem good_str (s : Units) : Good (.str s) := ⟨trivial, trivial⟩

theorem good_arr {items : List Value} (h : ∀ x ∈ items, Good x) : Good (.arr items) :=
  ⟨Value.plainItems_iff.2 fun x hx => (h x hx).1, Value.keyedItems_iff.2 fun x hx => (h x hx).2⟩

section
variable {props : List (String × Value)}

theorem object_keys : (props.map fun f => (units f.1, f.2)).map (·.1) = (props.map (·.1)).map units := by
  rw [List.map_map, List.map_map]
  rfl

theorem good_object (hn : GoodNames (props.map (·.1))) (hgood : ∀ f ∈ props, Good f.2) : Good (object props) := by
  refine good_obj ?_ (fun f hf => hn.2 f.1 ?_) fun f hf => ?_
  · rw [object_keys]
    exact hn.1
  · rw [← object_keys]
    exact List.mem_map_of_mem hf
  · obtain ⟨g, hg, rfl⟩ := List.mem_map.1 hf
    exact hgood g hg

/-- A property of an object. -/
theorem own_object {k : String} {x : Value} (hn : GoodNames (props.map (·.1))) (h : (k, x) ∈ props) :
    own (props.map fun f => (units f.1, f.2)) k = some x := by
  refine Value.lookup_of_mem ?_ (List.mem_map_of_mem (f := fun f : String × Value => (units f.1, f.2)) h)
  rw [object_keys]
  exact hn.1

theorem mem_of_own {k : String} {x : Value} (h : own fields k = some x) : (units k, x) ∈ fields := by
  obtain ⟨l₁, l₂, hl, -⟩ := List.lookup_eq_some_iff.1 h
  rw [hl]
  exact List.mem_append_right _ (List.mem_cons_self ..)

theorem objectAt_object (hn : GoodNames (props.map (·.1))) (hk : ∀ f ∈ props, f.1 ∈ keys)
    (hr : ∀ k ∈ keys, k ∉ optional → k ∈ props.map (·.1)) :
    ObjectAt (some (object props)) keys optional (props.map fun f => (units f.1, f.2)) where
  input := rfl
  known := by
    intro f hf
    obtain ⟨g, hg, rfl⟩ := List.mem_map.1 hf
    exact List.mem_map_of_mem (hk g hg)
  required := by
    intro k hkey ho
    obtain ⟨f, hf, rfl⟩ := List.mem_map.1 (hr k hkey ho)
    rw [own_object hn hf]
    rfl

/-- An object is rebuilt when each of its properties is. -/
theorem same_object (hn : GoodNames (props.map (·.1))) (hnodup : (fields.map (·.1)).Nodup)
    (hcover : ∀ f ∈ fields, f.1 ∈ (props.map (·.1)).map units)
    (hsame : ∀ f ∈ props, ∃ y, own fields f.1 = some y ∧ Value.Same f.2 y) :
    Value.Same (object props) (.obj fields) := by
  have hfields : Value.SameFields (props.map fun f => (units f.1, f.2)) fields := by
    refine Value.sameFields_iff.2 fun f hf => ?_
    obtain ⟨g, hg, rfl⟩ := List.mem_map.1 hf
    obtain ⟨y, hy, hxy⟩ := hsame g hg
    exact ⟨y, mem_of_own hy, hxy⟩
  have hkeys : (fields.map (·.1)).Perm ((props.map (·.1)).map units) := by
    refine (List.perm_ext_iff_of_nodup hnodup hn.1).2 fun k => ⟨fun hk => ?_, fun hk => ?_⟩
    · obtain ⟨f, hf, rfl⟩ := List.mem_map.1 hk
      exact hcover f hf
    · rw [← object_keys] at hk
      obtain ⟨f, hf, rfl⟩ := List.mem_map.1 hk
      obtain ⟨y, hy, -⟩ := Value.sameFields_iff.1 hfields f hf
      exact List.mem_map.2 ⟨_, hy, rfl⟩
  refine ⟨?_, hfields⟩
  have := hkeys.length_eq
  simpa using this.symm

end

/-! ## Environments -/

/-- An environment that is returned. -/
structure Environment.Valid (e : Environment) : Prop where
  nodup : (e.map (·.1)).Nodup
  names : ∀ f ∈ e, GoodName f.1
  values : ∀ f ∈ e, f.2.contains 0 = false

theorem assign_new {result : Environment} {name value : Units} (h : name ∉ result.map (·.1)) :
    assign result name value = result ++ if name = proto then [] else [(name, value)] := by
  unfold assign
  split_ifs with hp ha
  · rw [List.append_nil]
  · obtain ⟨e, he, heq⟩ := List.any_eq_true.1 ha
    exact absurd (List.mem_map.2 ⟨e, he, beq_iff_eq.1 heq⟩) h
  · rfl

/-- The entries that `stringMapAt` reads, all of them strings: it keeps those with
    another name than `__proto__`. -/
theorem stringMapFrom_eq_ok {entries : List (Units × Value)} {result e : Environment}
    (hnodup : (result.map (·.1) ++ entries.map (·.1)).Nodup) (h : stringMapFrom path result entries = .ok e) :
    ∃ all : Environment, entries = all.map (fun f => (f.1, .str f.2)) ∧
      (∀ f ∈ all, isEnvironmentName f.1 = true ∧ f.2.contains 0 = false) ∧
      e = result ++ all.filter fun f => f.1 ≠ proto := by
  induction entries generalizing result with
  | nil =>
    obtain rfl : result = e := by simpa [stringMapFrom] using h
    exact ⟨[], rfl, by simp, by simp⟩
  | cons entry entries ih =>
    obtain ⟨name, rawValue⟩ := entry
    simp only [stringMapFrom, bind_eq_ok, failIf_eq_ok, stringAt_eq_ok, Bool.not_eq_false, Bool.not_eq_true,
      Option.some.injEq] at h
    obtain ⟨-, hname, value, rfl, -, hnul, h⟩ := h
    have hnew : name ∉ result.map (·.1) := fun hmem =>
      (List.nodup_append.1 hnodup).2.2 name hmem name (List.mem_cons_self ..) rfl
    rw [assign_new hnew] at h
    have hrest : ((result ++ if name = proto then [] else [(name, value)]).map (·.1) ++
        entries.map (·.1)).Nodup := by
      rw [List.map_cons] at hnodup
      refine hnodup.sublist ?_
      rw [List.map_append, List.append_assoc]
      refine (List.Sublist.refl _).append ?_
      split_ifs
      · exact List.sublist_cons_self _ _
      · exact List.Sublist.refl _
    obtain ⟨all, rfl, hall, rfl⟩ := ih hrest h
    refine ⟨(name, value) :: all, rfl, ?_, ?_⟩
    · rintro f (- | ⟨-, hf⟩)
      · exact ⟨hname, hnul⟩
      · exact hall f hf
    · by_cases hp : name = proto
      · simp [hp]
      · simp [hp]

theorem stringMapAt_eq_ok {e : Environment} (h : stringMapAt input path = .ok e)
    (hd : ∀ x ∈ input, x.Distinct) : ∃ all : Environment, input = some all.toValue ∧ (all.map (·.1)).Nodup ∧
      (∀ f ∈ all, isEnvironmentName f.1 = true ∧ f.2.contains 0 = false) ∧
      e = all.filter fun f => f.1 ≠ proto := by
  unfold stringMapAt fail at h
  split at h
  · next fields =>
    have hnodup : (fields.map (·.1)).Nodup := (hd _ rfl).1
    obtain ⟨all, rfl, hall, rfl⟩ := @stringMapFrom_eq_ok path fields [] e hnodup h
    refine ⟨all, rfl, ?_, hall, rfl⟩
    rw [List.map_map] at hnodup
    exact hnodup
  · simp at h

theorem environment_valid {e : Environment} (h : stringMapAt input path = .ok e) (hd : ∀ x ∈ input, x.Distinct) :
    e.Valid := by
  obtain ⟨all, -, hnodup, hall, rfl⟩ := stringMapAt_eq_ok h hd
  refine ⟨hnodup.sublist (List.filter_sublist.map _), fun f hf => ?_, fun f hf => ?_⟩
  · obtain ⟨hf, hp⟩ := List.mem_filter.1 hf
    exact ⟨(hall f hf).1, of_decide_eq_true hp⟩
  · exact (hall f (List.mem_filter.1 hf).1).2

theorem good_environment {e : Environment} (h : e.Valid) : Good e.toValue := by
  refine good_obj ?_ ?_ ?_
  · rw [List.map_map]
    exact h.nodup
  · rintro f hf
    obtain ⟨g, hg, rfl⟩ := List.mem_map.1 hf
    exact h.names g hg
  · rintro f hf
    obtain ⟨g, hg, rfl⟩ := List.mem_map.1 hf
    exact good_str g.2

theorem stringMapFrom_again {result e : Environment} (h : Environment.Valid (result ++ e)) :
    stringMapFrom path result (e.map fun f => (f.1, .str f.2)) = .ok (result ++ e) := by
  induction e generalizing result with
  | nil => simp [stringMapFrom]
  | cons f e ih =>
    have hf : f ∈ result ++ f :: e := List.mem_append_right _ (List.mem_cons_self ..)
    have hnew : f.1 ∉ result.map (·.1) := by
      have hnodup := h.nodup
      rw [List.map_append] at hnodup
      exact fun hmem => (List.nodup_append.1 hnodup).2.2 f.1 hmem f.1 (List.mem_cons_self ..) rfl
    have hassign : assign result f.1 f.2 = result ++ [f] := by
      rw [assign_new hnew, if_neg (h.names f hf).2]
    rw [List.append_cons] at h ⊢
    simp only [List.map_cons, stringMapFrom, bind_eq_ok, failIf_eq_ok, stringAt_eq_ok, Bool.not_eq_false,
      Bool.not_eq_true, Option.some.injEq]
    refine ⟨⟨⟩, (h.names f (by simp)).1, f.2, rfl, ⟨⟩, h.values f (by simp), ?_⟩
    rw [hassign]
    exact ih h

theorem stringMapAt_again {e : Environment} (h : e.Valid) : stringMapAt (some e.toValue) path = .ok e :=
  @stringMapFrom_again path [] e h

/-! ## Values that are rebuilt -/

/-- `w` is what is made of `v`: their texts are read back, and they are the same
    unless a name was lost. -/
structure Rebuilt (w v : Value) : Prop where
  good : Good w
  plain : v.Plain
  same : v.Keyed (· ≠ proto) → Value.Same w v

theorem rebuilt_str (s : Units) : Rebuilt (.str s) (.str s) := ⟨good_str s, trivial, fun _ => rfl⟩

theorem rebuilt_num {n : ℤ} (h : n.natAbs < 2 ^ 53) : Rebuilt (.num (.int n)) (.num (.int n)) :=
  ⟨⟨h, trivial⟩, h, fun _ => rfl⟩

theorem rebuilt_bool (b : Bool) : Rebuilt (.bool b) (.bool b) := ⟨⟨trivial, trivial⟩, trivial, fun _ => rfl⟩

theorem rebuilt_environment {e : Environment} (h : stringMapAt input path = .ok e)
    (hd : ∀ x ∈ input, x.Distinct) : ∃ v, input = some v ∧ Rebuilt e.toValue v := by
  have hvalid := environment_valid h hd
  obtain ⟨all, rfl, hnodup, hnames, rfl⟩ := stringMapAt_eq_ok h hd
  refine ⟨_, rfl, good_environment hvalid, ⟨(hd _ rfl).1, Value.plainFields_iff.2 fun f hf => ?_⟩, fun hkeyed => ?_⟩
  · obtain ⟨g, hg, rfl⟩ := List.mem_map.1 hf
    exact ⟨isIndex_name (hnames g hg).1, trivial⟩
  have hall : (all.filter fun f => f.1 ≠ proto) = all := by
    refine List.filter_eq_self.2 fun f hf => decide_eq_true ?_
    exact (Value.keyedFields_iff.1 hkeyed.2 _ (List.mem_map_of_mem hf)).1
  rw [hall]
  have hd : all.toValue.Distinct := hd _ rfl
  exact (Value.same_iff hd hd).2 rfl

theorem rebuilt_arr {as : List α} {items : List Value}
    (h : List.Forall₂ (fun a x => Rebuilt (toValue a) x) as items) :
    Rebuilt (.arr (as.map toValue)) (.arr items) := by
  refine ⟨good_arr ?_, ?_, fun hkeyed => ?_⟩
  · induction h with
    | nil => simp
    | cons hax _ ih =>
      rw [List.map_cons, List.forall_mem_cons]
      exact ⟨hax.good, ih⟩
  · show Value.PlainItems items
    induction h with
    | nil => trivial
    | cons hax _ ih => exact ⟨hax.plain, ih⟩
  · refine @sameItems_of_forall _ toValue _ _ ?_
    replace hkeyed : Value.KeyedItems (· ≠ proto) items := hkeyed
    induction h with
    | nil => exact .nil
    | cons hax _ ih => exact .cons (hax.same hkeyed.1) (ih hkeyed.2)

section
variable {props : List (String × Value)}

theorem rebuilt_object (hn : GoodNames (props.map (·.1))) (hd : ∀ x ∈ input, x.Distinct)
    (ho : ObjectAt input keys optional fields) (hcover : ∀ f ∈ fields, f.1 ∈ (props.map (·.1)).map units)
    (h : ∀ f ∈ props, ∃ y, own fields f.1 = some y ∧ Rebuilt f.2 y) :
    Rebuilt (object props) (.obj fields) := by
  have hdistinct : (Value.obj fields).Distinct := hd _ ho.input
  refine ⟨good_object hn fun f hf => ?_, ⟨hdistinct.1, Value.plainFields_iff.2 fun f hf => ?_⟩,
    fun hkeyed => same_object hn hdistinct.1 hcover fun f hf => ?_⟩
  · obtain ⟨y, -, hy⟩ := h f hf
    exact hy.good
  · have hkey := hcover f hf
    obtain ⟨k, hk, hkf⟩ := List.mem_map.1 hkey
    obtain ⟨g, hg, rfl⟩ := List.mem_map.1 hk
    obtain ⟨y, hy, hr⟩ := h g hg
    have hf := Value.lookup_of_mem hdistinct.1 hf
    rw [← hkf] at hf
    obtain rfl : f.2 = y := Option.some.inj (hf.symm.trans hy)
    exact ⟨isIndex_name (hn.2 _ hkey).1, hr.plain⟩
  · obtain ⟨y, hy, hr⟩ := h f hf
    exact ⟨y, hy, hr.same (Value.keyedFields_iff.1 hkeyed.2 _ (mem_of_own hy)).2⟩

/-- Each property of an object without repeated keys has none either. -/
theorem own_distinct {k : String} (hd : (Value.obj fields).Distinct) : ∀ x ∈ own fields k, x.Distinct :=
  fun _ hx => (Value.keyedFields_iff.1 hd.2 _ (mem_of_own hx)).2

end

/-! ## Matrix and repository -/

theorem parseMatrix_eq_ok {m : ValidationMatrixBinding} : parseMatrix input = .ok m ↔
    ∃ fields, ObjectAt input ["source", "authoritySha256", "approvalEvidence"] [] fields ∧
      own fields "source" = some (.str m.source) ∧ Bounded 1 2048 m.source ∧
      own fields "authoritySha256" = some (.str m.authoritySha256) ∧ isHex 64 m.authoritySha256 = true ∧
      own fields "approvalEvidence" = some (.str m.approvalEvidence) ∧ Bounded 1 2048 m.approvalEvidence := by
  simp only [parseMatrix, bind_eq_ok, objectAt_eq_ok, boundedStringAt_eq_ok, sha256At_eq_ok, pure_eq_ok]
  constructor
  · rintro ⟨fields, ho, _, ⟨hs, hs'⟩, _, ⟨ha, ha'⟩, _, ⟨he, he'⟩, rfl⟩
    exact ⟨fields, ho, hs, hs', ha, ha', he, he'⟩
  · rintro ⟨fields, ho, hs, hs', ha, ha', he, he'⟩
    exact ⟨fields, ho, _, ⟨hs, hs'⟩, _, ⟨ha, ha'⟩, _, ⟨he, he'⟩, rfl⟩

theorem matrix_names : GoodNames ["source", "authoritySha256", "approvalEvidence"] := by decide +kernel

theorem rebuilt_matrix {m : ValidationMatrixBinding} (h : parseMatrix input = .ok m) (hd : ∀ x ∈ input, x.Distinct) :
    ∃ v, input = some v ∧ Rebuilt m.toValue v := by
  obtain ⟨fields, ho, hs, -, ha, -, he, -⟩ := parseMatrix_eq_ok.1 h
  refine ⟨_, ho.input, rebuilt_object matrix_names hd ho ho.known ?_⟩
  simp only [List.forall_mem_cons, List.not_mem_nil, false_implies, implies_true, and_true]
  exact ⟨⟨_, hs, rebuilt_str _⟩, ⟨_, ha, rebuilt_str _⟩, _, he, rebuilt_str _⟩

theorem parseMatrix_again {m : ValidationMatrixBinding} (h : parseMatrix input = .ok m) :
    parseMatrix (some m.toValue) = .ok m := by
  obtain ⟨-, -, -, hs, -, ha, -, he⟩ := parseMatrix_eq_ok.1 h
  have hn := matrix_names
  exact parseMatrix_eq_ok.2 ⟨_, objectAt_object hn (by simp) (by simp), own_object hn (by simp), hs,
    own_object hn (by simp), ha, own_object hn (by simp), he⟩

theorem repository_names : GoodNames repositoryKeys := by decide +kernel

theorem parseRepository_eq_ok {r : ValidationRepositoryBinding} : parseRepository input path = .ok r ↔
    ∃ fields, ObjectAt input repositoryKeys [] fields ∧
      own fields "repoKey" = some (.str r.repoKey) ∧ Bounded 1 256 r.repoKey ∧
      own fields "canonicalRoot" = some (.str r.canonicalRoot) ∧ IsPath r.canonicalRoot ∧
      own fields "worktreeRoot" = some (.str r.worktreeRoot) ∧ IsPath r.worktreeRoot := by
  simp only [parseRepository, bind_eq_ok, objectAt_eq_ok, boundedStringAt_eq_ok, absolutePathAt_eq_ok, pure_eq_ok]
  constructor
  · rintro ⟨fields, ho, _, ⟨hk, hk'⟩, _, ⟨hc, hc'⟩, _, ⟨hw, hw'⟩, rfl⟩
    exact ⟨fields, ho, hk, hk', hc, hc', hw, hw'⟩
  · rintro ⟨fields, ho, hk, hk', hc, hc', hw, hw'⟩
    exact ⟨fields, ho, _, ⟨hk, hk'⟩, _, ⟨hc, hc'⟩, _, ⟨hw, hw'⟩, rfl⟩

theorem rebuilt_repository {r : ValidationRepositoryBinding} (h : parseRepository input path = .ok r)
    (hd : ∀ x ∈ input, x.Distinct) : ∃ v, input = some v ∧ Rebuilt r.toValue v := by
  obtain ⟨fields, ho, hk, -, hc, -, hw, -⟩ := parseRepository_eq_ok.1 h
  refine ⟨_, ho.input, rebuilt_object repository_names hd ho ho.known ?_⟩
  simp only [ValidationRepositoryBinding.fields, List.forall_mem_cons, List.not_mem_nil, false_implies,
    implies_true, and_true]
  exact ⟨⟨_, hk, rebuilt_str _⟩, ⟨_, hc, rebuilt_str _⟩, _, hw, rebuilt_str _⟩

theorem parseRepository_again {r : ValidationRepositoryBinding} (h : parseRepository input path = .ok r)
    (path' : Units) : parseRepository (some r.toValue) path' = .ok r := by
  obtain ⟨-, -, -, hk, -, hc, -, hw⟩ := parseRepository_eq_ok.1 h
  have hn := repository_names
  exact parseRepository_eq_ok.2 ⟨_, objectAt_object hn (by simp [repositoryKeys, ValidationRepositoryBinding.fields])
    (by simp [repositoryKeys, ValidationRepositoryBinding.fields]),
    own_object hn (by simp [ValidationRepositoryBinding.fields]), hk,
    own_object hn (by simp [ValidationRepositoryBinding.fields]), hc,
    own_object hn (by simp [ValidationRepositoryBinding.fields]), hw⟩

/-! ## Evidence -/

def evidenceKeys : List String := repositoryKeys ++ ["ticketId", "branch", "featureSha", "authenticated"]

theorem evidence_names : GoodNames evidenceKeys := by decide +kernel

/-- The repository part of the evidence. -/
theorem parseRepository_part {r : ValidationRepositoryBinding} (ho : ObjectAt input evidenceKeys [] fields) :
    parseRepository (some (.obj (repositoryKeys.filterMap fun k => (own fields k).map fun x => (units k, x))))
      path = .ok r ↔
      own fields "repoKey" = some (.str r.repoKey) ∧ Bounded 1 256 r.repoKey ∧
      own fields "canonicalRoot" = some (.str r.canonicalRoot) ∧ IsPath r.canonicalRoot ∧
      own fields "worktreeRoot" = some (.str r.worktreeRoot) ∧ IsPath r.worktreeRoot := by
  obtain ⟨k, hk⟩ := Option.isSome_iff_exists.1 (ho.required "repoKey" (by simp [evidenceKeys, repositoryKeys]) (by simp))
  obtain ⟨c, hc⟩ := Option.isSome_iff_exists.1
    (ho.required "canonicalRoot" (by simp [evidenceKeys, repositoryKeys]) (by simp))
  obtain ⟨w, hw⟩ := Option.isSome_iff_exists.1
    (ho.required "worktreeRoot" (by simp [evidenceKeys, repositoryKeys]) (by simp))
  obtain ⟨props, hprops⟩ : ∃ props, props = [("repoKey", k), ("canonicalRoot", c), ("worktreeRoot", w)] := ⟨_, rfl⟩
  have hn : GoodNames (props.map (·.1)) := by
    rw [hprops]
    exact repository_names
  have hpart : (repositoryKeys.filterMap fun k => (own fields k).map fun x => (units k, x)) =
      props.map fun f => (units f.1, f.2) := by
    simp [repositoryKeys, hk, hc, hw, hprops]
  have hk' : own (props.map fun f => (units f.1, f.2)) "repoKey" = some k := own_object hn (by simp [hprops])
  have hc' : own (props.map fun f => (units f.1, f.2)) "canonicalRoot" = some c := own_object hn (by simp [hprops])
  have hw' : own (props.map fun f => (units f.1, f.2)) "worktreeRoot" = some w := own_object hn (by simp [hprops])
  rw [parseRepository_eq_ok, hpart, hk, hc, hw]
  constructor
  · rintro ⟨fields, ho, hrest⟩
    obtain rfl : (props.map fun f => (units f.1, f.2)) = fields := by simpa using ho.input
    rwa [hk', hc', hw'] at hrest
  · intro hrest
    refine ⟨_, objectAt_object hn (by simp [repositoryKeys, hprops]) (by simp [repositoryKeys, hprops]), ?_⟩
    rwa [hk', hc', hw']

theorem parseRepositoryEvidence_eq_ok {e : AuthenticatedRepositoryEvidence} :
    parseRepositoryEvidence input = .ok e ↔
    ∃ fields, ObjectAt input evidenceKeys [] fields ∧
      own fields "authenticated" = some (.bool true) ∧
      own fields "featureSha" = some (.str e.featureSha) ∧ isHex 40 e.featureSha = true ∧
      (own fields "repoKey" = some (.str e.repoKey) ∧ Bounded 1 256 e.repoKey ∧
        own fields "canonicalRoot" = some (.str e.canonicalRoot) ∧ IsPath e.canonicalRoot ∧
        own fields "worktreeRoot" = some (.str e.worktreeRoot) ∧ IsPath e.worktreeRoot) ∧
      own fields "ticketId" = some (.str e.ticketId) ∧ Bounded 1 128 e.ticketId ∧
      own fields "branch" = some (.str e.branch) ∧ Bounded 1 512 e.branch := by
  simp only [parseRepositoryEvidence, bind_eq_ok, objectAt_eq_ok, trueAt_eq_ok, stringAt_eq_ok, failIf_eq_ok,
    boundedStringAt_eq_ok, pure_eq_ok, Bool.not_eq_false]
  constructor
  · rintro ⟨fields, ho, -, ha, _, hf, -, hf', r, hr, _, ⟨ht, ht'⟩, _, ⟨hb, hb'⟩, rfl⟩
    exact ⟨fields, ho, ha, hf, hf', (parseRepository_part ho).1 hr, ht, ht', hb, hb'⟩
  · rintro ⟨fields, ho, ha, hf, hf', hr, ht, ht', hb, hb'⟩
    exact ⟨fields, ho, ⟨⟩, ha, _, hf, ⟨⟩, hf', e.toValidationRepositoryBinding, (parseRepository_part ho).2 hr, _,
      ⟨ht, ht'⟩, _, ⟨hb, hb'⟩, rfl⟩

theorem rebuilt_evidence {e : AuthenticatedRepositoryEvidence} (h : parseRepositoryEvidence input = .ok e)
    (hd : ∀ x ∈ input, x.Distinct) : ∃ v, input = some v ∧ Rebuilt e.toValue v := by
  obtain ⟨fields, ho, ha, hf, -, ⟨hk, -, hc, -, hw, -⟩, ht, -, hb, -⟩ := parseRepositoryEvidence_eq_ok.1 h
  refine ⟨_, ho.input, rebuilt_object evidence_names hd ho ho.known ?_⟩
  simp only [ValidationRepositoryBinding.fields, List.cons_append, List.nil_append, List.forall_mem_cons,
    List.not_mem_nil, false_implies, implies_true, and_true]
  exact ⟨⟨_, hk, rebuilt_str _⟩, ⟨_, hc, rebuilt_str _⟩, ⟨_, hw, rebuilt_str _⟩, ⟨_, ht, rebuilt_str _⟩,
    ⟨_, hb, rebuilt_str _⟩, ⟨_, hf, rebuilt_str _⟩, _, ha, rebuilt_bool _⟩

theorem parseRepositoryEvidence_again {e : AuthenticatedRepositoryEvidence}
    (h : parseRepositoryEvidence input = .ok e) : parseRepositoryEvidence (some e.toValue) = .ok e := by
  obtain ⟨-, -, -, -, hf, ⟨-, hk, -, hc, -, hw⟩, -, ht, -, hb⟩ := parseRepositoryEvidence_eq_ok.1 h
  have hn := evidence_names
  have hown : ∀ {k x}, (k, x) ∈ e.fields ++ [("ticketId", .str e.ticketId), ("branch", .str e.branch),
      ("featureSha", .str e.featureSha), ("authenticated", .bool true)] → own _ k = some x := own_object hn
  have ho : ObjectAt (some e.toValue) evidenceKeys [] _ :=
    objectAt_object hn (by simp [evidenceKeys, repositoryKeys, ValidationRepositoryBinding.fields])
      (by simp [evidenceKeys, repositoryKeys, ValidationRepositoryBinding.fields])
  simp only [ValidationRepositoryBinding.fields, List.cons_append, List.nil_append] at hown ho
  exact parseRepositoryEvidence_eq_ok.2 ⟨_, ho, hown (by simp), hown (by simp), hf,
    ⟨hown (by simp), hk, hown (by simp), hc, hown (by simp), hw⟩, hown (by simp), ht, hown (by simp), hb⟩

/-! ## Commands -/

theorem parseArtifact_eq_ok {index : ℕ} {x : Value} {a : ValidationArtifactSpec} :
    parseArtifact path index x = .ok a ↔
    ∃ fields, ObjectAt (some x) ["path", "expectedSha256"] ["expectedSha256"] fields ∧
      own fields "expectedSha256" = a.expectedSha256.map Value.str ∧ (∀ s ∈ a.expectedSha256, isHex 64 s = true) ∧
      own fields "path" = some (.str a.path) ∧ IsPath a.path := by
  simp only [parseArtifact, bind_eq_ok, objectAt_eq_ok, optionalSha256At_eq_ok, absolutePathAt_eq_ok, pure_eq_ok]
  constructor
  · rintro ⟨fields, ho, _, ⟨hs, hs'⟩, _, ⟨hp, hp'⟩, rfl⟩
    exact ⟨fields, ho, hs, hs', hp, hp'⟩
  · rintro ⟨fields, ho, hs, hs', hp, hp'⟩
    exact ⟨fields, ho, _, ⟨hs, hs'⟩, _, ⟨hp, hp'⟩, rfl⟩

theorem path_names : GoodNames ["path"] := by decide +kernel

theorem artifact_names : GoodNames ["path", "expectedSha256"] := by decide +kernel

theorem rebuilt_artifact {index : ℕ} {x : Value} {a : ValidationArtifactSpec}
    (h : parseArtifact path index x = .ok a) (hd : x.Distinct) : Rebuilt a.toValue x := by
  obtain ⟨fields, ho, hs, -, hp, -⟩ := parseArtifact_eq_ok.1 h
  obtain rfl : x = .obj fields := by simpa using ho.input
  obtain ⟨p, sha⟩ := a
  cases sha with
  | none =>
    refine rebuilt_object path_names (by rintro _ ⟨⟩; exact hd) ho (fun f hf => ?_) ?_
    · -- the optional property is not there
      have hknown := ho.known f hf
      simp only [List.map_cons, List.map_nil, List.mem_cons, List.not_mem_nil, or_false] at hknown
      rcases hknown with hknown | hknown
      · exact List.mem_singleton.2 hknown
      · have hmem := Value.lookup_of_mem hd.1 hf
        rw [hknown] at hmem
        rw [own, hmem] at hs
        simp at hs
    · simp only [Option.toList_none, List.map_nil, List.forall_mem_cons, List.not_mem_nil, false_implies,
        implies_true, and_true]
      exact ⟨_, hp, rebuilt_str _⟩
  | some sha =>
    refine rebuilt_object artifact_names (by rintro _ ⟨⟩; exact hd) ho ho.known ?_
    simp only [Option.toList_some, List.map_cons, List.map_nil, List.forall_mem_cons, List.not_mem_nil,
      false_implies, implies_true, and_true]
    exact ⟨⟨_, hp, rebuilt_str _⟩, _, hs, rebuilt_str _⟩

theorem parseArtifact_again {index : ℕ} {x : Value} {a : ValidationArtifactSpec}
    (h : parseArtifact path index x = .ok a) (path' : Units) (index' : ℕ) :
    parseArtifact path' index' a.toValue = .ok a := by
  obtain ⟨-, -, -, hs, -, hp⟩ := parseArtifact_eq_ok.1 h
  obtain ⟨p, sha⟩ := a
  cases sha with
  | none =>
    have hn := path_names
    refine parseArtifact_eq_ok.2 ⟨_, objectAt_object hn (by simp) (by simp), ?_, hs, own_object hn (by simp), hp⟩
    have hne : (units "expectedSha256" == units "path") = false := by decide +kernel
    simp [own, List.lookup, hne]
  | some sha =>
    have hn := artifact_names
    exact parseArtifact_eq_ok.2 ⟨_, objectAt_object hn (by simp) (by simp), own_object hn (by simp), hs,
      own_object hn (by simp), hp⟩

def commandKeys : List String := ["id", "command", "cwd", "timeoutSeconds", "maxOutputBytes", "artifacts"]

theorem command_names : GoodNames commandKeys := by decide +kernel

theorem parseCommand_eq_ok {index : ℕ} {x : Value} {c : ValidationCommandSpec} : parseCommand index x = .ok c ↔
    ∃ fields, ObjectAt (some x) commandKeys [] fields ∧
      own fields "id" = some (.str c.id) ∧ isCommandId c.id = true ∧
      own fields "command" = some (.str c.command) ∧ Bounded 1 1000000 c.command ∧
      own fields "timeoutSeconds" = some (.num (.int c.timeoutSeconds)) ∧
        (minTimeoutSeconds ≤ c.timeoutSeconds ∧ c.timeoutSeconds ≤ maxTimeoutSeconds) ∧
      own fields "maxOutputBytes" = some (.num (.int c.maxOutputBytes)) ∧
        (minOutputBytes ≤ c.maxOutputBytes ∧ c.maxOutputBytes ≤ maxOutputBytes) ∧
      (∃ rawArtifacts, own fields "artifacts" = some (.arr rawArtifacts) ∧
        parseEach (parseArtifact (item (units "manifest.commands") index)) 0 rawArtifacts = .ok c.artifacts) ∧
      (c.artifacts.map (·.path)).Nodup ∧
      own fields "cwd" = some (.str c.cwd) ∧ IsPath c.cwd := by
  simp only [parseCommand, bind_eq_ok, objectAt_eq_ok, stringAt_eq_ok, failIf_eq_ok, boundedStringAt_eq_ok,
    integerAt_eq_ok, arrayAt_eq_ok, absolutePathAt_eq_ok, pure_eq_ok, Bool.not_eq_false, Bool.not_eq_true, not_not]
  constructor
  · rintro ⟨fields, ho, _, hi, -, hi', _, ⟨hc, hc'⟩, -, -, _, ⟨ht, ht'⟩, _, ⟨hm, hm'⟩, raw, hr, _, has, -, hnodup,
      _, ⟨hw, hw'⟩, rfl⟩
    exact ⟨fields, ho, hi, hi', hc, hc', ht, ht', hm, hm', ⟨raw, hr, has⟩, hnodup, hw, hw'⟩
  · rintro ⟨fields, ho, hi, hi', hc, hc', ht, ht', hm, hm', ⟨raw, hr, has⟩, hnodup, hw, hw'⟩
    exact ⟨fields, ho, _, hi, ⟨⟩, hi', _, ⟨hc, hc'⟩, ⟨⟩, hc'.2.2, _, ⟨ht, ht'⟩, _, ⟨hm, hm'⟩, raw, hr, _, has, ⟨⟩,
      hnodup, _, ⟨hw, hw'⟩, rfl⟩

/-- The values of a list are rebuilt when each of them is. -/
theorem rebuilt_each {items : List Value} {as : List α} {index : ℕ} (h : parseEach f index items = .ok as)
    (hd : (Value.arr items).Distinct) (hf : ∀ i x a, f i x = .ok a → x.Distinct → Rebuilt (toValue a) x) :
    Rebuilt (.arr (as.map toValue)) (.arr items) := by
  have hall := parseEach_forall h
  replace hd : Value.KeyedItems (fun _ => True) items := hd
  refine rebuilt_arr ?_
  clear h
  induction hall with
  | nil => exact .nil
  | cons hax _ ih =>
    obtain ⟨i, hi⟩ := hax
    exact .cons (hf i _ _ hi hd.1) (ih hd.2)

theorem parseEach_twice {items : List Value} {as : List α} {index : ℕ} {g : ℕ → Value → Checked α}
    (h : parseEach f index items = .ok as) (hf : ∀ i x a, f i x = .ok a → ∀ j, g j (toValue a) = .ok a)
    (index' : ℕ) : parseEach g index' (as.map toValue) = .ok as := by
  refine parseEach_again fun a ha i => ?_
  obtain ⟨i', x, hx⟩ := parseEach_mem h a ha
  exact hf i' x a hx i

theorem rebuilt_command {index : ℕ} {x : Value} {c : ValidationCommandSpec} (h : parseCommand index x = .ok c)
    (hd : x.Distinct) : Rebuilt c.toValue x := by
  obtain ⟨fields, ho, hi, -, hc, -, ht, ht', hm, hm', ⟨raw, hr, has⟩, -, hw, -⟩ := parseCommand_eq_ok.1 h
  obtain rfl : x = .obj fields := by simpa using ho.input
  have hraw : (Value.arr raw).Distinct := own_distinct hd _ hr
  refine rebuilt_object command_names (by rintro _ ⟨⟩; exact hd) ho ho.known ?_
  unfold minTimeoutSeconds maxTimeoutSeconds at ht'
  unfold minOutputBytes maxOutputBytes at hm'
  simp only [List.forall_mem_cons, List.not_mem_nil, false_implies, implies_true, and_true]
  exact ⟨⟨_, hi, rebuilt_str _⟩, ⟨_, hc, rebuilt_str _⟩, ⟨_, hw, rebuilt_str _⟩, ⟨_, ht, rebuilt_num (by omega)⟩,
    ⟨_, hm, rebuilt_num (by omega)⟩, _, hr, rebuilt_each has hraw fun _ _ _ => rebuilt_artifact⟩

theorem parseCommand_again {index : ℕ} {x : Value} {c : ValidationCommandSpec} (h : parseCommand index x = .ok c)
    (index' : ℕ) : parseCommand index' c.toValue = .ok c := by
  obtain ⟨-, -, -, hi, -, hc, -, ht, -, hm, ⟨raw, -, has⟩, hnodup, -, hw⟩ := parseCommand_eq_ok.1 h
  have hn := command_names
  exact parseCommand_eq_ok.2 ⟨_, objectAt_object hn (by simp [commandKeys]) (by simp [commandKeys]),
    own_object hn (by simp), hi, own_object hn (by simp), hc, own_object hn (by simp), ht,
    own_object hn (by simp), hm, ⟨_, own_object hn (by simp), parseEach_twice has
      (fun _ _ _ ha j => parseArtifact_again ha _ j) 0⟩, hnodup, own_object hn (by simp), hw⟩

/-! ## Manifest and handoff -/

def manifestKeys : List String :=
  ["schemaVersion", "ticketId", "branch", "featureSha", "matrix", "repository", "environment", "commands"]

theorem manifest_names : GoodNames manifestKeys := by decide +kernel

theorem parseManifest_eq_ok {m : ValidationManifest} : parseManifest input = .ok m ↔
    ∃ fields, ObjectAt input manifestKeys [] fields ∧
      own fields "schemaVersion" = some (.str (units manifestSchemaVersion)) ∧
      own fields "ticketId" = some (.str m.ticketId) ∧ Bounded 1 128 m.ticketId ∧
      own fields "branch" = some (.str m.branch) ∧ Bounded 1 512 m.branch ∧
      own fields "featureSha" = some (.str m.featureSha) ∧ isHex 40 m.featureSha = true ∧
      parseMatrix (own fields "matrix") = .ok m.matrix ∧
      parseRepository (own fields "repository") (dot (units "manifest") "repository") = .ok m.repository ∧
      stringMapAt (own fields "environment") (dot (units "manifest") "environment") = .ok m.environment ∧
      m.environment ≠ [] ∧
      (∃ rawCommands, own fields "commands" = some (.arr rawCommands) ∧
        parseEach parseCommand 0 rawCommands = .ok m.commands ∧ rawCommands ≠ [] ∧ rawCommands.length ≤ 1000) ∧
      (m.commands.map (·.id)).Nodup := by
  simp only [parseManifest, bind_eq_ok, objectAt_eq_ok, literalAt_eq_ok, stringAt_eq_ok, failIf_eq_ok,
    boundedStringAt_eq_ok, arrayAt_eq_ok, pure_eq_ok, Bool.not_eq_false, not_not, not_lt]
  constructor
  · rintro ⟨fields, ho, -, hs, _, ⟨ht, ht'⟩, _, ⟨hb, hb'⟩, _, hf, -, hf', _, hm, _, hr, _, he, -, he', raw, hraw, -,
      hne, -, hlen, _, hc, -, hnodup, rfl⟩
    exact ⟨fields, ho, hs, ht, ht', hb, hb', hf, hf', hm, hr, he, he', ⟨raw, hraw, hc, hne, hlen⟩, hnodup⟩
  · rintro ⟨fields, ho, hs, ht, ht', hb, hb', hf, hf', hm, hr, he, he', ⟨raw, hraw, hc, hne, hlen⟩, hnodup⟩
    exact ⟨fields, ho, ⟨⟩, hs, _, ⟨ht, ht'⟩, _, ⟨hb, hb'⟩, _, hf, ⟨⟩, hf', _, hm, _, hr, _, he, ⟨⟩, he', raw, hraw, ⟨⟩,
      hne, ⟨⟩, hlen, _, hc, ⟨⟩, hnodup, rfl⟩

theorem rebuilt_manifest {m : ValidationManifest} (h : parseManifest input = .ok m) (hd : ∀ x ∈ input, x.Distinct) :
    ∃ v, input = some v ∧ Rebuilt m.toValue v := by
  obtain ⟨fields, ho, hs, ht, -, hb, -, hf, -, hm, hr, he, -, ⟨raw, hraw, hc, -⟩, -⟩ := parseManifest_eq_ok.1 h
  have hown : ∀ k, ∀ x ∈ own fields k, x.Distinct := fun k => own_distinct (hd _ ho.input)
  obtain ⟨matrix, hmatrix, hm⟩ := rebuilt_matrix hm (hown _)
  obtain ⟨repository, hrepository, hr⟩ := rebuilt_repository hr (hown _)
  obtain ⟨environment, henvironment, he⟩ := rebuilt_environment he (hown _)
  refine ⟨_, ho.input, rebuilt_object manifest_names hd ho ho.known ?_⟩
  simp only [List.forall_mem_cons, List.not_mem_nil, false_implies, implies_true, and_true]
  exact ⟨⟨_, hs, rebuilt_str _⟩, ⟨_, ht, rebuilt_str _⟩, ⟨_, hb, rebuilt_str _⟩, ⟨_, hf, rebuilt_str _⟩,
    ⟨_, hmatrix, hm⟩, ⟨_, hrepository, hr⟩, ⟨_, henvironment, he⟩,
    _, hraw, rebuilt_each hc (hown _ _ hraw) fun _ _ _ => rebuilt_command⟩

theorem parseManifest_again {m : ValidationManifest} (h : parseManifest input = .ok m)
    (hd : ∀ x ∈ input, x.Distinct) : parseManifest (some m.toValue) = .ok m := by
  obtain ⟨fields, ho, -, -, ht, -, hb, -, hf, hm, hr, he, he', ⟨raw, -, hc, hne, hlen⟩, hnodup⟩ :=
    parseManifest_eq_ok.1 h
  have hvalid := environment_valid he (own_distinct (hd _ ho.input))
  have hlength := (parseEach_forall hc).length_eq
  have hn := manifest_names
  refine parseManifest_eq_ok.2 ⟨_, objectAt_object hn (by simp [manifestKeys]) (by simp [manifestKeys]),
    own_object hn (by simp), own_object hn (by simp), ht, own_object hn (by simp), hb, own_object hn (by simp), hf,
    ?_, ?_, ?_, he', ⟨_, own_object hn (by simp), parseEach_twice hc (fun _ _ _ ha j => parseCommand_again ha j) 0,
      ?_, ?_⟩, hnodup⟩
  · refine (congrArg parseMatrix ?_).trans (parseMatrix_again hm)
    exact own_object hn (by simp)
  · refine (congrArg (parseRepository · _) ?_).trans (parseRepository_again hr _)
    exact own_object hn (by simp)
  · refine (congrArg (stringMapAt · _) ?_).trans (stringMapAt_again hvalid)
    exact own_object hn (by simp)
  · intro hnil
    rw [List.map_eq_nil_iff] at hnil
    rw [hnil] at hlength
    exact hne (List.eq_nil_of_length_eq_zero hlength.symm)
  · rw [List.length_map, hlength]
    exact hlen

def handoffKeys : List String :=
  ["schemaVersion", "manifestSha256", "manifest", "repositoryEvidence", "protectedEnvironment"]

theorem handoff_names : GoodNames handoffKeys := by decide +kernel

theorem parseValidationHandoff_eq_ok {v : Value} {h : ValidationHandoff} : parseValidationHandoff v = .ok h ↔
    ∃ fields, ObjectAt (some v) handoffKeys [] fields ∧
      own fields "schemaVersion" = some (.str (units handoffSchemaVersion)) ∧
      own fields "manifestSha256" = some (.str h.manifestSha256) ∧ isHex 64 h.manifestSha256 = true ∧
      parseManifest (own fields "manifest") = .ok h.manifest ∧
      parseRepositoryEvidence (own fields "repositoryEvidence") = .ok h.repositoryEvidence ∧
      stringMapAt (own fields "protectedEnvironment") (dot (units "handoff") "protectedEnvironment") =
        .ok h.protectedEnvironment ∧ h.protectedEnvironment ≠ [] := by
  simp only [parseValidationHandoff, bind_eq_ok, objectAt_eq_ok, literalAt_eq_ok, sha256At_eq_ok, failIf_eq_ok,
    pure_eq_ok]
  constructor
  · rintro ⟨fields, ho, -, hs, _, ⟨hm, hm'⟩, _, hman, _, hev, _, hp, -, hp', rfl⟩
    exact ⟨fields, ho, hs, hm, hm', hman, hev, hp, hp'⟩
  · rintro ⟨fields, ho, hs, hm, hm', hman, hev, hp, hp'⟩
    exact ⟨fields, ho, ⟨⟩, hs, _, ⟨hm, hm'⟩, _, hman, _, hev, _, hp, ⟨⟩, hp', rfl⟩

/-- **A handoff is rebuilt.** -/
theorem rebuilt_handoff {v : Value} {h : ValidationHandoff} (hv : parseValidationHandoff v = .ok h)
    (hd : v.Distinct) : Rebuilt h.toValue v := by
  obtain ⟨fields, ho, hs, hm, -, hman, hev, hp, -⟩ := parseValidationHandoff_eq_ok.1 hv
  obtain rfl : v = .obj fields := by simpa using ho.input
  have hown : ∀ k, ∀ x ∈ own fields k, x.Distinct := fun k => own_distinct hd
  obtain ⟨manifest, hmanifest, hman⟩ := rebuilt_manifest hman (hown _)
  obtain ⟨evidence, hevidence, hev⟩ := rebuilt_evidence hev (hown _)
  obtain ⟨environment, henvironment, hp⟩ := rebuilt_environment hp (hown _)
  refine rebuilt_object handoff_names (by rintro _ ⟨⟩; exact hd) ho ho.known ?_
  simp only [List.forall_mem_cons, List.not_mem_nil, false_implies, implies_true, and_true]
  exact ⟨⟨_, hs, rebuilt_str _⟩, ⟨_, hm, rebuilt_str _⟩, ⟨_, hmanifest, hman⟩, ⟨_, hevidence, hev⟩,
    _, henvironment, hp⟩

/-- **What was returned is accepted again**, and returned as it is. -/
theorem parseValidationHandoff_again {v : Value} {h : ValidationHandoff} (hv : parseValidationHandoff v = .ok h)
    (hd : v.Distinct) : parseValidationHandoff h.toValue = .ok h := by
  obtain ⟨fields, ho, -, -, hm, hman, hev, hp, hp'⟩ := parseValidationHandoff_eq_ok.1 hv
  obtain rfl : v = .obj fields := by simpa using ho.input
  have hown : ∀ k, ∀ x ∈ own fields k, x.Distinct := fun k => own_distinct hd
  have hvalid := environment_valid hp (hown _)
  have hn := handoff_names
  refine parseValidationHandoff_eq_ok.2 ⟨_, objectAt_object hn (by simp [handoffKeys]) (by simp [handoffKeys]),
    own_object hn (by simp), own_object hn (by simp), hm, ?_, ?_, ?_, hp'⟩
  · refine (congrArg parseManifest ?_).trans (parseManifest_again hman (hown _))
    exact own_object hn (by simp)
  · refine (congrArg parseRepositoryEvidence ?_).trans (parseRepositoryEvidence_again hev)
    exact own_object hn (by simp)
  · refine (congrArg (stringMapAt · _) ?_).trans (stringMapAt_again hvalid)
    exact own_object hn (by simp)

end PaPlatform.Validation
