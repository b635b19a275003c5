/-
  The digest binds what runs: a handoff is rebuilt without a loss, its manifest is
  hashed by what it says and not by the order of its keys, and its text is accepted
  again.

  The one exception are environments with the name `__proto__`: the assignment of a
  string to it does nothing.
-/
import PaPlatform.Validation.Rebuild

namespace PaPlatform.Validation

open Js Units

variable {le : Units → Units → Bool}

/-! ## The canonical text -/

theorem join_cons (s t : Units) (texts : List Units) :
    join (s :: t :: texts) = s ++ unit ',' :: join (t :: texts) := by
  simp [join, List.intercalate]

theorem join_one (s : Units) : join [s] = s := by simp [join, List.intercalate]

theorem join_items (x : Value) (xs : List Value) :
    join ((x :: xs).map Value.stringify) ++ [unit ']'] = x.stringify ++ Value.stringifyItems xs := by
  induction xs generalizing x with
  | nil =>
    rw [List.map_cons, List.map_nil, join_one]
    rfl
  | cons y xs ih =>
    rw [List.map_cons, List.map_cons, join_cons, ← List.map_cons, List.append_assoc, List.cons_append, ih y]
    rfl

/-- The text of a field. -/
def fieldText (f : Units × Value) : Units := Value.quote f.1 ++ unit ':' :: f.2.stringify

theorem join_fields (f : Units × Value) (fs : List (Units × Value)) :
    join ((f :: fs).map fieldText) ++ [0x7d] = fieldText f ++ Value.stringifyFields fs := by
  induction fs generalizing f with
  | nil =>
    rw [List.map_cons, List.map_nil, join_one]
    rfl
  | cons g fs ih =>
    rw [List.map_cons, List.map_cons, join_cons, ← List.map_cons, List.append_assoc, List.cons_append, ih g]
    unfold fieldText
    rw [Value.stringifyFields, List.append_assoc (Value.quote g.1), List.cons_append]
    rfl

theorem stringify_arr (items : List Value) :
    (Value.arr items).stringify = unit '[' :: (join (items.map Value.stringify) ++ [unit ']']) := by
  cases items with
  | nil => rfl
  | cons x xs =>
    rw [join_items]
    rfl

theorem stringify_obj (fields : List (Units × Value)) :
    (Value.obj fields).stringify = 0x7b :: (join (fields.map fieldText) ++ [0x7d]) := by
  cases fields with
  | nil => rfl
  | cons f fs =>
    rw [join_fields]
    simp [Value.stringify, fieldText, unit]

mutual

/-- **The canonical text is the text of the sorted value.** -/
theorem canonicalJson_eq : ∀ v : Value, canonicalJson le v = (v.sorted le).stringify
  | .null | .bool _ | .num _ | .str _ => by
    rw [canonicalJson, Value.sorted]
    all_goals simp
  | .arr items => by
    rw [canonicalJson, Value.sorted, stringify_arr, canonicalItems_eq items]
  | .obj fields => by
    rw [canonicalJson, Value.sorted, stringify_obj, canonicalEntries_eq fields]
    have hmap : Value.sortFields le ((Value.sortedFields le fields).map fun f => (f.1, f.2.stringify)) =
        (Value.sortFields le (Value.sortedFields le fields)).map fun f => (f.1, f.2.stringify) :=
      (Value.sortFields_map Value.stringify _).symm
    rw [hmap, List.map_map]
    rfl

theorem canonicalItems_eq : ∀ xs : List Value,
    canonicalItems le xs = (Value.sortedItems le xs).map Value.stringify
  | [] => rfl
  | x :: xs => by rw [canonicalItems, canonicalJson_eq x, canonicalItems_eq xs, Value.sortedItems, List.map_cons]

theorem canonicalEntries_eq : ∀ fs : List (Units × Value),
    canonicalEntries le fs = (Value.sortedFields le fs).map fun f => (f.1, f.2.stringify)
  | [] => rfl
  | (k, x) :: fs => by
    rw [canonicalEntries, canonicalJson_eq x, canonicalEntries_eq fs, Value.sortedFields, List.map_cons]

end

/-- What is hashed for two values is equal when the values are. -/
theorem canonical_iff {v w : Value} (ho : Value.KeyOrder le GoodName) (hv : Good v) (hw : Good w) :
    encodeUtf8 (canonicalJson le v) = encodeUtf8 (canonicalJson le w) ↔ Value.Same v w := by
  rw [← Value.stringify_sorted_iff ho hv.2 hw.2 hv.1 hw.1, canonicalJson_eq, canonicalJson_eq]
  constructor
  · exact encodeUtf8_injective (wellFormed_plain ((Value.plain_sorted v).2 hv.1))
      (wellFormed_plain ((Value.plain_sorted w).2 hw.1))
  · exact congrArg encodeUtf8

/-! ## The handoff -/

/-- A JSON value: no object has a key twice. -/
abbrev JsonValue := { v : Value // v.Distinct }

/-- `JSON.parse`. -/
def JsonValue.parse (double : Units → Number) (text : Units) : Option JsonValue :=
  (Value.parse double text).pmap Subtype.mk fun _ h => Value.parse_distinct h

variable (le) in
/-- The digest of an accepted handoff binds what runs. -/
structure Binds (double : Units → Number) (sha256 : Bytes → Units) (v : JsonValue) (h : ValidationHandoff) :
    Prop where
  /-- What is returned has the names and values of the input. -/
  lossless : Value.Same h.toValue v.1
  /-- The hashed bytes are equal if and only if the manifests are. -/
  digest : ∀ (v' : JsonValue) (h' : ValidationHandoff), parseValidationHandoff v'.1 = .ok h' →
    (digestInput le h.manifest = digestInput le h'.manifest ↔ Value.Same h.manifest.toValue h'.manifest.toValue)
  /-- The order of the keys of the input makes no difference. -/
  order : ∀ (v' : JsonValue) (h' : ValidationHandoff), parseValidationHandoff v'.1 = .ok h' →
    Value.Same v.1 v'.1 → digestInput le h.manifest = digestInput le h'.manifest
  /-- The text of the input and the text of what is returned are both read and accepted again. -/
  again : (Value.parse double v.1.stringify = some v.1 ∧ parseValidationHandoff v.1 = .ok h) ∧
    Value.parse double h.toValue.stringify = some h.toValue ∧ parseValidationHandoff h.toValue = .ok h
  /-- The handoff that is read again has the same digest and the same authority. -/
  authority : ∀ v' h', Value.parse double h.toValue.stringify = some v' → parseValidationHandoff v' = .ok h' →
    h' = h ∧ digestValidationManifest le sha256 h'.manifest = digestValidationManifest le sha256 h.manifest ∧
      ∀ expected, (assertValidationAuthority le sha256 h' expected = .ok () ↔
        assertValidationAuthority le sha256 h expected = .ok ())

variable {double : Units → Number} {sha256 : Bytes → Units} {v : JsonValue} {h : ValidationHandoff}

/-- A property of two objects that are the same. -/
theorem same_of_own {props props' : List (String × Value)} (hn : GoodNames (props'.map (·.1))) {k : String}
    {x y : Value} (hsame : Value.Same (object props) (object props')) (hx : (k, x) ∈ props) (hy : (k, y) ∈ props') :
    Value.Same x y := by
  obtain ⟨z, hz, hxz⟩ := Value.sameFields_iff.1 hsame.2 _
    (List.mem_map_of_mem (f := fun f : String × Value => (units f.1, f.2)) hx)
  have hnodup : ((props'.map fun f => (units f.1, f.2)).map (·.1)).Nodup := by
    rw [object_keys]
    exact hn.1
  have hlookup : own _ k = some z := Value.lookup_of_mem hnodup hz
  obtain rfl : z = y := Option.some.inj (hlookup.symm.trans (own_object hn hy))
  exact hxz

theorem good_manifest {v : Value} (hv : parseValidationHandoff v = .ok h) (hd : v.Distinct) :
    Good h.manifest.toValue := by
  obtain ⟨fields, ho, -, -, -, hman, -⟩ := parseValidationHandoff_eq_ok.1 hv
  obtain rfl : v = .obj fields := by simpa using ho.input
  obtain ⟨_, -, hr⟩ := rebuilt_manifest hman (own_distinct hd)
  exact hr.good

/-- A name that is lost is missing in what is returned. -/
theorem keyed_of_same {v : Value} (hv : parseValidationHandoff v = .ok h) (hd : v.Distinct)
    (hsame : Value.Same h.toValue v) : v.Keyed (· ≠ proto) :=
  hsame.keyed (Value.Keyed.imp (fun _ hk => hk.2) _ (rebuilt_handoff hv hd).good.2) hd

/-- **The digest binds what runs**, if and only if no name of the handoff is `__proto__`. -/
theorem digest_binds_iff (ho : Value.KeyOrder le fun k => isEnvironmentName k = true)
    (hv : parseValidationHandoff v.1 = .ok h) :
    Binds le double sha256 v h ↔ v.1.Keyed (· ≠ proto) := by
  have horder : Value.KeyOrder le GoodName :=
    ⟨ho.trans, ho.total, fun a b ha hb => ho.antisymm a b ha.1 hb.1⟩
  have hr := rebuilt_handoff hv v.2
  have hdistinct : h.toValue.Distinct := hr.good.2.distinct
  constructor
  · intro hbinds
    exact keyed_of_same hv v.2 hbinds.lossless
  · intro hkeyed
    have hagain := parseValidationHandoff_again hv v.2
    have hdigest : ∀ (v' : JsonValue) (h' : ValidationHandoff), parseValidationHandoff v'.1 = .ok h' →
        (digestInput le h.manifest = digestInput le h'.manifest ↔
          Value.Same h.manifest.toValue h'.manifest.toValue) := fun v' h' hv' =>
      canonical_iff horder (good_manifest hv v.2) (good_manifest hv' v'.2)
    refine ⟨hr.same hkeyed, hdigest, fun v' h' hv' hsame => ?_, ⟨⟨Value.parse_stringify hr.plain, hv⟩,
      Value.parse_stringify hr.good.1, hagain⟩, fun v' h' hparse hv' => ?_⟩
    · have hr' := rebuilt_handoff hv' v'.2
      have hback : Value.Same v'.1 h'.toValue :=
        (hr'.same (hsame.keyed hkeyed v'.2)).symm hr'.good.2.distinct v'.2
      have hboth : Value.Same h.toValue h'.toValue :=
        ((hr.same hkeyed).trans hdistinct v.2 v'.2 hsame).trans hdistinct v'.2 hr'.good.2.distinct hback
      refine (hdigest v' h' hv').2 (same_of_own (k := "manifest") ?_ hboth (by simp) (by simp))
      exact handoff_names
    · rw [Value.parse_stringify hr.good.1, Option.some.injEq] at hparse
      subst hparse
      rw [hagain, Except.ok.injEq] at hv'
      subst hv'
      exact ⟨rfl, rfl, fun _ => Iff.rfl⟩

namespace Sample

/-- The digest of the manifest with one name. -/
def sha : Units := units "1845162b8b728315edf247ac8a7487786a47f688e457acb5f925b8487bae5504"

/-- A handoff whose manifest has this environment. -/
def handoff (environment : Environment) : Value :=
  let repository : List (String × Value) := [("repoKey", .str (units "pa")), ("canonicalRoot", .str (units "/pa")),
    ("worktreeRoot", .str (units "/pa"))]
  let feature := Value.str (List.replicate 40 (unit '0'))
  object [("schemaVersion", .str (units handoffSchemaVersion)), ("manifestSha256", .str sha),
    ("manifest", object [("schemaVersion", .str (units manifestSchemaVersion)), ("ticketId", .str (units "PA-1")),
      ("branch", .str (units "main")), ("featureSha", feature),
      ("matrix", object [("source", .str (units "matrix")),
        ("authoritySha256", .str (List.replicate 64 (unit 'a'))), ("approvalEvidence", .str (units "review"))]),
      ("repository", object repository), ("environment", environment.toValue),
      ("commands", .arr [object [("id", .str (units "t")), ("command", .str (units "make")),
        ("cwd", .str (units "/pa")), ("timeoutSeconds", .num (.int 60)), ("maxOutputBytes", .num (.int 1048576)),
        ("artifacts", .arr [])]])]),
    ("repositoryEvidence", object (repository ++ [("ticketId", .str (units "PA-1")),
      ("branch", .str (units "main")), ("featureSha", feature), ("authenticated", .bool true)])),
    ("protectedEnvironment", Environment.toValue [(units "PATH", units "/bin")])]

theorem handoff_distinct : (handoff [(units "PATH", units "/bin")]).Distinct := by decide

/-- A handoff that is kept. -/
def kept : JsonValue := ⟨handoff [(units "PATH", units "/bin")], handoff_distinct⟩

theorem lost_distinct : (handoff [(units "PATH", units "/bin"), (proto, units "x")]).Distinct := by decide

/-- A handoff with a name that is lost. -/
def lost : JsonValue := ⟨handoff [(units "PATH", units "/bin"), (proto, units "x")], lost_distinct⟩

theorem order : Value.KeyOrder Value.unitsLe fun k => isEnvironmentName k = true :=
  ⟨Value.unitsLe_order.trans, Value.unitsLe_order.total,
    fun a b _ _ => Value.unitsLe_order.antisymm a b trivial trivial⟩

theorem accepted : (∃ h, parseValidationHandoff kept.1 = .ok h) ∧ ∃ h, parseValidationHandoff lost.1 = .ok h := by
  have hkept : (parseValidationHandoff kept.1).toOption.isSome = true := by decide
  have hlost : (parseValidationHandoff lost.1).toOption.isSome = true := by decide
  constructor
  · cases h : parseValidationHandoff kept.1 with
    | ok a => exact ⟨a, rfl⟩
    | error e => simp [h, Except.toOption] at hkept
  · cases h : parseValidationHandoff lost.1 with
    | ok a => exact ⟨a, rfl⟩
    | error e => simp [h, Except.toOption] at hlost

end Sample

open Sample in
theorem digest_binds_kept : ∃ h, parseValidationHandoff kept.1 = .ok h ∧
    Binds Value.unitsLe .float (fun _ => sha) kept h := by
  obtain ⟨h, hv⟩ := accepted.1
  exact ⟨h, hv, (digest_binds_iff order hv).2 (by decide)⟩

open Sample in
/-- An entry of the environment that is named `__proto__` is lost. -/
theorem proto_lost : ¬ ∀ (v : JsonValue) (h : ValidationHandoff), parseValidationHandoff v.1 = .ok h →
    Binds Value.unitsLe .float (fun _ => sha) v h := by
  intro hall
  obtain ⟨h, hv⟩ := accepted.2
  have hkeyed := keyed_of_same hv lost.2 (hall lost h hv).lossless
  revert hkeyed
  decide

end PaPlatform.Validation
