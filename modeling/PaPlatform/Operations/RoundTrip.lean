/-
  A result is parsed from its text, and has the same text again.
-/
import PaPlatform.Operations.Rereads

namespace PaPlatform.Operations

open Js Js.Units Guard

open Value (Sound IsFinite)

open Validation.Review (parseReviewEvidenceJson)

variable {double : Units → Number} {platform : Platform} {n : ℕ}

theorem row_eq_ok {value : Option Value} {keys : List String} {r : List (Units × Value)} (h : row value keys = .ok r) :
    value = some (.obj r) := by
  unfold row at h
  split at h
  · simp only [bind_eq_ok, throwIf_eq_ok, exists_const, pure_eq_ok] at h
    rw [h.2]
  · cases h

/-- A property of a sound object. -/
theorem sound_own {r : List (Units × Value)} (hr : (Value.obj r).Sound double (n + 1)) {key : String} {x : Value}
    (h : own r key = some x) : x.Sound double n := by
  obtain ⟨l₁, l₂, hl, -⟩ := List.lookup_eq_some_iff.1 h
  refine ((Value.sound_obj.1 hr).2 (units key, x) ?_).2
  rw [hl]
  exact List.mem_append_right _ List.mem_cons_self

theorem sound_text {s : String} (h : (units s).all (· < 0x80) = true) : (Value.str (units s)).Sound double (n + 1) :=
  Value.sound_str.2 (wellFormed_of_ascii (by simpa using h))

/-- **A payload** is kept as it is. -/
theorem payload_again {value : Option Value} {p : OperationPayload} (h : payload value = .ok p)
    (hs : ∀ v, value = some v → v.Sound double 64) :
    payload (some p.value) = .ok p ∧ p.value.Sound double 64 := by
  have hevidence := evidence_rereads double 61
  simp only [payload, bind_eq_ok] at h
  obtain ⟨r, hr, h⟩ := h
  have hr := hs _ (row_eq_ok hr)
  split_ifs at h
  · simp only [bind_eq_ok, require_eq_ok, pure_eq_ok] at h
    obtain ⟨x, hx, w, hw, rfl⟩ := h
    have hx := sound_own hr hx
    obtain ⟨rfl, hsmall⟩ := (snapshotPlain_eq (hx.mono (by decide))).1 hw
    constructor
    · simp only [payload, bind_eq_ok]
      refine ⟨_, rfl, (if_pos rfl).trans ?_⟩
      simp only [bind_eq_ok, require_eq_ok, pure_eq_ok]
      exact ⟨w, rfl, w, hw, rfl⟩
    · refine sound_record rfl ?_
      simp only [List.forall_mem_cons, List.not_mem_nil, false_imp_iff, implies_true, and_true]
      exact ⟨sound_text rfl, hx⟩
  · simp only [bind_eq_ok, pure_eq_ok] at h
    obtain ⟨e, he, rfl⟩ := h
    constructor
    · simp only [payload, bind_eq_ok]
      refine ⟨_, rfl, (if_neg (Bool.eq_false_iff.1 rfl)).trans ((if_pos rfl).trans ?_)⟩
      simp only [bind_eq_ok, pure_eq_ok]
      exact ⟨e, hevidence.again _ _ he, rfl⟩
    · refine sound_record rfl ?_
      simp only [List.forall_mem_cons, List.not_mem_nil, false_imp_iff, implies_true, and_true]
      exact ⟨sound_text rfl, hevidence.sound _ _ he⟩
  · cases h

theorem payloads_again {value : Option Value} {p : Option OperationPayload} (h : nullable payload value = .ok p)
    (hs : ∀ v, value = some v → v.Sound double 64) :
    nullable payload (some (orNull (p.map (·.value)))) = .ok p ∧ (orNull (p.map (·.value))).Sound double 64 := by
  cases p with
  | none => exact ⟨rfl, Value.sound_null⟩
  | some p =>
    have hp : payload value = .ok p := by
      unfold nullable at h
      split at h
      · cases h
      · rw [map_eq_ok] at h
        obtain ⟨q, hq, he⟩ := h
        rwa [← Option.some.inj he]
    obtain ⟨hagain, hsound⟩ := payload_again hp hs
    refine ⟨?_, hsound⟩
    have hobj : ∃ fs, p.value = .obj fs := by cases p <;> exact ⟨_, rfl⟩
    obtain ⟨fs, hfs⟩ := hobj
    show nullable payload (some p.value) = _
    rw [hfs] at hagain ⊢
    exact (map_eq_ok).2 ⟨p, hagain, rfl⟩

/-- **A validated result is valid.** -/
theorem validate_again {v : Value} {r : OperationResult} (hv : v.Sound double 65) (h : validate platform v = .ok r) :
    validate platform r.value = .ok r ∧ r.value.Sound double 65 := by
  have hline := fun max => @line_rereads double 63 max
  have hscopeLine := fun max => @line_rereads double 62 max
  have hdigest := @digest_rereads double 62
  have houtput := output_rereads double 61
  have hprocess := nullable_rereads (process_rereads double 62) fun _ => by simp [OperationProcess.value]
  have hfindings := list_rereads (finding_rereads double 61)
  have hevidence := list_rereads (evidence_rereads double 61)
  have hbool := @bool_rereads double 63
  have hcompletion : Rereads double 64 (choice OperationCompletion.all OperationCompletion.name)
      (named OperationCompletion.name) := choice_rereads fun a => by cases a <;> rfl
  have houtcome : Rereads double 64 (choice OperationOutcome.all OperationOutcome.name) (named OperationOutcome.name) :=
    choice_rereads fun a => by cases a <;> rfl
  have henforcement : Rereads double 64 (choice Enforcement.all Enforcement.name) (named Enforcement.name) :=
    choice_rereads fun a => by cases a <;> rfl
  have hcapability : Rereads double 64 (choice Capability.all Capability.name) (named Capability.name) :=
    choice_rereads fun a => by cases a <;> rfl
  simp only [validate, scope, bind_eq_ok, throwIf_eq_ok, exists_const, pure_eq_ok] at h ⊢
  obtain ⟨fields, hfields, -, id, hid, kind, hkind, hids, date, hdate, hiso, s, hs, out, hout, p, hp, source, hsource,
    sha, hsha, description, hdescription, completion, hc, outcome, ho, enforcement, he, capability, hcap, required, hreq,
    findings, hf, process, hpr, evidence, hev, hinv⟩ := h
  obtain ⟨_, hinv, _, hsens, rfl⟩ := hinv
  obtain rfl := Option.some.inj (row_eq_ok hfields)
  obtain ⟨hpagain, hpsound⟩ := payloads_again hp fun x hx => sound_own hv hx
  have hscope : (Value.obj [(units "source", .str source), (units "inputSha256", orNull (sha.map .str)),
      (units "description", .str description)]).Sound double 64 := by
    refine sound_record rfl ?_
    simp only [List.forall_mem_cons, List.not_mem_nil, false_imp_iff, implies_true, and_true]
    exact ⟨(hscopeLine _).sound _ _ hsource, hdigest.sound _ _ hsha, (hscopeLine _).sound _ _ hdescription⟩
  have hversion : (Value.str (units operationResultVersion)).Sound double 64 := sound_text rfl
  constructor
  · exact ⟨_, rfl, ne_false_of_eq_true rfl, id, (hline 256).again _ _ hid, kind, (hline 256).again _ _ hkind, hids, date,
      (hline 32).again _ _ hdate, hiso, _, rfl, out, houtput.again _ _ hout, p, hpagain, source,
      (hscopeLine 2048).again _ _ hsource, sha, hdigest.again _ _ hsha, description,
      (hscopeLine 4096).again _ _ hdescription, completion, hcompletion.again _ _ hc, outcome, houtcome.again _ _ ho,
      enforcement, henforcement.again _ _ he, capability, hcapability.again _ _ hcap, required, hbool.again _ _ hreq,
      findings, hfindings.again _ _ hf, process, hprocess.again _ _ hpr, evidence, hevidence.again _ _ hev, _, hinv, _,
      hsens, rfl⟩
  · refine sound_record rfl ?_
    simp only [List.forall_mem_cons, List.not_mem_nil, false_imp_iff, implies_true, and_true]
    exact ⟨hversion, (hline 256).sound _ _ hid, (hline 256).sound _ _ hkind, (hline 32).sound _ _ hdate, hscope,
      hcompletion.sound _ _ hc, houtcome.sound _ _ ho, henforcement.sound _ _ he, hcapability.sound _ _ hcap,
      hbool.sound _ _ hreq, hfindings.sound _ _ hf, hprocess.sound _ _ hpr, hevidence.sound _ _ hev,
      houtput.sound _ _ hout, hpsound⟩

/-- **A valid result** of sound values is parsed from its text. -/
theorem parse_value {r : OperationResult} (hs : r.value.Sound platform.double 65) (hv : validate platform r.value = .ok r)
    (hlen : byteLength r.value.stringify ≤ maxOperationResultBytes) :
    parseOperationResult platform (.string r.value.stringify) = .ok r := by
  obtain ⟨hw, ho, hp, hh⟩ := hs
  have hwell := wellFormed_stringify r.value hw
  have hread : parseReviewEvidenceJson platform.double (encodeUtf8 r.value.stringify) (units "operation-result") =
      .ok r.value := by
    refine (Validation.Review.parseReviewEvidenceJson_iff ..).2 ⟨?_, ?_, r.value.stringify,
      decodeStrict_eq_some.2 ⟨hwell, rfl⟩, Value.parse_written hw ho, ⟨_, rfl⟩, r.value, Value.members_stringify hw,
      Value.ordered_distinct _ ho, hp, Nat.le_of_lt_succ hh⟩
    · exact hlen.trans (by decide)
    · obtain ⟨t, ht⟩ : ∃ t, r.value.stringify = 0x7b :: t := ⟨_, rfl⟩
      rw [ht, encodeUtf8_unit (by decide)]
      rfl
  have hpaired : (Validation.Review.Input.string r.value.stringify).unpaired = false :=
    Validation.Review.unpaired_eq_false.2 hwell
  unfold parseOperationResult
  simp only [bind_eq_ok, throwIf_eq_ok, exists_const, hpaired, Validation.Review.Input.toBytes, hread]
  exact ⟨by simp, ⟨⟩, throwIf_neg (not_lt.2 hlen), hv⟩

/-- **Results round trip.**  The text of a result is parsed, and what is parsed has this text,
    whatever the prototypes of its objects are. -/
theorem serialize_round {ν ρ : Type} {number : ν → Number} {heap : ρ → JsObject ν ρ}
    (hn : ∀ n, isFinite (number n) = true → IsFinite platform.double (number n)) {result : JsValue ν ρ} {encoded : Units}
    (h : serializeOperationResult platform number heap result = .ok encoded) :
    ∃ r, parseOperationResult platform (.string encoded) = .ok r ∧
      ∀ prototype : Value → Prototype, (∀ v, prototype v ≠ .other) →
        serializeOperationResult platform id (plainWith prototype) (js r.value) = .ok encoded := by
  simp only [serializeOperationResult, snapshot, bind_eq_ok, map_eq_ok, Prod.exists, throwIf_eq_ok, exists_const,
    pure_eq_ok, not_lt] at h
  obtain ⟨v, ⟨v, left, hvisit, rfl⟩, r, hr, hlen, rfl⟩ := h
  obtain ⟨hsound, -, -⟩ := visit_sound hn 65 _ _ _ _ hvisit
  obtain ⟨hagain, hvalue⟩ := validate_again hsound hr
  refine ⟨r, parse_value hvalue hagain hlen, fun prototype hp => ?_⟩
  -- The text bounds what the value costs, so the second snapshot is within its limits.
  have hcost : r.value.cost ≤ 65536 := (Value.cost_le_bytes _ hvalue.1).trans hlen
  have hplain : snapshotPlain r.value = .ok r.value :=
    (snapshotPlain_eq hvalue).2 ⟨rfl, small_of_cost _ hcost, by omega⟩
  have hsnapshot : snapshot id (plainWith prototype) (js r.value) = .ok r.value := by
    rw [snapshot, visit_plainWith hp]
    exact hplain
  unfold serializeOperationResult
  simp only [bind_eq_ok, throwIf_eq_ok, exists_const, pure_eq_ok, not_lt]
  exact ⟨r.value, hsnapshot, r, hagain, hlen, rfl⟩

/-! ## A sample -/

namespace RoundTripSample

def record (fields : List (String × JsValue (Fin 10) ℕ)) : JsObject (Fin 10) ℕ where
  isArray := false
  prototype := .object
  hasSymbols := false
  length _ := 0
  descriptors := fields.map fun f => (units f.1, .data f.2 true)

def array (items : List (JsValue (Fin 10) ℕ)) : JsObject (Fin 10) ℕ where
  isArray := true
  prototype := .other
  hasSymbols := false
  length _ := items.length
  descriptors := (items.zipIdx.map fun x => (decimal x.2, .data x.1 true)) ++
    [(units "length", .data (.num (Fin.ofNat 10 items.length)) false)]

def word (s : String) : JsValue (Fin 10) ℕ := .str (units s)

def sha256 : Units := List.replicate 64 (unit 'a')

/-- A passed check, whose payload has the keys `__proto__` and `7`. -/
def heap : ℕ → JsObject (Fin 10) ℕ
  | 0 => record [("payload", .object 1), ("schemaVersion", word "pa-operation-result/v1"), ("operationId", word "op/1"),
      ("kind", word "test"), ("observedAt", word "2026-01-01T00:00:00.000Z"), ("scope", .object 2),
      ("completion", word "completed"), ("outcome", word "passed"), ("enforcement", word "allowed"),
      ("capability", word "available"), ("required", .bool true), ("findings", .object 3), ("process", .null),
      ("evidence", .object 4), ("output", .object 6)]
  | 1 => record [("kind", word "inline"), ("value", .object 7)]
  | 2 => record [("source", word "src"), ("inputSha256", .null), ("description", word "all tests")]
  | 3 => array []
  | 4 => array [.object 5]
  | 5 => record [("owner", word "ci"), ("ref", word "log"), ("version", .null), ("sha256", .str sha256),
      ("freshness", word "current"), ("scope", word "src")]
  | 6 => record [("text", word "ok\n"), ("truncated", .bool false), ("fullEvidenceRef", .null)]
  | _ => record [("__proto__", .num 7), ("b", .null), ("7", .object 3)]

def number (n : Fin 10) : Number := .int n.val

def given : Platform where
  double := .float
  isIsoDate s := s == units "2026-01-01T00:00:00.000Z"
  patterns := some fun _ => false

def result : OperationResult where
  operationId := units "op/1"
  kind := units "test"
  observedAt := units "2026-01-01T00:00:00.000Z"
  scope := ⟨units "src", none, units "all tests"⟩
  completion := .completed
  outcome := .passed
  enforcement := .allowed
  capability := .available
  required := true
  findings := []
  process := none
  evidence := [⟨units "ci", units "log", none, some sha256, .current, units "src"⟩]
  output := ⟨units "ok\n", false, none⟩
  payload := some (.inline (.obj [(units "7", .arr []), (units "__proto__", .num (.int 7)), (units "b", .null)]))

theorem number_finite (n : Fin 10) : IsFinite given.double (number n) := by
  show ((n.val : ℤ)).natAbs < 2 ^ 53
  omega

set_option maxRecDepth 8000 in
theorem serialized : serializeOperationResult given number heap (.object 0) = .ok result.value.stringify := by
  rfl

end RoundTripSample

open RoundTripSample in
theorem serialize_round_proto : ∃ r, parseOperationResult given (.string result.value.stringify) = .ok r ∧
    ∀ prototype : Value → Prototype, (∀ v, prototype v ≠ .other) →
      serializeOperationResult given id (plainWith prototype) (js r.value) = .ok result.value.stringify :=
  serialize_round (fun n _ => number_finite n) serialized

end PaPlatform.Operations
