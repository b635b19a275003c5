/-
  The feedback on an artifact (`artifacts/feedback.ts`): the journal of one binding and the
  batches that are appended to it.

  The journal is at all times the text of events that normalize to themselves, so that
  what was written is read back; a batch is taken as a whole or not at all.
-/
import PaPlatform.Artifacts.Render
import PaPlatform.Lib.JsonPretty
import PaPlatform.Lib.Utf8Strict

namespace PaPlatform.Artifacts

open Js Units Guard

def REVIEW_JOURNAL_BYTES : ℕ := 16777216

def REVIEW_JOURNAL_EVENTS : ℕ := 1024

/-! ## Events -/

inductive FeedbackTarget where
  | document
  | anchor (anchor : Units) (startLine endLine : ℕ)
  deriving DecidableEq

structure FeedbackEvent where
  eventId : Units
  sessionId : Units
  sourceRef : Units
  sourceSha256 : Units
  htmlSha256 : Units
  target : FeedbackTarget
  selectedText : Units
  feedbackText : Units
  sequence : ℕ
  deriving DecidableEq

structure ArtifactIdentity where
  sourceRef : Units
  sourceSha256 : Units
  htmlSha256 : Units

/-- The manifest gives the anchors; their lines are safe integers there. -/
structure FeedbackBinding where
  sessionId : Units
  identity : ArtifactIdentity
  anchors : List ArtifactAnchor
  safe : ∀ a ∈ anchors, a.startLine < 2 ^ 53 ∧ a.endLine < 2 ^ 53

/-- `deny` throws `policyRejected`; the others come from reading the journal. -/
inductive FeedbackError where
  | policyRejected
  | ownerConflict
  | notUtf8
  | notJson

def deny {α : Type} : Except FeedbackError α := .error .policyRejected

def number (n : ℕ) : Value := .num (.int n)

def FeedbackTarget.value : FeedbackTarget → Value
  | document => .obj [(units "type", .str (units "document"))]
  | anchor id startLine endLine => .obj [(units "type", .str (units "anchor")), (units "anchor", .str id),
      (units "startLine", number startLine), (units "endLine", number endLine)]

def feedbackSchema : Units := units "pa-artifact-feedback/v1"

/-- The fields in the order in which `normalized` makes them. -/
def FeedbackEvent.fields (e : FeedbackEvent) : List (Units × Value) :=
  [(units "schema", .str feedbackSchema), (units "eventId", .str e.eventId), (units "sessionId", .str e.sessionId),
    (units "sourceRef", .str e.sourceRef), (units "sourceSha256", .str e.sourceSha256),
    (units "htmlSha256", .str e.htmlSha256), (units "target", e.target.value),
    (units "selectedText", .str e.selectedText), (units "feedbackText", .str e.feedbackText),
    (units "sequence", number e.sequence)]

def FeedbackEvent.value (e : FeedbackEvent) : Value := .obj e.fields

/-- `JSON.stringify(value, null, 2)` and a line end. -/
def jsonBytes (v : Value) : Bytes := encodeUtf8 (v.pretty 0 ++ [0x0a])

def journalBytes (events : List FeedbackEvent) : Bytes := jsonBytes (.arr (events.map FeedbackEvent.value))

/-! ## Checks -/

def member (fields : List (Units × Value)) (k : String) : Option Value := fields.lookup (units k)

/-- `value === s`. -/
def isString (s : Units) : Option Value → Bool
  | some (.str t) => t == s
  | _ => false

/-- `value === n`. -/
def isNumber (n : ℕ) : Option Value → Bool
  | some (.num m) => m == .int n
  | _ => false

def record : Option Value → Except FeedbackError (List (Units × Value))
  | some (.obj fields) => .ok fields
  | _ => deny

def isAnchor (v : List (Units × Value)) (a : ArtifactAnchor) : Bool :=
  isString a.id (member v "anchor") && isNumber a.startLine (member v "startLine") &&
    isNumber a.endLine (member v "endLine")

def target (value : Option Value) (anchors : List ArtifactAnchor) : Except FeedbackError FeedbackTarget := do
  let v ← record value
  if isString (units "document") (member v "type") ∧ v.length = 1 then .ok .document
  else if isString (units "anchor") (member v "type") ∧ v.length = 4 then
    match anchors.find? (isAnchor v) with
    | some a => .ok (.anchor a.id a.startLine a.endLine)
    | none => deny
  else deny

/-- `/^[a-zA-Z0-9_-]{16,128}$/`. -/
def isEventId (s : Units) : Bool :=
  16 ≤ s.length && s.length ≤ 128 && s.all fun u => Units.isAlnum u || u == unit '_' || u == unit '-'

/-- A surrogate outside a pair. -/
def hasLone : Units → Bool
  | [] => false
  | [u] => isSurrogate u
  | u :: v :: rest => if Value.isHigh u && Value.isLow v then hasLone rest else isSurrogate u || hasLone (v :: rest)

/-- The bounds on the two texts. -/
def isText (selectedText feedbackText : Units) : Bool :=
  !Units.blank feedbackText && (encodeUtf8 feedbackText).length ≤ 65536 && (encodeUtf8 selectedText).length ≤ 16384 &&
    !hasLone feedbackText && !hasLone selectedText

def isBound (v : List (Units × Value)) (binding : FeedbackBinding) : Bool :=
  isString feedbackSchema (member v "schema") && isString binding.sessionId (member v "sessionId") &&
    isString binding.identity.sourceRef (member v "sourceRef") &&
    isString binding.identity.sourceSha256 (member v "sourceSha256") &&
    isString binding.identity.htmlSha256 (member v "htmlSha256")

/-- An event of the journal has its number as well. -/
def keyCount (journal : Bool) : ℕ := if journal then 10 else 9

/-- An event of a batch, or of the journal. -/
def normalized (value : Value) (binding : FeedbackBinding) (sequence : ℕ) (journal : Bool) :
    Except FeedbackError FeedbackEvent := do
  let v ← record (some value)
  match member v "eventId", member v "selectedText", member v "feedbackText" with
  | some (.str eventId), some (.str selectedText), some (.str feedbackText) =>
    if v.length = keyCount journal ∧ isBound v binding ∧ isEventId eventId ∧
        isText selectedText feedbackText ∧ (journal → isNumber sequence (member v "sequence")) then do
      let target ← target (member v "target") binding.anchors
      return ⟨eventId, binding.sessionId, binding.identity.sourceRef, binding.identity.sourceSha256,
        binding.identity.htmlSha256, target, selectedText, feedbackText, sequence⟩
    else deny
  | _, _, _ => deny

/-! ## The journal -/

/-- The events of a parsed journal, from `index` on. -/
def normalizedFrom (binding : FeedbackBinding) : ℕ → List Value → Except FeedbackError (List FeedbackEvent)
  | _, [] => .ok []
  | index, value :: values => do
    let event ← normalized value binding (index + 1) true
    let events ← normalizedFrom binding (index + 1) values
    return event :: events

/-- The journal is `none` when there is no file. -/
def readJournal (double : Units → Number) (binding : FeedbackBinding) :
    Option Bytes → Except FeedbackError (List FeedbackEvent)
  | none => .ok []
  | some bytes => do
    throwIf (REVIEW_JOURNAL_BYTES < bytes.length) .ownerConflict
    let text ← require (decodeFatal bytes) .notUtf8
    let parsed ← require (Value.parse double text) .notJson
    match parsed with
    | .arr values => do
      throwIf (REVIEW_JOURNAL_EVENTS < values.length) .policyRejected
      let events ← normalizedFrom binding 0 values
      throwIf (¬ (events.map (·.eventId)).Nodup ∨ journalBytes events ≠ bytes) .policyRejected
      return events
    | _ => deny

/-! ## Batches -/

/-- The loop: `known` is the map from ids to events. -/
structure Batch where
  known : List (Units × FeedbackEvent)
  events : List FeedbackEvent
  accepted : List FeedbackEvent

def keyed (e : FeedbackEvent) : Units × FeedbackEvent := (e.eventId, e)

def Batch.start (events : List FeedbackEvent) : Batch := ⟨events.map keyed, events, []⟩

/-- `typeof v["eventId"] === "string" ? known.get(v["eventId"]) : undefined`. -/
def Batch.prior (b : Batch) (v : List (Units × Value)) : Option FeedbackEvent :=
  match member v "eventId" with
  | some (.str id) => b.known.lookup id
  | _ => none

def acceptOne (binding : FeedbackBinding) (b : Batch) (raw : Value) : Except FeedbackError Batch := do
  let v ← record (some raw)
  match b.prior v with
  | some prior => do
    let event ← normalized raw binding prior.sequence false
    throwIf (jsonBytes prior.value ≠ jsonBytes event.value) .policyRejected
    return { b with accepted := b.accepted ++ [prior] }
  | none => do
    let event ← normalized raw binding (b.events.length + 1) false
    return ⟨b.known ++ [keyed event], b.events ++ [event], b.accepted ++ [event]⟩

def acceptAll (binding : FeedbackBinding) : Batch → List Value → Except FeedbackError Batch
  | b, [] => .ok b
  | b, raw :: rest => do
    let b ← acceptOne binding b raw
    acceptAll binding b rest

/-- What `appendFeedback` returns, and the bytes it publishes. -/
def acceptBatch (double : Units → Number) (binding : FeedbackBinding) (batch : Value) (journal : Option Bytes) :
    Except FeedbackError (List FeedbackEvent × Bytes) :=
  match batch with
  | .arr items => do
    throwIf (items.length = 0 ∨ REVIEW_JOURNAL_EVENTS < items.length) .policyRejected
    let events ← readJournal double binding journal
    let b ← acceptAll binding (.start events) items
    let bytes := journalBytes b.events
    throwIf (REVIEW_JOURNAL_EVENTS < b.events.length ∨ REVIEW_JOURNAL_BYTES < bytes.length) .policyRejected
    return (b.accepted, bytes)
  | _ => deny

/-- The result, and the journal after the call: a complete file is renamed over it. -/
def appendFeedback (double : Units → Number) (binding : FeedbackBinding) (batch : Value) (journal : Option Bytes) :
    Except FeedbackError (List FeedbackEvent) × Option Bytes :=
  match acceptBatch double binding batch journal with
  | .error e => (.error e, journal)
  | .ok (accepted, bytes) => (.ok accepted, some bytes)

/-- The journal after the batches, from no journal on. -/
def journalAfter (double : Units → Number) (binding : FeedbackBinding) (batches : List Value) : Option Bytes :=
  batches.foldl (fun journal batch => (appendFeedback double binding batch journal).2) none

variable {binding : FeedbackBinding} {e e' : FeedbackEvent} {v fields : List (Units × Value)} {raw : Value}
  {sequence : ℕ} {double : Units → Number} {events : List FeedbackEvent}

/-! ## What `normalized` checks -/

theorem isString_iff {s : Units} {o : Option Value} : isString s o = true ↔ o = some (.str s) := by
  unfold isString
  split
  · rw [beq_iff_eq, Option.some.injEq, Value.str.injEq]
  · rename_i h
    constructor
    · rintro ⟨⟩
    · rintro rfl
      exact absurd rfl (h s)

theorem isNumber_iff {n : ℕ} {o : Option Value} : isNumber n o = true ↔ o = some (number n) := by
  unfold isNumber number
  split
  · rw [beq_iff_eq, Option.some.injEq, Value.num.injEq]
  · rename_i h
    constructor
    · rintro ⟨⟩
    · rintro rfl
      exact absurd rfl (h _)

theorem record_eq_ok {o : Option Value} : record o = .ok v ↔ o = some (.obj v) := by
  unfold record
  split
  · rw [Except.ok.injEq, Option.some.injEq, Value.obj.injEq]
  · rename_i h
    constructor
    · rintro ⟨⟩
    · rintro rfl
      exact absurd rfl (h v)

/-- The value is this target. -/
def Targets (o : Option Value) : FeedbackTarget → Prop
  | .document => ∃ v, o = some (.obj v) ∧ v.length = 1 ∧ member v "type" = some (.str (units "document"))
  | .anchor id startLine endLine => ∃ v, o = some (.obj v) ∧ v.length = 4 ∧
      member v "type" = some (.str (units "anchor")) ∧ member v "anchor" = some (.str id) ∧
      member v "startLine" = some (number startLine) ∧ member v "endLine" = some (number endLine)

/-- The target is the document or one of the anchors. -/
def Allowed (anchors : List ArtifactAnchor) : FeedbackTarget → Prop
  | .document => True
  | .anchor id startLine endLine => ⟨id, startLine, endLine⟩ ∈ anchors

theorem isAnchor_iff {a : ArtifactAnchor} : isAnchor v a = true ↔ member v "anchor" = some (.str a.id) ∧
    member v "startLine" = some (number a.startLine) ∧ member v "endLine" = some (number a.endLine) := by
  unfold isAnchor
  rw [Bool.and_eq_true, Bool.and_eq_true, isString_iff, isNumber_iff, isNumber_iff, and_assoc]

theorem isAnchor_unique {a b : ArtifactAnchor} (ha : isAnchor v a = true) (hb : isAnchor v b = true) : a = b := by
  rw [isAnchor_iff] at ha hb
  rcases ha with ⟨hid, hstart, hend⟩
  rw [hb.1] at hid
  rw [hb.2.1] at hstart
  rw [hb.2.2] at hend
  cases a
  cases b
  simp only [number, Option.some.injEq, Value.str.injEq, Value.num.injEq, Number.int.injEq, Nat.cast_inj] at hid hstart hend
  rw [hid, hstart, hend]

theorem target_eq_ok {o : Option Value} {anchors : List ArtifactAnchor} {t : FeedbackTarget} :
    target o anchors = .ok t ↔ Targets o t ∧ Allowed anchors t := by
  have hne : (units "document") ≠ units "anchor" := by decide
  unfold target
  rw [bind_eq_ok]
  constructor
  · rintro ⟨v, hv, ht⟩
    rw [record_eq_ok] at hv
    by_cases hdoc : isString (units "document") (member v "type") = true ∧ v.length = 1
    · rw [if_pos hdoc, Except.ok.injEq] at ht
      rw [← ht]
      exact ⟨⟨v, hv, hdoc.2, isString_iff.1 hdoc.1⟩, trivial⟩
    · rw [if_neg hdoc] at ht
      by_cases hanchor : isString (units "anchor") (member v "type") = true ∧ v.length = 4
      · rw [if_pos hanchor] at ht
        cases hf : anchors.find? (isAnchor v) with
        | none =>
          rw [hf] at ht
          exact absurd ht (by simp [deny])
        | some a =>
          rw [hf, Except.ok.injEq] at ht
          rw [← ht]
          exact ⟨⟨v, hv, hanchor.2, isString_iff.1 hanchor.1, isAnchor_iff.1 (List.find?_some hf)⟩, List.mem_of_find?_eq_some hf⟩
      · rw [if_neg hanchor] at ht
        exact absurd ht (by simp [deny])
  · rintro ⟨ht, ha⟩
    cases t with
    | document =>
      rcases ht with ⟨v, hv, hlen, htype⟩
      exact ⟨v, record_eq_ok.2 hv, if_pos ⟨isString_iff.2 htype, hlen⟩⟩
    | anchor id startLine endLine =>
      rcases ht with ⟨v, hv, hlen, htype, hrest⟩
      refine ⟨v, record_eq_ok.2 hv, ?_⟩
      rw [if_neg (by rw [hlen]; omega), if_pos ⟨isString_iff.2 htype, hlen⟩]
      have hpos : isAnchor v ⟨id, startLine, endLine⟩ = true := isAnchor_iff.2 hrest
      cases hf : anchors.find? (isAnchor v) with
      | none => exact absurd hpos (List.find?_eq_none.1 hf _ ha)
      | some a => rw [← isAnchor_unique hpos (List.find?_some hf)]

/-- The fields hold the content of the event. -/
structure Submits (fields : List (Units × Value)) (e : FeedbackEvent) : Prop where
  schema : member fields "schema" = some (.str feedbackSchema)
  eventId : member fields "eventId" = some (.str e.eventId)
  sessionId : member fields "sessionId" = some (.str e.sessionId)
  sourceRef : member fields "sourceRef" = some (.str e.sourceRef)
  sourceSha256 : member fields "sourceSha256" = some (.str e.sourceSha256)
  htmlSha256 : member fields "htmlSha256" = some (.str e.htmlSha256)
  target : Targets (member fields "target") e.target
  selectedText : member fields "selectedText" = some (.str e.selectedText)
  feedbackText : member fields "feedbackText" = some (.str e.feedbackText)

/-- An event of this binding. -/
structure Valid (binding : FeedbackBinding) (e : FeedbackEvent) : Prop where
  eventId : isEventId e.eventId = true
  sessionId : e.sessionId = binding.sessionId
  sourceRef : e.sourceRef = binding.identity.sourceRef
  sourceSha256 : e.sourceSha256 = binding.identity.sourceSha256
  htmlSha256 : e.htmlSha256 = binding.identity.htmlSha256
  target : Allowed binding.anchors e.target
  text : isText e.selectedText e.feedbackText = true

theorem isBound_iff (he : Valid binding e) : isBound fields binding = true ↔
    member fields "schema" = some (.str feedbackSchema) ∧ member fields "sessionId" = some (.str e.sessionId) ∧
      member fields "sourceRef" = some (.str e.sourceRef) ∧ member fields "sourceSha256" = some (.str e.sourceSha256) ∧
      member fields "htmlSha256" = some (.str e.htmlSha256) := by
  unfold isBound
  simp only [Bool.and_eq_true, isString_iff, and_assoc, he.sessionId, he.sourceRef, he.sourceSha256, he.htmlSha256]

theorem normalized_ok {journal : Bool} (h : normalized raw binding sequence journal = .ok e) :
    ∃ fields, raw = .obj fields ∧ fields.length = keyCount journal ∧ Submits fields e ∧
      Valid binding e ∧ e.sequence = sequence := by
  unfold normalized at h
  rcases bind_eq_ok.1 h with ⟨fields, hraw, h⟩
  rw [record_eq_ok, Option.some.injEq] at hraw
  split at h
  · rename_i eventId selectedText feedbackText hid hselected htext
    split_ifs at h with hc
    · rcases bind_eq_ok.1 h with ⟨t, ht, he⟩
      rw [target_eq_ok] at ht
      rw [pure_eq_ok] at he
      rcases hc with ⟨hlen, hbound, hevent, htexts, -⟩
      have hvalid : Valid binding e := by
        rw [← he]
        exact ⟨hevent, rfl, rfl, rfl, rfl, ht.2, htexts⟩
      rcases (isBound_iff hvalid).1 hbound with ⟨h1, h2, h3, h4, h5⟩
      rw [← he] at hvalid h2 h3 h4 h5 ⊢
      exact ⟨fields, hraw, hlen, ⟨h1, hid, h2, h3, h4, h5, ht.1, hselected, htext⟩, hvalid, rfl⟩
    · exact absurd h (by simp [deny])
  · exact absurd h (by simp [deny])

theorem normalized_of {journal : Bool} (hs : Submits fields e) (hv : Valid binding e)
    (hlen : fields.length = keyCount journal)
    (hj : journal = true → isNumber sequence (member fields "sequence") = true) (he : e.sequence = sequence) :
    normalized (.obj fields) binding sequence journal = .ok e := by
  have hbound := (isBound_iff hv).2 ⟨hs.schema, hs.sessionId, hs.sourceRef, hs.sourceSha256, hs.htmlSha256⟩
  have ht := target_eq_ok.2 ⟨hs.target, hv.target⟩
  unfold normalized
  rw [record_eq_ok.2 rfl, ok_bind, hs.eventId, hs.selectedText, hs.feedbackText]
  dsimp only
  rw [if_pos ⟨hlen, hbound, hv.eventId, hv.text, hj⟩, ht, ok_bind, ← hv.sessionId, ← hv.sourceRef, ← hv.sourceSha256,
    ← hv.htmlSha256, ← he]
  rfl

/-! ## What is written is read back -/

theorem FeedbackTarget.targets (t : FeedbackTarget) : Targets (some t.value) t := by
  cases t with
  | document => exact ⟨_, rfl, rfl, rfl⟩
  | anchor id startLine endLine => exact ⟨_, rfl, rfl, rfl, rfl, rfl, rfl⟩

theorem FeedbackEvent.submits (e : FeedbackEvent) : Submits e.fields e where
  schema := rfl
  eventId := rfl
  sessionId := rfl
  sourceRef := rfl
  sourceSha256 := rfl
  htmlSha256 := rfl
  target := e.target.targets
  selectedText := rfl
  feedbackText := rfl

theorem normalized_value (hv : Valid binding e) : normalized e.value binding e.sequence true = .ok e :=
  normalized_of e.submits hv rfl (fun _ => isNumber_iff.2 rfl) rfl

theorem number_plain {n : ℕ} (h : n < 2 ^ 53) : (number n).Plain := h

theorem FeedbackTarget.plain {t : FeedbackTarget} (h : Allowed binding.anchors t) : t.value.Plain := by
  cases t with
  | document => exact ⟨by decide, by decide, trivial, trivial⟩
  | anchor id startLine endLine =>
    have hsafe := binding.safe _ h
    refine ⟨?_, by decide, trivial, by decide, trivial, by decide, number_plain hsafe.1, by decide,
      number_plain hsafe.2, trivial⟩
    simp only [List.map_cons, List.map_nil]
    decide

theorem FeedbackEvent.plain (hv : Valid binding e) (hs : e.sequence < 2 ^ 53) : e.value.Plain := by
  refine ⟨?_, by decide, trivial, by decide, trivial, by decide, trivial, by decide, trivial, by decide, trivial,
    by decide, trivial, by decide, FeedbackTarget.plain hv.target, by decide, trivial, by decide, trivial, by decide,
    number_plain hs, trivial⟩
  simp only [fields, List.map_cons, List.map_nil]
  decide

theorem FeedbackTarget.value_injective {t t' : FeedbackTarget} (h : t.value = t'.value) : t = t' := by
  cases t <;> cases t' <;> simp_all [value, number]

theorem FeedbackEvent.value_injective (h : e.value = e'.value) : e = e' := by
  cases e
  cases e'
  simp only [value, fields, number, Value.obj.injEq, List.cons.injEq, Prod.mk.injEq, Value.str.injEq, true_and, and_true,
    Value.num.injEq, Number.int.injEq, Nat.cast_inj] at h
  rcases h with ⟨h1, h2, h3, h4, h5, h6, h7, h8, h9⟩
  rw [h1, h2, h3, h4, h5, FeedbackTarget.value_injective h6, h7, h8, h9]

theorem wellFormed_line {w : Value} (hw : w.Plain) : WellFormed (w.pretty 0 ++ [0x0a]) :=
  (@Value.wellFormed_pretty .float w 0 (Value.plain_written w hw)).append
    (.unit (by decide) .nil)

theorem parse_line {w : Value} (hw : w.Plain) : Value.parse double (w.pretty 0 ++ [0x0a]) = some w :=
  Value.parse_pretty (Value.plain_written w hw) (Value.plain_ordered w hw) 0 (by simp [Value.isJsonSpace])

theorem jsonBytes_injective {w w' : Value} (hw : w.Plain) (hw' : w'.Plain) (h : jsonBytes w = jsonBytes w') : w = w' := by
  have htext := encodeUtf8_injective (wellFormed_line hw) (wellFormed_line hw') h
  have hparse := @parse_line .float _ hw
  rw [htext, parse_line hw'] at hparse
  exact (Option.some.inj hparse).symm

theorem decodeFatal_jsonBytes {items : List Value} (hw : (Value.arr items).Plain) :
    decodeFatal (jsonBytes (.arr items)) = some ((Value.arr items).pretty 0 ++ [0x0a]) := by
  unfold decodeFatal jsonBytes
  rw [decodeStrict_eq_some.2 ⟨wellFormed_line hw, rfl⟩, Option.map_some]
  cases items <;> rfl

/-- The events of a journal: valid, with distinct ids, numbered from 1 on. -/
structure Journal (binding : FeedbackBinding) (events : List FeedbackEvent) : Prop where
  valid : ∀ e ∈ events, Valid binding e
  distinct : (events.map (·.eventId)).Nodup
  numbered : events.map (·.sequence) = List.range' 1 events.length

theorem Journal.sequence_le (h : Journal binding events) (he : e ∈ events) : e.sequence ≤ events.length := by
  have hmem := List.mem_map_of_mem (f := (·.sequence)) he
  rw [h.numbered, List.mem_range'_1] at hmem
  omega

theorem Journal.nil : Journal binding [] := ⟨by simp, by simp, rfl⟩

theorem Journal.snoc (h : Journal binding events) (hv : Valid binding e) (hs : e.sequence = events.length + 1)
    (hid : ∀ x ∈ events, x.eventId ≠ e.eventId) : Journal binding (events ++ [e]) where
  valid := by
    rintro x hx
    rcases List.mem_append.1 hx with hx | hx
    · exact h.valid x hx
    · rw [List.mem_singleton.1 hx]
      exact hv
  distinct := by
    rw [List.map_append, List.nodup_append]
    refine ⟨h.distinct, List.nodup_singleton _, ?_⟩
    rintro _ ha _ hb
    rcases List.mem_map.1 ha with ⟨x, hx, rfl⟩
    rw [List.map_singleton, List.mem_singleton] at hb
    rw [hb]
    exact hid x hx
  numbered := by
    rw [List.map_append, h.numbered, List.map_singleton, hs, List.length_append, List.length_singleton,
      List.range'_1_concat, Nat.add_comm]

theorem Journal.plain (h : Journal binding events) (hlen : events.length < 2 ^ 53) :
    (Value.arr (events.map FeedbackEvent.value)).Plain := by
  have hall : ∀ e ∈ events, e.value.Plain :=
    fun e he => FeedbackEvent.plain (h.valid e he) ((h.sequence_le he).trans_lt hlen)
  clear h hlen
  induction events with
  | nil => trivial
  | cons e events ih =>
    rw [List.forall_mem_cons] at hall
    exact ⟨hall.1, ih hall.2⟩

theorem normalizedFrom_values {n : ℕ} (hv : ∀ e ∈ events, Valid binding e)
    (hs : events.map (·.sequence) = List.range' (n + 1) events.length) :
    normalizedFrom binding n (events.map FeedbackEvent.value) = .ok events := by
  induction events generalizing n with
  | nil => rfl
  | cons e events ih =>
    rw [List.forall_mem_cons] at hv
    rw [List.map_cons, List.length_cons, List.range'_succ, List.cons.injEq] at hs
    have hnorm := normalized_value hv.1
    rw [hs.1] at hnorm
    rw [List.map_cons, normalizedFrom, hnorm, ok_bind, ih hv.2 hs.2, ok_bind]
    rfl

/-- The journal file holds these events. -/
def Stored (binding : FeedbackBinding) (journal : Option Bytes) (events : List FeedbackEvent) : Prop :=
  (journal = none ∧ events = []) ∨ (journal = some (journalBytes events) ∧ Journal binding events ∧
    events.length ≤ REVIEW_JOURNAL_EVENTS ∧ (journalBytes events).length ≤ REVIEW_JOURNAL_BYTES)

variable {file : Option Bytes}

theorem Stored.journal (h : Stored binding file events) : Journal binding events := by
  rcases h with ⟨-, rfl⟩ | ⟨-, h, -⟩
  · exact Journal.nil
  · exact h

theorem Stored.length_le (h : Stored binding file events) : events.length ≤ REVIEW_JOURNAL_EVENTS := by
  rcases h with ⟨-, rfl⟩ | ⟨-, -, h, -⟩
  · exact Nat.zero_le _
  · exact h

/-- **What was written is read back.** -/
theorem readJournal_stored (h : Stored binding file events) : readJournal double binding file = .ok events := by
  rcases h with ⟨rfl, rfl⟩ | ⟨rfl, h, hlen, hbytes⟩
  · rfl
  · have hplain := h.plain (hlen.trans_lt (by decide))
    unfold readJournal
    dsimp only
    rw [throwIf_neg (by omega), ok_bind, journalBytes, decodeFatal_jsonBytes hplain, require_some, ok_bind,
      parse_line hplain, require_some, ok_bind]
    dsimp only
    rw [List.length_map, throwIf_neg (by omega), ok_bind, normalizedFrom_values h.valid h.numbered, ok_bind,
      throwIf_neg (by rintro (h' | h'); exacts [h' h.distinct, h' rfl]), ok_bind]
    rfl

/-! ## Batches -/

/-- The raw event and the recorded one have the same content. -/
def Accepts (binding : FeedbackBinding) (raw : Value) (e : FeedbackEvent) : Prop :=
  normalized raw binding e.sequence false = .ok e

theorem accepts_iff : Accepts binding raw e ↔
    ∃ fields, raw = .obj fields ∧ fields.length = 9 ∧ Submits fields e ∧ Valid binding e := by
  constructor
  · rintro h
    rcases normalized_ok h with ⟨fields, hraw, hlen, hs, hv, -⟩
    exact ⟨fields, hraw, hlen, hs, hv⟩
  · rintro ⟨fields, rfl, hlen, hs, hv⟩
    exact normalized_of hs hv hlen (by simp) rfl

/-- What the loop keeps; `before` are the events it started with. -/
structure Loop (binding : FeedbackBinding) (before : List FeedbackEvent) (b : Batch) : Prop where
  known : b.known = b.events.map keyed
  events : Journal binding b.events
  grows : before <+: b.events
  recorded : ∀ e ∈ b.accepted, e ∈ b.events

variable {before : List FeedbackEvent} {b b' : Batch} {items : List Value} {accepted : List FeedbackEvent}

theorem lookup_keyed {id : Units} (h : (events.map keyed).lookup id = some e) : e ∈ events ∧ e.eventId = id := by
  induction events with
  | nil => exact absurd h (by simp)
  | cons x events ih =>
    rw [List.map_cons, keyed, List.lookup_cons] at h
    split at h
    · rename_i hid
      rw [Option.some.injEq] at h
      rw [← h]
      exact ⟨List.mem_cons_self, (beq_iff_eq.1 hid).symm⟩
    · exact ⟨List.mem_cons_of_mem _ (ih h).1, (ih h).2⟩

theorem lookup_keyed_none {id : Units} (h : (events.map keyed).lookup id = none) : ∀ x ∈ events, x.eventId ≠ id := by
  induction events with
  | nil => simp
  | cons x events ih =>
    rw [List.map_cons, keyed, List.lookup_cons] at h
    split at h
    · exact absurd h (by simp)
    · rename_i hid
      rw [List.forall_mem_cons]
      exact ⟨fun hx => by simp [hx] at hid, ih h⟩

theorem eq_of_id (hd : (events.map (·.eventId)).Nodup) (he : e ∈ events) (he' : e' ∈ events)
    (h : e.eventId = e'.eventId) : e = e' := List.inj_on_of_nodup_map hd he he' h

theorem lookup_keyed_mem (hd : (events.map (·.eventId)).Nodup) (he : e ∈ events) :
    (events.map keyed).lookup e.eventId = some e := by
  cases h : (events.map keyed).lookup e.eventId with
  | none => exact absurd rfl (lookup_keyed_none h e he)
  | some x =>
    rcases lookup_keyed h with ⟨hx, hid⟩
    rw [eq_of_id hd hx he hid]

/-- A known event is the one that is submitted again. -/
theorem Loop.again (h : Loop binding before b) (hb : b.events.length < 2 ^ 53) {prior : FeedbackEvent}
    (hp : prior ∈ b.events) (hn : normalized raw binding prior.sequence false = .ok e)
    (heq : jsonBytes prior.value = jsonBytes e.value) : e = prior := by
  rcases normalized_ok hn with ⟨-, -, -, -, hv, hs⟩
  have hsequence := (h.events.sequence_le hp).trans_lt hb
  have hprior := FeedbackEvent.plain (h.events.valid prior hp) hsequence
  have hevent := FeedbackEvent.plain hv (hs ▸ hsequence)
  exact (FeedbackEvent.value_injective (jsonBytes_injective hprior hevent heq)).symm

theorem Loop.one (h : Loop binding before b) (hb : b.events.length < 2 ^ 53)
    (ha : acceptOne binding b raw = .ok b') : Loop binding before b' ∧ b.events <+: b'.events ∧
      b'.events.length ≤ b.events.length + 1 ∧
      ∃ e, b'.accepted = b.accepted ++ [e] ∧ Accepts binding raw e ∧ e ∈ b'.events := by
  unfold acceptOne at ha
  rcases bind_eq_ok.1 ha with ⟨v, hv, ha⟩
  rw [record_eq_ok, Option.some.injEq] at hv
  cases hp : b.prior v with
  | some prior =>
    rw [hp] at ha
    rcases bind_eq_ok.1 ha with ⟨e, he, ha⟩
    rcases bind_eq_ok.1 ha with ⟨_, hsame, ha⟩
    rw [throwIf_eq_ok, not_not] at hsame
    rw [pure_eq_ok] at ha
    have hmem : prior ∈ b.events := by
      unfold Batch.prior at hp
      split at hp
      · rw [h.known] at hp
        exact (lookup_keyed hp).1
      · exact absurd hp (by simp)
    have hprior := h.again hb hmem he hsame
    rw [hprior] at he
    rw [← ha]
    refine ⟨⟨h.known, h.events, h.grows, ?_⟩, List.prefix_rfl, Nat.le_succ _, prior, rfl, he, hmem⟩
    rintro x hx
    rcases List.mem_append.1 hx with hx | hx
    · exact h.recorded x hx
    · rw [List.mem_singleton.1 hx]
      exact hmem
  | none =>
    rw [hp] at ha
    rcases bind_eq_ok.1 ha with ⟨e, he, ha⟩
    rw [pure_eq_ok] at ha
    rcases normalized_ok he with ⟨fields, hraw, -, hs, hvalid, hsequence⟩
    rw [hraw, Value.obj.injEq] at hv
    have hnew : ∀ x ∈ b.events, x.eventId ≠ e.eventId := by
      unfold Batch.prior at hp
      rw [← hv, hs.eventId, h.known] at hp
      exact lookup_keyed_none hp
    have hgrows : b.events <+: b.events ++ [e] := List.prefix_append _ _
    rw [← ha]
    refine ⟨⟨?_, h.events.snoc hvalid hsequence hnew, h.grows.trans hgrows, ?_⟩, hgrows,
      by rw [List.length_append, List.length_singleton], e, rfl, ?_, List.mem_append_right _ (List.mem_singleton_self e)⟩
    · show b.known ++ [keyed e] = (b.events ++ [e]).map keyed
      rw [h.known, List.map_append, List.map_singleton]
    · rintro x hx
      rcases List.mem_append.1 hx with hx | hx
      · exact List.mem_append_left _ (h.recorded x hx)
      · exact List.mem_append_right _ hx
    · rw [← hsequence] at he
      exact he

theorem Loop.all (h : Loop binding before b) (hb : b.events.length + items.length < 2 ^ 53)
    (ha : acceptAll binding b items = .ok b') : Loop binding before b' ∧ b.events <+: b'.events ∧
      ∃ accepted, b'.accepted = b.accepted ++ accepted ∧
        List.Forall₂ (fun raw e => Accepts binding raw e ∧ e ∈ b'.events) items accepted := by
  induction items generalizing b with
  | nil =>
    rw [← Except.ok.inj ha]
    exact ⟨h, List.prefix_rfl, [], (List.append_nil _).symm, .nil⟩
  | cons raw items ih =>
    rw [List.length_cons] at hb
    rw [acceptAll] at ha
    rcases bind_eq_ok.1 ha with ⟨next, hnext, ha⟩
    rcases h.one (by omega) hnext with ⟨hloop, hgrows, hlen, e, haccepted, hacc, he⟩
    rcases ih hloop (by omega) ha with ⟨hlast, hgrows', accepted, haccepted', hall⟩
    refine ⟨hlast, hgrows.trans hgrows', e :: accepted, ?_, .cons ⟨hacc, hgrows'.subset he⟩ hall⟩
    rw [haccepted', haccepted, List.append_assoc]
    rfl

theorem Loop.start (h : Journal binding events) : Loop binding events (.start events) :=
  ⟨rfl, h, List.prefix_rfl, by simp [Batch.start]⟩

/-- Events that are known already change nothing. -/
theorem acceptAll_known (hd : (events.map (·.eventId)).Nodup) (done : List FeedbackEvent)
    (ha : List.Forall₂ (fun raw e => Accepts binding raw e ∧ e ∈ events) items accepted) :
    acceptAll binding ⟨events.map keyed, events, done⟩ items = .ok ⟨events.map keyed, events, done ++ accepted⟩ := by
  induction ha generalizing done with
  | nil => rw [acceptAll, List.append_nil]
  | cons hraw ha ih =>
    rename_i raw e items accepted
    have hnorm := hraw.1
    rcases accepts_iff.1 hraw.1 with ⟨fields, rfl, -, hs, -⟩
    have hprior : Batch.prior ⟨events.map keyed, events, done⟩ fields = some e := by
      unfold Batch.prior
      rw [hs.eventId]
      exact lookup_keyed_mem hd hraw.2
    have hone : acceptOne binding ⟨events.map keyed, events, done⟩ (.obj fields) =
        .ok ⟨events.map keyed, events, done ++ [e]⟩ := by
      unfold acceptOne
      rw [record_eq_ok.2 rfl, ok_bind, hprior]
      dsimp only
      rw [hnorm, ok_bind, throwIf_neg (fun h => h rfl), ok_bind]
      rfl
    rw [acceptAll, hone, ok_bind, ih (done ++ [e]), List.append_assoc]
    rfl

variable {batch : Value} {bytes : Bytes}

/-- An accepted batch. -/
theorem acceptBatch_ok (h : Stored binding file events)
    (ha : acceptBatch double binding batch file = .ok (accepted, bytes)) :
    ∃ items events', batch = .arr items ∧ items.length ≠ 0 ∧ items.length ≤ REVIEW_JOURNAL_EVENTS ∧
      Stored binding (some bytes) events' ∧ events <+: events' ∧
      List.Forall₂ (fun raw e => Accepts binding raw e ∧ e ∈ events') items accepted := by
  unfold acceptBatch at ha
  split at ha
  · rename_i items
    rcases bind_eq_ok.1 ha with ⟨_, hsize, ha⟩
    rcases bind_eq_ok.1 ha with ⟨found, hread, ha⟩
    rcases bind_eq_ok.1 ha with ⟨b, hall, ha⟩
    rcases bind_eq_ok.1 ha with ⟨_, hcap, ha⟩
    rw [throwIf_eq_ok, not_or, not_lt] at hsize hcap
    rw [readJournal_stored h, Except.ok.injEq] at hread
    rw [← hread] at hall
    rw [pure_eq_ok, Prod.mk.injEq] at ha
    have hbound : (Batch.start events).events.length + items.length < 2 ^ 53 := by
      have hlen : events.length ≤ REVIEW_JOURNAL_EVENTS := h.length_le
      show events.length + items.length < 2 ^ 53
      unfold REVIEW_JOURNAL_EVENTS at hlen hsize
      omega
    rcases (Loop.start h.journal).all hbound hall with ⟨hloop, hgrows, accepted', haccepted, hforall⟩
    rw [haccepted] at ha
    rw [← ha.1, ← ha.2]
    rw [not_lt] at hcap
    exact ⟨items, b.events, rfl, hsize.1, hsize.2, Or.inr ⟨rfl, hloop.events, hcap.1, hcap.2⟩, hgrows, hforall⟩
  · exact absurd ha (by simp [deny])

/-- A batch of known events. -/
theorem acceptBatch_known (h : Stored binding file events) (hne : items.length ≠ 0)
    (hlen : items.length ≤ REVIEW_JOURNAL_EVENTS)
    (ha : List.Forall₂ (fun raw e => Accepts binding raw e ∧ e ∈ events) items accepted) :
    appendFeedback double binding (.arr items) file = (.ok accepted, file) := by
  have hall : acceptAll binding (.start events) items = .ok ⟨events.map keyed, events, accepted⟩ :=
    acceptAll_known h.journal.distinct [] ha
  have hread : readJournal double binding file = .ok events := readJournal_stored h
  have hsome : file = some (journalBytes events) ∧ events.length ≤ REVIEW_JOURNAL_EVENTS ∧
      (journalBytes events).length ≤ REVIEW_JOURNAL_BYTES := by
    rcases h with ⟨-, rfl⟩ | ⟨h, -, hsize⟩
    · cases ha with
      | nil => exact absurd rfl hne
      | cons hraw ha => exact absurd hraw.2 List.not_mem_nil
    · exact ⟨h, hsize⟩
  have hbatch : acceptBatch double binding (.arr items) file = .ok (accepted, journalBytes events) := by
    unfold acceptBatch
    dsimp only
    rw [throwIf_neg (by omega), ok_bind, hread, ok_bind, hall, ok_bind]
    show (throwIf (REVIEW_JOURNAL_EVENTS < events.length ∨ REVIEW_JOURNAL_BYTES < (journalBytes events).length) _ >>= _) = _
    rw [throwIf_neg (by omega), ok_bind]
    rfl
  unfold appendFeedback
  rw [hbatch, hsome.1]

/-! ## Runs -/

theorem stored_step (double : Units → Number) (h : Stored binding file events) (batch : Value) :
    ∃ events', Stored binding (appendFeedback double binding batch file).2 events' ∧ events <+: events' := by
  unfold appendFeedback
  cases ha : acceptBatch double binding batch file with
  | error k => exact ⟨events, h, List.prefix_rfl⟩
  | ok p =>
    rcases acceptBatch_ok h ha with ⟨-, events', -, -, -, hstored, hgrows, -⟩
    exact ⟨events', hstored, hgrows⟩

theorem stored_run (double : Units → Number) (later : List Value) (h : Stored binding file events) : ∃ events', Stored binding
    (later.foldl (fun journal batch => (appendFeedback double binding batch journal).2) file) events' ∧
      events <+: events' := by
  induction later generalizing file events with
  | nil => exact ⟨events, h, List.prefix_rfl⟩
  | cons batch later ih =>
    rcases stored_step double h batch with ⟨next, hnext, hgrows⟩
    rcases ih hnext with ⟨events', hstored, hgrows'⟩
    exact ⟨events', hstored, hgrows.trans hgrows'⟩

theorem reachable (double : Units → Number) (binding : FeedbackBinding) (batches : List Value) :
    ∃ events, Stored binding (journalAfter double binding batches) events := by
  rcases @stored_run binding [] none double batches (Or.inl ⟨rfl, rfl⟩) with ⟨events, h, -⟩
  exact ⟨events, h⟩

/-- Batches that were accepted once are accepted again, with the same events. -/
theorem repeated (h : Stored binding file events)
    (ha : (appendFeedback double binding batch file).1 = .ok accepted) :
    ∃ items events', batch = .arr items ∧ Stored binding (appendFeedback double binding batch file).2 events' ∧
      events <+: events' ∧ List.Forall₂ (fun raw e => Accepts binding raw e ∧ e ∈ events') items accepted ∧
      items.length ≠ 0 ∧ items.length ≤ REVIEW_JOURNAL_EVENTS := by
  unfold appendFeedback at ha ⊢
  cases hb : acceptBatch double binding batch file with
  | error k =>
    rw [hb] at ha
    exact absurd ha (by simp)
  | ok p =>
    rcases p with ⟨found, bytes⟩
    rw [hb, Except.ok.injEq] at ha
    rcases acceptBatch_ok h hb with ⟨items, events', hbatch, hne, hlen, hstored, hgrows, hall⟩
    rw [ha] at hall
    exact ⟨items, events', hbatch, hstored, hgrows, hall, hne, hlen⟩

theorem journalAfter_append (before later : List Value) : journalAfter double binding (before ++ batch :: later) =
    later.foldl (fun journal batch => (appendFeedback double binding batch journal).2)
      (appendFeedback double binding batch (journalAfter double binding before)).2 := by
  unfold journalAfter
  rw [List.foldl_append, List.foldl_cons]

/-- The event is in the journal, and no other one has its id. -/
def Once (events : List FeedbackEvent) (e : FeedbackEvent) : Prop :=
  e ∈ events ∧ (events.map (·.eventId)).count e.eventId = 1

theorem once_of_mem (hd : (events.map (·.eventId)).Nodup) (he : e ∈ events) : Once events e :=
  ⟨he, List.count_eq_one_of_mem hd (List.mem_map_of_mem he)⟩

/-- The raw event reuses the id of the event with other content. -/
def Conflicts (raw : Value) (e : FeedbackEvent) : Prop :=
  ∃ fields, raw = .obj fields ∧ member fields "eventId" = some (.str e.eventId) ∧ ¬ Submits fields e

theorem not_conflicts (hd : (events.map (·.eventId)).Nodup) (he : e ∈ events) (he' : e' ∈ events)
    (ha : Accepts binding raw e) : ¬ Conflicts raw e' := by
  rintro ⟨fields, rfl, hid, hdiffers⟩
  rcases accepts_iff.1 ha with ⟨v, hv, -, hs, -⟩
  rw [Value.obj.injEq] at hv
  rw [← hv] at hs
  rw [hs.eventId, Option.some.injEq, Value.str.injEq] at hid
  exact hdiffers (eq_of_id hd he he' hid ▸ hs)

/-- **Feedback is recorded exactly once.**  The journal after any batches is read; the next batch
    is refused, or what it returns is recorded once, after the events that were there; a batch
    that was accepted before changes nothing, and one that reuses an id is refused. -/
theorem feedback_recorded_once (double : Units → Number) (binding : FeedbackBinding) (batches : List Value)
    (batch : Value) : ∃ events, readJournal double binding (journalAfter double binding batches) = .ok events ∧
      (events.map (·.eventId)).Nodup ∧ (∀ i e, events[i]? = some e → e.sequence = i + 1) ∧
      ((∃ k, appendFeedback double binding batch (journalAfter double binding batches) =
          (.error k, journalAfter double binding batches)) ∨
        ∃ items accepted events', batch = .arr items ∧
          (appendFeedback double binding batch (journalAfter double binding batches)).1 = .ok accepted ∧
          readJournal double binding (appendFeedback double binding batch (journalAfter double binding batches)).2 =
            .ok events' ∧ events <+: events' ∧
          List.Forall₂ (fun raw e => (∃ fields, raw = .obj fields ∧ Submits fields e) ∧ Once events' e) items accepted) ∧
      (∀ before later accepted, batches = before ++ batch :: later →
        (appendFeedback double binding batch (journalAfter double binding before)).1 = .ok accepted →
        appendFeedback double binding batch (journalAfter double binding batches) =
          (.ok accepted, journalAfter double binding batches)) ∧
      ∀ items, batch = .arr items → ((∃ raw ∈ items, ∃ e ∈ events, Conflicts raw e) ∨
          ∃ raw ∈ items, ∃ raw' ∈ items, ∀ e, Accepts binding raw e → Conflicts raw' e) →
        ∃ k, appendFeedback double binding batch (journalAfter double binding batches) =
          (.error k, journalAfter double binding batches) := by
  rcases reachable double binding batches with ⟨events, h⟩
  have hcall : (∃ k, appendFeedback double binding batch (journalAfter double binding batches) =
      (.error k, journalAfter double binding batches)) ∨
        ∃ accepted, (appendFeedback double binding batch (journalAfter double binding batches)).1 = .ok accepted := by
    unfold appendFeedback
    cases acceptBatch double binding batch (journalAfter double binding batches) with
    | error k => exact Or.inl ⟨k, rfl⟩
    | ok p => exact Or.inr ⟨p.1, rfl⟩
  refine ⟨events, readJournal_stored h, h.journal.distinct, ?_, ?_, ?_, ?_⟩
  · rintro i e he
    have hsequence := congrArg (·[i]?) h.journal.numbered
    rw [List.getElem?_map, he, Option.map_some] at hsequence
    have hi : i < events.length := (List.getElem?_eq_some_iff.1 he).1
    rw [List.getElem?_range' hi, Option.some.injEq] at hsequence
    omega
  · rcases hcall with hk | ⟨accepted, ha⟩
    · exact Or.inl hk
    · rcases repeated h ha with ⟨items, events', hbatch, hstored, hgrows, hall, -⟩
      refine Or.inr ⟨items, accepted, events', hbatch, ha, readJournal_stored hstored, hgrows, hall.imp ?_⟩
      rintro raw e ⟨hacc, he⟩
      rcases accepts_iff.1 hacc with ⟨fields, hraw, -, hs, -⟩
      exact ⟨⟨fields, hraw, hs⟩, once_of_mem hstored.journal.distinct he⟩
  · rintro earlier later accepted rfl ha
    rcases reachable double binding earlier with ⟨first, hfirst⟩
    rcases repeated hfirst ha with ⟨items, events', rfl, hstored, -, hall, hne, hlen⟩
    rcases stored_run double later hstored with ⟨last, hlast, hgrows⟩
    rw [journalAfter_append]
    exact acceptBatch_known hlast hne hlen (hall.imp fun raw e hr => ⟨hr.1, hgrows.subset hr.2⟩)
  · rintro items rfl hconflict
    rcases hcall with hk | ⟨accepted, ha⟩
    · exact hk
    · exfalso
      rcases repeated h ha with ⟨items', events', hbatch, hstored, hgrows, hall, -⟩
      rw [Value.arr.injEq] at hbatch
      rw [← hbatch] at hall
      have hdistinct := hstored.journal.distinct
      have hrecorded : ∀ raw ∈ items, ∃ e ∈ events', Accepts binding raw e := by
        rintro raw hraw
        rcases (List.forall₂_iff_get.1 hall) with ⟨hlen, hget⟩
        rcases List.mem_iff_get.1 hraw with ⟨i, rfl⟩
        have hi := hget i i.2 (hlen ▸ i.2)
        exact ⟨_, hi.2, hi.1⟩
      rcases hconflict with ⟨raw, hraw, e, he, hc⟩ | ⟨raw, hraw, raw', hraw', hc⟩
      · rcases hrecorded raw hraw with ⟨x, hx, hacc⟩
        exact not_conflicts hdistinct hx (hgrows.subset he) hacc hc
      · rcases hrecorded raw hraw with ⟨e, he, hacc⟩
        rcases hrecorded raw' hraw' with ⟨x, hx, hacc'⟩
        exact not_conflicts hdistinct hx he hacc' (hc e hacc)

end PaPlatform.Artifacts
