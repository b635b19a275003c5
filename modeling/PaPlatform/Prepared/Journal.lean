/-
  The journal of a prepared workflow, and `#load`
  (`deploy/prepared-workflow.ts`).

  `Journal d c intent es r` says that the records of the contract `c` in the
  directory `d` are its intent and the events `es`, numbered from 1, and that
  they replay to `r`.  `load` finds exactly that, as long as the directory does
  not hold too many names.
-/
import PaPlatform.Prepared.Events
import PaPlatform.Prepared.Directory
import Mathlib.Data.List.Sort

namespace PaPlatform.Prepared

open Js Guard

/-! ## Records -/

structure WorkflowIntent where
  contract : PreparationContract
  createdAt : Timestamp

def WorkflowIntent.keys : List String := ["schemaVersion", "operationId", "contract", "createdAt"]

@[simp] theorem WorkflowIntent.exactObject_keys {values : List Json} (h : values.length = 4) :
    Json.exactObject keys (.obj (keys.zip values)) = some values :=
  Json.exactObject_zip (by decide) h.symm

/-- A record that the next one refers to. -/
structure Link where
  record : Json
  time : Timestamp

section
variable (sha256 : Bytes → Sha256)

def WorkflowIntent.toJson (i : WorkflowIntent) : Json :=
  .obj (keys.zip [.str "prepared-intent/v1", .ofChecked (preparationIdentity sha256 i.contract),
    i.contract.toJson, .ofChecked i.createdAt])

/-- `parseIntent`. -/
def parseIntent (value : Json) : Option WorkflowIntent := do
  let [schemaVersion, operationId, contract, createdAt] ←
    Json.exactObject WorkflowIntent.keys value | none
  let contract ← parsePreparationContract contract
  Json.literal "prepared-intent/v1" schemaVersion
  Json.literal (preparationIdentity sha256 contract).1 operationId
  return ⟨contract, ← workflowTimestamp createdAt⟩

theorem parseIntent_toJson (i : WorkflowIntent) : parseIntent sha256 (i.toJson sha256) = some i := by
  have hid : Json.literal (preparationIdentity sha256 i.contract).1
      (.ofChecked (preparationIdentity sha256 i.contract)) = some () := Json.literal_str _
  simp only [parseIntent, WorkflowIntent.toJson, WorkflowIntent.exactObject_keys, List.length_cons,
    List.length_nil, Option.bind_eq_bind, Option.bind_some, parsePreparationContract_toJson, hid,
    Json.literal_str, workflowTimestamp_ofChecked, Option.pure_def]

def intentName (c : PreparationContract) : RecordName := ⟨preparationIdentity sha256 c, .intent⟩

def eventName (c : PreparationContract) (sequence : ℕ) : RecordName :=
  ⟨preparationIdentity sha256 c, .transaction sequence⟩

def WorkflowIntent.link (i : WorkflowIntent) : Link := ⟨i.toJson sha256, i.createdAt⟩

def PreparationEvent.link (e : PreparationEvent) : Link := ⟨e.toJson sha256, e.recordedAt⟩

/-- `events.at(-1) ?? intent`. -/
def lastLink (previous : Link) (es : List PreparationEvent) : Link :=
  es.getLast?.elim previous (PreparationEvent.link sha256)

/-! ## Replay -/

/-- An event that comes after `previous`, as number `index + 1`. -/
structure Follows (c : PreparationContract) (previous : Link) (index : ℕ) (e : PreparationEvent) :
    Prop where
  sequence : e.sequence = index + 1
  operationId : e.operationId = preparationIdentity sha256 c
  previousSha256 : e.previousSha256 = workflowDigest sha256 previous.record.stringify
  recordedAt : e.recordedAt.before previous.time = false

theorem follows_iff {c : PreparationContract} {previous : Link} {index : ℕ} {e : PreparationEvent} :
    Follows sha256 c previous index e ↔ e.sequence = index + 1 ∧
      e.operationId = preparationIdentity sha256 c ∧
      e.previousSha256 = workflowDigest sha256 previous.record.stringify ∧
      e.recordedAt.before previous.time = false :=
  ⟨fun h => ⟨h.1, h.2, h.3, h.4⟩, fun h => ⟨h.1, h.2.1, h.2.2.1, h.2.2.2⟩⟩

instance (c : PreparationContract) (previous : Link) (index : ℕ) (e : PreparationEvent) :
    Decidable (Follows sha256 c previous index e) :=
  decidable_of_iff' _ (follows_iff sha256)

/-- The loop of `#load`. -/
def replayEvents (c : PreparationContract) :
    Link → ℕ → PreparationReplay → List PreparationEvent → Except WorkflowFailure PreparationReplay
  | _, _, r, [] => .ok r
  | previous, index, r, e :: es => do
    throwIf (¬ Follows sha256 c previous index e) .workflow
    let r ← applyPreparationEvent c r e
    replayEvents c (e.link sha256) (index + 1) r es

/-! ## Loading -/

/-- The limit on the names of a directory. -/
def maxNames : ℕ := 4096

/-- What `#load` returns. -/
structure Loaded where
  intent : Option WorkflowIntent
  events : List PreparationEvent
  replay : PreparationReplay

variable (d : Directory) (c : PreparationContract)

def operationNames : List RecordName := d.names.filter (·.id = preparationIdentity sha256 c)

def isTransaction (name : RecordName) : Bool :=
  match name.kind with
  | .transaction _ => true
  | _ => false

def isEntry (name : RecordName) : Bool :=
  match name.kind with
  | .entry _ => true
  | _ => false

def eventNames : List RecordName := (operationNames sha256 d c).filter fun name => isTransaction name

def readEvent (name : RecordName) : Except WorkflowFailure PreparationEvent := do
  let value ← require (d.read name) .workflow
  let event ← require (parsePreparationEvent sha256 value) .workflow
  throwIf (name ≠ eventName sha256 c event.sequence) .workflow
  return event

/-- `events.sort((a, b) => a.sequence - b.sequence)`. -/
def sortEvents (es : List PreparationEvent) : List PreparationEvent :=
  es.insertionSort fun a b => a.sequence ≤ b.sequence

/-- `#load`. -/
def load : Except WorkflowFailure Loaded := do
  throwIf (maxNames < d.count) .workflow
  throwIf (∃ name ∈ operationNames sha256 d c, isEntry name) .workflow
  if intentName sha256 c ∉ operationNames sha256 d c then
    throwIf (eventNames sha256 d c ≠ []) .workflow
    return ⟨none, [], initialReplay false⟩
  else
    let value ← require (d.read (intentName sha256 c)) .workflow
    let intent ← require (parseIntent sha256 value) .workflow
    throwIf (intent.contract ≠ c) .workflow
    let read ← (eventNames sha256 d c).mapM (readEvent sha256 d c)
    let events := sortEvents read
    throwIf (¬ ∀ e ∈ events, eventName sha256 c e.sequence ∈ eventNames sha256 d c) .workflow
    let replay ← replayEvents sha256 c (intent.link sha256) 0 (initialReplay true) events
    return ⟨some intent, events, replay⟩

/-- The records of `c` in `d` are `intent` and the events `es`, which replay to
    `r`. -/
structure Journal (intent : WorkflowIntent) (es : List PreparationEvent) (r : PreparationReplay) :
    Prop where
  entry : ∀ name ∈ operationNames sha256 d c, isEntry name = false
  intent_read : (d.read (intentName sha256 c)).bind (parseIntent sha256) = some intent
  contract_eq : intent.contract = c
  names : (eventNames sha256 d c).Perm (es.map fun e => eventName sha256 c e.sequence)
  reads : ∀ e ∈ es, (d.read (eventName sha256 c e.sequence)).bind (parsePreparationEvent sha256) =
    some e
  replay : replayEvents sha256 c (intent.link sha256) 0 (initialReplay true) es = .ok r

end

variable {sha256 : Bytes → Sha256} {d : Directory} {c : PreparationContract} {intent : WorkflowIntent}
  {es : List PreparationEvent} {e : PreparationEvent} {r r' r₀ : PreparationReplay} {link : Link}
  {index : ℕ}

/-! ## The events of a replay -/

theorem replayEvents_append {es' : List PreparationEvent} :
    replayEvents sha256 c link index r (es ++ es') =
      (replayEvents sha256 c link index r es >>= fun r' =>
        replayEvents sha256 c (lastLink sha256 link es) (index + es.length) r' es') := by
  induction es generalizing link index r with
  | nil => rfl
  | cons e es ih =>
    have hlast : lastLink sha256 link (e :: es) = lastLink sha256 (e.link sha256) es := by
      unfold lastLink
      rw [List.getLast?_cons]
      cases es.getLast? <;> rfl
    simp only [List.cons_append, replayEvents, ih, bind_assoc, hlast, List.length_cons]
    rw [show index + 1 + es.length = index + (es.length + 1) by omega]

/-- The last event of a replay. -/
theorem replayEvents_snoc : replayEvents sha256 c link index r (es ++ [e]) = .ok r' ↔
    ∃ r₁, replayEvents sha256 c link index r es = .ok r₁ ∧
      Follows sha256 c (lastLink sha256 link es) (index + es.length) e ∧
      applyPreparationEvent c r₁ e = .ok r' := by
  simp only [replayEvents_append, bind_eq_ok, replayEvents, throwIf_eq_ok, not_not]
  constructor
  · rintro ⟨r₁, h, _, hf, r₂, ha, h₂⟩
    cases h₂
    exact ⟨r₁, h, hf, ha⟩
  · rintro ⟨r₁, h, hf, ha⟩
    exact ⟨r₁, h, ⟨⟩, hf, r', ha, rfl⟩

/-- **Induction over the events of a replay**, the last one first. -/
theorem replayEvents_induction {P : List PreparationEvent → PreparationReplay → Prop} (h₀ : P [] r₀)
    (hstep : ∀ es r e r', P es r → Accepts c r e r' → P (es ++ [e]) r')
    (h : replayEvents sha256 c link index r₀ es = .ok r) : P es r := by
  induction es using List.reverseRecOn generalizing r with
  | nil => cases h; exact h₀
  | append_singleton es e ih =>
    obtain ⟨r₁, h₁, -, ha⟩ := replayEvents_snoc.1 h
    exact hstep es r₁ e r (ih h₁) (applyPreparationEvent_accepts ha)

theorem replayEvents_sequence (h : replayEvents sha256 c link index r es = .ok r') :
    es.map (·.sequence) = (List.range es.length).map (index + 1 + ·) := by
  induction es using List.reverseRecOn generalizing r' with
  | nil => rfl
  | append_singleton es e ih =>
    obtain ⟨r₁, h₁, hf, -⟩ := replayEvents_snoc.1 h
    rw [List.map_append, ih h₁, List.length_append, List.length_singleton, List.range_succ,
      List.map_append, List.map_singleton, List.map_singleton, hf.sequence]
    congr 2
    omega

theorem replayEvents_pairwise (h : replayEvents sha256 c link index r es = .ok r') :
    es.Pairwise fun a b => a.sequence < b.sequence := by
  have hmap : (es.map (·.sequence)).Pairwise (· < ·) := by
    rw [replayEvents_sequence h, List.pairwise_map]
    exact (List.pairwise_lt_range).imp fun hlt => by omega
  exact List.pairwise_map.1 hmap

/-! ## Loading finds the journal -/

theorem readEvent_eq_ok {name : RecordName} : readEvent sha256 d c name = .ok e ↔
    (d.read name).bind (parsePreparationEvent sha256) = some e ∧
      name = eventName sha256 c e.sequence := by
  simp only [readEvent, bind_eq_ok, require_eq_ok, throwIf_eq_ok, pure_eq_ok, not_not,
    Option.bind_eq_some_iff]
  constructor
  · rintro ⟨value, hv, event, he, _, hn, rfl⟩
    exact ⟨⟨value, hv, he⟩, hn⟩
  · rintro ⟨⟨value, hv, he⟩, hn⟩
    exact ⟨value, hv, e, he, ⟨⟩, hn, rfl⟩

theorem mapM_readEvent {l : List RecordName} {read : List PreparationEvent}
    (h : l.mapM (readEvent sha256 d c) = .ok read) :
    l = read.map (fun e => eventName sha256 c e.sequence) ∧
      ∀ e ∈ read, (d.read (eventName sha256 c e.sequence)).bind (parsePreparationEvent sha256) =
        some e := by
  induction l generalizing read with
  | nil => cases h; exact ⟨rfl, by simp⟩
  | cons name l ih =>
    simp only [List.mapM_cons, bind_eq_ok, pure_eq_ok] at h
    obtain ⟨e, he, rest, hrest, rfl⟩ := h
    obtain ⟨hr, hn⟩ := readEvent_eq_ok.1 he
    obtain ⟨hl, hreads⟩ := ih hrest
    refine ⟨by rw [List.map_cons, ← hn, ← hl], ?_⟩
    intro e' he'
    rcases List.mem_cons.1 he' with rfl | he'
    · rw [← hn]; exact hr
    · exact hreads e' he'

/-- **What `#load` accepts is a journal.** -/
theorem journal_of_load (h : load sha256 d c = .ok ⟨some intent, es, r⟩) :
    Journal sha256 d c intent es r := by
  simp only [load, bind_eq_ok, throwIf_eq_ok] at h
  obtain ⟨_, -, _, hentry, h⟩ := h
  split_ifs at h with hin
  · simp only [bind_eq_ok, require_eq_ok, throwIf_eq_ok, pure_eq_ok, not_not] at h
    obtain ⟨value, hv, i, hi, _, hc, read, hread, _, -, r', hr, heq⟩ := h
    cases heq
    obtain ⟨hnames, hreads⟩ := mapM_readEvent hread
    have hperm : (sortEvents read).Perm read := List.perm_insertionSort _ _
    refine ⟨fun name hname => ?_, by simp [hv, hi], hc, ?_, fun e he => hreads e (hperm.mem_iff.1 he),
      hr⟩
    · by_contra hne
      exact hentry ⟨name, hname, by simpa using hne⟩
    · rw [hnames]
      exact (hperm.map _).symm
  · simp only [bind_eq_ok, throwIf_eq_ok, pure_eq_ok] at h
    obtain ⟨_, -, h⟩ := h
    cases h

theorem mapM_of_forall {l : List RecordName} {f : PreparationEvent → RecordName}
    (h : ∀ e ∈ es, readEvent sha256 d c (f e) = .ok e) (hl : l = es.map f) :
    l.mapM (readEvent sha256 d c) = .ok es := by
  subst hl
  induction es with
  | nil => rfl
  | cons e es ih =>
    rw [List.map_cons, List.mapM_cons, h e (by simp), ok_bind, ih fun e' he' => h e' (by simp [he'])]
    rfl

/-- A computation on a list, done in another order. -/
theorem mapM_perm {α β κ : Type} {f : α → Except κ β} {l l' : List α} {ys : List β} (hp : l.Perm l')
    (h : l.mapM f = .ok ys) : ∃ ys', l'.mapM f = .ok ys' ∧ ys.Perm ys' := by
  induction hp generalizing ys with
  | nil => exact ⟨ys, h, .refl _⟩
  | cons x _ ih =>
    simp only [List.mapM_cons, bind_eq_ok, pure_eq_ok] at h ⊢
    obtain ⟨y, hy, ys, hys, rfl⟩ := h
    obtain ⟨ys', hys', hperm⟩ := ih hys
    exact ⟨y :: ys', ⟨y, hy, ys', hys', rfl⟩, hperm.cons y⟩
  | swap x x' l =>
    simp only [List.mapM_cons, bind_eq_ok, pure_eq_ok] at h ⊢
    obtain ⟨y', hy', _, ⟨y, hy, ys, hys, rfl⟩, rfl⟩ := h
    exact ⟨y :: y' :: ys, ⟨y, hy, _, ⟨y', hy', ys, hys, rfl⟩, rfl⟩, .swap y y' ys⟩
  | trans _ _ ih₁ ih₂ =>
    obtain ⟨ys₁, h₁, hp₁⟩ := ih₁ h
    obtain ⟨ys₂, h₂, hp₂⟩ := ih₂ h₁
    exact ⟨ys₂, h₂, hp₁.trans hp₂⟩

/-- Events with different numbers are sorted in one way only. -/
theorem sortEvents_eq {read : List PreparationEvent} (hp : read.Perm es)
    (hs : es.Pairwise fun a b => a.sequence < b.sequence) : sortEvents read = es := by
  have hsorted : (sortEvents read).Pairwise fun a b => a.sequence ≤ b.sequence :=
    List.pairwise_insertionSort (fun a b : PreparationEvent => a.sequence ≤ b.sequence) read
  have hperm : (sortEvents read).Perm es := (List.perm_insertionSort _ _).trans hp
  have hnodup : (es.map (·.sequence)).Nodup :=
    List.pairwise_map.2 (hs.imp fun hlt => by omega)
  refine List.Perm.eq_of_pairwise (fun a b ha hb h₁ h₂ => ?_) hsorted (hs.imp fun hlt => by omega) hperm
  exact List.inj_on_of_nodup_map hnodup (hperm.mem_iff.1 ha) hb (by omega)

theorem Journal.mem_intent (h : Journal sha256 d c intent es r) :
    intentName sha256 c ∈ operationNames sha256 d c := by
  obtain ⟨value, hv, -⟩ := Option.bind_eq_some_iff.1 h.intent_read
  exact List.mem_filter.2 ⟨Directory.mem_names_of_read hv, by simp [intentName]⟩

/-- **A journal is what `#load` returns**, in a directory that is not too full. -/
theorem Journal.load (h : Journal sha256 d c intent es r) (hcount : d.count ≤ maxNames) :
    load sha256 d c = .ok ⟨some intent, es, r⟩ := by
  have hread : ∀ e ∈ es, readEvent sha256 d c (eventName sha256 c e.sequence) = .ok e :=
    fun e he => readEvent_eq_ok.2 ⟨h.reads e he, rfl⟩
  obtain ⟨read, hm, hperm⟩ := mapM_perm h.names.symm (mapM_of_forall hread rfl)
  have hsort : sortEvents read = es := sortEvents_eq hperm.symm (replayEvents_pairwise h.replay)
  obtain ⟨value, hv, hi⟩ := Option.bind_eq_some_iff.1 h.intent_read
  have hmem : ∀ e ∈ es, eventName sha256 c e.sequence ∈ eventNames sha256 d c := fun e he =>
    h.names.mem_iff.2 (List.mem_map.2 ⟨e, he, rfl⟩)
  unfold Prepared.load
  rw [throwIf_neg (by omega), ok_bind, throwIf_neg (by simpa using h.entry), ok_bind,
    if_neg (by simpa using h.mem_intent), hv, require_some, ok_bind, hi, require_some, ok_bind,
    throwIf_neg (by simpa using h.contract_eq), ok_bind, hm, ok_bind]
  simp only [hsort]
  rw [throwIf_neg (by simpa using hmem), ok_bind, h.replay]
  rfl

/-- A directory without the intent of `c` has no event of `c` either. -/
theorem eventNames_of_load {es' : List PreparationEvent}
    (h : Prepared.load sha256 d c = .ok ⟨none, es', r⟩) :
    es' = [] ∧ r = initialReplay false ∧ intentName sha256 c ∉ d.names ∧
      eventNames sha256 d c = [] ∧ ∀ name ∈ operationNames sha256 d c, isEntry name = false := by
  simp only [Prepared.load, bind_eq_ok, throwIf_eq_ok] at h
  obtain ⟨_, -, _, hentry, h⟩ := h
  split_ifs at h with hin
  · simp only [bind_eq_ok, require_eq_ok, throwIf_eq_ok, pure_eq_ok, not_not] at h
    obtain ⟨value, hv, i, hi, _, hc, read, hread, _, -, r', hr, heq⟩ := h
    cases heq
  · simp only [bind_eq_ok, throwIf_eq_ok, pure_eq_ok, not_not] at h
    obtain ⟨_, hnil, heq⟩ := h
    cases heq
    refine ⟨rfl, rfl, fun hmem => hin ?_, hnil, fun name hname => ?_⟩
    · exact List.mem_filter.2 ⟨hmem, by simp [intentName]⟩
    · by_contra hne
      exact hentry ⟨name, hname, by simpa using hne⟩

/-! ## Publications -/

/-- A journal depends only on the names and the readable values. -/
theorem Journal.congr {d' : Directory} (h : Journal sha256 d c intent es r) (hn : d'.names = d.names)
    (hr : ∀ name, d'.read name = d.read name) : Journal sha256 d' c intent es r := by
  have hop : operationNames sha256 d' c = operationNames sha256 d c := by
    unfold operationNames; rw [hn]
  have hev : eventNames sha256 d' c = eventNames sha256 d c := by unfold eventNames; rw [hop]
  refine ⟨?_, ?_, h.contract_eq, ?_, ?_, h.replay⟩
  · rw [hop]; exact h.entry
  · rw [hr]; exact h.intent_read
  · rw [hev]; exact h.names
  · intro e he
    rw [hr]
    exact h.reads e he

/-- The number of the next event is free. -/
theorem Journal.next_not_mem (h : Journal sha256 d c intent es r) :
    eventName sha256 c (es.length + 1) ∉ d.names := by
  intro hin
  have hmem : eventName sha256 c (es.length + 1) ∈ eventNames sha256 d c :=
    List.mem_filter.2 ⟨List.mem_filter.2 ⟨hin, by simp [eventName]⟩, rfl⟩
  obtain ⟨e, he, heq⟩ := List.mem_map.1 (h.names.mem_iff.1 hmem)
  have hseq : e.sequence = es.length + 1 := by simpa [eventName] using heq
  have hrange : e.sequence ∈ (List.range es.length).map (0 + 1 + ·) := by
    rw [← replayEvents_sequence h.replay]
    exact List.mem_map.2 ⟨e, he, rfl⟩
  obtain ⟨i, hi, hei⟩ := List.mem_map.1 hrange
  rw [List.mem_range] at hi
  omega

/-- **A published event extends the journal.** -/
theorem Journal.published (h : Journal sha256 d c intent es r)
    (hf : Follows sha256 c (lastLink sha256 (intent.link sha256) es) es.length e)
    (ha : applyPreparationEvent c r e = .ok r')
    (hp : parsePreparationEvent sha256 (e.toJson sha256) = some e) :
    Journal sha256 (d.published (eventName sha256 c (es.length + 1)) (e.toJson sha256)) c intent
      (es ++ [e]) r' := by
  have hnew := h.next_not_mem
  have hname : eventName sha256 c e.sequence = eventName sha256 c (es.length + 1) := by
    rw [hf.sequence]
  have hread : ∀ name ∈ d.names,
      (d.published (eventName sha256 c (es.length + 1)) (e.toJson sha256)).read name =
        d.read name := by
    intro name hin
    rw [Directory.read_published hnew, if_neg]
    rintro rfl
    exact hnew hin
  have hop : operationNames sha256
      (d.published (eventName sha256 c (es.length + 1)) (e.toJson sha256)) c =
        operationNames sha256 d c ++ [eventName sha256 c (es.length + 1)] := by
    unfold operationNames
    rw [Directory.names_published, List.filter_append, List.filter_singleton]
    simp [eventName]
  refine ⟨?_, ?_, h.contract_eq, ?_, ?_, ?_⟩
  · intro name hin
    rw [hop] at hin
    rcases List.mem_append.1 hin with hin | hin
    · exact h.entry name hin
    · rw [List.mem_singleton.1 hin]; rfl
  · rw [hread]
    · exact h.intent_read
    · exact (List.mem_filter.1 h.mem_intent).1
  · unfold eventNames
    rw [hop, List.filter_append, List.map_append, List.map_singleton, hname]
    exact h.names.append_right _
  · intro e' he'
    rcases List.mem_append.1 he' with he' | he'
    · rw [hread]
      · exact h.reads e' he'
      · obtain ⟨value, hv, -⟩ := Option.bind_eq_some_iff.1 (h.reads e' he')
        exact Directory.mem_names_of_read hv
    · rw [List.mem_singleton.1 he', hname, Directory.read_published hnew, if_pos rfl]
      exact hp
  · exact replayEvents_snoc.2 ⟨r, h.replay, by simpa using hf, ha⟩

/-- **A published intent starts a journal.** -/
theorem Journal.of_intent (hn : intentName sha256 c ∉ d.names) (he : eventNames sha256 d c = [])
    (hentry : ∀ name ∈ operationNames sha256 d c, isEntry name = false) (t : Timestamp) :
    Journal sha256 (d.published (intentName sha256 c) ((WorkflowIntent.mk c t).toJson sha256)) c
      ⟨c, t⟩ [] (initialReplay true) := by
  have hop : operationNames sha256
      (d.published (intentName sha256 c) ((WorkflowIntent.mk c t).toJson sha256)) c =
        operationNames sha256 d c ++ [intentName sha256 c] := by
    unfold operationNames
    rw [Directory.names_published, List.filter_append, List.filter_singleton]
    simp [intentName]
  refine ⟨?_, ?_, rfl, ?_, by simp, rfl⟩
  · intro name hin
    rw [hop] at hin
    rcases List.mem_append.1 hin with hin | hin
    · exact hentry name hin
    · rw [List.mem_singleton.1 hin]; rfl
  · rw [Directory.read_published hn, if_pos rfl]
    exact parseIntent_toJson sha256 _
  · unfold eventNames
    rw [hop, List.filter_append]
    unfold eventNames at he
    rw [he]
    exact .refl _

end PaPlatform.Prepared
