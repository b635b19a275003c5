/-
  `readExecutionJournal` of `deploy/execution-custody.ts`.

  A journal is an intent record and a chain of numbered events, each with the
  digest of the record before it.  Adding the event of an accepted transition
  under the next number gives a journal that reads back with the next state.
-/
import PaPlatform.Custody.InFlight
import PaPlatform.Custody.Commands
import PaPlatform.Deploy.Records

namespace PaPlatform.Custody

open Js Guard

/-! ## RecordStore of a journal -/

variable (sha256 : Bytes → Sha256)

/-- The `executionId` of a lineage. -/
def executionId (b : ExecutionBinding) : Sha256 :=
  workflowDigest sha256
    (Json.arr [.str "execution/v1", .ofChecked b.operationId, .ofChecked b.lineageId]).stringify

/-- The digest of a record. -/
def digestOf (record : Json) : Sha256 := workflowDigest sha256 record.stringify

/-- The name of the intent of a lineage. -/
def intentName (b : ExecutionBinding) : RecordName := ⟨executionId sha256 b, .intent⟩

/-- The name of an event of a lineage. -/
def eventName (b : ExecutionBinding) (sequence : ℕ) : RecordName :=
  ⟨executionId sha256 b, .transaction sequence⟩

def executionIntentKeys : List String := ["schemaVersion", "binding", "recordedAt"]

@[simp] theorem exactObject_executionIntentKeys {values : List Json} (h : values.length = 3) :
    Json.exactObject executionIntentKeys (.obj (executionIntentKeys.zip values)) = some values :=
  Json.exactObject_zip (by decide +kernel) h.symm

/-- The intent that `initialize` publishes. -/
def executionIntent (b : ExecutionBinding) (recordedAt : Timestamp) : Json :=
  .obj (executionIntentKeys.zip [.str "execution-intent/v1", b.toJson, .ofChecked recordedAt])

/-- The `recordedAt` of an intent of `b`. -/
def readIntent (b : ExecutionBinding) (value : Json) : Option Timestamp := do
  let [schemaVersion, binding, recordedAt] ← Json.exactObject executionIntentKeys value | none
  Json.literal "execution-intent/v1" schemaVersion
  let binding ← parseExecutionBinding binding
  Json.check (binding = b)
  workflowTimestamp recordedAt

theorem readIntent_executionIntent {b : ExecutionBinding} (hb : b.Accepted) (t : Timestamp) :
    readIntent b (executionIntent b t) = some t := by
  simp only [readIntent, executionIntent, exactObject_executionIntentKeys, List.length_cons,
    List.length_nil, Option.bind_eq_bind, Option.bind_some, Json.literal_str,
    parseExecutionBinding_toJson hb, Json.check_pos, workflowTimestamp_ofChecked]

structure ExecutionEvent where
  executionId : Sha256
  sequence : ℕ
  previousSha256 : Sha256
  actor : ExecutionHolder
  command : ExecutionCommand
  recordedAt : Timestamp

def ExecutionEvent.keys : List String := ["schemaVersion", "executionId", "sequence",
  "previousSha256", "actor", "command", "recordedAt"]

@[simp] theorem ExecutionEvent.exactObject_keys {values : List Json} (h : values.length = 7) :
    Json.exactObject keys (.obj (keys.zip values)) = some values :=
  Json.exactObject_zip (by decide +kernel) h.symm

def ExecutionEvent.toJson (e : ExecutionEvent) : Json :=
  .obj (keys.zip [.str "execution-event/v1", .ofChecked e.executionId, .num e.sequence,
    .ofChecked e.previousSha256, e.actor.toJson, e.command.toJson, .ofChecked e.recordedAt])

/-- The event number `sequence` of the journal `id`, after the record `previous`. -/
def readEvent (id : Sha256) (sequence : ℕ) (previous : Json) (value : Json) :
    Option ExecutionEvent := do
  let [schemaVersion, executionId, number, previousSha256, actor, command, recordedAt] ←
    Json.exactObject ExecutionEvent.keys value | none
  Json.literal "execution-event/v1" schemaVersion
  Json.literal id.1 executionId
  Json.check ((← Json.integer number) = sequence)
  Json.literal (digestOf sha256 previous).1 previousSha256
  return ⟨id, sequence, digestOf sha256 previous, ← parseHolder actor, ← parseCommand sha256 command,
    ← workflowTimestamp recordedAt⟩

variable {sha256}

theorem readEvent_toJson {id : Sha256} {n : ℕ} {previous : Json} {actor : ExecutionHolder}
    {c : ExecutionCommand} {now : Timestamp} (hc : c.Consistent sha256) :
    let e : ExecutionEvent := ⟨id, n, digestOf sha256 previous, actor, c, now⟩
    readEvent sha256 id n previous e.toJson = some e := by
  simp only [readEvent, ExecutionEvent.toJson, ExecutionEvent.exactObject_keys, List.length_cons,
    List.length_nil, Option.bind_eq_bind, Option.bind_some, Json.literal_str, Json.ofChecked,
    Json.integer_num, Json.check_pos, parseHolder_toJson, parseCommand_toJson hc,
    workflowTimestamp, Json.checked, dif_pos now.2, Option.pure_def]

/-! ## Replay -/

/-- What `readExecutionJournal` returns. -/
structure Replayed where
  state : ExecutionState
  previous : Json
  operations : List ExecutionOperationRecord

section
variable (sha256 : Bytes → Sha256) (records : RecordStore) (b : ExecutionBinding)

/-- The first `n` rounds of the loop of `readExecutionJournal`. -/
def replayEvents (intent : Json) (recordedAt : Timestamp) : ℕ → Except WorkflowFailure Replayed
  | 0 => .ok ⟨initialState b recordedAt, intent, []⟩
  | n + 1 => do
    let r ← replayEvents intent recordedAt n
    let value ← require (records.lookup (eventName sha256 b (n + 1))) .workflow
    let event ← require (readEvent sha256 (executionId sha256 b) (n + 1) r.previous value) .workflow
    let state ← transition r.state event.actor event.command event.recordedAt
    let operations ←
      recordOperation r.operations (n + 1) ⟨event.actor, event.command, event.recordedAt⟩
    return ⟨state, event.toJson, operations⟩

/-- The names of a lineage in the directory. -/
def lineageNames : List RecordName := records.keys.filter (·.id = executionId sha256 b)

/-- The names of the events of a lineage. -/
def eventNames : List RecordName := (lineageNames sha256 records b).filter (· ≠ intentName sha256 b)

/-- `readExecutionJournal`. -/
def readExecutionJournal : Except WorkflowFailure Replayed := do
  throwIf (intentName sha256 b ∉ lineageNames sha256 records b) .workflow
  let intent ← require (records.lookup (intentName sha256 b)) .workflow
  let recordedAt ← require (readIntent b intent) .workflow
  throwIf (256 < (eventNames sha256 records b).length) .workflow
  replayEvents sha256 records b intent recordedAt (eventNames sha256 records b).length

end

variable {records : RecordStore} {b : ExecutionBinding} {intent : Json} {t : Timestamp} {n : ℕ}
  {r : Replayed} {s : ExecutionState} {value : Json}

theorem Applied.sequence {actor : ExecutionHolder} {now : Timestamp} {c : ExecutionCommand}
    {s' : ExecutionState} (ha : Applied s actor now c s') : s'.sequence = s.sequence + 1 := by
  cases ha with
  | begin => exact begun_sequence
  | _ => rfl

/-- After `n` rounds the state has sequence `n`, its operation records agree
    with it, and the first `n` events are in the directory. -/
theorem replayEvents_spec (h : replayEvents sha256 records b intent t n = .ok r) :
    r.state.sequence = n ∧ Recorded r.state r.operations ∧
      ∀ i, 1 ≤ i → i ≤ n → eventName sha256 b i ∈ records := by
  induction n generalizing r with
  | zero =>
    cases h
    exact ⟨rfl, recorded_initial, by omega⟩
  | succ n ih =>
    simp only [replayEvents, bind_eq_ok, require_eq_ok, pure_eq_ok] at h
    obtain ⟨r₀, hr, value, hl, event, -, state, hs, ops, ho, rfl⟩ := h
    obtain ⟨h1, h2, h3⟩ := ih hr
    have hstep : step r₀.state ⟨event.actor, event.command, event.recordedAt⟩ = .ok state := hs
    obtain ⟨ops', ho', hrec⟩ := h2.step (n + 1) hstep
    obtain rfl : ops = ops' := by simpa [ho] using ho'
    refine ⟨by rw [(step_applied hstep).sequence, h1], hrec, ?_⟩
    intro i hi1 hi2
    rcases Nat.lt_or_ge n i with hlt | hge
    · obtain rfl : i = n + 1 := by omega
      exact AList.lookup_isSome.1 (by simp [hl])
    · exact h3 i hi1 hge

/-- A record that is none of the first `n` events does not change the first `n`
    rounds. -/
theorem replayEvents_insert {name : RecordName}
    (hn : ∀ i, 1 ≤ i → i ≤ n → eventName sha256 b i ≠ name) :
    replayEvents sha256 (records.insert name value) b intent t n =
      replayEvents sha256 records b intent t n := by
  induction n with
  | zero => rfl
  | succ n ih =>
    have hl : (records.insert name value).lookup (eventName sha256 b (n + 1)) =
        records.lookup (eventName sha256 b (n + 1)) :=
      AList.lookup_insert_ne (hn (n + 1) (by omega) le_rfl)
    simp only [replayEvents, ih fun i h1 h2 => hn i h1 (by omega), hl]

theorem eventName_inj {i j : ℕ} (h : eventName sha256 b i = eventName sha256 b j) : i = j := by
  simpa [eventName] using h

theorem mem_lineageNames {name : RecordName} : name ∈ lineageNames sha256 records b ↔
    name ∈ records ∧ name.id = executionId sha256 b := by
  simp [lineageNames, AList.mem_keys]

theorem mem_eventNames {name : RecordName} : name ∈ eventNames sha256 records b ↔
    name ∈ records ∧ name.id = executionId sha256 b ∧ name ≠ intentName sha256 b := by
  simp only [eventNames, List.mem_filter, mem_lineageNames, decide_eq_true_eq, and_assoc]

/-- In a journal of `n` events that holds the numbers 1 to `n`, the next number
    is free. -/
theorem next_not_mem (hlen : (eventNames sha256 records b).length = n)
    (hall : ∀ i, 1 ≤ i → i ≤ n → eventName sha256 b i ∈ records) :
    eventName sha256 b (n + 1) ∉ records := by
  intro hin
  have hsub : (List.range (n + 1)).map (fun i => eventName sha256 b (i + 1)) ⊆
      eventNames sha256 records b := by
    intro name hname
    obtain ⟨i, hi, rfl⟩ := List.mem_map.1 hname
    rw [List.mem_range] at hi
    refine mem_eventNames.2 ⟨?_, rfl, by simp [eventName, intentName]⟩
    rcases Nat.lt_or_ge i n with hlt | hge
    · exact hall (i + 1) (by omega) (by omega)
    · obtain rfl : i = n := by omega
      exact hin
  have hnodup : ((List.range (n + 1)).map fun i => eventName sha256 b (i + 1)).Nodup :=
    List.Nodup.map (fun i j h => by have := eventName_inj h; omega) List.nodup_range
  have hle := (List.subperm_of_subset hnodup hsub).length_le
  simp only [List.length_map, List.length_range, hlen] at hle
  omega

theorem eventNames_insert (hn : eventName sha256 b n ∉ records) :
    (eventNames sha256 (records.insert (eventName sha256 b n) value) b).length =
      (eventNames sha256 records b).length + 1 := by
  have hkeys : (records.insert (eventName sha256 b n) value).keys =
      eventName sha256 b n :: records.keys := by
    rw [AList.keys_insert, List.erase_of_not_mem (by simpa [AList.mem_keys] using hn)]
  unfold eventNames lineageNames
  rw [hkeys]
  simp [eventName, intentName]

/-- What an accepted journal is made of. -/
theorem readExecutionJournal_ok (h : readExecutionJournal sha256 records b = .ok r) :
    (eventNames sha256 records b).length = r.state.sequence ∧ r.state.sequence ≤ 256 ∧
      eventName sha256 b (r.state.sequence + 1) ∉ records ∧ Recorded r.state r.operations := by
  simp only [readExecutionJournal, bind_eq_ok, throwIf_eq_ok, require_eq_ok] at h
  obtain ⟨_, -, intent, -, t, -, _, hle, h⟩ := h
  obtain ⟨h1, h2, h3⟩ := replayEvents_spec h
  rw [h1]
  exact ⟨rfl, by omega, next_not_mem rfl h3, h2⟩

/-- **Replay of an append**: the event of an accepted transition, put under the
    next number, extends an accepted journal to one that reads back with the
    next state. -/
theorem readExecutionJournal_append {actor : ExecutionHolder} {c : ExecutionCommand}
    {now : Timestamp} (h : readExecutionJournal sha256 records b = .ok r)
    (hlt : r.state.sequence < 256) (hc : c.Consistent sha256)
    (hs : transition r.state actor c now = .ok s) :
    let e : ExecutionEvent :=
      ⟨executionId sha256 b, s.sequence, digestOf sha256 r.previous, actor, c, now⟩
    ∃ r', readExecutionJournal sha256 (records.insert (eventName sha256 b s.sequence) e.toJson) b =
      .ok r' ∧ r'.state = s := by
  intro e
  obtain ⟨hlen, hle, hnew, hrec⟩ := readExecutionJournal_ok h
  have hseq : s.sequence = r.state.sequence + 1 := (transition_applied hs).2.sequence
  simp only [readExecutionJournal, bind_eq_ok, throwIf_eq_ok, require_eq_ok, not_not] at h
  obtain ⟨_, hmem, intent, hintent, t, ht, _, -, hreplay⟩ := h
  rw [hlen] at hreplay
  obtain ⟨ops, hops, -⟩ := hrec.step s.sequence (e := ⟨actor, c, now⟩) hs
  refine ⟨⟨s, e.toJson, ops⟩, ?_, rfl⟩
  have hne : intentName sha256 b ≠ eventName sha256 b s.sequence := by
    simp [intentName, eventName]
  have hcount : (eventNames sha256 (records.insert (eventName sha256 b s.sequence) e.toJson)
      b).length = r.state.sequence + 1 := by
    rw [eventNames_insert (hseq ▸ hnew), hlen]
  simp only [readExecutionJournal, bind_eq_ok, throwIf_eq_ok, require_eq_ok, not_not]
  refine ⟨⟨⟩, ?_, intent, ?_, t, ht, ⟨⟩, by omega, ?_⟩
  · rw [mem_lineageNames] at hmem ⊢
    exact ⟨(AList.mem_insert _).2 (Or.inr hmem.1), hmem.2⟩
  · rw [AList.lookup_insert_ne hne, hintent]
  · have hprefix : replayEvents sha256 (records.insert (eventName sha256 b s.sequence) e.toJson) b
        intent t r.state.sequence = .ok r := by
      rw [replayEvents_insert, hreplay]
      intro i _ h2 heq
      have := eventName_inj heq
      omega
    have hevent : readEvent sha256 (executionId sha256 b) (r.state.sequence + 1) r.previous
        e.toJson = some e := by
      rw [← hseq]
      exact readEvent_toJson hc
    have hlookup : (records.insert (eventName sha256 b s.sequence) e.toJson).lookup
        (eventName sha256 b (r.state.sequence + 1)) = some e.toJson := by
      rw [← hseq]
      exact AList.lookup_insert _
    rw [hseq] at hops
    rw [hcount]
    simp only [replayEvents, hprefix, ok_bind, hlookup, require_some, hevent]
    change (do
      let state ← transition r.state actor c now
      let operations ← recordOperation r.operations (r.state.sequence + 1) ⟨actor, c, now⟩
      return ⟨state, e.toJson, operations⟩) = Except.ok (⟨s, e.toJson, ops⟩ : Replayed)
    simp only [hs, ok_bind, hops]
    rfl

end PaPlatform.Custody
