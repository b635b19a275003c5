/-
  The events of a prepared workflow and the state that replays them
  (`parsePreparationEvent`, `applyPreparationEvent`,
  `nextPreparationAction` of `deploy/prepared-workflow.ts`).

  `Accepts c r e r'` has one constructor for each way in which
  `applyPreparationEvent` accepts an event; `applyPreparationEvent_accepts` is
  its inversion lemma.
-/
import PaPlatform.Prepared.Values
import PaPlatform.Lib.Guard
import Mathlib.Data.Finset.Insert

namespace PaPlatform.Prepared

open Js Guard

/-! ## Actions -/

inductive PreparationAction where
  | reservation
  | allocation
  | branch
  | ticketReread
  | ready
  | consume
  deriving DecidableEq

/-- `PREPARATION_ACTIONS`. -/
def preparationActions : List PreparationAction :=
  [.reservation, .allocation, .branch, .ticketReread, .ready, .consume]

/-- The text of an action. -/
def PreparationAction.text : PreparationAction → String
  | .reservation => "reservation"
  | .allocation => "allocation"
  | .branch => "branch"
  | .ticketReread => "ticket-reread"
  | .ready => "ready"
  | .consume => "consume"

/-- The place of an action in `preparationActions`. -/
def PreparationAction.rank : PreparationAction → ℕ
  | .reservation => 0
  | .allocation => 1
  | .branch => 2
  | .ticketReread => 3
  | .ready => 4
  | .consume => 5

def parseAction : Json → Option PreparationAction
  | .str "reservation" => some .reservation
  | .str "allocation" => some .allocation
  | .str "branch" => some .branch
  | .str "ticket-reread" => some .ticketReread
  | .str "ready" => some .ready
  | .str "consume" => some .consume
  | _ => none

@[simp] theorem parseAction_text (a : PreparationAction) : parseAction (.str a.text) = some a := by
  cases a <;> rfl

@[simp] theorem nullable_parseAction (o : Option PreparationAction) :
    Json.nullable parseAction (.ofOption (fun a => .str a.text) o) = some o :=
  Json.nullable_ofOption parseAction_text (by simp) o

theorem rank_inj {a b : PreparationAction} (h : a.rank = b.rank) : a = b := by
  cases a <;> cases b <;> first | rfl | simp [PreparationAction.rank] at h

/-! ## Events -/

/-- The results of an effect. -/
inductive EffectResult where
  | observed
  | failed
  | capacity
  | uncertain
  deriving DecidableEq

inductive EventKind where
  | started
  | result (result : EffectResult)
  | retry
  deriving DecidableEq

/-- The text of a result. -/
def EffectResult.text : EffectResult → String
  | .observed => "observed"
  | .failed => "failed"
  | .capacity => "capacity"
  | .uncertain => "uncertain"

/-- The text of an event kind. -/
def EventKind.text : EventKind → String
  | .started => "started"
  | .result r => r.text
  | .retry => "retry"

def parseEffectResult : Json → Option EffectResult
  | .str "observed" => some .observed
  | .str "failed" => some .failed
  | .str "capacity" => some .capacity
  | .str "uncertain" => some .uncertain
  | _ => none

def parseEventKind : Json → Option EventKind
  | .str "started" => some .started
  | .str "retry" => some .retry
  | value => (parseEffectResult value).map .result

@[simp] theorem parseEventKind_text (k : EventKind) : parseEventKind (.str k.text) = some k := by
  cases k with
  | started => rfl
  | result r => cases r <;> rfl
  | retry => rfl

/-- The limit on the number of an event. -/
def maxSequence : ℕ := 256

structure PreparationEvent where
  operationId : Sha256
  sequence : ℕ
  previousSha256 : Sha256
  kind : EventKind
  action : Option PreparationAction
  evidence : Option SourceVersion
  receipt : Option PreparedReceipt
  consumer : Option SourceVersion
  recordedAt : Timestamp
  deriving DecidableEq

def PreparationEvent.keys : List String := ["schemaVersion", "operationId", "sequence",
  "previousSha256", "kind", "action", "evidence", "receipt", "consumer", "recordedAt"]

@[simp] theorem PreparationEvent.exactObject_keys {values : List Json} (h : values.length = 10) :
    Json.exactObject keys (.obj (keys.zip values)) = some values :=
  Json.exactObject_zip (by decide) h.symm

section
variable (sha256 : Bytes → Sha256)

def PreparationEvent.toJson (e : PreparationEvent) : Json :=
  .obj (keys.zip [.str "preparation-event/v1", .ofChecked e.operationId, .num e.sequence,
    .ofChecked e.previousSha256, .str e.kind.text,
    .ofOption (fun a => .str a.text) e.action, .ofOption SourceVersion.toJson e.evidence,
    .ofOption (PreparedReceipt.toJson sha256) e.receipt,
    .ofOption SourceVersion.toJson e.consumer, .ofChecked e.recordedAt])

/-- `parsePreparationEvent`. -/
def parsePreparationEvent (value : Json) : Option PreparationEvent := do
  let [schemaVersion, operationId, sequence, previousSha256, kind, action, evidence, receipt,
    consumer, recordedAt] ← Json.exactObject PreparationEvent.keys value | none
  Json.literal "preparation-event/v1" schemaVersion
  let sequence ← Json.natural 1 maxSequence sequence
  let kind ← parseEventKind kind
  let action ← Json.nullable parseAction action
  return ⟨← workflowSha operationId, sequence, ← workflowSha previousSha256, kind, action,
    ← Json.nullable parseSourceVersion evidence, ← Json.nullable (parsePreparedReceipt sha256) receipt,
    ← Json.nullable parseSourceVersion consumer, ← workflowTimestamp recordedAt⟩

end

/-- An event reads back exactly if its number is in range. -/
theorem parsePreparationEvent_toJson (sha256 : Bytes → Sha256) (e : PreparationEvent) :
    parsePreparationEvent sha256 (e.toJson sha256) =
      if 1 ≤ e.sequence ∧ e.sequence ≤ maxSequence then some e else none := by
  simp only [parsePreparationEvent, PreparationEvent.toJson, PreparationEvent.exactObject_keys,
    List.length_cons, List.length_nil, Option.bind_eq_bind, Option.bind_some, Option.pure_def,
    Json.literal_str, Json.natural_num, parseEventKind_text, nullable_parseAction,
    workflowSha_ofChecked, nullable_parseSourceVersion, nullable_parsePreparedReceipt,
    workflowTimestamp_ofChecked]
  split_ifs <;> rfl

theorem parsePreparationEvent_sequence {sha256 : Bytes → Sha256} {value : Json}
    {e : PreparationEvent} (h : parsePreparationEvent sha256 value = some e) :
    1 ≤ e.sequence ∧ e.sequence ≤ maxSequence := by
  simp only [parsePreparationEvent, Option.bind_eq_bind, Option.bind_eq_some_iff] at h
  obtain ⟨values, -, h⟩ := h
  split at h
  · simp only [Option.pure_def, Option.bind_eq_some_iff, Option.some.injEq] at h
    obtain ⟨⟨⟩, -, sequence, hseq, kind, -, action, -, _, -, _, -, _, -, _, -, _, -, _, -, rfl⟩ := h
    exact Json.natural_eq_some hseq
  · cases h

/-! ## The replay -/

inductive PreparationState where
  | notRequested
  | preparing
  | ready
  | consumed
  | notReadyCapacity
  | notReadyFailed
  | uncertainBlocked
  deriving DecidableEq

structure PreparationReplay where
  state : PreparationState
  attempt : ℕ
  pending : Option PreparationAction
  results : PreparationAction → Option SourceVersion
  receipt : Option PreparedReceipt
  consumer : Option SourceVersion
  failure : Option SourceVersion
  retries : Finset String

/-- The replay of an intent without events, or of nothing. -/
def initialReplay (requested : Bool) : PreparationReplay where
  state := if requested then .preparing else .notRequested
  attempt := if requested then 1 else 0
  pending := none
  results _ := none
  receipt := none
  consumer := none
  failure := none
  retries := ∅

/-- `nextPreparationAction`. -/
def nextPreparationAction (r : PreparationReplay) : Option PreparationAction :=
  preparationActions.find? fun action => (r.results action).isNone

section
variable (c : PreparationContract) (r : PreparationReplay) (e : PreparationEvent)

def applyRetry : Except WorkflowFailure PreparationReplay := do
  throwIf e.action.isSome .workflow
  let evidence ← require e.evidence .workflow
  throwIf (e.receipt.isSome ∨ e.consumer.isSome ∨ r.pending.isSome ∨
    (r.state ≠ .notReadyCapacity ∧ r.state ≠ .notReadyFailed) ∨ 32 ≤ r.attempt ∨
    evidence.ref.1 ∈ r.retries ∨ evidence.sha256.1 ∈ r.retries) .workflow
  -- the original failure remains in the immutable chain and in the status
  return { r with
    retries := insert evidence.sha256.1 (insert evidence.ref.1 r.retries)
    attempt := r.attempt + 1
    state := .preparing }

def applyStarted (action : PreparationAction) : Except WorkflowFailure PreparationReplay := do
  throwIf (r.pending.isSome ∨ e.evidence.isSome ∨ (r.state ≠ .preparing ∧ r.state ≠ .ready))
    .workflow
  throwIf (if action = .consume then r.state ≠ .ready ∨ e.consumer = none else e.consumer.isSome)
    .workflow
  throwIf (if action = .ready then e.receipt = none else e.receipt.isSome) .workflow
  throwIf (∃ receipt ∈ e.receipt, receipt.state ≠ .ready ∨ receipt.contract ≠ c ∨
    some receipt.ticketReread ≠ r.results .ticketReread) .workflow
  return { r with
    receipt := e.receipt <|> r.receipt
    consumer := e.consumer
    pending := some action }

/-- The state after an observed action. -/
def observedState : PreparationAction → PreparationState
  | .ready => .ready
  | .consume => .consumed
  | _ => .preparing

/-- The state after an action that was not observed. -/
def unobservedState (action : PreparationAction) (result : EffectResult) : PreparationState :=
  if action = .consume then .uncertainBlocked
  else match result with
    | .capacity => .notReadyCapacity
    | .failed => .notReadyFailed
    | _ => .uncertainBlocked

theorem unobservedState_ne (action : PreparationAction) (result : EffectResult) :
    unobservedState action result ≠ .ready ∧ unobservedState action result ≠ .consumed := by
  unfold unobservedState
  split_ifs
  · simp
  · cases result <;> simp

/-- The receipt after an observed action. -/
def observedReceipt (action : PreparationAction) (receipt : Option PreparedReceipt) :
    Option PreparedReceipt :=
  if action = .consume then receipt.map fun receipt => { receipt with state := .consumed }
  else receipt

def applyResult (action : PreparationAction) (result : EffectResult) :
    Except WorkflowFailure PreparationReplay := do
  throwIf (r.pending ≠ some action) .workflow
  let evidence ← require e.evidence .workflow
  throwIf (e.receipt.isSome ∨ e.consumer.isSome) .workflow
  match result with
  | .observed =>
    throwIf (action = .consume ∧ (r.receipt = none ∨ r.consumer = none)) .workflow
    return { r with
      pending := none
      results := Function.update r.results action (some evidence)
      state := observedState action
      receipt := observedReceipt action r.receipt }
  | result =>
    throwIf (result = .capacity ∧ action ≠ .reservation ∧ action ≠ .allocation) .workflow
    return { r with
      pending := none
      failure := some evidence
      state := unobservedState action result }

/-- `applyPreparationEvent`. -/
def applyPreparationEvent : Except WorkflowFailure PreparationReplay :=
  match e.kind with
  | .retry => applyRetry r e
  | .started => do
    let action ← require e.action .workflow
    throwIf (some action ≠ nextPreparationAction r) .workflow
    applyStarted c r e action
  | .result result => do
    let action ← require e.action .workflow
    throwIf (some action ≠ nextPreparationAction r) .workflow
    applyResult r e action result

end

/-! ## What an accepted event does -/

variable {c : PreparationContract} {r r' : PreparationReplay} {e : PreparationEvent}

/-- The accepted events, and the replays they lead to. -/
inductive Accepts (c : PreparationContract) (r : PreparationReplay) :
    PreparationEvent → PreparationReplay → Prop
  | retry {e evidence} : e.kind = .retry → e.action = none → e.evidence = some evidence →
      r.pending = none → r.state = .notReadyCapacity ∨ r.state = .notReadyFailed →
      Accepts c r e { r with
        retries := insert evidence.sha256.1 (insert evidence.ref.1 r.retries)
        attempt := r.attempt + 1
        state := .preparing }
  | started {e action} : e.kind = .started → e.action = some action →
      nextPreparationAction r = some action → r.pending = none →
      r.state = .preparing ∨ r.state = .ready →
      (if action = .consume then r.state = .ready ∧ e.consumer.isSome else e.consumer = none) →
      Accepts c r e { r with
        receipt := e.receipt <|> r.receipt
        consumer := e.consumer
        pending := some action }
  | observed {e action evidence} : e.kind = .result .observed → e.action = some action →
      nextPreparationAction r = some action → r.pending = some action →
      e.evidence = some evidence → (action = .consume → r.consumer.isSome) →
      Accepts c r e { r with
        pending := none
        results := Function.update r.results action (some evidence)
        state := observedState action
        receipt := observedReceipt action r.receipt }
  | unobserved {e action result evidence} : e.kind = .result result → result ≠ .observed →
      e.action = some action → nextPreparationAction r = some action → r.pending = some action →
      e.evidence = some evidence →
      Accepts c r e { r with
        pending := none
        failure := some evidence
        state := unobservedState action result }

theorem applyPreparationEvent_accepts (h : applyPreparationEvent c r e = .ok r') :
    Accepts c r e r' := by
  unfold applyPreparationEvent at h
  split at h
  next hk =>
    simp only [applyRetry, bind_eq_ok, throwIf_eq_ok, require_eq_ok, pure_eq_ok] at h
    obtain ⟨_, ha, evidence, he, _, hg, rfl⟩ := h
    simp only [not_or, Option.not_isSome_iff_eq_none] at ha hg
    obtain ⟨-, -, hp, hs, -⟩ := hg
    exact .retry hk ha he hp (by tauto)
  next hk =>
    simp only [applyStarted, bind_eq_ok, throwIf_eq_ok, require_eq_ok, pure_eq_ok, ne_eq,
      not_not] at h
    obtain ⟨action, ha, _, hnext, _, hg, _, hc, _, -, _, -, rfl⟩ := h
    simp only [not_or, Option.not_isSome_iff_eq_none] at hg
    obtain ⟨hp, -, hs⟩ := hg
    refine .started hk ha hnext.symm hp (by tauto) ?_
    split_ifs at hc ⊢ with hac
    · simp only [not_or, not_not] at hc
      exact ⟨hc.1, Option.isSome_iff_ne_none.2 hc.2⟩
    · simpa using hc
  next result hk =>
    simp only [applyResult, bind_eq_ok, throwIf_eq_ok, require_eq_ok, ne_eq, not_not] at h
    obtain ⟨action, ha, _, hnext, _, hp, evidence, he, _, -, h⟩ := h
    cases result with
    | observed =>
      simp only [bind_eq_ok, throwIf_eq_ok, pure_eq_ok] at h
      obtain ⟨_, hc, rfl⟩ := h
      refine .observed hk ha hnext.symm hp he fun hcon => ?_
      rw [Option.isSome_iff_ne_none]
      exact fun hnone => hc ⟨hcon, Or.inr hnone⟩
    | _ =>
      simp only [bind_eq_ok, throwIf_eq_ok, pure_eq_ok] at h
      obtain ⟨_, -, rfl⟩ := h
      exact .unobserved hk (by simp) ha hnext.symm hp he

end PaPlatform.Prepared
