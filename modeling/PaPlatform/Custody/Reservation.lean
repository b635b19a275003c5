/-
  The reservations of `deploy/execution-custody.ts`.

  The fields of a reservation carry the checks of their readers.  What the
  parser asks of several fields at once is `Consistent`: the occupancy decides
  which lineage, receipt, custody and launch a reservation may have.
-/
import PaPlatform.Custody.Commands
import PaPlatform.Deploy.Correlation

namespace PaPlatform.Custody

open Js

/-! ## Custody -/

def Suspension.text : Suspension → String
  | .settling => "settling"
  | .uncertainBlocked => "uncertain-blocked"

namespace ExecutionCustody

def keys : List String := ["state", "holder", "inFlightOperation"]

@[simp] theorem exactObject_keys {values : List Json} (h : values.length = 3) :
    Json.exactObject keys (.obj (keys.zip values)) = some values :=
  Json.exactObject_zip (by decide +kernel) h.symm

/-- The text of `state`. -/
def state : ExecutionCustody → String
  | idle => "idle"
  | held e _ _ => e.text
  | suspended s _ _ => s.text

def toJson (c : ExecutionCustody) : Json :=
  .obj (keys.zip [.str c.state, .ofOption ExecutionHolder.toJson c.holder,
    .ofOption .ofChecked c.inFlightOperation])

end ExecutionCustody

/-- `parseExecutionCustody`. -/
def parseExecutionCustody (value : Json) : Option ExecutionCustody := do
  let [state, holder, inFlightOperation] ← Json.exactObject ExecutionCustody.keys value | none
  let operation ← nullableText inFlightOperation
  match state with
  | .str "idle" => do
    let holder ← Json.nullable parseHolder holder
    Json.check (holder = none ∧ operation = none)
    return .idle
  | .str "settling" => return .suspended .settling (← Json.nullable parseHolder holder) operation
  | .str "uncertain-blocked" =>
    return .suspended .uncertainBlocked (← Json.nullable parseHolder holder) operation
  | state => return .held (← parseExecutor state) (← parseHolder holder) operation

@[simp] theorem nullable_parseHolder (o : Option ExecutionHolder) :
    Json.nullable parseHolder (.ofOption ExecutionHolder.toJson o) = some o :=
  Json.nullable_ofOption parseHolder_toJson (by simp [ExecutionHolder.toJson]) o

@[simp] theorem parseExecutionCustody_toJson (c : ExecutionCustody) :
    parseExecutionCustody c.toJson = some c := by
  cases c with
  | idle =>
    simp [parseExecutionCustody, ExecutionCustody.toJson, ExecutionCustody.state, Json.check]
  | held e h o =>
    cases e <;>
      simp [parseExecutionCustody, ExecutionCustody.toJson, ExecutionCustody.state, Executor.text,
        parseExecutor]
  | suspended s h o =>
    cases s <;>
      simp [parseExecutionCustody, ExecutionCustody.toJson, ExecutionCustody.state,
        Suspension.text, ExecutionCustody.holder, ExecutionCustody.inFlightOperation]

/-! ## Reservations -/

inductive ReservationOccupancy where
  | preparing
  | uncertainRetained
  | idleReady
  | active
  | settledRetained
  deriving DecidableEq

def ReservationOccupancy.text : ReservationOccupancy → String
  | .preparing => "preparing"
  | .uncertainRetained => "uncertain-retained"
  | .idleReady => "idle-ready"
  | .active => "active"
  | .settledRetained => "settled-retained"

/-- The reader for `occupancy`. -/
def parseOccupancy : Json → Option ReservationOccupancy
  | .str "preparing" => some .preparing
  | .str "uncertain-retained" => some .uncertainRetained
  | .str "idle-ready" => some .idleReady
  | .str "active" => some .active
  | .str "settled-retained" => some .settledRetained
  | _ => none

@[simp] theorem parseOccupancy_text (o : ReservationOccupancy) :
    parseOccupancy (.str o.text) = some o := by
  cases o <;> rfl

structure PreparedReservationLaunch where
  slotToken : Text
  deploymentDirectory : AbsolutePath
  acquiredAt : Timestamp
  deriving DecidableEq

/-- The check of `repoKey`. -/
def repoKeyTextOk (s : String) : Bool := textOk s && repoKeyOk s

/-- The check of `ticket`. -/
def ticketTextOk (s : String) : Bool := textOk s && ticketOk s

structure IdlePreparationReservation where
  repoKey : Checked repoKeyTextOk
  repoRoot : AbsolutePath
  ticket : Checked ticketTextOk
  operationId : Sha256
  reservationId : Sha256
  repositoryPermit : Permit
  occupancy : ReservationOccupancy
  lineageId : Option Text
  custody : ExecutionCustody
  receiptId : Option Sha256
  retainedAt : Timestamp
  launch : Option PreparedReservationLaunch
  deriving DecidableEq

namespace IdlePreparationReservation

/-- What the occupancy asks of the other fields. -/
def Consistent (r : IdlePreparationReservation) : Prop :=
  match r.occupancy with
  | .preparing =>
    r.lineageId = none ∧ r.custody = .idle ∧ r.receiptId = none ∧ r.launch = none
  | .idleReady =>
    r.lineageId = none ∧ r.custody = .idle ∧ r.receiptId.isSome ∧ r.launch = none
  | .active => r.lineageId.isSome ∧ r.custody.holder.isSome
  | .uncertainRetained => r.custody.state = "uncertain-blocked"
  | .settledRetained => r.lineageId.isSome ∧ r.receiptId.isSome ∧ r.custody = .idle

instance (r : IdlePreparationReservation) : Decidable r.Consistent := by
  unfold Consistent
  split <;> infer_instance

def keys : List String := ["schemaVersion", "repoKey", "repoRoot", "ticket", "operationId",
  "reservationId", "repositoryPermit", "occupancy", "lineageId", "custody", "receiptId", "retainedAt"]

end IdlePreparationReservation

def PreparedReservationLaunch.keys : List String := ["slotToken", "deploymentDirectory", "acquiredAt"]

@[simp] theorem PreparedReservationLaunch.exactObject_keys {values : List Json}
    (h : values.length = 3) : Json.exactObject keys (.obj (keys.zip values)) = some values :=
  Json.exactObject_zip (by decide +kernel) h.symm

def PreparedReservationLaunch.toJson (l : PreparedReservationLaunch) : Json :=
  .obj (keys.zip [.ofChecked l.slotToken, .ofChecked l.deploymentDirectory, .ofChecked l.acquiredAt])

/-- The reader for `launch`. -/
def parseLaunch (value : Json) : Option PreparedReservationLaunch := do
  let [slotToken, deploymentDirectory, acquiredAt] ←
    Json.exactObject PreparedReservationLaunch.keys value | none
  return ⟨← workflowText slotToken, ← workflowPath deploymentDirectory,
    ← workflowTimestamp acquiredAt⟩

@[simp] theorem parseLaunch_toJson (l : PreparedReservationLaunch) : parseLaunch l.toJson = some l := by
  simp [parseLaunch, PreparedReservationLaunch.toJson]

/-- The reader for `repositoryPermit`. -/
def parsePermit (value : Json) : Option Permit := do
  let n ← Json.bounded 1 4 value
  return ⟨n.1.toNat, by omega, by omega⟩

@[simp] theorem parsePermit_num (p : Permit) : parsePermit (.num p.1) = some p := by
  have hp := p.2
  have h : (1 : ℤ) ≤ p.1 ∧ (p.1 : ℤ) ≤ 4 := by omega
  have hb : Json.bounded 1 4 (.num p.1) = some ⟨p.1, h⟩ := dif_pos h
  rw [parsePermit, hb]
  simp

/-- The fields of `row` that `keys` names, then that of `launch`, if any. -/
def IdlePreparationReservation.toJson (r : IdlePreparationReservation) : Json :=
  .obj ((keys ++ r.launch.toList.map fun _ => "launch").zip
    ([.str "prepared-reservation/v1", .ofChecked r.repoKey, .ofChecked r.repoRoot,
      .ofChecked r.ticket, .ofChecked r.operationId, .ofChecked r.reservationId,
      .num r.repositoryPermit.1, .str r.occupancy.text, .ofOption .ofChecked r.lineageId,
      r.custody.toJson, .ofOption .ofChecked r.receiptId, .ofChecked r.retainedAt] ++
      r.launch.toList.map PreparedReservationLaunch.toJson))

/-- The keys that the parser asks of a value. -/
def reservationKeys (value : Json) : List String :=
  IdlePreparationReservation.keys ++ if (Json.field "launch" value).isSome then ["launch"] else []

/-- `parseIdlePreparationReservation`. -/
def parseIdlePreparationReservation (value : Json) : Option IdlePreparationReservation := do
  let schemaVersion :: repoKey :: repoRoot :: ticket :: operationId :: reservationId ::
    repositoryPermit :: occupancy :: lineageId :: custody :: receiptId :: retainedAt :: launch ←
      Json.exactObject (reservationKeys value) value | none
  Json.literal "prepared-reservation/v1" schemaVersion
  let reservation : IdlePreparationReservation := {
    repoKey := ← Json.checked repoKeyTextOk repoKey
    repoRoot := ← workflowPath repoRoot
    ticket := ← Json.checked ticketTextOk ticket
    operationId := ← workflowSha operationId
    reservationId := ← workflowSha reservationId
    repositoryPermit := ← parsePermit repositoryPermit
    occupancy := ← parseOccupancy occupancy
    lineageId := ← nullableText lineageId
    custody := ← parseExecutionCustody custody
    receiptId := ← Json.nullable workflowSha receiptId
    retainedAt := ← workflowTimestamp retainedAt
    launch := ← launch.head?.elim (some none) fun raw => (parseLaunch raw).map some }
  Json.check reservation.Consistent
  return reservation

theorem IdlePreparationReservation.exactObject_toJson (r : IdlePreparationReservation) :
    Json.exactObject (reservationKeys r.toJson) r.toJson = some ([.str "prepared-reservation/v1", .ofChecked r.repoKey, .ofChecked r.repoRoot,
      .ofChecked r.ticket, .ofChecked r.operationId, .ofChecked r.reservationId,
      .num r.repositoryPermit.1, .str r.occupancy.text, .ofOption .ofChecked r.lineageId,
      r.custody.toJson, .ofOption .ofChecked r.receiptId, .ofChecked r.retainedAt] ++
      r.launch.toList.map PreparedReservationLaunch.toJson) := by
  obtain ⟨repoKey, repoRoot, ticket, operationId, reservationId, repositoryPermit, occupancy,
    lineageId, custody, receiptId, retainedAt, launch⟩ := r
  cases launch with
  | none =>
    have hn : (keys ++ []).Nodup := by decide +kernel
    exact Json.exactObject_zip hn rfl
  | some l =>
    have hn : (keys ++ ["launch"]).Nodup := by decide +kernel
    exact Json.exactObject_zip hn rfl

@[simp] theorem nullable_workflowSha (o : Option Sha256) :
    Json.nullable workflowSha (.ofOption .ofChecked o) = some o := Json.nullable_checked o

@[simp] theorem head_parseLaunch (o : Option PreparedReservationLaunch) :
    (o.toList.map PreparedReservationLaunch.toJson).head?.elim (some none)
      (fun raw => (parseLaunch raw).map some) = some o := by
  cases o with
  | none => rfl
  | some l => simp

/-- **What the parser accepts of the text of a reservation**: the reservation,
    if its fields are consistent. -/
theorem parseIdlePreparationReservation_toJson (r : IdlePreparationReservation) :
    parseIdlePreparationReservation r.toJson = if r.Consistent then some r else none := by
  unfold parseIdlePreparationReservation
  rw [r.exactObject_toJson]
  dsimp only [List.cons_append, List.nil_append, Option.bind_eq_bind, Option.bind_some, Option.pure_def]
  rw [Json.literal_str, Option.bind_some, Json.checked_ofChecked, Option.bind_some,
    workflowPath_ofChecked, Option.bind_some, Json.checked_ofChecked, Option.bind_some,
    workflowSha_ofChecked, Option.bind_some, workflowSha_ofChecked, Option.bind_some,
    parsePermit_num, Option.bind_some, parseOccupancy_text, Option.bind_some,
    nullableText_ofOption, Option.bind_some, parseExecutionCustody_toJson, Option.bind_some,
    nullable_workflowSha, Option.bind_some, workflowTimestamp_ofChecked, Option.bind_some,
    head_parseLaunch, Option.bind_some]
  by_cases hc : r.Consistent
  · rw [if_pos hc, Json.check_pos hc]
    rfl
  · rw [if_neg hc, Json.check, if_neg hc]
    rfl

theorem parseIdlePreparationReservation_toJson_iff {r r' : IdlePreparationReservation} :
    parseIdlePreparationReservation r.toJson = some r' ↔ r.Consistent ∧ r' = r := by
  rw [parseIdlePreparationReservation_toJson]
  split_ifs with hc
  · simp [hc, eq_comm]
  · simp [hc]

/-- The parser accepts consistent reservations only. -/
theorem parseIdlePreparationReservation_consistent {value : Json} {r : IdlePreparationReservation}
    (h : parseIdlePreparationReservation value = some r) : r.Consistent := by
  unfold parseIdlePreparationReservation at h
  obtain ⟨values, -, h⟩ := Option.bind_eq_some_iff.1 h
  split at h
  · iterate 13 obtain ⟨_, -, h⟩ := Option.bind_eq_some_iff.1 h
    obtain ⟨_, hc, h⟩ := Option.bind_eq_some_iff.1 h
    cases h
    exact Json.check_eq_some.1 hc
  · cases h

end PaPlatform.Custody
