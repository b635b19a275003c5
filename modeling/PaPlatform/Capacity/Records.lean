/-
  The records of `deploy/ticket-concurrency.ts`.

  A ticket holds one of the four permits of its repository, either by the slot
  of a running builder or by a prepared reservation.  `capacityRowsConflict`
  says when two records cannot stand beside each other.
-/
import PaPlatform.Custody.Reservation
import PaPlatform.Registry.Operations
import PaPlatform.Lib.Effect

namespace PaPlatform.Capacity

open Js
open Custody (ExecutionHolder ExecutionCustody IdlePreparationReservation)

/-! ## Slots -/

/-- A process, as the operating system reports it. -/
structure ProcessFingerprint where
  pid : ℤ
  startTimeTicks : String
  bootId : String
  deriving DecidableEq

structure OrdinaryMaterializationIntent where
  baselineSha256 : String
  worktreeRoot : String
  branch : String
  baseSha : String
  operationId : String
  deriving DecidableEq

structure RepositoryTicketSlot where
  slotToken : String
  slotId : String
  canonicalRepoKey : String
  canonicalRepoRoot : String
  ticket : String
  deploymentId : String
  deploymentDirectory : String
  repositoryPermit : Permit
  processFingerprint : ProcessFingerprint
  acquiredAt : String
  materializationIntent : Option OrdinaryMaterializationIntent
  deriving DecidableEq

/-- `STRING_LIMIT`. -/
def stringLimit : ℕ := 4096

def bounded (s : String) : Bool := !s.isEmpty && utf16Length s ≤ stringLimit

/-- `isAbsolute`. -/
def isAbsolute (s : String) : Bool := startsWith s "/"

def isFingerprint (p : ProcessFingerprint) : Bool :=
  0 < p.pid && bounded p.startTimeTicks && bounded p.bootId

def isOrdinaryIntent (i : OrdinaryMaterializationIntent) : Bool :=
  hexOk 64 i.operationId && hexOk 64 i.baselineSha256 && hexOk 40 i.baseSha && bounded i.branch &&
    bounded i.worktreeRoot && isAbsolute i.worktreeRoot

def isSlot (s : RepositoryTicketSlot) : Bool :=
  bounded s.slotToken && bounded s.slotId && bounded s.canonicalRepoKey &&
    bounded s.canonicalRepoRoot && isAbsolute s.canonicalRepoRoot && bounded s.ticket &&
    s.slotId == "pa:" ++ s.canonicalRepoKey ++ ":" ++ s.ticket && bounded s.deploymentId &&
    bounded s.deploymentDirectory && isAbsolute s.deploymentDirectory &&
    isFingerprint s.processFingerprint && (dateParse s.acquiredAt).isSome &&
    s.materializationIntent.all isOrdinaryIntent

def fingerprintsEqual (left : ProcessFingerprint) (right : Option ProcessFingerprint) : Bool :=
  right = some left

def ProcessFingerprint.toJson (p : ProcessFingerprint) : Json :=
  .obj [("pid", .num p.pid), ("startTimeTicks", .str p.startTimeTicks), ("bootId", .str p.bootId)]

def OrdinaryMaterializationIntent.toJson (i : OrdinaryMaterializationIntent) : Json :=
  .obj [("schemaVersion", .str "ordinary-materialization/v1"),
    ("baselineSha256", .str i.baselineSha256), ("worktreeRoot", .str i.worktreeRoot),
    ("branch", .str i.branch), ("baseSha", .str i.baseSha), ("operationId", .str i.operationId)]

def RepositoryTicketSlot.toJson (s : RepositoryTicketSlot) : Json :=
  .obj ([("schemaVersion", .num 1), ("slotToken", .str s.slotToken), ("slotId", .str s.slotId),
    ("canonicalRepoKey", .str s.canonicalRepoKey), ("canonicalRepoRoot", .str s.canonicalRepoRoot),
    ("ticket", .str s.ticket), ("deploymentId", .str s.deploymentId),
    ("deploymentDirectory", .str s.deploymentDirectory), ("repositoryPermit", .num s.repositoryPermit.1),
    ("processFingerprint", s.processFingerprint.toJson), ("acquiredAt", .str s.acquiredAt)] ++
    s.materializationIntent.toList.map fun i => ("materializationIntent", i.toJson))

/-- `MAX_REPOSITORY_TICKET_SLOT_BYTES`. -/
def maxRepositoryTicketSlotBytes : ℕ := 64 * 1024

/-- The check of `assertSlot`. -/
def slotFits (s : RepositoryTicketSlot) : Bool :=
  isSlot s && (Json.pretty 0 s.toJson).utf8ByteSize + 1 ≤ maxRepositoryTicketSlotBytes

/-- The number of bytes that `publishPreparedCapacity` writes. -/
def reservationBytes (r : IdlePreparationReservation) : ℕ := r.toJson.stringify.utf8ByteSize + 1

/-! ## Identities of a handoff -/

structure RepositoryTicketSlotHandoff where
  canonicalRepoKey : String
  canonicalRepoRoot : String
  ticket : String
  slotToken : String
  slotId : String
  repositoryPermit : Permit
  deriving DecidableEq

def slotMatchesHandoff (s : RepositoryTicketSlot) (h : RepositoryTicketSlotHandoff) : Bool :=
  s.canonicalRepoKey == h.canonicalRepoKey && s.canonicalRepoRoot == h.canonicalRepoRoot &&
    s.ticket == h.ticket && s.slotId == h.slotId && s.repositoryPermit == h.repositoryPermit

/-! ## The view of a reservation as a slot -/

/-- The fingerprint of a holder. -/
def fingerprintOf (p : Custody.ProcessFingerprint) : ProcessFingerprint :=
  ⟨p.pid.1, p.startTimeTicks.1, p.bootId.1⟩

/-- What reading a slot gives: `undefined`, `null` or a slot. -/
inductive SlotRead where
  | absent
  | invalid
  | found (slot : RepositoryTicketSlot)
  deriving DecidableEq

/-- The view of an active reservation that runs under `holder`. -/
def slotView (r : IdlePreparationReservation) (launch : Custody.PreparedReservationLaunch)
    (holder : ExecutionHolder) : RepositoryTicketSlot where
  slotToken := launch.slotToken.1
  slotId := "pa:" ++ r.repoKey.1 ++ ":" ++ r.ticket.1
  canonicalRepoKey := r.repoKey.1
  canonicalRepoRoot := r.repoRoot.1
  ticket := r.ticket.1
  deploymentId := holder.deploymentId.1
  deploymentDirectory := launch.deploymentDirectory.1
  repositoryPermit := r.repositoryPermit
  processFingerprint := fingerprintOf holder.process
  acquiredAt := launch.acquiredAt.1
  materializationIntent := none

/-- `preparedSlotView`, of the text of a reservation. -/
def preparedSlotView (value : Json) : SlotRead :=
  match Custody.parseIdlePreparationReservation value with
  | none => .invalid
  | some r =>
    match r.occupancy, r.launch, r.custody with
    | .settledRetained, _, _ => .absent
    | .active, some launch, .held .orchestratorDirect holder none => .found (slotView r launch holder)
    | _, _, _ => .invalid

/-! ## Rows -/

/-- A record of the inventory. -/
inductive CapacityRow where
  | slot (slot : RepositoryTicketSlot)
  | reservation (reservation : IdlePreparationReservation)
  deriving DecidableEq

namespace CapacityRow

def ticket : CapacityRow → String
  | slot s => s.ticket
  | reservation r => r.ticket.1

def repositoryPermit : CapacityRow → Permit
  | slot s => s.repositoryPermit
  | reservation r => r.repositoryPermit

/-- `canonicalRepoRoot` or `repoRoot`. -/
def repoRoot : CapacityRow → String
  | slot s => s.canonicalRepoRoot
  | reservation r => r.repoRoot.1

/-- `canonicalRepoKey` or `repoKey`. -/
def repoKey : CapacityRow → String
  | slot s => s.canonicalRepoKey
  | reservation r => r.repoKey.1

@[simp] theorem ticket_slot (s : RepositoryTicketSlot) : (slot s).ticket = s.ticket := rfl

@[simp] theorem ticket_reservation (r : IdlePreparationReservation) :
    (reservation r).ticket = r.ticket.1 := rfl

@[simp] theorem permit_slot (s : RepositoryTicketSlot) :
    (slot s).repositoryPermit = s.repositoryPermit := rfl

@[simp] theorem permit_reservation (r : IdlePreparationReservation) :
    (reservation r).repositoryPermit = r.repositoryPermit := rfl

end CapacityRow

/-- The operation, the reservation or the lineage of two reservations is one. -/
def SameOperation : CapacityRow → CapacityRow → Prop
  | .reservation l, .reservation r => l.operationId = r.operationId ∨
      l.reservationId = r.reservationId ∨ (l.lineageId ≠ none ∧ l.lineageId = r.lineageId)
  | _, _ => False

instance (l r : CapacityRow) : Decidable (SameOperation l r) := by
  unfold SameOperation
  split <;> infer_instance

def capacityRowsConflict (left right : CapacityRow) : Prop :=
  left.ticket = right.ticket ∨ left.repositoryPermit = right.repositoryPermit ∨
    SameOperation left right

instance (l r : CapacityRow) : Decidable (capacityRowsConflict l r) := by
  unfold capacityRowsConflict
  infer_instance

theorem SameOperation.symm {l r : CapacityRow} (h : SameOperation l r) : SameOperation r l := by
  cases l with
  | slot s => exact h.elim
  | reservation l =>
    cases r with
    | slot s => exact h.elim
    | reservation r =>
      rcases h with h | h | ⟨h, h'⟩
      · exact .inl h.symm
      · exact .inr (.inl h.symm)
      · exact .inr (.inr ⟨h' ▸ h, h'.symm⟩)

theorem capacityRowsConflict.symm {l r : CapacityRow} (h : capacityRowsConflict l r) :
    capacityRowsConflict r l := by
  rcases h with h | h | h
  · exact .inl h.symm
  · exact .inr (.inl h.symm)
  · exact .inr (.inr h.symm)

end PaPlatform.Capacity
