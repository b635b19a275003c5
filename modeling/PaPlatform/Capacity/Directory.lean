/-
  The slot directory of a repository.

  A slot is stored under the digest of its ticket with the suffix `.json`, a
  reservation with the suffix `.prepared.json`.  Every call runs under the
  repository mutex; what it changed before it failed stays.  `readInventory`
  reads all records and refuses them together when two of them conflict.
-/
import PaPlatform.Capacity.Records
import PaPlatform.Lib.Table

namespace PaPlatform.Capacity

open Js Guard Effect
open Registry (trim)
open Custody (IdlePreparationReservation parseIdlePreparationReservation)

/-- Where the hook of a caller throws. -/
inductive PreparedCapacityBoundary where
  | fileSynced
  | linked
  | published
  | directorySynced
  deriving DecidableEq

/-- What the functions of `ticket-concurrency.ts` throw. -/
inductive CapacityFailure where
  | physicalRoot
  | required
  | conflictingEvidence
  | uncertainEvidence
  | inventoryConflicts
  | inventoryExceedsLimit
  | fingerprint
  | exactPath
  | invalidSlot
  | alreadyExists
  | workflow
  | oversized
  | readback
  | boundary (point : PreparedCapacityBoundary)
  | restart
  | differentCustody
  | compareAndSwap
  | identityChanged
  | transitionDenied
  | holderNotLive
  | notAuthenticated
  | intent
  | noCapacity
  deriving DecidableEq

/-! ## The directory -/

/-- A stored reservation.  While `linked`, its temporary name still exists, and
    the record cannot be read. -/
structure PreparedFile where
  reservation : IdlePreparationReservation
  linked : Bool
  deriving DecidableEq

/-- The records by the digest of their ticket. -/
@[ext]
structure Directory where
  slots : AList fun _ : String => RepositoryTicketSlot
  reservations : AList fun _ : String => PreparedFile
  deriving DecidableEq

/-- A record and its name without the suffix. -/
structure File where
  name : String
  row : CapacityRow
  linked : Bool

namespace Directory

def empty : Directory := ⟨∅, ∅⟩

def slotFile (e : (_ : String) × RepositoryTicketSlot) : File := ⟨e.1, .slot e.2, false⟩

def reservationFile (e : (_ : String) × PreparedFile) : File :=
  ⟨e.1, .reservation e.2.reservation, e.2.linked⟩

/-- `ticketEvidencePaths`.  The order of the files decides nothing but which of
    several failures a call reports. -/
def files (d : Directory) : List File :=
  d.slots.entries.map slotFile ++ d.reservations.entries.map reservationFile

/-- The stored records. -/
def rows (d : Directory) : List CapacityRow :=
  (Table.values d.slots).map .slot ++
    (Table.values d.reservations).map fun f => .reservation f.reservation

def putSlot (d : Directory) (name : String) (s : RepositoryTicketSlot) : Directory :=
  { d with slots := d.slots.insert name s }

def removeSlot (d : Directory) (name : String) : Directory :=
  { d with slots := d.slots.erase name }

def putReservation (d : Directory) (name : String) (f : PreparedFile) : Directory :=
  { d with reservations := d.reservations.insert name f }

def removeReservation (d : Directory) (name : String) : Directory :=
  { d with reservations := d.reservations.erase name }

variable {d : Directory} {name other : String} {s : RepositoryTicketSlot} {f : PreparedFile}
  {row : CapacityRow}

theorem rows_files : d.files.map (·.row) = d.rows := by
  simp [files, rows, Table.values, slotFile, reservationFile, Function.comp_def]

theorem mem_rows : row ∈ d.rows ↔ (∃ n s, d.slots.lookup n = some s ∧ row = .slot s) ∨
    ∃ n f, d.reservations.lookup n = some f ∧ row = .reservation f.reservation := by
  rw [rows, List.mem_append, List.mem_map, List.mem_map]
  constructor
  · rintro (⟨s, hs, rfl⟩ | ⟨f, hf, rfl⟩)
    · obtain ⟨n, hn⟩ := Table.mem_values.1 hs
      exact .inl ⟨n, s, hn, rfl⟩
    · obtain ⟨n, hn⟩ := Table.mem_values.1 hf
      exact .inr ⟨n, f, hn, rfl⟩
  · rintro (⟨n, s, hs, rfl⟩ | ⟨n, f, hf, rfl⟩)
    · exact .inl ⟨s, Table.mem_values.2 ⟨n, hs⟩, rfl⟩
    · exact .inr ⟨f, Table.mem_values.2 ⟨n, hf⟩, rfl⟩

theorem rows_putSlot : (d.putSlot name s).rows = .slot s :: (d.removeSlot name).rows := rfl

theorem rows_putReservation :
    (d.putReservation name f).rows.Perm (.reservation f.reservation :: (d.removeReservation name).rows) :=
  List.perm_middle

theorem perm_removeSlot (h : d.slots.lookup name = some s) :
    d.rows.Perm (.slot s :: (d.removeSlot name).rows) :=
  ((Table.perm_values h).map _).append_right _

theorem perm_removeReservation (h : d.reservations.lookup name = some f) :
    d.rows.Perm (.reservation f.reservation :: (d.removeReservation name).rows) :=
  (((Table.perm_values h).map _).append_left _).trans List.perm_middle

theorem removeSlot_of_none (h : d.slots.lookup name = none) : d.removeSlot name = d := by
  rw [removeSlot, Table.erase_of_lookup_none h]

theorem removeReservation_of_none (h : d.reservations.lookup name = none) :
    d.removeReservation name = d := by
  rw [removeReservation, Table.erase_of_lookup_none h]

@[simp] theorem slots_putReservation : (d.putReservation name f).slots = d.slots := rfl

@[simp] theorem reservations_putSlot : (d.putSlot name s).reservations = d.reservations := rfl

@[simp] theorem reservations_removeSlot : (d.removeSlot name).reservations = d.reservations := rfl

theorem lookup_putSlot : (d.putSlot name s).slots.lookup other =
    if other = name then some s else d.slots.lookup other := Table.lookup_insert_eq

theorem lookup_putReservation : (d.putReservation name f).reservations.lookup other =
    if other = name then some f else d.reservations.lookup other := Table.lookup_insert_eq

end Directory

/-! ## Names -/

/-- `required`: the text without the blanks around it. -/
def required (s : String) : Except CapacityFailure String := do
  throwIf ((trim s).isEmpty ∨ stringLimit < utf16Length (trim s)) .required
  return trim s

section
-- `createHash("sha256").update(text).digest("hex")`
variable (digest : String → String)

/-- The name of the records of a ticket, without the suffix. -/
def fileName (ticket : String) : Except CapacityFailure String := do
  let ticket ← required ticket
  return digest ticket

theorem fileName_ok {ticket name : String} (h : fileName digest ticket = .ok name) :
    name = digest (trim ticket) := by
  simp only [fileName, required, bind_eq_ok, throwIf_eq_ok, pure_eq_ok] at h
  obtain ⟨_, ⟨-, -, rfl⟩, rfl⟩ := h
  rfl

/-! ## Reading all records -/

/-- What is known of a record. -/
inductive Inspection where
  | live (slot : RepositoryTicketSlot)
  | stale (slot : RepositoryTicketSlot)
  | prepared (reservation : IdlePreparationReservation)
  | uncertain

/-- `inspectSlot`. -/
def inspectSlot (getProcessFingerprint : ℤ → Option ProcessFingerprint) (f : File) : Inspection :=
  match f.row with
  | .slot s =>
    if isSlot s then
      if fingerprintsEqual s.processFingerprint (getProcessFingerprint s.processFingerprint.pid) then
        .live s
      else .stale s
    else .uncertain
  | .reservation r =>
    if f.linked then .uncertain
    else (parseIdlePreparationReservation r.toJson).elim .uncertain .prepared

/-- The row of an inspected record; a stale slot counts only if `stale`. -/
def Inspection.row (stale : Bool) : Inspection → Option CapacityRow
  | .live s => some (.slot s)
  | .stale s => if stale then some (.slot s) else none
  | .prepared r => some (.reservation r)
  | .uncertain => none

variable (getProcessFingerprint : ℤ → Option ProcessFingerprint) (stale : Bool) (root key : String)

/-- One more record of an inventory. -/
def addRow (rows : List CapacityRow) (f : File) : Except CapacityFailure (List CapacityRow) := do
  let row ← require ((inspectSlot getProcessFingerprint f).row stale) .uncertainEvidence
  throwIf (row.repoRoot ≠ root ∨ row.repoKey ≠ key) .inventoryConflicts
  let name ← fileName digest row.ticket
  throwIf (f.name ≠ name ∨ ∃ other ∈ rows, capacityRowsConflict other row) .inventoryConflicts
  return rows ++ [row]

/-- The loops of `acquireRepositoryTicketSlot` and of `inventory`. -/
def readInventory (d : Directory) : Except CapacityFailure (List CapacityRow) :=
  d.files.foldlM (addRow digest getProcessFingerprint stale root key) []

variable {digest getProcessFingerprint stale root key} {f : File} {d : Directory}
  {row : CapacityRow} {rows rows' : List CapacityRow}

theorem inspectSlot_row (h : (inspectSlot getProcessFingerprint f).row stale = some row) :
    row = f.row ∧ f.linked = false ∨ row = f.row ∧ ∃ s, f.row = .slot s := by
  unfold inspectSlot at h
  cases hrow : f.row with
  | slot s =>
    right
    refine ⟨?_, s, rfl⟩
    rw [hrow] at h
    dsimp only at h
    split_ifs at h with h1 h2
    · exact (Option.some.inj h).symm
    · rw [Inspection.row] at h
      split_ifs at h
      exact (Option.some.inj h).symm
    · cases h
  | reservation r =>
    left
    rw [hrow] at h
    dsimp only at h
    split_ifs at h with hl
    · cases h
    · refine ⟨?_, by simpa using hl⟩
      cases hp : parseIdlePreparationReservation r.toJson with
      | none => simp [hp, Inspection.row] at h
      | some r' =>
        obtain ⟨-, rfl⟩ := Custody.parseIdlePreparationReservation_toJson_iff.1 hp
        simp only [hp, Option.elim_some, Inspection.row, Option.some.injEq] at h
        exact h.symm

/-- What a record of an inventory is known to satisfy. -/
structure Filed (digest : String → String) (root key : String) (f : File) : Prop where
  name : f.name = digest (trim f.row.ticket)
  readable : f.linked = false ∨ ∃ s, f.row = .slot s
  root : f.row.repoRoot = root
  key : f.row.repoKey = key

theorem addRow_ok (h : addRow digest getProcessFingerprint stale root key rows f = .ok rows') :
    rows' = rows ++ [f.row] ∧ Filed digest root key f ∧
      ∀ other ∈ rows, ¬ capacityRowsConflict other f.row := by
  simp only [addRow, bind_eq_ok, require_eq_ok, throwIf_eq_ok, pure_eq_ok] at h
  obtain ⟨row, hrow, _, hid, name, hname, _, hname', rfl⟩ := h
  have hf : row = f.row ∧ (f.linked = false ∨ ∃ s, f.row = .slot s) := by
    rcases inspectSlot_row hrow with ⟨h, h'⟩ | ⟨h, h'⟩
    · exact ⟨h, .inl h'⟩
    · exact ⟨h, .inr h'⟩
  obtain ⟨rfl, hread⟩ := hf
  rw [not_or, not_not, not_not] at hid
  rw [not_or, not_not, not_exists] at hname'
  refine ⟨rfl, ⟨?_, hread, hid.1, hid.2⟩, fun other hother hc => hname'.2 other ⟨hother, hc⟩⟩
  rw [hname'.1, fileName_ok digest hname]

theorem foldlM_addRow {l : List File}
    (h : l.foldlM (addRow digest getProcessFingerprint stale root key) rows = .ok rows')
    (hr : rows.Pairwise fun a b => ¬ capacityRowsConflict a b) :
    rows' = rows ++ l.map (·.row) ∧ (∀ f ∈ l, Filed digest root key f) ∧
      rows'.Pairwise fun a b => ¬ capacityRowsConflict a b := by
  induction l generalizing rows with
  | nil =>
    cases h
    exact ⟨by simp, by simp, hr⟩
  | cons f l ih =>
    rw [List.foldlM_cons, bind_eq_ok] at h
    obtain ⟨rows₁, h₁, h⟩ := h
    obtain ⟨rfl, hf, hno⟩ := addRow_ok h₁
    have hp : (rows ++ [f.row]).Pairwise fun a b => ¬ capacityRowsConflict a b := by
      rw [List.pairwise_append]
      refine ⟨hr, List.pairwise_singleton _ _, ?_⟩
      intro a ha b hb
      rw [List.mem_singleton.1 hb]
      exact hno a ha
    obtain ⟨rfl, hl, hrows⟩ := ih h hp
    refine ⟨by simp, ?_, hrows⟩
    intro g hg
    rcases List.mem_cons.1 hg with rfl | hg
    · exact hf
    · exact hl g hg

/-- **An inventory is the stored records**, which do not conflict and stand under
    the names of their tickets. -/
theorem readInventory_ok
    (h : readInventory digest getProcessFingerprint stale root key d = .ok rows) :
    rows = d.rows ∧ (∀ f ∈ d.files, Filed digest root key f) ∧
      d.rows.Pairwise fun a b => ¬ capacityRowsConflict a b := by
  obtain ⟨h1, h2, h3⟩ := foldlM_addRow h .nil
  rw [List.nil_append, Directory.rows_files] at h1
  subst h1
  exact ⟨rfl, h2, h3⟩

end

end PaPlatform.Capacity
