/-
  The records of the ticket store.

  A record is read back through `normalizeTicket`, which fills what is missing.
  `none` stands for `undefined`: a field that is `undefined` is not written, so
  it is missing when the record is read.
-/
import PaPlatform.Registry.Rows
import PaPlatform.Lib.Effect

namespace PaPlatform.Tickets

open Guard
open Registry (DateReader isoDates)

inductive TicketStatus where
  | idea
  | requirementReview
  | pendingApproval
  | pendingImplementation
  | implementing
  | reviewUat
  | done
  | rejected
  | cancelled
  deriving DecidableEq, Repr

/-- `TERMINAL_STATUSES.includes`. -/
def TicketStatus.isTerminal : TicketStatus → Bool
  | done | rejected | cancelled => true
  | _ => false

inductive TicketPriority where
  | critical
  | high
  | medium
  | low
  deriving DecidableEq, Repr

inductive TicketType where
  | feature
  | bug
  | task
  | reviewRequest
  | workReport
  | fyi
  | idea
  | question
  deriving DecidableEq, Repr

inductive Estimate where
  | XS
  | S
  | M
  | L
  | XL
  deriving DecidableEq, Repr

inductive SubTicketStatus where
  | «open»
  | inProgress
  | done
  deriving DecidableEq, Repr

inductive LinkedBranchState where
  | planned
  | materialized
  deriving DecidableEq, Repr

/-! ## Records -/

structure LinkedBranch where
  repo : String
  branch : String
  state : LinkedBranchState
  baseSha : Option String
  headSha : Option String
  sha : Option String
  linkedAt : String
  linkedBy : String
  deriving DecidableEq

/-- What `normalizeLinkedBranches` reads of an entry. -/
structure RawLinkedBranch where
  repo : Option String
  branch : Option String
  state : Option LinkedBranchState
  baseSha : Option String
  headSha : Option String
  sha : Option String
  linkedAt : Option String
  linkedBy : Option String
  deriving DecidableEq

structure LinkedCommit where
  repo : String
  sha : String
  message : String
  author : String
  timestamp : String
  linkedAt : String
  linkedBy : String
  deriving DecidableEq

/-- An update may leave the fields of a sub-ticket `undefined`. -/
structure SubTicket where
  id : String
  title : Option String
  summary : Option String
  status : Option SubTicketStatus
  assignee : Option String
  priority : Option TicketPriority
  estimate : Option Estimate
  createdAt : String
  updatedAt : String
  deriving DecidableEq

structure Comment where
  id : String
  author : String
  content : String
  timestamp : String
  editedAt : Option String
  deriving DecidableEq

structure DocRef where
  type : String
  path : String
  primary : Bool
  addedAt : String
  addedBy : String
  title : Option String
  deriving DecidableEq

structure Ticket where
  id : String
  project : String
  title : String
  summary : String
  description : String
  status : TicketStatus
  priority : TicketPriority
  type : TicketType
  assignee : String
  estimate : Estimate
  «from» : String
  «to» : String
  tags : List String
  blockedBy : List String
  doc_refs : List DocRef
  linkedBranches : List LinkedBranch
  linkedCommits : List LinkedCommit
  comments : List Comment
  subTickets : List SubTicket
  nextSubTicketCounter : ℕ
  createdAt : String
  updatedAt : String
  resolvedAt : Option String
  deriving DecidableEq

/-- The argument of `normalizeTicket`. -/
structure RawTicket where
  id : Option String
  project : Option String
  title : Option String
  summary : Option String
  description : Option String
  status : Option TicketStatus
  priority : Option TicketPriority
  type : Option TicketType
  assignee : Option String
  estimate : Option Estimate
  «from» : Option String
  «to» : Option String
  tags : Option (List String)
  blockedBy : Option (List String)
  doc_refs : Option (List DocRef)
  linkedBranches : Option (List RawLinkedBranch)
  linkedCommits : Option (List LinkedCommit)
  comments : Option (List Comment)
  subTickets : Option (List SubTicket)
  nextSubTicketCounter : Option ℕ
  createdAt : Option String
  updatedAt : Option String
  resolvedAt : Option String

/-- An entry as it is read back. -/
def LinkedBranch.toRaw (b : LinkedBranch) : RawLinkedBranch :=
  ⟨some b.repo, some b.branch, some b.state, b.baseSha, b.headSha, b.sha, some b.linkedAt,
    some b.linkedBy⟩

/-- A record as it is read back. -/
def Ticket.toRaw (t : Ticket) : RawTicket where
  id := some t.id
  project := some t.project
  title := some t.title
  summary := some t.summary
  description := some t.description
  status := some t.status
  priority := some t.priority
  type := some t.type
  assignee := some t.assignee
  estimate := some t.estimate
  «from» := some t.from
  «to» := some t.to
  tags := some t.tags
  blockedBy := some t.blockedBy
  doc_refs := some t.doc_refs
  linkedBranches := some (t.linkedBranches.map LinkedBranch.toRaw)
  linkedCommits := some t.linkedCommits
  comments := some t.comments
  subTickets := some t.subTickets
  nextSubTicketCounter := some t.nextSubTicketCounter
  createdAt := some t.createdAt
  updatedAt := some t.updatedAt
  resolvedAt := t.resolvedAt

/-! ## Inputs -/

/-- A property of an update: absent (`none`), `undefined` (`some none`) or a
    value. -/
abbrev Patch (α : Type) := Option (Option α)

/-- The property of `{ ...current, ...rest }`. -/
def Patch.over {α : Type} (p : Patch α) (current : Option α) : Option α := p.getD current

structure CreateTicketInput where
  project : String
  title : String
  summary : String
  description : String
  status : TicketStatus
  priority : TicketPriority
  type : TicketType
  assignee : String
  estimate : Estimate
  «from» : String
  «to» : String
  tags : List String
  blockedBy : List String
  doc_refs : List DocRef
  comments : List Comment
  resolvedAt : Option String
  linkedBranches : Option (List RawLinkedBranch)
  linkedCommits : Option (List LinkedCommit)

structure AddDocRefInput where
  type : Option String
  path : String
  primary : Option Bool
  addedBy : Option String

structure AddLinkedBranchInput where
  repo : String
  branch : String
  linkedBy : Option String

structure AddLinkedCommitInput where
  repo : String
  sha : String
  message : Option String
  author : Option String
  timestamp : Option String
  linkedBy : Option String

/-- `UpdateTicketInput`.  Its `updatedAt` is never used; `linkedBranches` says
    whether the input has that property. -/
structure UpdateTicketInput where
  title : Patch String
  summary : Patch String
  description : Patch String
  status : Patch TicketStatus
  priority : Patch TicketPriority
  type : Patch TicketType
  assignee : Patch String
  estimate : Patch Estimate
  «from» : Patch String
  «to» : Patch String
  tags : Patch (List String)
  blockedBy : Patch (List String)
  doc_refs : Patch (List DocRef)
  linkedCommits : Patch (List LinkedCommit)
  comments : Patch (List Comment)
  resolvedAt : Patch String
  linkedBranches : Bool
  add_doc_ref : Option AddDocRefInput
  remove_doc_ref : Option String
  add_linked_branch : Option AddLinkedBranchInput
  remove_linked_branch : Option String
  add_linked_commit : Option AddLinkedCommitInput
  remove_linked_commit : Option String

/-- `{}`. -/
def UpdateTicketInput.empty : UpdateTicketInput :=
  ⟨none, none, none, none, none, none, none, none, none, none, none, none, none, none, none, none,
    false, none, none, none, none, none, none⟩

structure AddSubTicketInput where
  title : String
  summary : String
  assignee : String
  priority : TicketPriority
  estimate : Estimate

structure UpdateSubTicketInput where
  title : Patch String
  summary : Patch String
  status : Patch SubTicketStatus
  assignee : Patch String
  priority : Patch TicketPriority
  estimate : Patch Estimate

structure TicketListFilters where
  project : Option String
  status : Option TicketStatus
  assignee : Option String
  priority : Option TicketPriority
  type : Option TicketType
  tags : Option (List String)
  excludeTags : Option (List String)
  excludeTypes : Option (List TicketType)
  search : Option String

structure TicketMutationContext where
  team : Option String
  mode : Option String
  privileged : Option Bool

/-! ## Outside -/

/-- The reader of dates.  A date is not written as the empty text. -/
structure Clock where
  dates : DateReader
  normalize_ne : ∀ {t u}, dates.normalize t = some u → u ≠ ""

theorem isoDates_ne {t u : String} (h : isoDates.normalize t = some u) : u ≠ "" := by
  rintro rfl
  obtain ⟨ms, hms, ht⟩ := Option.bind_eq_some_iff.1 h
  split_ifs at ht
  cases ht
  have hnone : Js.dateParse "" = none := by decide
  rw [hnone] at hms
  cases hms

/-- The clock whose dates are the texts that `toISOString` writes. -/
def isoClock : Clock := ⟨isoDates, isoDates_ne⟩

/-- What a call asks the host for. -/
structure Host (clock : Clock) where
  nowUtc : String
  nowUtc_normal : clock.dates.normalize nowUtc = some nowUtc
  /-- The key and the prefix of a project. -/
  resolveProject : String → Option (String × String)
  /-- For the id and the project of a ticket, and an actor. -/
  resolveLinkedBranch : AddLinkedBranchInput → String → String → String → Except String LinkedBranch
  resolveLinkedCommit : AddLinkedCommitInput → String → Except String LinkedCommit

/-- What the store throws. -/
inductive TicketError where
  | lifecycleOwnership
  | linkedBranchesReplacement
  | ticketNotFound (id : String)
  | commentNotFound (commentId : String)
  | subTicketNotFound (subTicketId : String)
  | unknownProject (input : String)
  | invalidTimestamp (value : String)
  | notCanonical
  | subTicketsOpen (id : String)
  | cannotArchive (id : String) (status : TicketStatus)
  /-- A method of `undefined`. -/
  | typeError
  | ambiguousRemoval (id selector : String) (count : ℕ)
  | ambiguousBranch (id repo : String)
  | duplicateBranch (id : String) (count : ℕ)
  | duplicatePlanned (id : String)
  | branchDisappeared
  | evidence (message : String)
  | readbackDiffers
  | postcondition (id : String) (selector : Option String) (restored : Bool)
  deriving DecidableEq

namespace Sample

def time : String := "2026-03-01T00:00:00.000Z"

theorem time_normal : isoClock.dates.normalize time = some time := by decide +kernel

/-- A host with the projects `pa` and `ops`. -/
def host : Host isoClock where
  nowUtc := time
  nowUtc_normal := time_normal
  resolveProject project :=
    if project = "pa" then some ("pa", "PA")
    else if project = "ops" then some ("ops", "OPS") else none
  resolveLinkedBranch _ _ _ _ := .error "no repository"
  resolveLinkedCommit _ _ := .error "no repository"

def context : TicketMutationContext := ⟨none, none, some true⟩

/-- A ticket of the project `pa`. -/
def input (status : TicketStatus) : CreateTicketInput :=
  ⟨"pa", "a ticket", "", "", status, .medium, .task, "", .M, "", "", [], [], [], [], none, none, none⟩

end Sample

end PaPlatform.Tickets
