/-
  `TicketStore`.

  The directory holds a file for each id: a ticket, or an alias of the id that
  the ticket was moved to.  Every call runs in one transaction; what it wrote
  before it failed stays.
-/
import PaPlatform.Tickets.Types
import PaPlatform.Lib.Chase

namespace PaPlatform.Tickets

open Guard Effect
open Registry (DateReader)

/-- A file of the directory. -/
inductive TicketFile where
  | ticket (t : Ticket)
  | moved (movedTo movedAt movedBy : String)
  deriving DecidableEq

/-- The files by id, and `counter.json`. -/
@[ext]
structure Store where
  files : AList fun _ : String => TicketFile
  counters : AList fun _ : String => ℕ

/-- A directory without files. -/
def Store.empty : Store := ⟨∅, ∅⟩

abbrev Op := Eff Store TicketError

variable {clock : Clock}

/-! ## Normalization -/

/-- `nonEmptyString`. -/
def nonEmptyString (value : Option String) : Option String := value.filter (· ≠ "")

/-- `parseTimestamp(value).toISOString()`. -/
def toISOString (clock : Clock) (value : String) : Except TicketError String :=
  require (clock.dates.normalize value) (.invalidTimestamp value)

def normalizeTimestamp (host : Host clock) (value : Option String) : Except TicketError String :=
  match nonEmptyString value with
  | some v => toISOString clock v
  | none => .ok host.nowUtc

def normalizeOptionalTimestamp (clock : Clock) (value : Option String) :
    Except TicketError (Option String) :=
  match nonEmptyString value with
  | some v => do
    let t ← toISOString clock v
    return some t
  | none => .ok none

def normalizeDocRef (host : Host clock) (ref : DocRef) : Except TicketError DocRef := do
  let addedAt ← normalizeTimestamp host (some ref.addedAt)
  return { ref with addedAt := addedAt }

def normalizeComment (host : Host clock) (comment : Comment) : Except TicketError Comment := do
  let timestamp ← normalizeTimestamp host (some comment.timestamp)
  match nonEmptyString comment.editedAt with
  | none => return { comment with timestamp := timestamp }
  | some e => do
    let editedAt ← normalizeTimestamp host (some e)
    return { comment with timestamp := timestamp, editedAt := some editedAt }

def normalizeSubTicket (host : Host clock) (subTicket : SubTicket) : Except TicketError SubTicket := do
  let createdAt ← normalizeTimestamp host (some subTicket.createdAt)
  let updatedAt ← normalizeTimestamp host (some subTicket.updatedAt)
  return { subTicket with createdAt := createdAt, updatedAt := updatedAt }

def normalizeLinkedBranch (host : Host clock) (branch : RawLinkedBranch) :
    Except TicketError LinkedBranch := do
  let headSha := nonEmptyString branch.headSha <|> nonEmptyString branch.sha
  let state := branch.state.getD (if headSha.isSome then .materialized else .planned)
  let linkedAt ← normalizeTimestamp host branch.linkedAt
  return ⟨branch.repo.getD "", branch.branch.getD "", state, nonEmptyString branch.baseSha, headSha,
    headSha, linkedAt, branch.linkedBy.getD "pa-core"⟩

def normalizeLinkedCommit (host : Host clock) (commit : LinkedCommit) :
    Except TicketError LinkedCommit := do
  let timestamp ← normalizeTimestamp host (some commit.timestamp)
  let linkedAt ← normalizeTimestamp host (some commit.linkedAt)
  return { commit with timestamp := timestamp, linkedAt := linkedAt }

def normalizeTicket (host : Host clock) (raw : RawTicket) : Except TicketError Ticket := do
  let doc_refs ← (raw.doc_refs.getD []).mapM (normalizeDocRef host)
  let linkedBranches ← (raw.linkedBranches.getD []).mapM (normalizeLinkedBranch host)
  let linkedCommits ← (raw.linkedCommits.getD []).mapM (normalizeLinkedCommit host)
  let comments ← (raw.comments.getD []).mapM (normalizeComment host)
  let subTickets ← (raw.subTickets.getD []).mapM (normalizeSubTicket host)
  let createdAt ← normalizeTimestamp host raw.createdAt
  let updatedAt ← normalizeTimestamp host raw.updatedAt
  let resolvedAt ← normalizeOptionalTimestamp clock raw.resolvedAt
  return {
    id := raw.id.getD ""
    project := raw.project.getD "unknown"
    title := raw.title.getD "(untitled)"
    summary := raw.summary.getD ""
    description := raw.description.getD ""
    status := raw.status.getD .idea
    priority := raw.priority.getD .medium
    type := raw.type.getD .task
    assignee := raw.assignee.getD ""
    estimate := raw.estimate.getD .M
    «from» := raw.from.getD ""
    «to» := raw.to.getD ""
    tags := raw.tags.getD []
    blockedBy := raw.blockedBy.getD []
    doc_refs := doc_refs
    linkedBranches := linkedBranches
    linkedCommits := linkedCommits
    comments := comments
    subTickets := subTickets
    nextSubTicketCounter := raw.nextSubTicketCounter.getD 0
    createdAt := createdAt
    updatedAt := updatedAt
    resolvedAt := resolvedAt }

/-! ## Files -/

/-- What a file says about its id.  An id that is not canonical has no path,
    and a ticket under another id is none. -/
def readFile (id : String) : TicketFile → Option (String ⊕ Ticket)
  | .moved movedTo _ _ => if isCanonicalTicketId movedTo then some (.inl movedTo) else none
  | .ticket t => if t.id = id then some (.inr t) else none

/-- `readTicket` before it normalizes: it follows the aliases and reads no file
    twice. -/
def readTicket (s : Store) (id : String) : Option Ticket :=
  if isCanonicalTicketId id then Chase.chase readFile s.files.entries.length s.files id
  else none

def Store.get (s : Store) (host : Host clock) (id : String) : Except TicketError (Option Ticket) :=
  match readTicket s id with
  | none => .ok none
  | some t => do
    let t ← normalizeTicket host t.toRaw
    return some t

/-- `this.get(id)`, or the error that there is no ticket. -/
def current (host : Host clock) (id : String) : Op Ticket := do
  let s ← get
  let found ← liftM (s.get host id)
  demand found (.ticketNotFound id)

/-- `writeFileSync(this.ticketPath(id), ...)`. -/
def writeFile (id : String) (file : TicketFile) : Op PUnit := do
  failIf (isCanonicalTicketId id = false) .notCanonical
  modify fun s => { s with files := s.files.insert id file }

def writeTicket (ticket : Ticket) : Op PUnit := writeFile ticket.id (.ticket ticket)

/-- `text.padStart(width, "0")`. -/
def padStart (width : ℕ) (text : String) : String :=
  String.ofList (List.replicate (width - text.length) '0') ++ text

/-- The id of the `n`-th ticket with a prefix. -/
def ticketId (pre : String) (n : ℕ) : String := pre ++ "-" ++ padStart 3 (toString n)

def Store.counter (s : Store) (pre : String) : ℕ := (s.counters.lookup pre).getD 0

def allocateId (pre : String) : Op String := do
  let s ← get
  let next := s.counter pre + 1
  modify fun s => { s with counters := s.counters.insert pre next }
  return ticketId pre next

end PaPlatform.Tickets
