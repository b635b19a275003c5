/-
  The operations of `TicketStore` that write.

  The audit log, which no operation reads, is left out.
-/
import PaPlatform.Tickets.Store

namespace PaPlatform.Tickets

open Guard Effect

variable {clock : Clock}

def assertLifecycleOwnership (status : Option TicketStatus) (context : TicketMutationContext) :
    Except TicketError PUnit :=
  throwIf (status.isSome = true ∧ (context.privileged ≠ some true ∨
    (context.team = some "builder" ∧ context.mode = some "implement"))) .lifecycleOwnership

/-! ## Document references and links -/

def addDocRef (existing : List DocRef) (input : AddDocRefInput) (actor now : String) : List DocRef :=
  let next := (existing.filter fun ref => ref.path ≠ input.path).map fun ref =>
    { ref with primary := if input.primary = some true then false else ref.primary }
  next ++ [⟨input.type.getD "attachment", input.path, input.primary.getD false, now,
    input.addedBy.getD actor, none⟩]

def linkedBranchSelectorMatches (selector : String) (b : LinkedBranch) : Bool :=
  if selector.toList.contains ':' then b.repo ++ ":" ++ b.branch == selector else b.repo == selector

def mergeLinkedBranchEvidence (existing : Option LinkedBranch) (resolved : LinkedBranch) :
    LinkedBranch :=
  match existing with
  | none => resolved
  | some e =>
    if resolved.state ≠ .materialized ∨ nonEmptyString resolved.headSha = none then e
    else
      let baseSha := if e.state = .materialized then e.baseSha else resolved.baseSha
      { resolved with baseSha := nonEmptyString baseSha, linkedAt := e.linkedAt, linkedBy := e.linkedBy }

def upsertLinkedBranch (branches : List LinkedBranch) (next : LinkedBranch) : List LinkedBranch :=
  match branches.findIdx? fun b => b.repo == next.repo && b.branch == next.branch with
  | none => branches ++ [next]
  | some i => branches.set i next

def removeLinkedBranch (id : String) (branches : List LinkedBranch) (selector : String) :
    Except TicketError (List LinkedBranch) := do
  let found := branches.filter (linkedBranchSelectorMatches selector)
  throwIf (selector.toList.contains ':' = false ∧ 1 < found.length)
    (.ambiguousRemoval id selector found.length)
  return branches.filter fun b => !linkedBranchSelectorMatches selector b

def addLinkedBranch (host : Host clock) (id ticketId project actor : String)
    (branches : List LinkedBranch) (add : AddLinkedBranchInput) :
    Except TicketError (List LinkedBranch) := do
  let resolved ← (host.resolveLinkedBranch add ticketId project actor).mapError .evidence
  let repositoryBranches := branches.filter fun b => b.repo == resolved.repo
  let exactMatches := repositoryBranches.filter fun b => b.branch == resolved.branch
  throwIf (exactMatches.length < repositoryBranches.length) (.ambiguousBranch id resolved.repo)
  throwIf (1 < exactMatches.length) (.duplicateBranch id exactMatches.length)
  let existing := exactMatches.head?
  throwIf (existing.any (fun b => b.state == .planned) = true ∧ resolved.state = .planned)
    (.duplicatePlanned id)
  throwIf (existing.any (fun b => b.state == .materialized) = true ∧ resolved.state = .planned)
    .branchDisappeared
  return upsertLinkedBranch branches (mergeLinkedBranchEvidence existing resolved)

/-- `applyLinkedBranchMutation`, on the branches of the ticket `ticketId`. -/
def applyLinkedBranchMutation (host : Host clock) (id ticketId project actor : String)
    (branches : List LinkedBranch) (add : Option AddLinkedBranchInput) (remove : Option String) :
    Except TicketError (List LinkedBranch) := do
  let branches ← match nonEmptyString remove with
    | none => .ok branches
    | some selector => removeLinkedBranch id branches selector
  match add with
  | none => .ok branches
  | some add => addLinkedBranch host id ticketId project actor branches add

def upsertLinkedCommit (commits : List LinkedCommit) (next : LinkedCommit) : List LinkedCommit :=
  match commits.findIdx? fun c => c.sha == next.sha with
  | none => commits ++ [next]
  | some i => commits.set i next

/-- `applyLinkedCommitMutation`, on commits that the update may have left
    `undefined`. -/
def applyLinkedCommitMutation (host : Host clock) (actor : String)
    (commits : Option (List LinkedCommit)) (add : Option AddLinkedCommitInput)
    (remove : Option String) : Except TicketError (Option (List LinkedCommit)) := do
  let commits ← match nonEmptyString remove with
    | none => .ok commits
    | some sha => do
      let list ← require commits .typeError
      pure (some (list.filter fun c => c.sha ≠ sha))
  match add with
  | none => .ok commits
  | some add => do
    let next ← (host.resolveLinkedCommit add actor).mapError .evidence
    let list ← require commits .typeError
    return some (upsertLinkedCommit list next)

/-- `add_doc_ref` and `remove_doc_ref`, on references that the update may have
    left `undefined`. -/
def applyDocRefs (refs : Option (List DocRef)) (add : Option AddDocRefInput) (remove : Option String)
    (actor now : String) : Except TicketError (Option (List DocRef)) := do
  let refs ← match add with
    | none => .ok refs
    | some add => do
      let list ← require refs .typeError
      pure (some (addDocRef list add actor now))
  match nonEmptyString remove with
  | none => .ok refs
  | some path => do
    let list ← require refs .typeError
    return some (list.filter fun ref => ref.path ≠ path)

/-! ## Creation -/

/-- The argument of `normalizeTicket` in `create`. -/
def CreateTicketInput.toRaw (input : CreateTicketInput) (id key now : String) : RawTicket where
  id := some id
  project := some key
  title := some input.title
  summary := some input.summary
  description := some input.description
  status := some input.status
  priority := some input.priority
  type := some input.type
  assignee := some input.assignee
  estimate := some input.estimate
  «from» := some input.from
  «to» := some input.to
  tags := some input.tags
  blockedBy := some input.blockedBy
  doc_refs := some input.doc_refs
  linkedBranches := some (input.linkedBranches.getD [])
  linkedCommits := some (input.linkedCommits.getD [])
  comments := some input.comments
  subTickets := some []
  nextSubTicketCounter := some 0
  createdAt := some now
  updatedAt := some now
  resolvedAt := input.resolvedAt

def create (host : Host clock) (input : CreateTicketInput) : Op Ticket := do
  let project ← demand (host.resolveProject input.project) (.unknownProject input.project)
  let id ← allocateId project.2
  let ticket ← liftM (normalizeTicket host (input.toRaw id project.1 host.nowUtc))
  writeTicket ticket
  return ticket

/-! ## Update -/

/-- `{ ...current, ...rest, updatedAt: nowUtc() }`, with the time of its
    resolution. -/
def UpdateTicketInput.overlay (input : UpdateTicketInput) (t : Ticket) (now : String) : RawTicket :=
  let resolvedAt := input.resolvedAt.over t.resolvedAt
  { t.toRaw with
    title := input.title.over t.title
    summary := input.summary.over t.summary
    description := input.description.over t.description
    status := input.status.over t.status
    priority := input.priority.over t.priority
    type := input.type.over t.type
    assignee := input.assignee.over t.assignee
    estimate := input.estimate.over t.estimate
    «from» := input.from.over t.from
    «to» := input.to.over t.to
    tags := input.tags.over t.tags
    blockedBy := input.blockedBy.over t.blockedBy
    doc_refs := input.doc_refs.over t.doc_refs
    linkedCommits := input.linkedCommits.over t.linkedCommits
    comments := input.comments.over t.comments
    updatedAt := some now
    resolvedAt :=
      match input.status.join with
      | none => resolvedAt
      | some status => if status.isTerminal then some (resolvedAt.getD now) else none }

/-- The ticket that `update` is going to write. -/
def candidate (host : Host clock) (id : String) (t : Ticket) (input : UpdateTicketInput)
    (actor : String) : Except TicketError Ticket := do
  let next := input.overlay t host.nowUtc
  let docRefs ← applyDocRefs next.doc_refs input.add_doc_ref input.remove_doc_ref actor host.nowUtc
  let linkedBranches ← applyLinkedBranchMutation host id t.id t.project actor t.linkedBranches
    input.add_linked_branch input.remove_linked_branch
  let linkedCommits ← applyLinkedCommitMutation host actor next.linkedCommits
    input.add_linked_commit input.remove_linked_commit
  normalizeTicket host { next with
    doc_refs := docRefs
    linkedBranches := some (linkedBranches.map LinkedBranch.toRaw)
    linkedCommits := linkedCommits }

/-- Write a ticket and read it back under `id`. -/
def persist (host : Host clock) (id : String) (next : Ticket) : Op Ticket := do
  writeTicket next
  let readback ← current host id
  failIf (readback ≠ next) .readbackDiffers
  return readback

def update (host : Host clock) (id : String) (input : UpdateTicketInput) (actor : String)
    (context : TicketMutationContext) : Op Ticket := do
  liftM (assertLifecycleOwnership input.status.join context)
  failIf (input.linkedBranches = true) .linkedBranchesReplacement
  let t ← current host id
  failIf (input.status.join = some .done ∧ t.subTickets.any (fun sub => sub.status != some .done) = true)
    (.subTicketsOpen id)
  let next ← liftM (candidate host id t input actor)
  tryCatch (persist host id next) fun _ => do
    let restored ← tryCatch (do let _ ← persist host id t; return true) fun _ => return false
    throw (.postcondition id input.remove_linked_branch restored)

/-! ## Comments -/

/-- `now.replace(/[^0-9]/g, "")`. -/
def digits (now : String) : String := String.ofList (now.toList.filter Js.isDigit)

def comment (host : Host clock) (id author content : String) : Op Ticket := do
  let t ← current host id
  let comment : Comment := ⟨"c-" ++ digits host.nowUtc, author, content, host.nowUtc, none⟩
  let next := { t with comments := t.comments ++ [comment], updatedAt := host.nowUtc }
  writeTicket next
  return next

def editComment (host : Host clock) (id commentId content : String) : Op Ticket := do
  let t ← current host id
  let index ← demand (t.comments.findIdx? fun c => c.id == commentId) (.commentNotFound commentId)
  let next := { t with
    comments := t.comments.modify index fun c =>
      { c with content := content, editedAt := some host.nowUtc }
    updatedAt := host.nowUtc }
  writeTicket next
  return next

def deleteComment (host : Host clock) (id commentId : String) : Op Ticket := do
  let t ← current host id
  let comments := t.comments.filter fun c => c.id ≠ commentId
  failIf (comments.length = t.comments.length) (.commentNotFound commentId)
  let next := { t with comments := comments, updatedAt := host.nowUtc }
  writeTicket next
  return next

def attach (host : Host clock) (id path actor : String) (context : TicketMutationContext) :
    Op Ticket :=
  update host id
    { UpdateTicketInput.empty with add_doc_ref := some ⟨some "attachment", path, none, none⟩ }
    actor context

/-! ## Moves and removals -/

def move (host : Host clock) (id input actor : String) : Op Ticket := do
  let project ← demand (host.resolveProject input) (.unknownProject input)
  let t ← current host id
  let newId ← allocateId project.2
  let moved ← liftM (normalizeTicket host { t.toRaw with
    id := some newId
    project := some project.1
    updatedAt := some host.nowUtc })
  writeTicket moved
  -- the alias takes the place of the id that was given, not of `t.id`
  writeFile id (.moved newId host.nowUtc actor)
  return moved

def delete (host : Host clock) (id actor : String) (hard : Bool) (context : TicketMutationContext) :
    Op Ticket := do
  liftM (assertLifecycleOwnership (some .cancelled) context)
  let t ← current host id
  if hard then do
    modify fun s => { s with files := s.files.erase id }
    return t
  else update host id { UpdateTicketInput.empty with status := some (some .cancelled) } actor context

def archive (host : Host clock) (id : String) : Op Ticket := do
  let t ← current host id
  failIf (t.status.isTerminal = false) (.cannotArchive id t.status)
  if "archived" ∈ t.tags then return t
  else do
    let next := { t with tags := t.tags ++ ["archived"], updatedAt := host.nowUtc }
    writeTicket next
    return next

def unarchive (host : Host clock) (id : String) : Op Ticket := do
  let t ← current host id
  if "archived" ∉ t.tags then return t
  else do
    let next := { t with tags := t.tags.filter (· ≠ "archived"), updatedAt := host.nowUtc }
    writeTicket next
    return next

/-! ## Sub-tickets -/

def addSubTicket (host : Host clock) (parentId : String) (input : AddSubTicketInput) : Op Ticket := do
  let t ← current host parentId
  let nextCounter := t.nextSubTicketCounter + 1
  let subTicket : SubTicket := ⟨t.id ++ "-ST-" ++ toString nextCounter, some input.title,
    some input.summary, some .open, some input.assignee, some input.priority, some input.estimate,
    host.nowUtc, host.nowUtc⟩
  let next := { t with
    subTickets := t.subTickets ++ [subTicket]
    nextSubTicketCounter := nextCounter
    updatedAt := host.nowUtc }
  writeTicket next
  return next

/-- `{ ...sub, ...input, updatedAt: now }`. -/
def UpdateSubTicketInput.overlay (input : UpdateSubTicketInput) (now : String) (sub : SubTicket) :
    SubTicket where
  id := sub.id
  title := input.title.over sub.title
  summary := input.summary.over sub.summary
  status := input.status.over sub.status
  assignee := input.assignee.over sub.assignee
  priority := input.priority.over sub.priority
  estimate := input.estimate.over sub.estimate
  createdAt := sub.createdAt
  updatedAt := now

def updateSubTicket (host : Host clock) (parentId subTicketId : String)
    (input : UpdateSubTicketInput) : Op Ticket := do
  let t ← current host parentId
  let index ← demand (t.subTickets.findIdx? fun sub => sub.id == subTicketId)
    (.subTicketNotFound subTicketId)
  let next := { t with
    subTickets := t.subTickets.modify index (input.overlay host.nowUtc)
    updatedAt := host.nowUtc }
  writeTicket next
  return next

/-! ## Calls -/

inductive Call (clock : Clock) where
  | create (host : Host clock) (input : CreateTicketInput)
  | update (host : Host clock) (id : String) (input : UpdateTicketInput) (actor : String)
      (context : TicketMutationContext)
  | comment (host : Host clock) (id author content : String)
  | editComment (host : Host clock) (id commentId content : String)
  | deleteComment (host : Host clock) (id commentId : String)
  | attach (host : Host clock) (id path actor : String) (context : TicketMutationContext)
  | move (host : Host clock) (id project actor : String)
  | delete (host : Host clock) (id actor : String) (hard : Bool) (context : TicketMutationContext)
  | archive (host : Host clock) (id : String)
  | unarchive (host : Host clock) (id : String)
  | addSubTicket (host : Host clock) (parentId : String) (input : AddSubTicketInput)
  | updateSubTicket (host : Host clock) (parentId subTicketId : String) (input : UpdateSubTicketInput)

/-- The ticket that a call returns, or the one that it worked on. -/
def perform : Call clock → Op Ticket
  | .create host input => create host input
  | .update host id input actor context => update host id input actor context
  | .comment host id author content => comment host id author content
  | .editComment host id commentId content => editComment host id commentId content
  | .deleteComment host id commentId => deleteComment host id commentId
  | .attach host id path actor context => attach host id path actor context
  | .move host id project actor => move host id project actor
  | .delete host id actor hard context => delete host id actor hard context
  | .archive host id => archive host id
  | .unarchive host id => unarchive host id
  | .addSubTicket host parentId input => addSubTicket host parentId input
  | .updateSubTicket host parentId subTicketId input =>
    updateSubTicket host parentId subTicketId input

/-- The store after a call, whether it failed or not. -/
def after (s : Store) (c : Call clock) : Store := (outcome (perform c) s).2

/-- The stores that calls allowed by `P` lead to. -/
inductive Reachable (P : Store → Call clock → Prop) : Store → Prop
  | empty : Reachable P .empty
  | call {s : Store} (c : Call clock) : Reachable P s → P s c → Reachable P (after s c)

/-- The id that a call is given. -/
def Call.target : Call clock → Option String
  | .create _ _ => none
  | .update _ id _ _ _ | .comment _ id _ _ | .editComment _ id _ _ | .deleteComment _ id _
  | .attach _ id _ _ _ | .move _ id _ _ | .delete _ id _ _ _ | .archive _ id | .unarchive _ id
  | .addSubTicket _ id _ | .updateSubTicket _ id _ _ => some id

end PaPlatform.Tickets
