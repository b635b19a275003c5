/-
  `TicketStore.update` with its audit log, on a disk that can fail.

  An update writes the ticket, reads it back and appends to the log; what fails
  in between is undone from the ticket and the log that were read before.  Which
  of the writes fail, and what they leave, is up to `Faults`.
-/
import PaPlatform.Tickets.Changes

namespace PaPlatform.Tickets

open Guard Effect Chase

/-! ## Fields -/

/-- The properties of a ticket. -/
inductive TicketField where
  | id | project | title | summary | description | status | priority | type | assignee | estimate
  | «from» | «to» | tags | blockedBy | docRefs | linkedBranches | linkedCommits | comments | subTickets
  | nextSubTicketCounter | createdAt | updatedAt | resolvedAt
  deriving DecidableEq

namespace TicketField

/-- `Object.keys` of a ticket. -/
def all : List TicketField :=
  [id, project, title, summary, description, status, priority, type, assignee, estimate, .from, .to, tags,
    blockedBy, docRefs, linkedBranches, linkedCommits, comments, subTickets, nextSubTicketCounter, createdAt,
    updatedAt, resolvedAt]

/-- The property is the same in both tickets. -/
def Same (a b : Ticket) : TicketField → Prop
  | id => a.id = b.id
  | project => a.project = b.project
  | title => a.title = b.title
  | summary => a.summary = b.summary
  | description => a.description = b.description
  | status => a.status = b.status
  | priority => a.priority = b.priority
  | type => a.type = b.type
  | assignee => a.assignee = b.assignee
  | estimate => a.estimate = b.estimate
  | «from» => a.from = b.from
  | «to» => a.to = b.to
  | tags => a.tags = b.tags
  | blockedBy => a.blockedBy = b.blockedBy
  | docRefs => a.doc_refs = b.doc_refs
  | linkedBranches => a.linkedBranches = b.linkedBranches
  | linkedCommits => a.linkedCommits = b.linkedCommits
  | comments => a.comments = b.comments
  | subTickets => a.subTickets = b.subTickets
  | nextSubTicketCounter => a.nextSubTicketCounter = b.nextSubTicketCounter
  | createdAt => a.createdAt = b.createdAt
  | updatedAt => a.updatedAt = b.updatedAt
  | resolvedAt => a.resolvedAt = b.resolvedAt

instance (a b : Ticket) : DecidablePred (Same a b) := fun f => by
  cases f <;> exact inferInstanceAs (Decidable (_ = _))

/-- The property has the value that `normalizeTicket` gives to an absent one. -/
def IsDefault (t : Ticket) : TicketField → Prop
  | title => t.title = "(untitled)"
  | summary => t.summary = ""
  | description => t.description = ""
  | status => t.status = .idea
  | priority => t.priority = .medium
  | type => t.type = .task
  | assignee => t.assignee = ""
  | estimate => t.estimate = .M
  | «from» => t.from = ""
  | «to» => t.to = ""
  | tags => t.tags = []
  | blockedBy => t.blockedBy = []
  | docRefs => t.doc_refs = []
  | linkedCommits => t.linkedCommits = []
  | comments => t.comments = []
  | resolvedAt => t.resolvedAt = none
  | _ => True

end TicketField

/-- The input of an update.  `resolvedAt` may be `null`, which clears it, or
    `undefined`: the same `none` stands for both. -/
structure UpdateArgs extends UpdateTicketInput where
  resolvedAtNull : Bool

namespace UpdateArgs

/-- The input has the property with the value `undefined`. -/
def Undefined (a : UpdateArgs) : TicketField → Prop
  | .title => a.title = some none
  | .summary => a.summary = some none
  | .description => a.description = some none
  | .status => a.status = some none
  | .priority => a.priority = some none
  | .type => a.type = some none
  | .assignee => a.assignee = some none
  | .estimate => a.estimate = some none
  | .from => a.from = some none
  | .to => a.to = some none
  | .tags => a.tags = some none
  | .blockedBy => a.blockedBy = some none
  | .docRefs => a.doc_refs = some none
  | .linkedCommits => a.linkedCommits = some none
  | .comments => a.comments = some none
  | .resolvedAt => a.resolvedAt = some none ∧ a.resolvedAtNull = false
  | _ => False

/-- The input asks for a value of the property. -/
def Addresses (a : UpdateArgs) : TicketField → Prop
  | .title => a.title.join.isSome
  | .summary => a.summary.join.isSome
  | .description => a.description.join.isSome
  | .status => a.status.join.isSome
  | .priority => a.priority.join.isSome
  | .type => a.type.join.isSome
  | .assignee => a.assignee.join.isSome
  | .estimate => a.estimate.join.isSome
  | .from => a.from.join.isSome
  | .to => a.to.join.isSome
  | .tags => a.tags.join.isSome
  | .blockedBy => a.blockedBy.join.isSome
  | .docRefs => a.doc_refs.join.isSome ∨ a.add_doc_ref.isSome ∨ (nonEmptyString a.remove_doc_ref).isSome
  | .linkedBranches => a.add_linked_branch.isSome ∨ (nonEmptyString a.remove_linked_branch).isSome
  | .linkedCommits => a.linkedCommits.join.isSome ∨ a.add_linked_commit.isSome ∨
      (nonEmptyString a.remove_linked_commit).isSome
  | .comments => a.comments.join.isSome
  | .resolvedAt => a.resolvedAt.join.isSome ∨ (a.resolvedAt = some none ∧ a.resolvedAtNull = true) ∨
      a.status.join.isSome
  | .updatedAt => True
  | _ => False

end UpdateArgs

/-! ## The audit log -/

/-- The `changes` of an audit entry; they tell its `action`. -/
inductive AuditChanges where
  | branchRemoved (found : List LinkedBranch)
  | branchAdded (existing : Option LinkedBranch) (added : LinkedBranch)
  | commitRemoved (sha : String)
  | commitAdded (existing : Option LinkedCommit) (added : LinkedCommit)
  | updated (keys : List TicketField) (before after : Ticket)
  deriving DecidableEq

structure AuditIntent where
  ticketId : String
  actor : String
  changes : AuditChanges
  deriving DecidableEq

/-- A line of `audit.jsonl`; an append that fails may leave a part of one. -/
inductive AuditLine where
  | entry (intent : AuditIntent) (timestamp : String)
  | torn (text : String)
  deriving DecidableEq

/-- `diffTicket`. -/
def diffTicket (before after : Ticket) : AuditChanges :=
  .updated (TicketField.all.filter fun f => ¬ f.Same before after) before after

variable {clock : Clock}

/-- The lines that `appendAudits` writes. -/
def logged (host : Host clock) (intents : List AuditIntent) : List AuditLine :=
  intents.map fun intent => .entry intent host.nowUtc

/-- `removeLinkedBranch`, with the audit entry. -/
def loggedRemoval (id actor : String) (branches : List LinkedBranch) (selector : String) :
    Except TicketError (List LinkedBranch × List AuditIntent) := do
  let left ← removeLinkedBranch id branches selector
  let found := branches.filter (linkedBranchSelectorMatches selector)
  return (left, if found = [] then [] else [⟨id, actor, .branchRemoved found⟩])

/-- `addLinkedBranch`, with the audit entry. -/
def loggedAddition (host : Host clock) (id ticketId project actor : String) (branches : List LinkedBranch)
    (add : AddLinkedBranchInput) : Except TicketError (List LinkedBranch × List AuditIntent) := do
  let resolved ← (host.resolveLinkedBranch add ticketId project actor).mapError .evidence
  let existing := (branches.filter fun b => b.repo == resolved.repo && b.branch == resolved.branch).head?
  let next ← addLinkedBranch host id ticketId project actor branches add
  return (next, [⟨id, actor, .branchAdded existing (mergeLinkedBranchEvidence existing resolved)⟩])

/-- `applyLinkedBranchMutation`, with the audit entries that it collects. -/
def linkedBranchMutation (host : Host clock) (id ticketId project actor : String)
    (branches : List LinkedBranch) (add : Option AddLinkedBranchInput) (remove : Option String) :
    Except TicketError (List LinkedBranch × List AuditIntent) := do
  let removed ← match nonEmptyString remove with
    | none => .ok (branches, [])
    | some selector => loggedRemoval id actor branches selector
  match add with
  | none => .ok removed
  | some add => do
    let added ← loggedAddition host id ticketId project actor removed.1 add
    return (added.1, removed.2 ++ added.2)

/-- The commit that `applyLinkedCommitMutation` adds, with the audit entry. -/
def loggedCommit (host : Host clock) (id actor : String) (commits : Option (List LinkedCommit))
    (add : AddLinkedCommitInput) : Except TicketError (Option (List LinkedCommit) × List AuditIntent) := do
  let next ← (host.resolveLinkedCommit add actor).mapError .evidence
  let list ← require commits .typeError
  return (some (upsertLinkedCommit list next), [⟨id, actor,
    .commitAdded (list.find? fun c => c.sha == next.sha) next⟩])

/-- `applyLinkedCommitMutation`, with the audit entries that it collects. -/
def linkedCommitMutation (host : Host clock) (id actor : String) (commits : Option (List LinkedCommit))
    (add : Option AddLinkedCommitInput) (remove : Option String) :
    Except TicketError (Option (List LinkedCommit) × List AuditIntent) := do
  let removed ← match nonEmptyString remove with
    | none => .ok (commits, [])
    | some sha => do
      let list ← require commits .typeError
      let left := list.filter fun c => c.sha ≠ sha
      pure (some left, if left.length = list.length then [] else [⟨id, actor, .commitRemoved sha⟩])
  match add with
  | none => .ok removed
  | some add => do
    let added ← loggedCommit host id actor removed.1 add
    return (added.1, removed.2 ++ added.2)

/-- The ticket that `update` is going to write, and the linked evidence to log. -/
def auditedCandidate (host : Host clock) (id : String) (t : Ticket) (input : UpdateTicketInput)
    (actor : String) : Except TicketError (Ticket × List AuditIntent) := do
  let next := input.overlay t host.nowUtc
  let docRefs ← applyDocRefs next.doc_refs input.add_doc_ref input.remove_doc_ref actor host.nowUtc
  let branches ← linkedBranchMutation host id t.id t.project actor t.linkedBranches
    input.add_linked_branch input.remove_linked_branch
  let commits ← linkedCommitMutation host id actor next.linkedCommits
    input.add_linked_commit input.remove_linked_commit
  let ticket ← normalizeTicket host { next with
    doc_refs := docRefs
    linkedBranches := some (branches.1.map LinkedBranch.toRaw)
    linkedCommits := commits.1 }
  return (ticket, branches.2 ++ commits.2)

/-! ## The disk -/

/-- The tickets and `audit.jsonl`. -/
structure Disk where
  store : Store
  audit : Option (List AuditLine)

/-- What fails in an update. -/
structure Faults where
  /-- The log cannot be read. -/
  snapshot : Bool
  /-- The write of the ticket leaves another file or none; it may throw. -/
  write : Option (Option TicketFile × Bool)
  /-- The ticket cannot be read back. -/
  readback : Bool
  /-- The append throws, and leaves this log. -/
  append : Option (Option (List AuditLine))
  /-- The write that restores the ticket throws. -/
  restoreTicket : Bool
  /-- The write that restores the log throws. -/
  restoreAudit : Bool

/-- Nothing fails. -/
def Faults.none : Faults := ⟨false, .none, false, .none, false, false⟩

/-- The restoring writes succeed. -/
structure Faults.Restores (f : Faults) : Prop where
  ticket : f.restoreTicket = false
  audit : f.restoreAudit = false

inductive UpdateError where
  | rejected (e : TicketError)
  | io
  deriving DecidableEq

abbrev DiskOp := Eff Disk UpdateError

/-- The file of an id, or its absence. -/
def Store.leave (s : Store) (id : String) : Option TicketFile → Store
  | some f => { s with files := s.files.insert id f }
  | none => { s with files := s.files.erase id }

/-- A check that throws nothing but a `TicketError`. -/
def checked {α : Type} (x : Except TicketError α) : DiskOp α := liftM (x.mapError UpdateError.rejected)

/-- `this.get(id)`. -/
def getTicket (host : Host clock) (id : String) : DiskOp (Option Ticket) := do
  let d ← get
  checked (d.store.get host id)

/-- `writeTicket(next)`. -/
def writeNext (faults : Faults) (next : Ticket) : DiskOp PUnit :=
  match faults.write with
  | none => do
    failIf (isCanonicalTicketId next.id = false) (.rejected .notCanonical)
    modify fun d => { d with store := d.store.put next }
  | some (left, throws) => do
    modify fun d => { d with store := d.store.leave next.id left }
    failIf (throws = true) .io

def appendAudits (faults : Faults) (lines : List AuditLine) : DiskOp PUnit :=
  match faults.append with
  | none => modify fun d => { d with audit := some (d.audit.getD [] ++ lines) }
  | some left => do
    modify fun d => { d with audit := left }
    throw .io

/-- Write back the ticket and the log; whether they are read as before. -/
def restore (host : Host clock) (faults : Faults) (id : String) (current : Ticket)
    (auditSnapshot : Option (List AuditLine)) : DiskOp Bool :=
  tryCatch (do
    failIf (faults.restoreTicket = true) .io
    modify fun d => { d with store := d.store.put current }
    failIf (faults.restoreAudit = true) .io
    modify fun d => { d with audit := auditSnapshot }
    let restorationReadback ← getTicket host id
    let d ← get
    return decide (restorationReadback = some current ∧ d.audit = auditSnapshot)) fun _ => return false

/-- The `catch` of `update`. -/
def rollback (host : Host clock) (faults : Faults) (id : String) (current : Ticket)
    (auditSnapshot : Option (List AuditLine)) (selector : Option String) : DiskOp Ticket := do
  let restored ← restore host faults id current auditSnapshot
  throw (.rejected (.postcondition id selector restored))

/-- `update`. -/
def updateTicket (host : Host clock) (faults : Faults) (id : String) (input : UpdateTicketInput)
    (actor : String) (context : TicketMutationContext) : DiskOp Ticket := do
  checked (assertLifecycleOwnership input.status.join context)
  failIf (input.linkedBranches = true) (.rejected .linkedBranchesReplacement)
  let found ← getTicket host id
  let current ← demand found (.rejected (.ticketNotFound id))
  failIf (input.status.join = some .done ∧ current.subTickets.any (fun sub => sub.status != some .done) = true)
    (.rejected (.subTicketsOpen id))
  let (next, linkedAuditIntents) ← checked (auditedCandidate host id current input actor)
  failIf (faults.snapshot = true) .io
  let d ← get
  tryCatch (do
    writeNext faults next
    failIf (faults.readback = true) .io
    let readback ← getTicket host id
    failIf (readback ≠ some next) (.rejected .readbackDiffers)
    appendAudits faults (logged host (linkedAuditIntents ++ [⟨id, actor, diffTicket current next⟩]))
    return next) fun _ => rollback host faults id current d.audit input.remove_linked_branch

/-! ## What an update must do -/

section
variable {host : Host clock} {faults : Faults} {s s' : Store} {d d' : Disk} {t next : Ticket} {id actor : String}
  {input : UpdateTicketInput} {context : TicketMutationContext} {intents : List AuditIntent}

/-- The entry is about a linked branch or commit. -/
def AuditIntent.Linked (i : AuditIntent) : Prop :=
  match i.changes with
  | .updated _ _ _ => False
  | _ => True

/-- **All or nothing.**  If the update throws, every ticket reads as before and
    the log is unchanged; if it returns a ticket, that is what is read, nothing
    but the addressed properties has changed, and the entries of the linked
    evidence and of the update are at the end of the log. -/
def AllOrNothing (host : Host clock) (id : String) (args : UpdateArgs) (actor : String) (d : Disk) :
    Except UpdateError Ticket × Disk → Prop
  | (.error _, d') => (∀ (host' : Host clock) id', d'.store.get host' id' = d.store.get host' id') ∧
      d'.audit = d.audit
  | (.ok t', d') => d'.store.get host id = .ok (some t') ∧
      ∃ t, d.store.get host id = .ok (some t) ∧
        (∀ f, f ≠ .updatedAt → ¬ args.Addresses f → f.Same t t') ∧
        ∃ linked : List AuditIntent,
          auditedCandidate host id t args.toUpdateTicketInput actor = .ok (t', linked) ∧
          (∀ i ∈ linked, i.ticketId = id ∧ i.actor = actor ∧ i.Linked) ∧
          d'.audit = some (d.audit.getD [] ++ logged host (linked ++ [⟨id, actor, diffTicket t t'⟩]))

/-- The update of `t` is accepted, with the ticket `next`. -/
structure Accepts (host : Host clock) (s : Store) (id : String) (input : UpdateTicketInput) (actor : String)
    (context : TicketMutationContext) (t next : Ticket) : Prop where
  owner : assertLifecycleOwnership input.status.join context = .ok ()
  branches : input.linkedBranches = false
  found : readTicket s id = some t
  closed : ¬ (input.status.join = some .done ∧ t.subTickets.any (fun sub => sub.status != some .done) = true)
  candidate : candidate host id t input actor = .ok next

/-! ## The candidate -/

theorem map_fst_bind {α β γ : Type} {x : Except TicketError α} {f : α → Except TicketError (β × γ)} :
    (x >>= f).map Prod.fst = x >>= fun a => (f a).map Prod.fst := by
  cases x <;> rfl

theorem loggedRemoval_fst {bs : List LinkedBranch} {selector : String} :
    (loggedRemoval id actor bs selector).map Prod.fst = removeLinkedBranch id bs selector := by
  unfold loggedRemoval
  cases removeLinkedBranch id bs selector <;> rfl

theorem loggedAddition_fst {ticketId project : String} {bs : List LinkedBranch} {add : AddLinkedBranchInput} :
    (loggedAddition host id ticketId project actor bs add).map Prod.fst =
      addLinkedBranch host id ticketId project actor bs add := by
  unfold loggedAddition
  cases hr : (host.resolveLinkedBranch add ticketId project actor).mapError TicketError.evidence with
  | error e =>
    unfold addLinkedBranch
    rw [hr]
    rfl
  | ok r =>
    rw [ok_bind]
    cases addLinkedBranch host id ticketId project actor bs add <;> rfl

theorem linkedBranchMutation_fst {ticketId project : String} {bs : List LinkedBranch}
    {add : Option AddLinkedBranchInput} {remove : Option String} :
    (linkedBranchMutation host id ticketId project actor bs add remove).map Prod.fst =
      applyLinkedBranchMutation host id ticketId project actor bs add remove := by
  have hadd : ∀ (add : AddLinkedBranchInput) (p : List LinkedBranch × List AuditIntent),
      (do
        let added ← loggedAddition host id ticketId project actor p.1 add
        return (added.1, p.2 ++ added.2)).map Prod.fst =
      addLinkedBranch host id ticketId project actor p.1 add := by
    intro add p
    rw [← loggedAddition_fst]
    cases loggedAddition host id ticketId project actor p.1 add <;> rfl
  unfold linkedBranchMutation applyLinkedBranchMutation
  cases nonEmptyString remove with
  | none =>
    cases add with
    | none => rfl
    | some add => exact hadd add (bs, [])
  | some selector =>
    dsimp only
    rw [map_fst_bind, ← @loggedRemoval_fst id actor bs selector]
    cases loggedRemoval id actor bs selector with
    | error e => rfl
    | ok p =>
      cases add with
      | none => rfl
      | some add => exact hadd add p

theorem linkedCommitMutation_fst {cs : Option (List LinkedCommit)} {add : Option AddLinkedCommitInput}
    {remove : Option String} : (linkedCommitMutation host id actor cs add remove).map Prod.fst =
      applyLinkedCommitMutation host actor cs add remove := by
  have hadd : ∀ (add : AddLinkedCommitInput) (p : Option (List LinkedCommit) × List AuditIntent),
      (do
        let added ← loggedCommit host id actor p.1 add
        return (added.1, p.2 ++ added.2)).map Prod.fst =
      applyLinkedCommitMutation host actor p.1 (some add) none := by
    intro add p
    show _ = (host.resolveLinkedCommit add actor).mapError TicketError.evidence >>= _
    unfold loggedCommit
    cases (host.resolveLinkedCommit add actor).mapError TicketError.evidence with
    | error e => rfl
    | ok next => cases p.1 <;> rfl
  unfold linkedCommitMutation applyLinkedCommitMutation
  cases nonEmptyString remove with
  | none =>
    cases add with
    | none => rfl
    | some add => exact hadd add (cs, [])
  | some sha =>
    dsimp only
    cases cs with
    | none => rfl
    | some list =>
      cases add with
      | none => rfl
      | some add => exact hadd add (some _, _)

/-- The candidate is the one of `update`. -/
theorem auditedCandidate_fst :
    (auditedCandidate host id t input actor).map Prod.fst = candidate host id t input actor := by
  unfold auditedCandidate candidate
  dsimp only
  cases applyDocRefs (input.overlay t host.nowUtc).doc_refs input.add_doc_ref input.remove_doc_ref actor
      host.nowUtc with
  | error e => rfl
  | ok docRefs =>
    rw [ok_bind, ok_bind, ← linkedBranchMutation_fst]
    cases linkedBranchMutation host id t.id t.project actor t.linkedBranches input.add_linked_branch
        input.remove_linked_branch with
    | error e => rfl
    | ok branches =>
      show (linkedCommitMutation _ _ _ _ _ _ >>= _).map _ = applyLinkedCommitMutation _ _ _ _ _ >>= _
      rw [← @linkedCommitMutation_fst _ host id]
      cases linkedCommitMutation host id actor (input.overlay t host.nowUtc).linkedCommits
          input.add_linked_commit input.remove_linked_commit with
      | error e => rfl
      | ok commits =>
        show (normalizeTicket _ _ >>= _).map _ = normalizeTicket _ _
        rw [map_fst_bind]
        show (normalizeTicket host _ >>= fun t => .ok t) = normalizeTicket host _
        cases normalizeTicket host _ <;> rfl

/-! ## The properties of the candidate -/

/-- A property that is not asked for is kept exactly if it is absent from the
    input, or has its default. -/
theorem patch_same {α : Type} {p : Patch α} {x y : α} (h : ¬ p.join.isSome = true) :
    x = (p.over (some x)).getD y ↔ (p = some none → x = y) := by
  rcases p with _ | _ | v
  · simp [Patch.over]
  · simp [Patch.over]
  · exact absurd rfl h

theorem applyDocRefs_none {refs docRefs : Option (List DocRef)} {add : Option AddDocRefInput} {remove : Option String}
    {now : String} (ha : ¬ add.isSome = true) (hr : ¬ (nonEmptyString remove).isSome = true)
    (h : applyDocRefs refs add remove actor now = .ok docRefs) : docRefs = refs := by
  rw [Option.not_isSome_iff_eq_none] at ha hr
  subst ha
  unfold applyDocRefs at h
  rw [hr] at h
  exact (Except.ok.inj h).symm

theorem applyLinkedBranchMutation_none {ticketId project : String} {bs bs' : List LinkedBranch}
    {add : Option AddLinkedBranchInput} {remove : Option String} (ha : ¬ add.isSome = true)
    (hr : ¬ (nonEmptyString remove).isSome = true)
    (h : applyLinkedBranchMutation host id ticketId project actor bs add remove = .ok bs') : bs' = bs := by
  rw [Option.not_isSome_iff_eq_none] at ha hr
  subst ha
  unfold applyLinkedBranchMutation at h
  rw [hr] at h
  exact (Except.ok.inj h).symm

theorem applyLinkedCommitMutation_none {cs cs' : Option (List LinkedCommit)} {add : Option AddLinkedCommitInput}
    {remove : Option String} (ha : ¬ add.isSome = true) (hr : ¬ (nonEmptyString remove).isSome = true)
    (h : applyLinkedCommitMutation host actor cs add remove = .ok cs') : cs' = cs := by
  rw [Option.not_isSome_iff_eq_none] at ha hr
  subst ha
  unfold applyLinkedCommitMutation at h
  rw [hr] at h
  exact (Except.ok.inj h).symm

/-- A list that is not asked for, and that reads back as it is. -/
theorem patch_list {α : Type} {p : Patch (List α)} {f : α → Except TicketError α} {l l' : List α}
    (h : ¬ p.join.isSome = true) (hl : l.mapM f = .ok l) (hl' : ((p.over (some l)).getD []).mapM f = .ok l') :
    l = l' ↔ (p = some none → l = []) := by
  rcases p with _ | _ | v
  · have heq : l = l' := Except.ok.inj (hl.symm.trans hl')
    simp [heq]
  · have heq : l' = [] := (Except.ok.inj hl').symm
    simp [heq]
  · exact absurd rfl h

/-- **What an update does to a property that it does not address.** -/
theorem candidate_fields {args : UpdateArgs} (hn : Normal clock t)
    (h : candidate host id t args.toUpdateTicketInput actor = .ok next) {f : TicketField}
    (hf : f ≠ .updatedAt) (ha : ¬ args.Addresses f) : f.Same t next ↔ (args.Undefined f → f.IsDefault t) := by
  simp only [candidate, bind_eq_ok] at h
  obtain ⟨docRefs, hdoc, bs, hbs, cs, hcs, h⟩ := h
  simp only [normalizeTicket, bind_eq_ok, pure_eq_ok] at h
  obtain ⟨doc_refs, hd, linkedBranches, hb, linkedCommits, hc, comments, hcm, subTickets, hs, createdAt,
    hca, updatedAt, -, resolvedAt, hr, rfl⟩ := h
  cases f with
  | id => exact ⟨fun _ h => h.elim, fun _ => rfl⟩
  | project => exact ⟨fun _ h => h.elim, fun _ => rfl⟩
  | nextSubTicketCounter => exact ⟨fun _ h => h.elim, fun _ => rfl⟩
  | title => exact patch_same ha
  | summary => exact patch_same ha
  | description => exact patch_same ha
  | status => exact patch_same ha
  | priority => exact patch_same ha
  | type => exact patch_same ha
  | assignee => exact patch_same ha
  | estimate => exact patch_same ha
  | «from» => exact patch_same ha
  | «to» => exact patch_same ha
  | tags => exact patch_same ha
  | blockedBy => exact patch_same ha
  | docRefs =>
    obtain ⟨h1, h2, h3⟩ : _ ∧ _ ∧ _ := ⟨fun h => ha (Or.inl h), fun h => ha (Or.inr (Or.inl h)),
      fun h => ha (Or.inr (Or.inr h))⟩
    rw [applyDocRefs_none h2 h3 hdoc] at hd
    exact patch_list h1 hn.normalizeDocRefs hd
  | linkedBranches =>
    rw [applyLinkedBranchMutation_none (fun h => ha (Or.inl h)) (fun h => ha (Or.inr h)) hbs, Option.getD_some,
      hn.normalizeLinkedBranches] at hb
    exact ⟨fun _ h => h.elim, fun _ => Except.ok.inj hb⟩
  | linkedCommits =>
    obtain ⟨h1, h2, h3⟩ : _ ∧ _ ∧ _ := ⟨fun h => ha (Or.inl h), fun h => ha (Or.inr (Or.inl h)),
      fun h => ha (Or.inr (Or.inr h))⟩
    rw [applyLinkedCommitMutation_none h2 h3 hcs] at hc
    exact patch_list h1 hn.normalizeLinkedCommits hc
  | comments => exact patch_list ha hn.normalizeComments hcm
  | subTickets =>
    have heq := hn.normalizeSubTickets.symm.trans hs
    exact ⟨fun _ h => h.elim, fun _ => Except.ok.inj heq⟩
  | createdAt =>
    have heq := hn.createdAt.normalizeTimestamp.symm.trans hca
    exact ⟨fun _ h => h.elim, fun _ => Except.ok.inj heq⟩
  | updatedAt => exact absurd rfl hf
  | resolvedAt =>
    have h1 : ¬ args.resolvedAt.join.isSome = true := fun h => ha (Or.inl h)
    have h2 : ¬ (args.resolvedAt = some none ∧ args.resolvedAtNull = true) := fun h => ha (Or.inr (Or.inl h))
    have h3 : args.status.join = none := Option.not_isSome_iff_eq_none.1 fun h => ha (Or.inr (Or.inr h))
    simp only [UpdateTicketInput.overlay, h3] at hr
    show t.resolvedAt = resolvedAt ↔ (args.resolvedAt = some none ∧ args.resolvedAtNull = false → t.resolvedAt = none)
    rcases hp : args.resolvedAt with _ | _ | v
    · rw [hp] at hr
      have heq := Except.ok.inj (hn.normalizeResolvedAt.symm.trans hr)
      simp [heq]
    · rw [hp] at hr h2
      have heq : none = resolvedAt := Except.ok.inj hr
      have hnull : args.resolvedAtNull = false := by
        cases hx : args.resolvedAtNull with
        | false => rfl
        | true => exact absurd ⟨rfl, hx⟩ h2
      simp [← heq, hnull]
    · rw [hp] at h1
      exact absurd rfl h1

/-! ## Runs -/

/-- The files are the same. -/
def SameFiles (s s' : Store) : Prop := ∀ id, s'.files.lookup id = s.files.lookup id

theorem readTicket_congr (h : SameFiles s s') : readTicket s' id = readTicket s id := by
  ext t
  rw [readTicket_eq_some, readTicket_eq_some]
  refine and_congr_right fun _ => ⟨?_, ?_⟩
  · rintro ⟨n, hl⟩
    exact ⟨n, hl.congr fun y => (h y).symm⟩
  · rintro ⟨n, hl⟩
    exact ⟨n, hl.congr h⟩

theorem SameFiles.get (h : SameFiles s s') : s'.get host id = s.get host id := by
  unfold Store.get
  rw [readTicket_congr h]

/-- The files are the same but for one id. -/
def Apart (id : String) (s s' : Store) : Prop := ∀ x, x ≠ id → s'.files.lookup x = s.files.lookup x

theorem Apart.put (h : Apart t.id s s') (ht : s.files.lookup t.id = some (.ticket t)) :
    SameFiles s (s'.put t) := by
  intro x
  simp only [Store.put, Table.lookup_insert_eq]
  split_ifs with hx
  · rw [hx, ht]
  · exact h x hx

theorem apart_put : Apart t.id s (s.put t) := by
  intro x hx
  simp only [Store.put, Table.lookup_insert_eq, if_neg hx]

theorem apart_leave {left : Option TicketFile} : Apart id s (s.leave id left) := by
  intro x hx
  cases left with
  | none => exact AList.lookup_erase_ne hx
  | some f => simp only [Store.leave, Table.lookup_insert_eq, if_neg hx]

variable {α : Type} {Q : α → Disk → Prop} {E : UpdateError → Disk → Prop}

theorem wp_checked {x : Except TicketError α} : wp (checked x) Q E d ↔
    (∀ a, x = .ok a → Q a d) ∧ ∀ e, x = .error e → E (.rejected e) d := by
  unfold checked
  rw [wp_liftM]
  cases x with
  | error e => simp [Except.mapError]
  | ok a => simp [Except.mapError]

theorem wp_getTicket {Q : Option Ticket → Disk → Prop} : wp (getTicket host id) Q E d ↔
    (∀ o, d.store.get host id = .ok o → Q o d) ∧ ∀ e, d.store.get host id = .error e → E (.rejected e) d := by
  simp only [getTicket, wp_bind, wp_get, wp_checked]

theorem wp_writeNext {Q : PUnit → Disk → Prop} (hc : isCanonicalTicketId next.id = true)
    (hQ : ∀ s', Apart next.id d.store s' → Q ⟨⟩ { d with store := s' })
    (hE : ∀ s', Apart next.id d.store s' → E .io { d with store := s' }) :
    wp (writeNext faults next) Q E d := by
  unfold writeNext
  split
  · simp only [wp_bind, wp_failIf, wp_modify]
    refine ⟨fun h => ?_, fun _ => hQ _ apart_put⟩
    rw [hc] at h
    cases h
  · simp only [wp_bind, wp_modify, wp_failIf]
    exact ⟨fun _ => hE _ apart_leave, fun _ => hQ _ apart_leave⟩

theorem wp_appendAudits {Q : PUnit → Disk → Prop} {lines : List AuditLine}
    (hQ : Q ⟨⟩ { d with audit := some (d.audit.getD [] ++ lines) })
    (hE : ∀ left, E .io { d with audit := left }) : wp (appendAudits faults lines) Q E d := by
  unfold appendAudits
  split
  · exact wp_modify.2 hQ
  · simp only [wp_bind, wp_modify, wp_throw]
    exact hE _

/-- Restoring writes that succeed leave the ticket and the log. -/
theorem wp_restore {snapshot : Option (List AuditLine)} (hf : faults.Restores) :
    wp (restore host faults id t snapshot) (fun _ d' => d' = ⟨d.store.put t, snapshot⟩)
      (fun _ _ => False) d := by
  simp only [restore, wp_tryCatch, wp_bind, wp_failIf, wp_modify, wp_getTicket, wp_get, wp_pure, hf.ticket,
    hf.audit]
  simp

/-- Nothing has changed. -/
structure Unchanged (d d' : Disk) : Prop where
  files : SameFiles d.store d'.store
  audit : d'.audit = d.audit

/-- The ticket `t` was updated to `t'`. -/
structure Updated (host : Host clock) (id : String) (input : UpdateTicketInput) (actor : String)
    (context : TicketMutationContext) (d : Disk) (t : Ticket) (linked : List AuditIntent) (t' : Ticket) (d' : Disk) :
    Prop where
  accepts : Accepts host d.store id input actor context t t'
  intents : auditedCandidate host id t input actor = .ok (t', linked)
  read : d'.store.get host id = .ok (some t')
  audit : d'.audit = some (d.audit.getD [] ++ logged host (linked ++ [⟨id, actor, diffTicket t t'⟩]))

/-- Whatever was left of the ticket and of the log is restored. -/
theorem wp_rollback {Q : Ticket → Disk → Prop} {d₁ : Disk} {selector : Option String} (hf : faults.Restores)
    (ht : d.store.files.lookup t.id = some (.ticket t)) (hap : Apart t.id d.store d₁.store) :
    wp (rollback host faults id t d.audit selector) Q (fun _ d' => Unchanged d d') d₁ := by
  simp only [rollback, wp_bind, wp_throw]
  refine wp_mono (wp_restore hf) ?_ fun _ _ h => h.elim
  rintro _ _ rfl
  exact ⟨hap.put ht, rfl⟩

/-- **The outcome of an update.** -/
theorem updateTicket_spec (hs : Filed clock d.store) (hf : faults.Restores) :
    wp (updateTicket host faults id input actor context)
      (fun t' d' => ∃ t linked, Updated host id input actor context d t linked t' d')
      (fun _ d' => Unchanged d d') d := by
  have hsame : Unchanged d d := ⟨fun _ => rfl, rfl⟩
  simp only [updateTicket, wp_bind, wp_checked, wp_failIf, wp_getTicket, wp_demand, wp_get]
  refine ⟨fun _ howner => ⟨fun _ => hsame, fun hbr => ⟨fun found hfound => ⟨fun _ => hsame, fun t ht => ?_⟩,
    fun _ _ => hsame⟩⟩, fun _ _ => hsame⟩
  subst ht
  rw [hs.get, Except.ok.injEq] at hfound
  have hlook := lookup_of_readTicket hfound
  refine ⟨fun _ => hsame, fun hopen => ⟨fun p hp => ?_, fun _ _ => hsame⟩⟩
  obtain ⟨next, linked⟩ := p
  have hcand : candidate host id t input actor = .ok next := by
    rw [← auditedCandidate_fst, hp]
    rfl
  have hnid : next.id = t.id := (candidate_ok (hs.normal hlook) hcand).1
  have hcan : isCanonicalTicketId next.id = true := hnid ▸ canonical_of_readTicket hs hfound
  have hback : ∀ {d₁ : Disk}, Apart next.id d.store d₁.store →
      wp (rollback host faults id t d.audit input.remove_linked_branch)
        (fun t' d' => ∃ t linked, Updated host id input actor context d t linked t' d')
        (fun _ d' => Unchanged d d') d₁ := fun hap => wp_rollback hf hlook (hnid ▸ hap)
  refine ⟨fun _ => hsame, fun _ => ?_⟩
  simp only [wp_tryCatch, wp_bind]
  refine wp_writeNext hcan (fun s' hap => ?_) fun s' hap => hback hap
  simp only [wp_failIf, wp_getTicket, wp_pure]
  refine ⟨fun _ => hback hap, fun _ => ⟨fun back hread => ⟨fun _ => hback hap, fun hne => ?_⟩,
    fun _ _ => hback hap⟩⟩
  obtain rfl : back = some next := not_not.1 hne
  refine wp_appendAudits ?_ fun _ => hback hap
  exact ⟨t, linked, ⟨howner, eq_false_of_ne_true hbr, hfound, hopen, hcand⟩, hp, hread, rfl⟩

/-- What is written in the place of a ticket is read under all its ids. -/
theorem readTicket_put (h : readTicket s id = some t) (hid : next.id = t.id) :
    readTicket (s.put next) id = some next := by
  obtain ⟨hc, n, hl⟩ := readTicket_eq_some.1 h
  have hend : Leads readFile (s.put next).files 0 t.id t.id next := by
    refine .here (a := .ticket next) ?_ (readFile_ticket.2 ⟨rfl, hid⟩)
    rw [← hid]
    exact AList.lookup_insert _
  refine readTicket_eq_some.2 ⟨hc, n + 0, ?_⟩
  have hfiles : (s.put next).files = s.files.insert t.id (.ticket next) := by rw [← hid]; rfl
  rw [hid, hfiles]
  rw [hfiles] at hend
  exact hl.insert_end hend

/-- An accepted update goes through if nothing fails. -/
theorem updateTicket_ok (hs : Filed clock d.store) (ha : Accepts host d.store id input actor context t next) :
    ∃ d', outcome (updateTicket host .none id input actor context) d = (.ok next, d') := by
  obtain ⟨howner, hbr, hfound, hopen, hcand⟩ := ha
  have hlook := lookup_of_readTicket hfound
  obtain ⟨hnid, hnn, -, -⟩ := candidate_ok (hs.normal hlook) hcand
  have hcan : isCanonicalTicketId next.id = true := hnid ▸ canonical_of_readTicket hs hfound
  have hread : (d.store.put next).get host id = .ok (some next) := by
    rw [(hs.put hcan hnn).get, readTicket_put hfound hnid]
  have hget : d.store.get host id = .ok (some t) := by rw [hs.get, hfound]
  obtain ⟨p, hp, hpn⟩ : ∃ p, auditedCandidate host id t input actor = .ok p ∧ p.1 = next := by
    rw [← auditedCandidate_fst] at hcand
    cases hp : auditedCandidate host id t input actor with
    | error e =>
      rw [hp] at hcand
      cases hcand
    | ok p =>
      rw [hp] at hcand
      exact ⟨p, rfl, Except.ok.inj hcand⟩
  obtain ⟨next', linked⟩ := p
  obtain rfl : next' = next := hpn
  have hwp : wp (updateTicket host .none id input actor context) (fun t' _ => t' = next') (fun _ _ => False) d := by
    simp only [updateTicket, wp_bind, wp_checked, wp_failIf, wp_getTicket, wp_demand, wp_get, howner, hbr, hget]
    refine ⟨fun _ _ => ⟨by simp, fun _ => ⟨fun found hfound => ?_, by simp⟩⟩, by simp⟩
    obtain rfl := Except.ok.inj hfound
    refine ⟨by simp, fun _ h => ?_⟩
    obtain rfl := Option.some.inj h
    refine ⟨fun h => hopen h, fun _ => ⟨fun p h => ?_, fun e h => ?_⟩⟩
    swap
    · cases hp.symm.trans h
    obtain rfl := Except.ok.inj (hp.symm.trans h)
    refine ⟨by simp [Faults.none], fun _ => ?_⟩
    simp only [Faults.none, writeNext, appendAudits, wp_tryCatch, wp_bind, wp_failIf, wp_modify, wp_getTicket,
      wp_pure, hcan]
    refine ⟨by simp, fun _ => wp_failIf.2 ⟨by simp, fun _ => ⟨fun back h => ?_, fun e h => ?_⟩⟩⟩
    swap
    · cases hread.symm.trans h
    obtain rfl := Except.ok.inj (hread.symm.trans h)
    exact ⟨fun h => absurd rfl h, fun _ => trivial⟩
  cases ho : outcome (updateTicket host .none id input actor context) d with
  | mk r d' =>
    cases r with
    | error e => exact ((wp_of_error ho).1 hwp).elim
    | ok t' => exact ⟨d', by rw [(wp_of_ok ho).1 hwp]⟩

/-! ## The logged evidence -/

theorem linked_of_loggedRemoval {bs : List LinkedBranch} {selector : String} {p : List LinkedBranch × List AuditIntent}
    (h : loggedRemoval id actor bs selector = .ok p) :
    ∀ i ∈ p.2, i.ticketId = id ∧ i.actor = actor ∧ i.Linked := by
  simp only [loggedRemoval, bind_eq_ok, pure_eq_ok] at h
  obtain ⟨_, -, rfl⟩ := h
  intro i hi
  dsimp only at hi
  split_ifs at hi
  · cases hi
  · rw [List.mem_singleton.1 hi]
    exact ⟨rfl, rfl, trivial⟩

theorem linked_of_loggedAddition {ticketId project : String} {bs : List LinkedBranch} {add : AddLinkedBranchInput}
    {p : List LinkedBranch × List AuditIntent} (h : loggedAddition host id ticketId project actor bs add = .ok p) :
    ∀ i ∈ p.2, i.ticketId = id ∧ i.actor = actor ∧ i.Linked := by
  simp only [loggedAddition, bind_eq_ok, pure_eq_ok] at h
  obtain ⟨_, -, _, -, rfl⟩ := h
  intro i hi
  rw [List.mem_singleton.1 hi]
  exact ⟨rfl, rfl, trivial⟩

theorem linked_of_loggedCommit {cs : Option (List LinkedCommit)} {add : AddLinkedCommitInput}
    {p : Option (List LinkedCommit) × List AuditIntent} (h : loggedCommit host id actor cs add = .ok p) :
    ∀ i ∈ p.2, i.ticketId = id ∧ i.actor = actor ∧ i.Linked := by
  simp only [loggedCommit, bind_eq_ok, pure_eq_ok] at h
  obtain ⟨_, -, _, -, rfl⟩ := h
  intro i hi
  rw [List.mem_singleton.1 hi]
  exact ⟨rfl, rfl, trivial⟩

/-- The entries of an update before its last one. -/
def LinkedOf (id actor : String) (intents : List AuditIntent) : Prop :=
  ∀ i ∈ intents, i.ticketId = id ∧ i.actor = actor ∧ i.Linked

theorem LinkedOf.nil : LinkedOf id actor [] := by
  intro i hi
  cases hi

theorem LinkedOf.append {intents' : List AuditIntent} (h : LinkedOf id actor intents)
    (h' : LinkedOf id actor intents') : LinkedOf id actor (intents ++ intents') := by
  intro i hi
  rcases List.mem_append.1 hi with hi | hi
  · exact h i hi
  · exact h' i hi

/-- An addition after a removal. -/
theorem linked_of_add {α β : Type} {f : β → α → Except TicketError (β × List AuditIntent)}
    (hf : ∀ {b a p}, f b a = .ok p → LinkedOf id actor p.2) {add : Option α} {removed p : β × List AuditIntent}
    (hr : LinkedOf id actor removed.2)
    (h : (match add with
      | none => .ok removed
      | some add => do
        let added ← f removed.1 add
        return (added.1, removed.2 ++ added.2) : Except TicketError (β × List AuditIntent)) = .ok p) :
    LinkedOf id actor p.2 := by
  cases add with
  | none =>
    obtain rfl := Except.ok.inj h
    exact hr
  | some add =>
    simp only [bind_eq_ok, pure_eq_ok] at h
    obtain ⟨added, hadded, rfl⟩ := h
    exact hr.append (hf hadded)

theorem linked_of_linkedBranchMutation {ticketId project : String} {bs : List LinkedBranch}
    {add : Option AddLinkedBranchInput} {remove : Option String} {p : List LinkedBranch × List AuditIntent}
    (h : linkedBranchMutation host id ticketId project actor bs add remove = .ok p) : LinkedOf id actor p.2 := by
  have hadd := fun removed => @linked_of_add id actor _ _ (loggedAddition host id ticketId project actor)
    linked_of_loggedAddition add removed p
  unfold linkedBranchMutation at h
  cases hs : nonEmptyString remove with
  | none =>
    rw [hs] at h
    exact hadd (bs, []) .nil (by cases add <;> exact h)
  | some selector =>
    rw [hs] at h
    obtain ⟨removed, hremoved, h⟩ := bind_eq_ok.1 h
    exact hadd removed (linked_of_loggedRemoval hremoved) (by cases add <;> exact h)

theorem linked_of_linkedCommitMutation {cs : Option (List LinkedCommit)} {add : Option AddLinkedCommitInput}
    {remove : Option String} {p : Option (List LinkedCommit) × List AuditIntent}
    (h : linkedCommitMutation host id actor cs add remove = .ok p) : LinkedOf id actor p.2 := by
  have hadd := fun removed => @linked_of_add id actor _ _ (loggedCommit host id actor) linked_of_loggedCommit
    add removed p
  unfold linkedCommitMutation at h
  cases hs : nonEmptyString remove with
  | none =>
    rw [hs] at h
    exact hadd (cs, []) .nil (by cases add <;> exact h)
  | some sha =>
    rw [hs] at h
    obtain ⟨list, -, h⟩ := bind_eq_ok.1 h
    refine hadd (some (list.filter fun c => c.sha ≠ sha), _) ?_ (by cases add <;> exact h)
    intro i hi
    dsimp only at hi
    split_ifs at hi
    · cases hi
    · rw [List.mem_singleton.1 hi]
      exact ⟨rfl, rfl, trivial⟩

theorem linked_of_auditedCandidate (h : auditedCandidate host id t input actor = .ok (next, intents)) :
    LinkedOf id actor intents := by
  simp only [auditedCandidate, bind_eq_ok, pure_eq_ok, Prod.mk.injEq] at h
  obtain ⟨_, -, branches, hb, commits, hc, _, -, -, rfl⟩ := h
  exact (linked_of_linkedBranchMutation hb).append (linked_of_linkedCommitMutation hc)

/-! ## All or nothing -/

/-- Whatever fails, an update whose absent values keep the defaults of the
    ticket is all or nothing. -/
theorem update_all_or_nothing {args : UpdateArgs} (hs : Filed clock d.store) (hf : faults.Restores)
    (hdef : ∀ t next, Accepts host d.store id args.toUpdateTicketInput actor context t next →
      ∀ f, args.Undefined f → ¬ args.Addresses f → f.IsDefault t) :
    AllOrNothing host id args actor d
      (outcome (updateTicket host faults id args.toUpdateTicketInput actor context) d) := by
  have hspec := @updateTicket_spec clock host faults d id actor args.toUpdateTicketInput context hs hf
  rcases ho : outcome (updateTicket host faults id args.toUpdateTicketInput actor context) d with ⟨e | t', d'⟩
  · have hsame := (wp_of_error ho).1 hspec
    exact ⟨fun host' id' => hsame.files.get, hsame.audit⟩
  · obtain ⟨t, linked, hu⟩ := (wp_of_ok ho).1 hspec
    have hfound := hu.accepts.found
    refine ⟨hu.read, t, by rw [hs.get, hfound], fun f hne ha => ?_, linked, hu.intents,
      linked_of_auditedCandidate hu.intents, hu.audit⟩
    refine (candidate_fields (hs.normal (lookup_of_readTicket hfound)) hu.accepts.candidate hne ha).2 ?_
    exact fun hundef => hdef t t' hu.accepts f hundef ha

/-- **An update is all or nothing, whatever fails in it, exactly if each
    property that its input carries as `undefined` has its default already.** -/
theorem update_all_or_nothing_iff {P : Store → Call clock → Prop} {args : UpdateArgs} (h : Reachable P d.store) :
    (∀ faults : Faults, faults.Restores → AllOrNothing host id args actor d
      (outcome (updateTicket host faults id args.toUpdateTicketInput actor context) d)) ↔
    ∀ t next, Accepts host d.store id args.toUpdateTicketInput actor context t next →
      ∀ f, args.Undefined f → ¬ args.Addresses f → f.IsDefault t := by
  constructor
  · intro hall t next haccepts f hundef ha
    have hne : f ≠ .updatedAt := by
      rintro rfl
      exact hundef
    obtain ⟨d', ho⟩ := updateTicket_ok h.filed haccepts
    have hok := hall .none ⟨rfl, rfl⟩
    rw [ho] at hok
    obtain ⟨-, t₀, hget, hsame, -⟩ := hok
    rw [h.filed.get, haccepts.found] at hget
    obtain rfl := Option.some.inj (Except.ok.inj hget)
    have hn := h.filed.normal (lookup_of_readTicket haccepts.found)
    exact (candidate_fields hn haccepts.candidate hne ha).1 (hsame f hne ha) hundef
  · intro hdef faults hf
    exact update_all_or_nothing h.filed hf hdef

end

namespace Sample

/-- A store with one ticket that is being implemented; nothing is logged. -/
def disk : Disk := ⟨after .empty (.create host (input .implementing)), none⟩

theorem reachable_disk : Reachable (fun _ (_ : Call isoClock) => True) disk.store :=
  .call _ .empty trivial

/-- An update of the title alone. -/
def rename : UpdateArgs := { UpdateTicketInput.empty with title := some (some "another"), resolvedAtNull := false }

theorem rename_undefined (f : TicketField) : ¬ rename.Undefined f := by
  cases f <;> simp [rename, UpdateArgs.Undefined, UpdateTicketInput.empty]

/-- The append breaks off. -/
def torn : Faults := { Faults.none with append := some (some [.torn "x"]) }

/-- An update whose status is `undefined`. -/
def forget : UpdateArgs := { UpdateTicketInput.empty with status := some none, resolvedAtNull := false }

def forgotten : Except UpdateError Ticket × Disk :=
  outcome (updateTicket host .none "PA-001" forget.toUpdateTicketInput "pa-core" context) disk

theorem disk_get : (disk.store.get host "PA-001").toOption.join.any
    (fun t => t.status == .implementing) = true := by decide

theorem forgotten_idea : forgotten.1.toOption.any (fun t => t.status == .idea) = true := by decide

end Sample

open Sample in
theorem update_all_or_nothing_iff_rename : AllOrNothing host "PA-001" rename "pa-core" disk
    (outcome (updateTicket host torn "PA-001" rename.toUpdateTicketInput "pa-core" context) disk) := by
  refine (@update_all_or_nothing_iff _ host disk "PA-001" "pa-core" context _ rename reachable_disk).2 ?_
    torn ⟨rfl, rfl⟩
  intro t next _ f hundef
  exact absurd hundef (rename_undefined f)

open Sample in
/-- The status of the ticket becomes `idea`, though no status was given. -/
theorem status_lost : ¬ ∀ (d : Disk) (args : UpdateArgs), Reachable (fun _ (_ : Call isoClock) => True) d.store →
    ∀ faults : Faults, faults.Restores → AllOrNothing host "PA-001" args "pa-core" d
      (outcome (updateTicket host faults "PA-001" args.toUpdateTicketInput "pa-core" context) d) := by
  intro h
  have hok : AllOrNothing host "PA-001" forget "pa-core" disk forgotten :=
    h disk forget reachable_disk .none ⟨rfl, rfl⟩
  have hidea := forgotten_idea
  have hget := disk_get
  rcases ho : forgotten with ⟨e | t', d'⟩
  · rw [ho] at hidea
    cases hidea
  · rw [ho] at hok hidea
    obtain ⟨-, t, ht, hsame, -⟩ := hok
    rw [ht] at hget
    have hstatus : t.status = t'.status := hsame .status (by rintro ⟨⟩) (by rintro ⟨⟩)
    have h1 : t.status = .implementing := eq_of_beq hget
    have h2 : t'.status = .idea := eq_of_beq hidea
    rw [h1, h2] at hstatus
    cases hstatus

end PaPlatform.Tickets
