/-
  `TicketPackagePublication` (`tickets/package-publication.ts`): the files of a document
  package, and its references from the ticket.

  A call holds the mutex of the ticket store, so that only the end of its process comes
  between its effects; the lock does not outlive the process.  A file is created and
  never written again.  The references of a package are added one by one, and one of
  them becomes primary after all the others.
-/
import PaPlatform.Documents.Journal
import PaPlatform.Tickets.Changes

namespace PaPlatform.Tickets.Publication

open Js Guard Effect
open Workflow (Repository)
open Documents (Documented DocumentErrorCode memberBytes)

/-! ## Packages -/

inductive DocumentRole where
  | brief
  | requirements
  | uat
  | specification
  deriving DecidableEq

inductive MediaType where
  | markdown
  | plain
  | png
  | jpeg
  deriving DecidableEq

def MediaType.extension : MediaType → String
  | markdown => "md"
  | plain => "txt"
  | png => "png"
  | jpeg => "jpg"

structure Member where
  id : String
  role : DocumentRole
  mediaType : MediaType
  bytes : ℕ
  sha256 : String
  deriving DecidableEq

/-- A parsed package, with the fields that its publication reads. -/
structure Package where
  packageId : String
  revision : ℕ
  repository : Repository
  ticket : String
  members : List Member
  /-- `effects.queue`. -/
  queue : Bool
  distinct : (members.map (·.id)).Nodup
  bounded : ∀ m ∈ members, m.bytes ≤ memberBytes
  required : members.countP (·.role == .requirements) = 1

def refType (member : Member) : String :=
  match member.role with
  | .requirements => "requirements"
  | .uat => "uat"
  | _ => "attachment"

/-- The directories of a package. -/
def Package.parts (subject : Package) : List String :=
  ["packages", subject.ticket, subject.packageId, "r" ++ padStart 3 (toString subject.revision)]

/-- `basename(documentDestination(subject, member))`. -/
def Member.name (member : Member) : String := member.id ++ "." ++ member.mediaType.extension

def documentDestination (subject : Package) (member : Member) : String :=
  "agent-teams/requirements/artifacts/" ++ String.intercalate "/" (subject.parts ++ [member.name])

/-- The destination of the requirements. -/
def Package.primaryPath (subject : Package) : String :=
  ((subject.members.find? (·.role == .requirements)).map (documentDestination subject)).getD ""

/-! ## Files -/

inductive Node where
  | directory
  | file (bytes : Bytes)
  /-- A link, or what cannot be opened. -/
  | other
  deriving DecidableEq

/-- The nodes under `agent-teams/requirements/artifacts`. -/
structure Tree where
  nodes : List String → Option Node
  rooted : ∀ {path name}, nodes (path ++ [name]) ≠ none → nodes path = some .directory

namespace Tree

theorem rooted_update (tree : Tree) {path : List String} {name : String} {node : Node}
    (hd : tree.nodes path = some .directory) (hn : tree.nodes (path ++ [name]) = none) {p : List String} {n : String}
    (h : Function.update tree.nodes (path ++ [name]) (some node) (p ++ [n]) ≠ none) :
    Function.update tree.nodes (path ++ [name]) (some node) p = some .directory := by
  have hp : tree.nodes p = some .directory := by
    by_cases heq : p ++ [n] = path ++ [name]
    · rw [(List.append_inj' heq rfl).1]
      exact hd
    · rw [Function.update_of_ne heq] at h
      exact tree.rooted h
  rwa [Function.update_of_ne]
  rintro rfl
  rw [hn] at hp
  cases hp

/-- A new node; there is none if the directory is missing or the name is taken. -/
def create (tree : Tree) (path : List String) (name : String) (node : Node) : Option Tree :=
  if h : tree.nodes path = some .directory ∧ tree.nodes (path ++ [name]) = none then
    some ⟨Function.update tree.nodes (path ++ [name]) (some node), tree.rooted_update h.1 h.2⟩
  else none

/-- `mkdirSync`, where `EEXIST` is no error. -/
def mkdir (tree : Tree) (path : List String) (name : String) : Tree := (tree.create path name .directory).getD tree

end Tree

/-- What opening the directory of a package finds. -/
inductive Opening where
  | opened
  | missing
  | refused
  deriving DecidableEq

/-- The loop of `directory`, from the directory `path`. -/
def Tree.walk (tree : Tree) : List String → List String → Opening
  | _, [] => .opened
  | path, part :: parts =>
    match tree.nodes (path ++ [part]) with
    | none => .missing
    | some .directory => tree.walk (path ++ [part]) parts
    | some _ => .refused

/-- `directory(subject)`. -/
def Tree.directory (tree : Tree) (subject : Package) : Opening :=
  if tree.nodes [] = some .directory then tree.walk [] subject.parts else .refused

/-! ## Observations -/

inductive Inspection where
  | absent
  | exact
  | conflict
  | unknown
  deriving DecidableEq

inductive PackageObservation where
  | absent
  | partially
  | complete
  | conflict
  | unknown
  deriving DecidableEq

section
variable (digest : Bytes → Sha256)

/-- The bytes of a member are at its destination. -/
def Member.matches (member : Member) (bytes : Bytes) : Bool :=
  bytes.length == member.bytes && (digest bytes).1 == member.sha256

/-- `inspect`. -/
def inspect (tree : Tree) (subject : Package) (member : Member) : Inspection :=
  match tree.directory subject with
  | .missing => .absent
  | .refused => .unknown
  | .opened =>
    match tree.nodes (subject.parts ++ [member.name]) with
    | none => .absent
    | some (.file bytes) =>
      if memberBytes < bytes.length then .unknown
      else if member.matches digest bytes then .exact
      else .conflict
    | some _ => .unknown

def primaries (t : Ticket) : List DocRef := t.doc_refs.filter (·.primary)

/-- The references of a member. -/
def refsOf (t : Ticket) (subject : Package) (member : Member) : List DocRef :=
  t.doc_refs.filter (·.path == documentDestination subject member)

/-- The reference has the type of the member, and is primary for the requirements only. -/
def refOk (member : Member) (r : DocRef) : Bool :=
  r.type == refType member && (member.role == .requirements || !r.primary)

/-- The primary references are those of the package or of its predecessor. -/
def primariesOk (t : Ticket) (subject : Package) (predecessor : Option Package) : Bool :=
  (primaries t).length ≤ 1 && (primaries t).all fun r =>
    r.type == "requirements" && (r.path == subject.primaryPath || predecessor.any fun p => r.path == p.primaryPath)

/-- What `observe` returns for a member of the predecessor. -/
def memberFault (tree : Tree) (t : Ticket) (predecessor : Package) (member : Member) : Option PackageObservation :=
  match inspect digest tree predecessor member with
  | .conflict => some .conflict
  | .exact =>
    if (refsOf t predecessor member).length = 1 ∧ (refsOf t predecessor member).all (refOk member) = true then none
    else some .conflict
  | _ => some .unknown

/-- What `observe` returns for the predecessor. -/
def predecessorFault (tree : Tree) (t : Ticket) (subject predecessor : Package) : Option PackageObservation :=
  if predecessor.ticket ≠ subject.ticket ∨ predecessor.repository ≠ subject.repository ∨ (primaries t).length ≠ 1 then
    some .conflict
  else predecessor.members.findSome? (memberFault digest tree t predecessor)

/-- `observe`, of the ticket of the package. -/
def observe (tree : Tree) (t : Ticket) (subject : Package) (predecessor : Option Package) : PackageObservation :=
  let values := subject.members.map (inspect digest tree subject)
  if values.any (· == .conflict) then .conflict
  else if values.any (· == .unknown) then .unknown
  else if primariesOk t subject predecessor = false then .conflict
  else match predecessor.bind (predecessorFault digest tree t subject) with
    | some fault => fault
    | none =>
      if subject.members.any fun m => decide (1 < (refsOf t subject m).length) || !(refsOf t subject m).all (refOk m)
      then .conflict
      else
        let refsPresent := (subject.members.map fun m => (refsOf t subject m).length).sum
        if values.all (· == .exact) && refsPresent == subject.members.length && (primaries t).length == 1 &&
            (primaries t).all (·.path == subject.primaryPath) then .complete
        else if values.any (· == .exact) || decide (0 < refsPresent) then .partially
        else .absent

/-- The ticket is before its implementation. -/
def statusOk (t : Ticket) : Bool :=
  [TicketStatus.requirementReview, .pendingApproval, .pendingImplementation].contains t.status

/-- The status and the assignee of a ticket whose package may be published. -/
def claimable (t : Ticket) : Bool :=
  statusOk t && ["", "sinh", "requirements/team-manager", "builder/team-manager"].contains t.assignee &&
    (t.assignee != "builder/team-manager" || t.status == .pendingImplementation)

/-- `writable`, of the ticket of the package. -/
def writable (tree : Tree) (t : Ticket) (subject : Package) (predecessor : Option Package) : Documented Unit := do
  throwIf (observe digest tree t subject predecessor ≠ .absent ∧ observe digest tree t subject predecessor ≠ .partially)
    .uncertain
  throwIf (claimable t = false) .conflict

end

/-! ## Calls -/

structure State where
  tree : Tree
  store : Store

/-- What the host answers in one step of a call. -/
structure Answers (clock : Clock) where
  /-- `authorize()`. -/
  authorize : Documented Unit
  /-- `read(sha256)`. -/
  read : String → Documented Bytes
  /-- The checks of the content in `validateDocumentBytes`. -/
  content : MediaType → Bytes → Bool
  /-- The write of a file fails, and leaves these bytes. -/
  torn : Option Bytes
  host : Host clock
  context : TicketMutationContext

/-- Where a `publish` is. -/
inductive Stage where
  | directories (path rest : List String)
  | files (rest : List Member)
  | references (rest : List Member)
  | promotion

/-- A `publish` that holds the mutex. -/
structure Publishing where
  subject : Package
  predecessor : Option Package
  stage : Stage

/-- How a step leaves its call. -/
inductive Progress where
  | running (p : Publishing)
  | ended (result : Documented Unit)

variable {clock : Clock}

/-- `ticket(subject)`. -/
def State.ticket (s : State) (host : Host clock) (subject : Package) : Documented Ticket := do
  let found ← (s.store.get host subject.ticket).mapError fun _ => .uncertain
  let t ← require found .authority
  throwIf (t.project ≠ subject.repository.key) .authority
  return t

/-- `this.store.update(id, input, "documents/tickets")`. -/
def State.update (s : State) (a : Answers clock) (id : String) (input : UpdateTicketInput) : State × Documented Unit :=
  match outcome (Tickets.update a.host id input "documents/tickets" a.context) s.store with
  | (.ok _, store) => ({ s with store }, .ok ⟨⟩)
  | (.error _, store) => ({ s with store }, .error .uncertain)

/-- The call goes on if nothing was thrown. -/
def Progress.after (next : Progress) : Documented Unit → Progress
  | .ok _ => next
  | .error code => .ended (.error code)

/-- The input that adds the reference of a member. -/
def addition (subject : Package) (member : Member) : UpdateTicketInput :=
  { UpdateTicketInput.empty with
    add_doc_ref := some ⟨some (refType member), documentDestination subject member, some false, none⟩ }

/-- The input that makes the reference of the requirements primary. -/
def promotion (subject : Package) (t : Ticket) : UpdateTicketInput :=
  { UpdateTicketInput.empty with
    doc_refs := some (some (t.doc_refs.map fun ref => { ref with primary := ref.path == subject.primaryPath })) }

/-- The input of `queue`. -/
def queueing : UpdateTicketInput :=
  { UpdateTicketInput.empty with
    status := some (some .pendingImplementation), assignee := some (some "builder/team-manager") }

section
variable (digest : Bytes → Sha256)

/-- `authorize()` and `writable(subject, predecessor)`, with the ticket. -/
def State.authorize (s : State) (a : Answers clock) (p : Publishing) : Documented Ticket := do
  a.authorize
  let t ← s.ticket a.host p.subject
  writable digest s.tree t p.subject p.predecessor
  return t

/-- The start of `publish`. -/
def start (a : Answers clock) (s : State) (subject : Package) (predecessor : Option Package) :
    Documented (State × Progress) := do
  a.authorize
  let t ← s.ticket a.host subject
  if observe digest s.tree t subject predecessor = .complete then return (s, .ended (.ok ⟨⟩))
  writable digest s.tree t subject predecessor
  return (s, .running ⟨subject, predecessor, .directories [] subject.parts⟩)

/-- The next directory. -/
def makeDirectory (a : Answers clock) (s : State) (p : Publishing) (path : List String) (part : String)
    (rest : List String) : Documented (State × Progress) := do
  let _ ← s.authorize digest a p
  let tree := s.tree.mkdir path part
  return ({ s with tree }, if tree.nodes (path ++ [part]) = some .directory then
    .running { p with stage := .directories (path ++ [part]) rest } else .ended (.error .uncertain))

/-- `validateDocumentBytes`. -/
def validateDocumentBytes (a : Answers clock) (member : Member) (bytes : Bytes) : Documented Unit := do
  throwIf (member.matches digest bytes = false) .stale
  throwIf (a.content member.mediaType bytes = false) .source

/-- The next file. -/
def writeMember (a : Answers clock) (s : State) (p : Publishing) (member : Member) (rest : List Member) :
    Documented (State × Progress) := do
  let bytes ← a.read member.sha256
  validateDocumentBytes digest a member bytes
  let _ ← s.authorize digest a p
  let tree ← require (s.tree.create p.subject.parts member.name (.file (a.torn.getD bytes))) .uncertain
  return ({ s with tree }, if a.torn = none ∧ inspect digest tree p.subject member = .exact then
    .running { p with stage := .files rest } else .ended (.error .uncertain))

/-- The next reference. -/
def addReference (a : Answers clock) (s : State) (p : Publishing) (member : Member) (rest : List Member) :
    Documented (State × Progress) := do
  let _ ← s.authorize digest a p
  let done := s.update a p.subject.ticket (addition p.subject member)
  return (done.1, Progress.after (.running { p with stage := .references rest }) done.2)

/-- All members are exact and referenced. -/
def Package.ready (subject : Package) (tree : Tree) (t : Ticket) : Bool :=
  subject.members.all fun m =>
    inspect digest tree subject m == .exact && (refsOf t subject m).any (·.type == refType m)

/-- The package is observed to be complete. -/
def State.proven (s : State) (a : Answers clock) (p : Publishing) : Documented Unit := do
  let t ← s.ticket a.host p.subject
  throwIf (observe digest s.tree t p.subject p.predecessor ≠ .complete) .uncertain

/-- The reference of the requirements becomes primary. -/
def promote (a : Answers clock) (s : State) (p : Publishing) : Documented (State × Progress) := do
  let t ← s.authorize digest a p
  throwIf (p.subject.ready digest s.tree t = false) .uncertain
  let done := s.update a p.subject.ticket (promotion p.subject t)
  return (done.1, .ended (done.2 >>= fun _ => done.1.proven digest a p))

/-- One step of a `publish`. -/
def advance (a : Answers clock) (s : State) (p : Publishing) : Documented (State × Progress) :=
  match p.stage with
  | .directories _ [] => .ok (s, .running { p with stage := .files p.subject.members })
  | .directories path (part :: rest) => makeDirectory digest a s p path part rest
  | .files [] => .ok (s, .running { p with stage := .references p.subject.members })
  | .files (member :: rest) =>
    if inspect digest s.tree p.subject member = .exact then .ok (s, .running { p with stage := .files rest })
    else writeMember digest a s p member rest
  | .references [] => .ok (s, .running { p with stage := .promotion })
  | .references (member :: rest) => do
    let t ← s.ticket a.host p.subject
    if t.doc_refs.any (·.path == documentDestination p.subject member) then
      return (s, .running { p with stage := .references rest })
    addReference digest a s p member rest
  | .promotion => promote digest a s p

/-- `queue`; `again` is its second `authorize()`. -/
def queue (a : Answers clock) (again : Documented Unit) (s : State) (subject : Package)
    (predecessor : Option Package) : Documented (State × Progress) := do
  a.authorize
  throwIf (subject.queue = false) .authority
  let t ← s.ticket a.host subject
  throwIf (observe digest s.tree t subject predecessor ≠ .complete) .authority
  if t.status = .pendingImplementation ∧ t.assignee = "builder/team-manager" then return (s, .ended (.ok ⟨⟩))
  throwIf (statusOk t = false ∨ ["", "sinh", "requirements/team-manager"].contains t.assignee = false) .conflict
  again
  let done := s.update a subject.ticket queueing
  return (done.1, .ended done.2)

end

/-! ## Runs -/

/-- The artifacts and the tickets, with the `publish` that holds the mutex and the result of the
    last call that ended. -/
structure World where
  state : State
  call : Option Publishing
  last : Option (Documented Unit)

def World.after (w : World) : Documented (State × Progress) → World
  | .error code => ⟨w.state, none, some (.error code)⟩
  | .ok (s, .running p) => ⟨s, some p, w.last⟩
  | .ok (s, .ended result) => ⟨s, none, some result⟩

inductive Event (clock : Clock) where
  | publish (a : Answers clock) (subject : Package) (predecessor : Option Package)
  | advance (a : Answers clock)
  /-- The process of the call ends. -/
  | crash
  | queue (a : Answers clock) (again : Documented Unit) (subject : Package) (predecessor : Option Package)
  /-- Another call of the ticket store. -/
  | ticket (c : Call clock)

/-- A step of anyone who takes the mutex, or who has it. -/
def step (digest : Bytes → Sha256) (w : World) : Event clock → Except Unit World
  | .publish a subject predecessor => do
    throwIf (w.call.isSome = true) ⟨⟩
    return w.after (start digest a w.state subject predecessor)
  | .advance a => do
    let p ← require w.call ⟨⟩
    return w.after (advance digest a w.state p)
  | .crash => do
    let _ ← require w.call ⟨⟩
    return { w with call := none }
  | .queue a again subject predecessor => do
    throwIf (w.call.isSome = true) ⟨⟩
    return w.after (queue digest a again w.state subject predecessor)
  | .ticket c => do
    throwIf (w.call.isSome = true) ⟨⟩
    return { w with state := { w.state with store := after w.state.store c } }

/-! ## A sample -/

namespace Sample

theorem zeros_ok : shaOk 64 "0000000000000000000000000000000000000000000000000000000000000000" = true := by decide

def zeros : Sha256 := ⟨_, zeros_ok⟩

def constant : Bytes → Sha256 := fun _ => zeros

def requirements : Member := ⟨"requirements", .requirements, .markdown, 1, zeros.1⟩

def uat : Member := ⟨"uat", .uat, .plain, 1, zeros.1⟩

def package : Package where
  packageId := "intake"
  revision := 1
  repository := ⟨"pa", "/src/pa"⟩
  ticket := "PA-001"
  members := [requirements, uat]
  queue := true
  distinct := by decide
  bounded := by decide
  required := by decide

theorem rooted {path : List String} {name : String}
    (h : (if path ++ [name] = [] then some Node.directory else none) ≠ none) :
    (if path = [] then some Node.directory else none) = some .directory := by
  rw [if_neg (by simp)] at h
  exact absurd rfl h

/-- The artifacts without a package. -/
def artifacts : Tree := ⟨fun path => if path = [] then some .directory else none, rooted⟩

def store : Store := after .empty (.create Tickets.Sample.host (Tickets.Sample.input .requirementReview))

theorem filed : Filed isoClock store :=
  (Reachable.call (P := fun _ (_ : Call isoClock) => True) _ .empty trivial).filed

def world : World := ⟨⟨artifacts, store⟩, none, none⟩

/-- A host that agrees to everything. -/
def willing : Answers isoClock :=
  ⟨.ok ⟨⟩, fun _ => .ok [0], fun _ _ => true, none, Tickets.Sample.host, Tickets.Sample.context⟩

/-- A publication and its first `n` steps. -/
def attempt (n : ℕ) : List (Event isoClock) := .publish willing package none :: List.replicate n (.advance willing)

end Sample

end PaPlatform.Tickets.Publication
