/-
  The evidence files of one worktree, and how they are inspected.

  Every file stands in the worktree's own Git directory, except the approvals,
  which stand in the directory of their parent deployment.  An evidence file is
  more than its record: it may be a link, unreadable, oversized or of another
  schema.
-/
import PaPlatform.Admission.Records

namespace PaPlatform.Admission

open Js Guard Effect
open Capacity (ProcessFingerprint bounded isFingerprint fingerprintsEqual)

/-! ## Files -/

/-- What a reader finds in a file. -/
inductive Content (α : Type) where
  /-- A link to no file. -/
  | dangling
  /-- No JSON text. -/
  | unparsable
  /-- A JSON value that is no record; a well-formed `processFingerprint` in it. -/
  | other (observed : Option ProcessFingerprint)
  | record (value : α)
  deriving DecidableEq

/-- The record that is read. -/
def Content.value {α : Type} : Content α → Option α
  | record value => some value
  | _ => none

structure Evidence (α : Type) where
  /-- `isFile() && !isSymbolicLink()`. -/
  regular : Bool
  /-- `nlink`. -/
  links : ℕ
  /-- The mode is 0600. -/
  guarded : Bool
  /-- The user of this process owns the file. -/
  owned : Bool
  /-- `evidenceIdentityUnlocked`: the digest of device, inode, times and bytes. -/
  identity : String
  size : ℕ
  content : Content α
  deriving DecidableEq

/-- A file that was just written. -/
def Evidence.written {α : Type} (identity : String) (size : ℕ) (value : α) : Evidence α :=
  ⟨true, 1, true, true, identity, size, .record value⟩

/-- The record of a file that may be missing. -/
def recordOf {α : Type} (file : Option (Evidence α)) : Option α := file.bind (·.content.value)

/-- `readSettlementPrivate`: the record of a protected file. -/
def readSettlementPrivate {α : Type} (maximum : ℕ) (file : Option (Evidence α)) :
    Except Refusal α := do
  let e ← require file (.thrown "ENOENT")
  throwIf (¬ (e.regular = true ∧ e.links = 1 ∧ e.owned = true ∧ e.guarded = true ∧ e.size ≠ 0 ∧
    e.size ≤ maximum)) (.thrown "insecure private evidence")
  require e.content.value (.thrown "invalid private evidence")

/-! ## Settlements -/

inductive RepositoryChildSettlementStage where
  | intent
  | lease
  | registry
  | ticket
  | published
  | cleanup
  | complete
  deriving DecidableEq, Repr

/-- The place of a stage in `order`. -/
def RepositoryChildSettlementStage.index : RepositoryChildSettlementStage → ℕ
  | intent => 0
  | lease => 1
  | registry => 2
  | ticket => 3
  | published => 4
  | cleanup => 5
  | complete => 6

inductive OutcomeSource where
  | foreground
  | backgroundSupervisor
  deriving DecidableEq, Repr

inductive SettlementOutcome where
  | success
  | partial_
  | failed
  deriving DecidableEq, Repr

/-- What `verifyExecution` returns: a normal exit. -/
structure SettlementExecution where
  source : OutcomeSource
  status : SettlementOutcome
  exitCode : ℤ
  processes : List ProcessFingerprint
  deriving DecidableEq

structure RepositoryChildSettlementIntent where
  borrower : RepositoryMutationBorrower
  parent : RepositoryMutationLease
  gitDir : String
  gitCommonDir : String
  baseSha : String
  expectedAuthorityEventId : Option ℕ
  terminal : SettlementOutcome
  terminalDigest : String
  execution : SettlementExecution
  finalSnapshot : RepositoryGitSnapshot
  createdAt : String
  deriving DecidableEq

/-- `stage` in `reconcileRepositoryTerminalChild`: where a failure arose. -/
inductive FailureStage where
  | authentication
  | at_ (stage : RepositoryChildSettlementStage)
  deriving DecidableEq, Repr

structure RepositoryChildSettlementRecord where
  intent : RepositoryChildSettlementIntent
  digest : String
  stage : RepositoryChildSettlementStage
  firstFailure : Option FailureStage
  deriving DecidableEq

/-! ## The worktree -/

/-- The checkout whose evidence is kept, with the hash of its snapshots and the
    dates of its registry. -/
structure Checkout where
  root : String
  worktree : String
  gitDir : String
  sha256 : Bytes → Sha256
  dates : Registry.DateReader

/-- The worktree is a linked one. -/
def Checkout.linked (c : Checkout) : Bool := c.worktree != c.root

/-- `REPOSITORY_MUTATION_LEASE_FILE` and `REPOSITORY_IMPLEMENT_LEASE_FILE`. -/
inductive LeaseFile where
  | lease
  | implement
  deriving DecidableEq, Repr

/-- The lease file of a slot: only a linked worktree has one for `implement`. -/
def Checkout.leaseFile (c : Checkout) (slot : RepositoryMutationSlot) : LeaseFile :=
  if c.linked = true ∧ slot = .implement then .implement else .lease

/-- What `readTicket` returns: the linked branch of the ticket. -/
structure TicketBranch where
  branch : String
  baseSha : String
  headSha : String
  deriving DecidableEq

structure State where
  lease : Option (Evidence RepositoryMutationLease)
  implement : Option (Evidence RepositoryMutationLease)
  borrower : Option (Evidence RepositoryMutationBorrower)
  review : Option (Evidence RepositoryReviewReservation)
  settlement : Option (Evidence RepositoryChildSettlementRecord)
  /-- The retained settlements, by their key. -/
  retained : String × String → Option (Evidence RepositoryChildSettlementRecord)
  /-- The approvals, by their path. -/
  approval : String → Option (Evidence RepositoryDirtyBorrowApproval)
  registry : Registry.Database
  ticket : TicketBranch

namespace State

def leaseAt (s : State) : LeaseFile → Option (Evidence RepositoryMutationLease)
  | .lease => s.lease
  | .implement => s.implement

def putLease (s : State) (file : LeaseFile) (e : Option (Evidence RepositoryMutationLease)) : State :=
  match file with
  | .lease => { s with lease := e }
  | .implement => { s with implement := e }

def putApproval (s : State) (path : String)
    (e : Option (Evidence RepositoryDirtyBorrowApproval)) : State :=
  { s with approval := Function.update s.approval path e }

/-- A Git directory without evidence. -/
def empty (registry : Registry.Database) (ticket : TicketBranch) : State :=
  ⟨none, none, none, none, none, fun _ => none, fun _ => none, registry, ticket⟩

variable {s : State} {file : LeaseFile} {e : Option (Evidence RepositoryMutationLease)}
  {path : String} {a : Option (Evidence RepositoryDirtyBorrowApproval)}

@[simp] theorem putLease_borrower : (s.putLease file e).borrower = s.borrower := by cases file <;> rfl

@[simp] theorem putLease_review : (s.putLease file e).review = s.review := by cases file <;> rfl

@[simp] theorem putLease_settlement : (s.putLease file e).settlement = s.settlement := by
  cases file <;> rfl

@[simp] theorem putLease_registry : (s.putLease file e).registry = s.registry := by cases file <;> rfl

@[simp] theorem putLease_approval : (s.putLease file e).approval = s.approval := by cases file <;> rfl

@[simp] theorem leaseAt_putLease : (s.putLease file e).leaseAt file = e := by cases file <;> rfl

@[simp] theorem leaseAt_lease : s.leaseAt .lease = s.lease := rfl

@[simp] theorem leaseAt_implement : s.leaseAt .implement = s.implement := rfl

@[simp] theorem putLease_lease : s.putLease .lease e = { s with lease := e } := rfl

@[simp] theorem putLease_implement : s.putLease .implement e = { s with implement := e } := rfl

@[simp] theorem putApproval_lease : (s.putApproval path a).lease = s.lease := rfl

@[simp] theorem putApproval_implement : (s.putApproval path a).implement = s.implement := rfl

@[simp] theorem putApproval_borrower : (s.putApproval path a).borrower = s.borrower := rfl

@[simp] theorem putApproval_review : (s.putApproval path a).review = s.review := rfl

@[simp] theorem putApproval_settlement : (s.putApproval path a).settlement = s.settlement := rfl

@[simp] theorem putApproval_registry : (s.putApproval path a).registry = s.registry := rfl

end State

/-- What a call observes outside the evidence files. -/
structure Host where
  getProcessFingerprint : ℤ → Option ProcessFingerprint
  isProcessAlive : ℤ → Bool
  isDeploymentRunning : String → Bool
  isProcessInLineage : ℤ → ProcessFingerprint → Bool
  getCurrentProcessFingerprint : Option ProcessFingerprint
  /-- `process.pid`. -/
  pid : ℤ
  /-- `now().toISOString()`. -/
  now : String
  /-- `Date.now()`. -/
  nowMs : ℤ
  createToken : String
  git : GitReads
  physicalGitDir : Option String
  physicalGitCommonDir : Option String
  /-- `repositoryMetadataIdentity`, of a Git directory and a common directory. -/
  metadataIdentity : String → String → Option String
  /-- `pathEntryExists`, of a path in the worktree. -/
  pathEntryExists : String → Bool
  /-- `hasSymlinkTraversal`, of a path in the worktree. -/
  hasSymlinkTraversal : String → Bool
  /-- The evidence identity of a file that is written now. -/
  identity : String
  /-- What the registry reads besides its database. -/
  environment : Registry.Environment
  /-- The registry transaction fails before it changes anything. -/
  registryFault : Bool

/-! ## Inspection -/

/-- `RepositoryEvidenceState`. -/
inductive EvidenceState where
  | absent
  | live
  | stale
  | malformed
  | oversized
  | rootConflicting
  deriving DecidableEq, Repr

def EvidenceState.text : EvidenceState → String
  | absent => "absent"
  | live => "live"
  | stale => "stale"
  | malformed => "malformed"
  | oversized => "oversized"
  | rootConflicting => "root-conflicting"

structure Inspection (α : Type) where
  state : EvidenceState
  reason : String
  evidenceIdentity : Option String
  record : Option α

/-- The reasons that an inspection gives. -/
structure InspectionReasons where
  absent : String
  irregular : String
  oversized : String
  unparsable : String
  live : String
  liveConflicting : String
  schema : String
  conflicting : String
  stale : String

/-- An inspection of the file of a record with this process and this root. -/
def inspectEvidence {α : Type} (reasons : InspectionReasons) (process : α → ProcessFingerprint)
    (rootOf : α → String) (root : String) (fingerprint : ℤ → Option ProcessFingerprint) :
    Option (Evidence α) → Inspection α
  | none => ⟨.absent, reasons.absent, none, none⟩
  | some e =>
    if ¬ (e.regular = true ∧ e.links = 1) then ⟨.malformed, reasons.irregular, none, none⟩
    else if maxRepositoryLeaseBytes < e.size then
      ⟨.oversized, reasons.oversized, some e.identity, none⟩
    else
      match e.content with
      | .dangling | .unparsable => ⟨.malformed, reasons.unparsable, some e.identity, none⟩
      | .other observed =>
        if observed.any fun p => fingerprintsEqual p (fingerprint p.pid) then
          ⟨.live, reasons.live, some e.identity, none⟩
        else ⟨.malformed, reasons.schema, some e.identity, none⟩
      | .record value =>
        if fingerprintsEqual (process value) (fingerprint (process value).pid) then
          ⟨.live, if rootOf value = root then reasons.live else reasons.liveConflicting,
            some e.identity, some value⟩
        else if rootOf value ≠ root then
          ⟨.rootConflicting, reasons.conflicting, some e.identity, some value⟩
        else ⟨.stale, reasons.stale, some e.identity, some value⟩

/-- `inspectLeaseUnlocked`. -/
def inspectLeaseUnlocked (c : Checkout) (host : Host) :
    Option (Evidence RepositoryMutationLease) → Inspection RepositoryMutationLease :=
  inspectEvidence
    { absent := "no ownership evidence exists"
      irregular := "ownership evidence is not a protected regular file"
      oversized := "ownership evidence exceeds 65536 bytes"
      unparsable := "ownership evidence is not valid JSON"
      live := "PID and process-start fingerprint match a live owner"
      liveConflicting := "verified live process owns root-conflicting evidence"
      schema := "ownership evidence does not match schema version 1"
      conflicting := "evidence canonical root does not match the lease location"
      stale := "owner PID is dead or its process-start fingerprint was reused" }
    (·.processFingerprint) (·.canonicalRepoRoot) c.root host.getProcessFingerprint

/-- `inspectBorrowerUnlocked`. -/
def inspectBorrowerUnlocked (c : Checkout) (host : Host) :
    Option (Evidence RepositoryMutationBorrower) → Inspection RepositoryMutationBorrower :=
  inspectEvidence
    { absent := "no borrower evidence exists"
      irregular := "borrower evidence is not a protected regular file"
      oversized := "borrower evidence exceeds 65536 bytes"
      unparsable := "borrower evidence is not valid JSON"
      live := "PID and process-start fingerprint match a live borrower"
      liveConflicting := "verified live process owns root-conflicting borrower evidence"
      schema := "borrower evidence does not match schema version 1"
      conflicting := "borrower canonical root does not match its evidence location"
      stale := "borrower PID is dead or its process-start fingerprint was reused" }
    (·.processFingerprint) (·.canonicalRepoRoot) c.root host.getProcessFingerprint

/-- What `readValidLeaseUnlocked` and `readValidBorrowerUnlocked` return:
    `undefined`, `null` or a record. -/
inductive Reading (α : Type) where
  | absent
  | invalid
  | found (value : α)

/-- The record of a file that is read through a link; under a pending settlement
    no file is valid. -/
def readValid {α : Type} (settlement : Bool) : Option (Evidence α) → Reading α
  | none => if settlement then .invalid else .absent
  | some e =>
    if settlement then .invalid
    else
      match e.content with
      | .dangling => .absent
      | .unparsable | .other _ => .invalid
      | .record value => if maxRepositoryLeaseBytes < e.size then .invalid else .found value

/-- `settlementPending`. -/
def settlementPending (s : State) : Bool := s.settlement.isSome

/-- `readValidLeaseUnlocked`. -/
def readValidLeaseUnlocked (s : State) (file : LeaseFile) : Reading RepositoryMutationLease :=
  readValid (settlementPending s) (s.leaseAt file)

/-- `readValidBorrowerUnlocked`. -/
def readValidBorrowerUnlocked (s : State) : Reading RepositoryMutationBorrower :=
  readValid (settlementPending s) s.borrower

/-- `readValidApprovalUnlocked`. -/
def readValidApprovalUnlocked (s : State) (path : String) :
    Reading RepositoryDirtyBorrowApproval :=
  match s.approval path with
  | none => .absent
  | some e =>
    match e.content with
    | .dangling => .absent
    | .unparsable | .other _ => .invalid
    | .record value =>
      if e.regular = true ∧ e.links = 1 ∧ e.guarded = true ∧ e.size ≤ maxRepositoryLeaseBytes then
        .found value
      else .invalid

/-! ## What an inspection says -/

section
variable {α : Type} {reasons : InspectionReasons} {process : α → ProcessFingerprint}
  {rootOf : α → String} {root : String} {fingerprint : ℤ → Option ProcessFingerprint}
  {file : Option (Evidence α)} {value : α}

/-- **Only a missing file is absent.** -/
theorem inspectEvidence_absent :
    (inspectEvidence reasons process rootOf root fingerprint file).state = .absent ↔ file = none := by
  cases file with
  | none => simp [inspectEvidence]
  | some e =>
    rcases e with ⟨regular, links, guarded, owned, identity, size, content⟩
    refine iff_of_false ?_ (by simp)
    unfold inspectEvidence
    dsimp only
    cases content <;> dsimp only <;> split_ifs <;> simp

/-- The record of an inspection is the one in the file. -/
theorem inspectEvidence_record
    (h : (inspectEvidence reasons process rootOf root fingerprint file).record = some value) :
    recordOf file = some value := by
  cases file with
  | none => simp [inspectEvidence] at h
  | some e =>
    rcases e with ⟨regular, links, guarded, owned, identity, size, content⟩
    unfold inspectEvidence at h
    dsimp only at h
    cases content <;> dsimp only at h <;> split_ifs at h <;> exact h

/-- The owner of a live record runs. -/
theorem inspectEvidence_live
    (hs : (inspectEvidence reasons process rootOf root fingerprint file).state = .live)
    (h : (inspectEvidence reasons process rootOf root fingerprint file).record = some value) :
    fingerprint (process value).pid = some (process value) := by
  cases file with
  | none => simp [inspectEvidence] at h
  | some e =>
    rcases e with ⟨regular, links, guarded, owned, identity, size, content⟩
    unfold inspectEvidence at h hs
    dsimp only at h hs
    cases content with
    | dangling => dsimp only at h; split_ifs at h
    | unparsable => dsimp only at h; split_ifs at h
    | other observed => dsimp only at h; split_ifs at h
    | record v =>
      dsimp only at h hs
      by_cases hv : fingerprintsEqual (process v) (fingerprint (process v).pid) = true
      · have he : v = value := by split_ifs at h <;> simpa using h
        subst he
        simpa [fingerprintsEqual] using hv
      · rw [if_neg hv] at hs
        split_ifs at hs

end

section
variable {α : Type} {pending : Bool} {file : Option (Evidence α)} {value : α}

theorem readValid_found (h : readValid pending file = .found value) :
    pending = false ∧ recordOf file = some value := by
  cases file with
  | none => cases pending <;> simp [readValid] at h
  | some e =>
    cases pending with
    | true => simp [readValid] at h
    | false =>
      simp only [readValid, Bool.false_eq_true, if_false] at h
      simp only [recordOf, Option.bind_some, true_and]
      split at h
      · simp at h
      · simp at h
      · simp at h
      · rename_i v hc
        rw [hc]
        split_ifs at h
        simpa [Content.value] using h

theorem readValid_pending : readValid true file = .invalid := by
  cases file <;> rfl

end

end PaPlatform.Admission
