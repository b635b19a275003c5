/-
  The correlation evidence of a deployment: `deploy/correlation.ts`.

  Evidence is a tuple of columns.  `validateDeploymentCorrelationEvidence` checks
  it against the ticket and the worktree of its row; an error is the `reason`
  of the diagnostic.
-/
import PaPlatform.Deploy.Values
import PaPlatform.Lib.Guard

namespace PaPlatform

open Js Guard

/-! ## Patterns -/

/-- `isCanonicalTicketId`. -/
def isCanonicalTicketId (s : String) : Bool := utf16Length s ≤ 64 && ticketOk s

/-- `isAbsolute(value) && resolve(value) === value`. -/
def normalizedAbsolute (s : String) : Bool :=
  s == "/" ||
    match split s '/' with
    | "" :: parts => !parts.isEmpty && parts.all fun part => part != "" && part != "." && part != ".."
    | _ => false

/-- The check of `requiredCanonicalPath`. -/
def canonicalPathOk (s : String) : Bool :=
  !s.isEmpty && utf16Length s ≤ 4096 && !s.toList.contains (Char.ofNat 0) && normalizedAbsolute s

/-- The check of `optionalCanonicalId`. -/
def canonicalIdOk (s : String) : Bool :=
  utf16Length s ≤ 256 && (s.toList.head?.any isAlnum) &&
    s.toList.all fun c => isAlnum c || c == '.' || c == '_' || c == ':' || c == '-'

/-- The check of `optionalHolder`: `pa:<repository-key>:<ticket-id>`. -/
def holderOk (s : String) : Bool :=
  utf16Length s ≤ 256 &&
    match split s ':' with
    | ["pa", key, ticket] => repoKeyOk key && ticketOk ticket
    | _ => false

/-- `/^[0-9a-f]{n}$/`. -/
def hexOk (n : ℕ) (s : String) : Bool := s.toList.length == n && s.toList.all isHex

/-! ## Evidence -/

inductive BuilderAuthority where
  | orchestrator
  | parentedImplement
  | standaloneImplement
  deriving DecidableEq, Repr

inductive BranchState where
  | planned
  | materialized
  deriving DecidableEq, Repr

/-- A repository permit: 1, 2, 3 or 4. -/
abbrev Permit := {n : ℕ // 1 ≤ n ∧ n ≤ 4}

theorem first_permit : 1 ≤ 1 ∧ 1 ≤ 4 := ⟨Nat.le_refl 1, Nat.le_add_left 1 3⟩

/-- The correlation columns of an event or of a deployment. -/
structure Correlation where
  reviewCheckout : Option Json
  parentDeploymentId : Option String
  builderAuthority : Option BuilderAuthority
  treehousePath : Option String
  treehouseLeaseId : Option String
  treehouseLeaseHolder : Option String
  branchState : Option BranchState
  branchBaseSha : Option String
  branchHeadSha : Option String
  ticketSlotId : Option String
  repositoryPermit : Option Permit

/-- No evidence. -/
def Correlation.empty : Correlation :=
  ⟨none, none, none, none, none, none, none, none, none, none, none⟩

structure ApprovedReference where
  sha : String
  matrixSource : String
  matrixAuthoritySha256 : String
  matrixApprovalEvidence : String
  deriving DecidableEq

/-- `ReviewCheckoutCorrelationEvidence`, without its two constants. -/
structure ReviewCheckout where
  repoKey : String
  repoRoot : String
  worktreeRoot : String
  ticket : String
  leaseId : String
  leaseHolder : String
  branch : String
  baseSha : String
  approvedReference : Option ApprovedReference
  headSha : String
  featureSha : String
  deriving DecidableEq

/-- The object that the validator returns. -/
def ReviewCheckout.toJson (r : ReviewCheckout) : Json :=
  .obj ([("kind", .str "existing-review-checkout"), ("repoKey", .str r.repoKey),
    ("repoRoot", .str r.repoRoot), ("worktreeRoot", .str r.worktreeRoot), ("ticket", .str r.ticket),
    ("leaseId", .str r.leaseId), ("leaseHolder", .str r.leaseHolder), ("branch", .str r.branch),
    ("branchState", .str "materialized"), ("baseSha", .str r.baseSha)] ++
    (r.approvedReference.elim [] fun a => [("approvedReference", .obj [("sha", .str a.sha),
      ("matrixSource", .str a.matrixSource), ("matrixAuthoritySha256", .str a.matrixAuthoritySha256),
      ("matrixApprovalEvidence", .str a.matrixApprovalEvidence)])]) ++
    [("headSha", .str r.headSha), ("featureSha", .str r.featureSha)])

/-! ## Validation -/

/-- `fail(reason)`. -/
def correlationCheck (p : Prop) [Decidable p] (reason : String) : Except String Unit :=
  if p then .ok () else .error reason

/-- A string field that satisfies `p`. -/
def requiredString (p : String → Bool) (reason : String) : Option Json → Except String String
  | some (.str s) => if p s then .ok s else .error reason
  | _ => .error reason

/-- An optional string column that satisfies `p`. -/
def optionalColumn (p : String → Bool) (reason : String) (value : Option String) :
    Except String Unit :=
  correlationCheck (value.all p = true) reason

def canonicalPathReason (field : String) : String :=
  field ++ " must be a normalized absolute path of at most 4096 characters"

def canonicalIdReason (field : String) : String := field ++ " must be a canonical bounded identifier"

def holderReason (field : String) : String := field ++ " must match pa:<repository-key>:<ticket-id>"

def shaReason (field : String) : String :=
  field ++ " must be exactly 40 lowercase hexadecimal characters"

def deploymentIdReason (field : String) : String :=
  field ++ " must match d- followed by six lowercase hexadecimal characters"

/-- The keys of a review checkout. -/
def reviewCheckoutKeys : List String :=
  ["kind", "repoKey", "repoRoot", "worktreeRoot", "ticket", "leaseId", "leaseHolder", "branch",
    "branchState", "baseSha", "headSha", "featureSha"]

/-- A nonempty text of at most 4096 units without control characters. -/
def authorityTextOk (s : String) : Bool :=
  !s.isEmpty && utf16Length s ≤ 4096 && !s.toList.any isControl

def validateApprovedReference (value : Json) : Except String ApprovedReference :=
  match value with
  | .obj fields => do
    let reason := "approved review reference requires exact SHA and complete matrix authority evidence"
    correlationCheck (fields.length = 4) reason
    let sha ← requiredString (hexOk 40) reason (fields.lookup "sha")
    let authority ← requiredString (hexOk 64) reason (fields.lookup "matrixAuthoritySha256")
    let source ← requiredString authorityTextOk reason (fields.lookup "matrixSource")
    let approval ← requiredString authorityTextOk reason (fields.lookup "matrixApprovalEvidence")
    return ⟨sha, source, authority, approval⟩
  | _ => .error "approved review reference is malformed"

/-- `validateReviewCheckoutCorrelationEvidence`. -/
def validateReviewCheckout (value : Json) : Except String ReviewCheckout := do
  let fields := value.entries
  correlationCheck ((∀ f ∈ fields, f.1 ∈ "approvedReference" :: reviewCheckoutKeys) ∧
      ∀ k ∈ reviewCheckoutKeys, (fields.lookup k).isSome)
    "review checkout requires its complete identity tuple and cannot contain builder slot, permit, or authority evidence"
  let reason := "review checkout repository key or ticket is not canonical"
  let repoKey ← requiredString (fun s => utf16Length s ≤ 256 && repoKeyOk s) reason
    (fields.lookup "repoKey")
  let ticket ← requiredString isCanonicalTicketId reason (fields.lookup "ticket")
  let repoRoot ← requiredString canonicalPathOk (canonicalPathReason "repoRoot")
    (fields.lookup "repoRoot")
  let worktreeRoot ← requiredString canonicalPathOk (canonicalPathReason "worktreeRoot")
    (fields.lookup "worktreeRoot")
  let leaseId ← requiredString canonicalIdOk (canonicalIdReason "leaseId") (fields.lookup "leaseId")
  let leaseHolder ← requiredString holderOk (holderReason "leaseHolder") (fields.lookup "leaseHolder")
  let baseSha ← requiredString (hexOk 40) (shaReason "baseSha") (fields.lookup "baseSha")
  let headSha ← requiredString (hexOk 40) (shaReason "headSha") (fields.lookup "headSha")
  let featureSha ← requiredString (hexOk 40) (shaReason "featureSha") (fields.lookup "featureSha")
  let approvedReference ← (fields.lookup "approvedReference").elim (.ok none) fun reference =>
    (validateApprovedReference reference).map some
  let reason :=
    "review checkout must be distinct, materialized, and bound to the exact ticket holder, branch, and Feature SHA"
  let _ ← requiredString (· == "existing-review-checkout") reason (fields.lookup "kind")
  let _ ← requiredString (· == "materialized") reason (fields.lookup "branchState")
  correlationCheck (repoRoot ≠ worktreeRoot ∧ leaseHolder = "pa:" ++ repoKey ++ ":" ++ ticket ∧
    headSha = featureSha) reason
  let branch ← requiredString (fun s => authorityTextOk s && !s.toList.contains ' ') reason
    (fields.lookup "branch")
  return ⟨repoKey, repoRoot, worktreeRoot, ticket, leaseId, leaseHolder, branch, baseSha,
    approvedReference, headSha, featureSha⟩

/-- `DeploymentCorrelationValidationContext`. -/
structure CorrelationContext where
  ticketId : Option String
  worktreeRoot : Option String
  requireWorktreeMatch : Bool

namespace Correlation

/-- `hasBinding`: the Treehouse columns. -/
def hasBinding (c : Correlation) : Bool :=
  c.parentDeploymentId.isSome || c.builderAuthority.isSome || c.treehousePath.isSome ||
    c.treehouseLeaseId.isSome || c.treehouseLeaseHolder.isSome || c.ticketSlotId.isSome ||
    c.repositoryPermit.isSome

/-- `hasAnyCorrelation`. -/
def hasAny (c : Correlation) : Bool :=
  c.reviewCheckout.isSome || c.hasBinding || c.branchState.isSome || c.branchBaseSha.isSome ||
    c.branchHeadSha.isSome

/-- The patterns of the single columns. -/
def checkColumns (c : Correlation) : Except String Unit := do
  optionalColumn deploymentIdOk (deploymentIdReason "parentDeploymentId") c.parentDeploymentId
  optionalColumn canonicalPathOk (canonicalPathReason "treehousePath") c.treehousePath
  optionalColumn canonicalIdOk (canonicalIdReason "treehouseLeaseId") c.treehouseLeaseId
  optionalColumn holderOk (holderReason "treehouseLeaseHolder") c.treehouseLeaseHolder
  optionalColumn (hexOk 40) (shaReason "branchBaseSha") c.branchBaseSha
  optionalColumn (hexOk 40) (shaReason "branchHeadSha") c.branchHeadSha
  optionalColumn holderOk (holderReason "ticketSlotId") c.ticketSlotId

/-- The rules of the branch columns. -/
def checkBranch (c : Correlation) : Except String Unit := do
  correlationCheck (c.branchState.isSome ∨ (c.branchBaseSha = none ∧ c.branchHeadSha = none))
    "branch SHA evidence requires branchState"
  correlationCheck (c.branchState ≠ some .planned ∨ (c.branchBaseSha = none ∧ c.branchHeadSha = none))
    "planned branch evidence cannot contain base/head SHAs"
  correlationCheck (c.branchState ≠ some .materialized ∨ c.branchHeadSha.isSome)
    "materialized branch evidence requires an exact branchHeadSha"

/-- The rules of a Treehouse binding. -/
def checkBinding (c : Correlation) (context : CorrelationContext) : Except String Unit := do
  correlationCheck (c.builderAuthority.isSome ∧ c.treehousePath.isSome ∧ c.treehouseLeaseId.isSome ∧
      c.treehouseLeaseHolder.isSome ∧ c.ticketSlotId.isSome ∧ c.repositoryPermit.isSome)
    "Treehouse binding requires authority, canonical path, lease ID/holder, ticket slot, and repository permit together"
  correlationCheck (c.branchState = some .materialized ∧ c.branchHeadSha.isSome)
    "Treehouse binding requires materialized branch head evidence"
  correlationCheck (c.treehouseLeaseHolder = c.ticketSlotId)
    "Treehouse lease holder and ticket slot ID must match exactly"
  correlationCheck (c.builderAuthority = some .parentedImplement ↔ c.parentDeploymentId.isSome)
    "parentDeploymentId is required only for parented-implement authority"
  correlationCheck (context.ticketId.all isCanonicalTicketId = true) "ticketId is not canonical"
  correlationCheck (context.ticketId.all (fun ticket =>
      c.treehouseLeaseHolder.any (endsWith · (":" ++ ticket))) = true)
    "Treehouse holder/slot does not match ticketId"
  doIf (context.requireWorktreeMatch = true) do
    correlationCheck (context.worktreeRoot.any canonicalPathOk = true)
      (canonicalPathReason "worktreeRoot")
    correlationCheck (c.treehousePath = context.worktreeRoot)
      "Treehouse path and worktreeRoot must match exactly"

end Correlation

/-- The rules of a review checkout, against the other evidence and the row. -/
def checkReviewCheckout (hasBinding : Bool) (context : CorrelationContext) (checkout : ReviewCheckout) :
    Except String Unit :=
  correlationCheck (hasBinding = false ∧ context.ticketId.all (· == checkout.ticket) = true ∧
      context.worktreeRoot.all (· == checkout.worktreeRoot) = true)
    "review checkout cannot carry builder authority or mismatched ticket/execution roots"

/-- The review checkout of the columns, if it is well formed. -/
def readCheckout (value : Option Json) : Except String (Option ReviewCheckout) :=
  value.elim (.ok none) fun value => (validateReviewCheckout value).map some

/-- `validateDeploymentCorrelationEvidence`. -/
def validateCorrelation (c : Correlation) (context : CorrelationContext) :
    Except String Correlation := do
  let checkout ← readCheckout c.reviewCheckout
  c.checkColumns
  c.checkBranch
  checkout.elim (.ok ()) (checkReviewCheckout c.hasBinding context)
  doIf (c.hasBinding = true) (c.checkBinding context)
  return { c with reviewCheckout := checkout.map ReviewCheckout.toJson }

/-! ## What the validator accepts -/

@[simp] theorem correlationCheck_eq_ok {p : Prop} [Decidable p] {reason : String} {u : Unit} :
    correlationCheck p reason = .ok u ↔ p := by
  unfold correlationCheck
  split_ifs with h
  · simp [h]
  · simp [h]

/-- The conditions of `validateCorrelation` on columns whose review checkout is
    `checkout`. -/
structure Correlation.Accepted (c : Correlation) (context : CorrelationContext)
    (checkout : Option ReviewCheckout) : Prop where
  read : readCheckout c.reviewCheckout = .ok checkout
  columns : c.checkColumns = .ok ()
  branch : c.checkBranch = .ok ()
  review : ∀ r, checkout = some r → checkReviewCheckout c.hasBinding context r = .ok ()
  binding : c.hasBinding = true → c.checkBinding context = .ok ()

/-- **What `validateDeploymentCorrelationEvidence` accepts and returns.** -/
theorem validateCorrelation_eq_ok {c c' : Correlation} {context : CorrelationContext} :
    validateCorrelation c context = .ok c' ↔ ∃ checkout, c.Accepted context checkout ∧
      c' = { c with reviewCheckout := checkout.map ReviewCheckout.toJson } := by
  unfold validateCorrelation
  simp only [bind_eq_ok, pure_eq_ok, doIf_eq_ok]
  constructor
  · rintro ⟨checkout, hr, _, hc, _, hb, _, hrev, _, hbind, rfl⟩
    refine ⟨checkout, ⟨hr, hc, hb, ?_, hbind⟩, rfl⟩
    rintro r rfl
    exact hrev
  · rintro ⟨checkout, h, rfl⟩
    refine ⟨checkout, h.read, (), h.columns, (), h.branch, (), ?_, (), h.binding, rfl⟩
    cases checkout with
    | none => rfl
    | some r => exact h.review r rfl

end PaPlatform
