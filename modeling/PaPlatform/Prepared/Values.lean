/-
  The contract and the receipt of a prepared workflow
  (`deploy/prepared-workflow.ts`), with their JSON.

  A contract or receipt that its parser rejects cannot be built.
-/
import PaPlatform.Deploy.Values

namespace PaPlatform.Prepared

open Js

/-! ## The contract -/

structure PreparationContract where
  repoKey : Text
  repoRoot : AbsolutePath
  ticket : Text
  branch : Text
  integrationTarget : Text
  approvalBaseSha : GitSha
  requirements : SourceVersion
  uat : SourceVersion
  promotionEvidence : Text
  signoffEvidence : Text
  finalChecks : SourceVersion
  matrix : SourceVersion
  matrixApprovalEvidence : Text
  repoKey_ok : repoKeyOk repoKey.1 = true
  ticket_ok : ticketOk ticket.1 = true
  branch_ok : branchOk ticket.1 branch.1 = true
  uat_ne : requirements.ref ≠ uat.ref
  matrix_eq : matrix.ref = requirements.ref
  deriving DecidableEq

def PreparationContract.keys : List String := ["schemaVersion", "policyVersion", "repoKey",
  "repoRoot", "ticket", "branch", "integrationTarget", "approvalBaseSha", "requirements", "uat",
  "promotionEvidence", "signoffEvidence", "finalChecks", "finalCheckCount", "matrix",
  "matrixApprovalEvidence"]

@[simp] theorem PreparationContract.exactObject_keys {values : List Json}
    (h : values.length = 16) :
    Json.exactObject keys (.obj (keys.zip values)) = some values :=
  Json.exactObject_zip (by decide) h.symm

def PreparationContract.toJson (c : PreparationContract) : Json :=
  .obj (keys.zip [.str "prepared-workflow/v1", .str "prepared-autonomy/v1", .ofChecked c.repoKey,
    .ofChecked c.repoRoot, .ofChecked c.ticket, .ofChecked c.branch, .ofChecked c.integrationTarget,
    .ofChecked c.approvalBaseSha, c.requirements.toJson, c.uat.toJson,
    .ofChecked c.promotionEvidence, .ofChecked c.signoffEvidence, c.finalChecks.toJson, .num 13,
    c.matrix.toJson, .ofChecked c.matrixApprovalEvidence])

/-- `parsePreparationContract`. -/
def parsePreparationContract (value : Json) : Option PreparationContract := do
  let [schemaVersion, policyVersion, repoKey, repoRoot, ticket, branch, integrationTarget,
    approvalBaseSha, requirements, uat, promotionEvidence, signoffEvidence, finalChecks,
    finalCheckCount, matrix, matrixApprovalEvidence] ←
    Json.exactObject PreparationContract.keys value | none
  let repoKey ← workflowText repoKey
  let ticket ← workflowText ticket
  let branch ← workflowText branch
  Json.literal "prepared-workflow/v1" schemaVersion
  Json.literal "prepared-autonomy/v1" policyVersion
  Json.check (Json.integer finalCheckCount = some 13)
  let requirements ← parseSourceVersion requirements
  let uat ← parseSourceVersion uat
  let matrix ← parseSourceVersion matrix
  let repoRoot ← workflowPath repoRoot
  let integrationTarget ← workflowText integrationTarget
  let approvalBaseSha ← workflowGitSha approvalBaseSha
  let promotionEvidence ← workflowText promotionEvidence
  let signoffEvidence ← workflowText signoffEvidence
  let finalChecks ← parseSourceVersion finalChecks
  let matrixApprovalEvidence ← workflowText matrixApprovalEvidence
  if h : repoKeyOk repoKey.1 = true ∧ ticketOk ticket.1 = true ∧
      branchOk ticket.1 branch.1 = true ∧ requirements.ref ≠ uat.ref ∧
      matrix.ref = requirements.ref then
    some ⟨repoKey, repoRoot, ticket, branch, integrationTarget, approvalBaseSha, requirements, uat,
      promotionEvidence, signoffEvidence, finalChecks, matrix, matrixApprovalEvidence, h.1, h.2.1,
      h.2.2.1, h.2.2.2.1, h.2.2.2.2⟩
  else none

@[simp] theorem parsePreparationContract_toJson (c : PreparationContract) :
    parsePreparationContract c.toJson = some c := by
  have h : repoKeyOk c.repoKey.1 = true ∧ ticketOk c.ticket.1 = true ∧
      branchOk c.ticket.1 c.branch.1 = true ∧ c.requirements.ref ≠ c.uat.ref ∧
      c.matrix.ref = c.requirements.ref :=
    ⟨c.repoKey_ok, c.ticket_ok, c.branch_ok, c.uat_ne, c.matrix_eq⟩
  have hcount := Json.check_pos (p := Json.integer (.num 13) = some 13) rfl
  rw [parsePreparationContract, PreparationContract.toJson,
    PreparationContract.exactObject_keys rfl]
  dsimp only [Option.bind_eq_bind, Option.bind_some]
  -- one rewrite for each field, in the order in which the reader reads them
  rw [workflowText_ofChecked, Option.bind_some, workflowText_ofChecked, Option.bind_some,
    workflowText_ofChecked, Option.bind_some, Json.literal_str, Option.bind_some,
    Json.literal_str, Option.bind_some, hcount, Option.bind_some,
    parseSourceVersion_toJson, Option.bind_some, parseSourceVersion_toJson, Option.bind_some,
    parseSourceVersion_toJson, Option.bind_some, workflowPath_ofChecked, Option.bind_some,
    workflowText_ofChecked, Option.bind_some, workflowGitSha_ofChecked, Option.bind_some,
    workflowText_ofChecked, Option.bind_some, workflowText_ofChecked, Option.bind_some,
    parseSourceVersion_toJson, Option.bind_some, workflowText_ofChecked, Option.bind_some,
    dif_pos h]

/-- `preparationIdentity`. -/
def preparationIdentity (sha256 : Bytes → Sha256) (c : PreparationContract) : Sha256 :=
  workflowDigest sha256 c.toJson.stringify

/-! ## The receipt -/

inductive ReceiptState where
  | ready
  | consumed
  deriving DecidableEq

/-- The text of a receipt state. -/
def ReceiptState.text : ReceiptState → String
  | .ready => "ready"
  | .consumed => "consumed"

structure PreparedReceipt where
  receiptId : Sha256
  state : ReceiptState
  contract : PreparationContract
  preparationBaseSha : GitSha
  preparedHeadSha : GitSha
  worktreeRoot : AbsolutePath
  leaseRef : Text
  capacityRef : Text
  custodyRef : Text
  ticketReread : SourceVersion
  observedAt : Timestamp
  worktree_ne : worktreeRoot ≠ contract.repoRoot
  deriving DecidableEq

def PreparedReceipt.keys : List String := ["schemaVersion", "operationId", "receiptId", "state",
  "contract", "preparationBaseSha", "preparedHeadSha", "worktreeRoot", "leaseRef", "capacityRef",
  "custodyRef", "ticketReread", "observedAt", "nextOwner"]

@[simp] theorem PreparedReceipt.exactObject_keys {values : List Json} (h : values.length = 14) :
    Json.exactObject keys (.obj (keys.zip values)) = some values :=
  Json.exactObject_zip (by decide) h.symm

def parseReceiptState : Json → Option ReceiptState
  | .str "ready" => some .ready
  | .str "consumed" => some .consumed
  | _ => none

@[simp] theorem parseReceiptState_text (s : ReceiptState) :
    parseReceiptState (.str s.text) = some s := by
  cases s <;> rfl

section
variable (sha256 : Bytes → Sha256)

def PreparedReceipt.toJson (r : PreparedReceipt) : Json :=
  .obj (keys.zip [.str "prepared-receipt/v1", .ofChecked (preparationIdentity sha256 r.contract),
    .ofChecked r.receiptId, .str r.state.text, r.contract.toJson, .ofChecked r.preparationBaseSha,
    .ofChecked r.preparedHeadSha, .ofChecked r.worktreeRoot, .ofChecked r.leaseRef,
    .ofChecked r.capacityRef, .ofChecked r.custodyRef, r.ticketReread.toJson,
    .ofChecked r.observedAt, .str "builder"])

/-- `parsePreparedReceipt`. -/
def parsePreparedReceipt (value : Json) : Option PreparedReceipt := do
  let [schemaVersion, operationId, receiptId, state, contract, preparationBaseSha, preparedHeadSha,
    worktreeRoot, leaseRef, capacityRef, custodyRef, ticketReread, observedAt, nextOwner] ←
    Json.exactObject PreparedReceipt.keys value | none
  let contract ← parsePreparationContract contract
  let worktreeRoot ← workflowPath worktreeRoot
  Json.literal "prepared-receipt/v1" schemaVersion
  Json.literal (preparationIdentity sha256 contract).1 operationId
  let state ← parseReceiptState state
  Json.literal "builder" nextOwner
  let receiptId ← workflowSha receiptId
  let preparationBaseSha ← workflowGitSha preparationBaseSha
  let preparedHeadSha ← workflowGitSha preparedHeadSha
  let leaseRef ← workflowText leaseRef
  let capacityRef ← workflowText capacityRef
  let custodyRef ← workflowText custodyRef
  let ticketReread ← parseSourceVersion ticketReread
  let observedAt ← workflowTimestamp observedAt
  if h : worktreeRoot ≠ contract.repoRoot then
    some ⟨receiptId, state, contract, preparationBaseSha, preparedHeadSha, worktreeRoot, leaseRef,
      capacityRef, custodyRef, ticketReread, observedAt, h⟩
  else none

end

@[simp] theorem parsePreparedReceipt_toJson (sha256 : Bytes → Sha256) (r : PreparedReceipt) :
    parsePreparedReceipt sha256 (r.toJson sha256) = some r := by
  have hid : Json.literal (preparationIdentity sha256 r.contract).1
      (.ofChecked (preparationIdentity sha256 r.contract)) = some () := Json.literal_str _
  simp only [parsePreparedReceipt, PreparedReceipt.toJson, PreparedReceipt.exactObject_keys,
    List.length_cons, List.length_nil, Option.bind_eq_bind, Option.bind_some,
    parsePreparationContract_toJson, parseReceiptState_text, hid, workflowText_ofChecked,
    workflowPath_ofChecked, workflowGitSha_ofChecked, workflowSha_ofChecked,
    parseSourceVersion_toJson, workflowTimestamp_ofChecked, Json.literal_str,
    dif_pos r.worktree_ne]

@[simp] theorem nullable_parsePreparedReceipt (sha256 : Bytes → Sha256)
    (o : Option PreparedReceipt) :
    Json.nullable (parsePreparedReceipt sha256) (.ofOption (PreparedReceipt.toJson sha256) o) =
      some o :=
  Json.nullable_ofOption (parsePreparedReceipt_toJson sha256) (by simp [PreparedReceipt.toJson]) o

end PaPlatform.Prepared
