/-
  Approvals and registrations in several worktrees.

  An approval stands in the directory of its parent deployment, so every
  worktree sees it.  Each publication of a receipt admits one borrower at most,
  and so does each worktree.
-/
import PaPlatform.Admission.Registration
import Mathlib.Data.Set.Card

namespace PaPlatform.Admission

open Js Guard Effect

/-! ## Worktrees -/

/-- The evidence of some worktrees. -/
structure Worktrees (K : Type) where
  state : K → State
  /-- All see the same approvals. -/
  shared : ∀ j k, (state j).approval = (state k).approval

/-- The worktrees when `k` is left in the state `s`. -/
def Worktrees.put {K : Type} [DecidableEq K] (w : Worktrees K) (k : K) (s : State) : Worktrees K where
  state j := if j = k then s else (w.state j).withApprovals s.approval
  shared := by
    intro i j
    split_ifs <;> rfl

/-- A call of `publishRepositoryDirtyBorrowApproval` or of
    `registerRepositoryMutationBorrower`. -/
inductive BorrowCall where
  | publish (a : RepositoryDirtyBorrowApproval)
  | register (faults : FileFaults) (o : RegisterRepositoryMutationBorrowerOptions)

structure BorrowEvent (K : Type) where
  worktree : K
  host : Host
  call : BorrowCall

inductive BorrowOutcome where
  | published (receiptId : String)
  | registered (b : RepositoryMutationBorrower)
  | failed

/-- What a call returns and leaves. -/
def BorrowCall.run (c : Checkout) (host : Host) (s : State) : BorrowCall → BorrowOutcome × State
  | publish a =>
    match outcome (publishRepositoryDirtyBorrowApproval c host a) s with
    | (.ok _, s') => (.published a.receiptId, s')
    | (.error _, s') => (.failed, s')
  | register faults o =>
    match outcome (faults.registerRepositoryMutationBorrower c host o) s with
    | (.ok b, s') => (.registered b, s')
    | (.error _, s') => (.failed, s')

section
variable {K : Type} [DecidableEq K] (checkout : K → Checkout)

/-- A sequence of calls: what each returns, and the worktrees it leaves. -/
def runCalls : Worktrees K → List (BorrowEvent K) → List (K × BorrowOutcome) × Worktrees K
  | w, [] => ([], w)
  | w, e :: es =>
    let (r, s) := e.call.run (checkout e.worktree) e.host (w.state e.worktree)
    let (rs, w') := runCalls (w.put e.worktree s) es
    ((e.worktree, r) :: rs, w')

end

/-! ## Receipts -/

def BorrowOutcome.publishes (receiptId : String) : BorrowOutcome → Bool
  | published id => id == receiptId
  | _ => false

/-- A borrower is registered by this receipt. -/
def BorrowOutcome.admits (receiptId : String) : BorrowOutcome → Bool
  | registered b => b.dirtyApprovalReceiptId == some receiptId
  | _ => false

def BorrowOutcome.registers : BorrowOutcome → Bool
  | registered _ => true
  | _ => false

/-- How often the receipt is published. -/
def publications {K : Type} (receiptId : String) (rs : List (K × BorrowOutcome)) : ℕ :=
  rs.countP fun r => r.2.publishes receiptId

/-- The borrowers that the receipt admits. -/
def admissions {K : Type} (receiptId : String) (rs : List (K × BorrowOutcome)) : ℕ :=
  rs.countP fun r => r.2.admits receiptId

/-- The borrowers that are registered in the worktree. -/
def registrations {K : Type} [DecidableEq K] (k : K) (rs : List (K × BorrowOutcome)) : ℕ :=
  rs.countP fun r => r.1 == k && r.2.registers

/-- The paths of the valid approvals with this receipt. -/
def State.holding (s : State) (receiptId : String) : Set String :=
  {path | ∃ a, readValidApprovalUnlocked s path = .found a ∧ a.receiptId = receiptId}

def Worktrees.holding {K : Type} (w : Worktrees K) (receiptId : String) : Set String :=
  {path | ∃ k, path ∈ (w.state k).holding receiptId}

/-! ## One call -/

section
variable {c : Checkout} {host : Host} {s s' : State} {receiptId path : String} {call : BorrowCall}
  {r : BorrowOutcome} {a : RepositoryDirtyBorrowApproval}

theorem readValidApproval_congr (h : s'.approval path = s.approval path) :
    readValidApprovalUnlocked s' path = readValidApprovalUnlocked s path := by
  unfold readValidApprovalUnlocked
  rw [h]

theorem holding_congr (h : s'.approval = s.approval) : s'.holding receiptId = s.holding receiptId := by
  ext path
  unfold State.holding
  simp only [Set.mem_ofPred_eq, readValidApproval_congr (congrFun h path)]

/-- An approval that is removed holds no receipt. -/
theorem holding_removed (h : s'.approval = Function.update s.approval path none) :
    s'.holding receiptId = s.holding receiptId \ {path} := by
  ext p
  unfold State.holding
  simp only [Set.mem_sdiff, Set.mem_ofPred_eq, Set.mem_singleton_iff]
  by_cases hp : p = path
  · subst hp
    have hnone : readValidApprovalUnlocked s' p = .absent := by
      unfold readValidApprovalUnlocked
      rw [h, Function.update_self]
    rw [hnone]
    simp
  · have hsame : s'.approval p = s.approval p := by rw [h, Function.update_of_ne hp]
    rw [readValidApproval_congr hsame]
    simp [hp]

theorem wp_publish : wp (publishRepositoryDirtyBorrowApproval c host a)
    (fun _ s' => ∃ path, s.approval path = none ∧
      s' = s.putApproval path (some (.written host.identity (prettyBytes a.toJson) a)))
    (fun _ s' => s' = s) s := by
  simp only [publishRepositoryDirtyBorrowApproval, wp_bind, wp_get, wp_liftM, wp_failIf, wp_set]
  refine ⟨fun _ => trivial, fun _ => ⟨fun path _ => ⟨fun _ => trivial, fun _ => ⟨fun _ => trivial, fun _ =>
    ⟨fun _ _ => ⟨fun _ => trivial, fun _ => ⟨fun _ => trivial, fun _ => ⟨fun _ => trivial, fun hfree => ?_⟩⟩⟩,
      fun _ _ => trivial⟩⟩⟩, fun _ _ => trivial⟩⟩
  exact ⟨path, isSome_false hfree, rfl⟩

/-- A new approval holds one receipt more at most. -/
theorem holding_published (hfree : s.approval path = none) {e : Evidence RepositoryDirtyBorrowApproval}
    (he : e.content = .record a) : ((s.putApproval path (some e)).holding receiptId).encard ≤
      (if a.receiptId = receiptId then 1 else 0) + (s.holding receiptId).encard := by
  have hsub : ∀ p, p ∈ (s.putApproval path (some e)).holding receiptId →
      p = path ∧ a.receiptId = receiptId ∨ p ∈ s.holding receiptId := by
    rintro p ⟨found, hread, hid⟩
    by_cases hp : p = path
    · refine Or.inl ⟨hp, ?_⟩
      subst hp
      simp only [readValidApprovalUnlocked, State.putApproval, Function.update_self, he] at hread
      split_ifs at hread
      cases hread
      exact hid
    · refine Or.inr ⟨found, ?_, hid⟩
      rwa [readValidApproval_congr (Function.update_of_ne hp _ _)] at hread
  by_cases ha : a.receiptId = receiptId
  · rw [if_pos ha, add_comm]
    refine (Set.encard_le_encard ?_).trans (Set.encard_insert_le _ path)
    intro p hp
    exact (hsub p hp).imp And.left id
  · rw [if_neg ha, zero_add]
    refine Set.encard_le_encard fun p hp => ?_
    exact (hsub p hp).resolve_left fun h => ha h.2

/-- What one call does to the receipt, and to the borrower of the worktree. -/
structure Accounts (receiptId : String) (s : State) (r : BorrowOutcome) (s' : State) : Prop where
  receipt : (if r.admits receiptId = true then 1 else 0 : ℕ∞) + (s'.holding receiptId).encard ≤
    (if r.publishes receiptId = true then 1 else 0) + (s.holding receiptId).encard
  borrower : (if r.registers = true then 1 else 0) + s.borrower.isSome.toNat = s'.borrower.isSome.toNat

theorem publish_accounts (h : (BorrowCall.publish a).run c host s = (r, s')) : Accounts receiptId s r s' := by
  have hspec := @wp_publish c host s a
  unfold BorrowCall.run at h
  rcases hout : outcome (publishRepositoryDirtyBorrowApproval c host a) s with ⟨e | _, t⟩
  · rw [wp_of_error hout] at hspec
    simp only [hout, Prod.mk.injEq] at h
    obtain ⟨rfl, rfl⟩ := h
    subst hspec
    exact ⟨by simp [BorrowOutcome.admits, BorrowOutcome.publishes], by simp [BorrowOutcome.registers]⟩
  · rw [wp_of_ok hout] at hspec
    simp only [hout, Prod.mk.injEq] at h
    obtain ⟨rfl, rfl⟩ := h
    obtain ⟨path, hfree, rfl⟩ := hspec
    refine ⟨?_, by simp [BorrowOutcome.registers]⟩
    simpa [BorrowOutcome.admits, BorrowOutcome.publishes] using holding_published hfree rfl

theorem register_accounts {faults : FileFaults} {o : RegisterRepositoryMutationBorrowerOptions}
    (h : (BorrowCall.register faults o).run c host s = (r, s')) : Accounts receiptId s r s' := by
  have hspec := @FileFaults.wp_register faults c host s o
  unfold BorrowCall.run at h
  rcases hout : outcome (faults.registerRepositoryMutationBorrower c host o) s with ⟨e | b, t⟩
  · rw [wp_of_error hout] at hspec
    simp only [hout, Prod.mk.injEq] at h
    obtain ⟨rfl, rfl⟩ := h
    refine ⟨?_, by simp [BorrowOutcome.registers, hspec.borrower]⟩
    have hle : (t.holding receiptId).encard ≤ (s.holding receiptId).encard := by
      rcases hspec.approval with happ | ⟨path, -, happ⟩
      · rw [holding_congr happ]
      · rw [holding_removed happ]
        exact Set.encard_le_encard Set.sdiff_subset
    simpa [BorrowOutcome.admits, BorrowOutcome.publishes] using hle
  · rw [wp_of_ok hout] at hspec
    simp only [hout, Prod.mk.injEq] at h
    obtain ⟨rfl, rfl⟩ := h
    refine ⟨?_, by simp [BorrowOutcome.registers, hspec.vacant, hspec.stored]⟩
    show _ ≤ 0 + _
    rw [zero_add]
    rcases hspec.receipt with ⟨hid, happ⟩ | ⟨path, a, -, hfound, hid, happ⟩
    · simp [BorrowOutcome.admits, hid, holding_congr happ]
    · by_cases ha : a.receiptId = receiptId
      · have hadmit : (BorrowOutcome.registered b).admits receiptId = true := by
          simp [BorrowOutcome.admits, hid, ha]
        have hmem : path ∈ s.holding receiptId := ⟨a, hfound, ha⟩
        rw [if_pos hadmit, holding_removed happ, add_comm, Set.encard_sdiff_singleton_add_one hmem]
      · have hadmit : ¬ (BorrowOutcome.registered b).admits receiptId = true := by
          simp [BorrowOutcome.admits, hid, ha]
        rw [if_neg hadmit, zero_add, holding_removed happ]
        exact Set.encard_le_encard Set.sdiff_subset

/-- **What one call does** to a receipt and to the borrower of its worktree. -/
theorem run_accounts (h : call.run c host s = (r, s')) : Accounts receiptId s r s' := by
  cases call with
  | publish a => exact publish_accounts h
  | register faults o => exact register_accounts h

end

/-! ## Sequences of calls -/

section
variable {K : Type} [DecidableEq K] {checkout : K → Checkout} {w w' : Worktrees K} {k : K} {s : State}
  {receiptId : String} {es : List (BorrowEvent K)} {rs : List (K × BorrowOutcome)}

omit [DecidableEq K] in
/-- One worktree shows the approvals of all. -/
theorem holding_state : w.holding receiptId = (w.state k).holding receiptId := by
  ext path
  constructor
  · rintro ⟨j, hj⟩
    rwa [← holding_congr (w.shared k j)] at hj
  · exact fun h => ⟨k, h⟩

theorem put_self : (w.put k s).state k = s := if_pos rfl

theorem put_borrower {j : K} (h : j ≠ k) : ((w.put k s).state j).borrower = (w.state j).borrower := by
  show (if j = k then s else (w.state j).withApprovals s.approval).borrower = _
  rw [if_neg h]
  rfl

theorem runCalls_cons {e : BorrowEvent K} (h : runCalls checkout w (e :: es) = (rs, w')) :
    ∃ r s rs', e.call.run (checkout e.worktree) e.host (w.state e.worktree) = (r, s) ∧
      runCalls checkout (w.put e.worktree s) es = (rs', w') ∧ rs = (e.worktree, r) :: rs' := by
  rcases hrun : e.call.run (checkout e.worktree) e.host (w.state e.worktree) with ⟨r, s⟩
  rcases hrest : runCalls checkout (w.put e.worktree s) es with ⟨rs', w''⟩
  simp only [runCalls, hrun, hrest, Prod.mk.injEq] at h
  obtain ⟨rfl, rfl⟩ := h
  exact ⟨r, s, rs', rfl, hrest, rfl⟩

/-- **A receipt admits** no more borrowers than it has publications and approvals. -/
theorem admissions_le (h : runCalls checkout w es = (rs, w')) :
    (admissions receiptId rs : ℕ∞) + (w'.holding receiptId).encard ≤
      publications receiptId rs + (w.holding receiptId).encard := by
  induction es generalizing w rs with
  | nil =>
    simp only [runCalls, Prod.mk.injEq] at h
    obtain ⟨rfl, rfl⟩ := h
    simp [admissions, publications]
  | cons e es ih =>
    obtain ⟨r, s, rs', hrun, hrest, rfl⟩ := runCalls_cons h
    have hcall := (@run_accounts _ _ _ _ receiptId _ _ hrun).receipt
    rw [← holding_state] at hcall
    have hput : (w.put e.worktree s).holding receiptId = s.holding receiptId := by
      rw [holding_state (k := e.worktree), put_self]
    have hrest := ih hrest
    rw [hput] at hrest
    simp only [admissions, publications, List.countP_cons, Nat.cast_add, Nat.cast_ite, Nat.cast_one,
      Nat.cast_zero] at hrest ⊢
    calc _ = ((rs'.countP fun r => r.2.admits receiptId : ℕ) : ℕ∞) + (w'.holding receiptId).encard +
          (if r.admits receiptId = true then 1 else 0) := by ring
      _ ≤ (rs'.countP fun r => r.2.publishes receiptId : ℕ) + (s.holding receiptId).encard +
          (if r.admits receiptId = true then 1 else 0) := by gcongr
      _ = (rs'.countP fun r => r.2.publishes receiptId : ℕ) +
          ((if r.admits receiptId = true then 1 else 0) + (s.holding receiptId).encard) := by ring
      _ ≤ (rs'.countP fun r => r.2.publishes receiptId : ℕ) +
          ((if r.publishes receiptId = true then 1 else 0) + (w.holding receiptId).encard) := by gcongr
      _ = _ := by ring

/-- **A worktree has** one registration at most, and none beside a borrower. -/
theorem registrations_eq (h : runCalls checkout w es = (rs, w')) :
    registrations k rs + (w.state k).borrower.isSome.toNat = (w'.state k).borrower.isSome.toNat := by
  induction es generalizing w rs with
  | nil =>
    simp only [runCalls, Prod.mk.injEq] at h
    obtain ⟨rfl, rfl⟩ := h
    simp [registrations]
  | cons e es ih =>
    obtain ⟨r, s, rs', hrun, hrest, rfl⟩ := runCalls_cons h
    have hcall := (@run_accounts _ _ _ _ "" _ _ hrun).borrower
    have hrest := ih hrest
    simp only [registrations, List.countP_cons] at hrest ⊢
    by_cases hk : e.worktree = k
    · subst hk
      rw [put_self, ← hcall] at hrest
      simp only [beq_self_eq_true, Bool.true_and]
      omega
    · rw [put_borrower (Ne.symm hk)] at hrest
      have hother : (e.worktree == k && r.registers) = false := by simp [hk]
      rw [hother]
      simpa using hrest

end

/-! ## The result -/

/-- The same bytes, in the same file or in a new one. -/
def SameBytes {α : Type} (e e' : Option (Evidence α)) : Prop :=
  e'.map (fun e => (e.size, e.content)) = e.map fun e => (e.size, e.content)

theorem sameBytes_rewritten {α : Type} {host : Host} {e : Option (Evidence α)} :
    SameBytes e (e.map (rewritten host)) := by
  cases e <;> rfl

/-- **A registration** is all or nothing, in every state and under every fault
    of its file operations: a rejection changes no byte of the evidence but the
    approval of the parent, and a borrower has the snapshot that was read, which
    is the authority of the stored lease or, when dirty, has its head.  In every
    sequence of calls in several worktrees, a receipt admits no more borrowers
    than it has publications and approvals at the start, and a worktree one. -/
theorem registration_all_or_nothing :
    (∀ (faults : FileFaults) (c : Checkout) (host : Host) (o : RegisterRepositoryMutationBorrowerOptions)
      (s s' : State) (category reason : String),
      outcome (faults.registerRepositoryMutationBorrower c host o) s = (.error (.rejected category reason), s') →
        s' = { s with lease := s'.lease, approval := s'.approval } ∧ SameBytes s.lease s'.lease ∧
          (s'.approval = s.approval ∨
            ∃ path, FileFaults.Presents s o path ∧ s'.approval = Function.update s.approval path none)) ∧
    (∀ (faults : FileFaults) (c : Checkout) (host : Host) (o : RegisterRepositoryMutationBorrowerOptions)
      (s s' : State) (b : RepositoryMutationBorrower),
      outcome (faults.registerRepositoryMutationBorrower c host o) s = (.ok b, s') →
        recordOf s'.borrower = some b ∧ snapshotOr c host o.gitSnapshot = .ok b.launchGitSnapshot ∧
          ∃ l, recordOf s'.lease = some l ∧ (b.launchGitSnapshot = l.authority ∨
            b.launchGitSnapshot.dirty = true ∧ b.launchGitSnapshot.head = l.authority.head)) ∧
    ∀ (K : Type) (_ : DecidableEq K) (checkout : K → Checkout) (w : Worktrees K) (es : List (BorrowEvent K)),
      (∀ receiptId, (admissions receiptId (runCalls checkout w es).1 : ℕ∞) ≤
        publications receiptId (runCalls checkout w es).1 + (w.holding receiptId).encard) ∧
      ∀ k, registrations k (runCalls checkout w es).1 ≤ 1 := by
  refine ⟨fun faults c host o s s' category reason h => ?_, fun faults c host o s s' b h => ?_,
    fun K _ checkout w es => ⟨fun receiptId => ?_, fun k => ?_⟩⟩
  · have hspec := (wp_of_error h).1 FileFaults.wp_register
    refine ⟨?_, ?_, hspec.approval⟩
    · rcases hspec.rest category reason rfl with hs | hs
      · rw [hs]
      · rw [hs]
    · rcases hspec.rest category reason rfl with hs | hs
      · rw [hs]
        rfl
      · rw [hs]
        exact sameBytes_rewritten
  · have hspec := (wp_of_ok h).1 FileFaults.wp_register
    refine ⟨?_, hspec.snapshot, hspec.parent⟩
    rw [hspec.stored]
    rfl
  · exact le_self_add.trans (admissions_le rfl)
  · have h := @registrations_eq _ _ checkout w _ k es _ rfl
    have hle := Bool.toNat_le ((runCalls checkout w es).2.state k).borrower.isSome
    omega

namespace Sample

/-- The digest of a checkout of this branch with an untracked file. -/
def dirtyDigest : String := "cff018f86586b9b034eac20a7e47b2548de410fa3ace44cff64c4b0f8bc897c5"

theorem dirtyDigest_ok : shaOk 64 dirtyDigest = true := by decide +kernel

/-- `sha256` on this checkout. -/
def dirtySha256 (bytes : Bytes) : Sha256 :=
  if bytes = snapshotBytes "feature/PA-4-x" "a" [63, 32, 97, 0] then ⟨dirtyDigest, dirtyDigest_ok⟩ else ⟨zeros, zeros_ok⟩

/-- The checkout with the untracked file `a`. -/
def dirty : RepositoryGitSnapshot :=
  ⟨"feature/PA-4-x", "a", 0, 0, 1, true, "?? \"a\"", some "PyBhAA==", some 1,
    some [⟨1, .untracked, "??", "a", "YQ==", none⟩], some dirtyDigest⟩

/-- Two repositories. -/
def repository (second : Bool) : String := if second then "/two" else "/one"

def repositories (second : Bool) : Checkout :=
  ⟨repository second, repository second, repository second ++ "/.git", dirtySha256, Registry.isoDates⟩

/-- The deployment that owns the repository. -/
def owner (second : Bool) : String := if second then "d-3" else "d-1"

def directory (second : Bool) : String := "/" ++ owner second

def ownedLease (second : Bool) : RepositoryMutationLease where
  ownershipToken := "t1"
  canonicalRepoKey := "pa"
  canonicalRepoRoot := repository second
  worktreeRoot := none
  slot := none
  deploymentId := owner second
  deploymentDirectory := directory second
  runtime := "pi"
  mode := "orchestrator"
  team := some "builder"
  directExecutionCustody := none
  advisoryOperation := none
  launchMode := some .foreground
  processFingerprint := process 10
  acquiredAt := time
  preLaunchGitSnapshot := ⟨"feature/PA-4-x", "a", 0, 0, 0, false, "", none, none, none, none⟩
  authorityGitSnapshot := none
  authorityUpdatedAt := none
  authorityChildDeploymentId := none
  ticket := some "PA-4"
  repositoryGitDir := none
  repositoryGitCommonDir := none
  repositoryMetadataIdentity := none
  branchTransitionPolicy := none
  initialDevelopRemoteHead := none
  branchTransitioned := false

/-- An orchestrator owns each repository. -/
def owners : Worktrees Bool where
  state second := { State.empty Registry.Database.empty ⟨"feature/PA-4-x", "a", "a"⟩ with
    lease := some (writtenLease (moment 10 (fun _ => true) "t1") (ownedLease second)) }
  shared _ _ := rfl

/-- The owner approves the untracked file, always by the same receipt. -/
def approval (second : Bool) : RepositoryDirtyBorrowApproval where
  receiptId := "receipt"
  approvalReference := "operator"
  approvedAt := time
  parentDeploymentId := owner second
  parentDeploymentDirectory := directory second
  parentProcessFingerprint := process 10
  parentLeaseEvidenceIdentity := "identity-t1"
  canonicalRepoKey := "pa"
  canonicalRepoRoot := repository second
  worktreeRoot := none
  ticket := "PA-4"
  branch := "feature/PA-4-x"
  snapshot := dirty
  classifications := [⟨"a", .produced⟩]
  plannedNewPaths := []

def dirtyRegistration (second : Bool) : RegisterRepositoryMutationBorrowerOptions :=
  { registration with
    parentDeploymentId := owner second
    branch := "feature/PA-4-x"
    gitSnapshot := some dirty
    dirtyApprovalPath := some (directory second ++ "/repository-dirty-borrow.approval.json") }

/-- A child is registered in both repositories. -/
def bothRegistered : List (BorrowEvent Bool) :=
  [false, true].flatMap fun second =>
    [⟨second, moment 10 (fun _ => true) "t2", .publish (approval second)⟩,
      ⟨second, moment 20 (fun _ => true) "t3", .register .none (dirtyRegistration second)⟩]

end Sample

/-- Two approvals with one receipt admit a borrower each. -/
theorem receipt_admits_two : 1 < admissions "receipt" (runCalls Sample.repositories Sample.owners Sample.bothRegistered).1 ∧
    (∀ second, (Sample.owners.state second).approval = fun _ => none) := by
  refine ⟨?_, fun _ => rfl⟩
  decide +kernel

end PaPlatform.Admission
