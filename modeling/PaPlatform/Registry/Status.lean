/-
  Reading the status of a deployment.

  `queryDeploymentStatus` validates the correlation columns again, together with
  the current ticket, and drops them all when they are not valid.  They are kept
  as long as every association names a ticket that the start evidence names.
-/
import PaPlatform.Registry.Evidence

namespace PaPlatform.Registry

open Js Guard

variable {dates : DateReader} {op : Operation} {db db' : Database} {s row : RegistryEvent}
  {d : String}

/-- `queryDeploymentStatus`. -/
def queryDeploymentStatus (dates : DateReader) (db : Database) (d : String) :
    Result (Option DeploymentStatus) :=
  (db.deployments d).elim (.ok none) fun row => (deploymentFromRow dates d row).map some

/-- The evidence `c` names `ticket`: its review checkout is of that ticket, and
    the holder of its Treehouse binding ends with it. -/
def Correlation.names (c : Correlation) (ticket : String) : Bool :=
  (match readCheckout c.reviewCheckout with
    | .ok (some checkout) => checkout.ticket == ticket
    | _ => true) &&
  (!c.hasBinding || c.treehouseLeaseHolder.any (endsWith · (":" ++ ticket)))

/-- A ticket that a deployment may have: that of its start, or a canonical one
    that its evidence names. -/
def TicketOf (s : RegistryEvent) (ticketId : Option String) : Prop :=
  ticketId = s.ticketId ∨
    ∃ t, ticketId = some t ∧ isCanonicalTicketId t = true ∧ Correlation.names s.correlation t = true

/-! ## Validation of the row -/

/-- **The columns of a row are valid** with any head and any ticket that its
    start allows. -/
theorem accepted_of_start {checkout : Option ReviewCheckout} {head ticketId : Option String}
    (ha : s.correlation.Accepted ⟨s.ticketId, s.launch.worktreeRoot, s.correlation.hasBinding⟩ checkout)
    (hh : HeadOf s.correlation head) (ht : TicketOf s ticketId) :
    Correlation.Accepted { s.correlation with branchHeadSha := head }
      ⟨ticketId, s.launch.worktreeRoot,
        s.correlation.treehousePath.isSome && s.launch.worktreeRoot.isSome⟩ checkout := by
  obtain ⟨hsome, hhead⟩ := hh
  constructor
  · exact ha.read
  · have hcol := ha.columns
    simp only [Correlation.checkColumns, optionalColumn, bind_eq_ok, correlationCheck_eq_ok] at hcol ⊢
    obtain ⟨_, h1, _, h2, _, h3, _, h4, _, h5, _, -, h7⟩ := hcol
    refine ⟨(), h1, (), h2, (), h3, (), h4, (), h5, (), ?_, h7⟩
    cases head with
    | none => rfl
    | some h => exact (hhead h rfl).1
  · have hbr := ha.branch
    simp only [Correlation.checkBranch, bind_eq_ok, correlationCheck_eq_ok] at hbr ⊢
    obtain ⟨_, h1, _, h2, h3⟩ := hbr
    have hnone : s.correlation.branchState ≠ some .materialized → head = none := by
      intro hne
      cases head with
      | none => rfl
      | some h => exact absurd (hhead h rfl).2 hne
    refine ⟨(), ?_, (), ?_, ?_⟩
    · rcases h1 with h1 | ⟨hb, -⟩
      · exact .inl h1
      · by_cases hm : s.correlation.branchState = some .materialized
        · exact .inl (by rw [hm]; rfl)
        · exact .inr ⟨hb, hnone hm⟩
    · rcases h2 with h2 | ⟨hb, -⟩
      · exact .inl h2
      · by_cases hm : s.correlation.branchState = some .materialized
        · exact .inl (by rw [hm]; simp)
        · exact .inr ⟨hb, hnone hm⟩
    · exact h3.imp_right hsome
  · intro r hr
    have hrev := ha.review r hr
    simp only [checkReviewCheckout, correlationCheck_eq_ok] at hrev ⊢
    obtain ⟨hb, hticket, hroot⟩ := hrev
    refine ⟨hb, ?_, hroot⟩
    rcases ht with rfl | ⟨t, rfl, -, hn⟩
    · exact hticket
    · have hread := ha.read
      rw [hr] at hread
      rw [Correlation.names, hread, Bool.and_eq_true, beq_iff_eq] at hn
      simp [hn.1]
  · intro hb
    have hbind := ha.binding hb
    replace hb : s.correlation.hasBinding = true := hb
    simp only [Correlation.checkBinding, bind_eq_ok, correlationCheck_eq_ok, doIf_eq_ok] at hbind ⊢
    obtain ⟨_, h1, _, ⟨hm, hs⟩, _, h3, _, h4, _, h5, _, h6, h7⟩ := hbind
    refine ⟨(), h1, (), ⟨hm, hsome hs⟩, (), h3, (), h4, (), ?_, (), ?_, fun _ => h7 hb⟩
    · rcases ht with rfl | ⟨t, rfl, hc, -⟩
      · exact h5
      · exact hc
    · rcases ht with rfl | ⟨t, rfl, -, hn⟩
      · exact h6
      · rw [Correlation.names, Bool.and_eq_true, hb] at hn
        simpa using hn.2

/-- **The reader keeps the columns** of a row that follows its start. -/
theorem read_row {checkout : Option ReviewCheckout} {head ticketId : Option String}
    (ha : s.correlation.Accepted ⟨s.ticketId, s.launch.worktreeRoot, s.correlation.hasBinding⟩ checkout)
    (hh : HeadOf s.correlation head) (ht : TicketOf s ticketId) :
    correlationFromRow { s.correlation with branchHeadSha := head } ticketId s.launch.worktreeRoot =
      { s.correlation with
        branchHeadSha := head
        reviewCheckout := checkout.map ReviewCheckout.toJson } := by
  have hv := validateCorrelation_eq_ok.2 ⟨checkout, accepted_of_start ha hh ht, rfl⟩
  unfold correlationFromRow
  rw [hv]

theorem deploymentFromRow_ok {row : Deployment} (hf : Follows dates s row)
    (ht : dates.normalize s.timestamp = some s.timestamp) :
    ∃ status, deploymentFromRow dates d row = .ok status ∧ status.deployId = d ∧
      status.row.correlation = correlationFromRow row.correlation row.ticketId s.launch.worktreeRoot := by
  have hcomp : ∃ t, (optionalString row.completedAt).elim (.ok none) (fun t =>
      (normalizeTimestamp dates t).map some) = .ok t := by
    cases hc : optionalString row.completedAt with
    | none => exact ⟨none, rfl⟩
    | some t =>
      have hn := hf.completedAt t (Option.filter_eq_some_iff.1 hc).1
      refine ⟨some t, ?_⟩
      rw [Option.elim_some, normalizeTimestamp, hn]
      rfl
  obtain ⟨t, hcomp⟩ := hcomp
  rw [deploymentFromRow, hf.startedAt, Option.getD_some, normalizeTimestamp, ht, require_some, ok_bind,
    hcomp, ok_bind, hf.launch]
  exact ⟨_, rfl, rfl, rfl⟩

theorem readCheckout_isSome {v : Option Js.Json} {checkout : Option ReviewCheckout}
    (h : readCheckout v = .ok checkout) : checkout.isSome = v.isSome := by
  cases v with
  | none =>
    cases h
    rfl
  | some v =>
    rw [readCheckout, Option.elim_some] at h
    obtain ⟨r, -, rfl⟩ := map_eq_ok.1 h
    rfl

/-! ## Tickets that the evidence names -/

/-- Every deployment has a ticket that its start allows. -/
def Named (db : Database) : Prop :=
  ∀ d s, db.startOf d = some s → ∀ t, db.ticketOf d = some t → TicketOf s t

/-- An association names a ticket that the start evidence names. -/
def Faithful (db : Database) (op : Operation) : Prop :=
  ∀ input, op = .associate input → ∀ s, db.startOf input.deploymentId = some s →
    Correlation.names s.correlation input.ticketId = true

theorem Named.write (h : Named db) (hf : Faithful db op) (hw : Writes dates op db db') : Named db' := by
  intro d s hs t ht
  cases hw.ticketChange d with
  | kept hs' ht' => exact h d s (hs'.symm.trans hs) t (ht'.symm.trans ht)
  | launched _ hs' ht' =>
    rw [hs', Option.some.injEq] at hs
    rw [ht', Option.some.injEq] at ht
    subst hs
    exact .inl ht.symm
  | moved hop hd ha hs' ht' =>
    subst hd
    rw [ht', Option.some.injEq] at ht
    refine .inr ⟨_, ht.symm, ha.canonical, hf _ hop s (hs'.symm.trans hs)⟩

theorem named {parse : String → Option ReviewObjective} {h : List (Run.Step Database Call)}
    (hr : Reaches dates parse h db) (hf : ∀ st ∈ h, Faithful st.before st.event.operation) :
    Named db := by
  refine hr.invariant (P := fun h db => (∀ st ∈ h, Faithful st.before st.event.operation) → Named db)
    ?_ ?_ hf
  · intro _ d s hs
    simp [Database.startOf, Database.eventsOf, Database.empty] at hs
  · intro h s call s' _ ih hok hf
    refine (ih fun st hst => hf st (by simp [hst])).write ?_ (perform_writes hok)
    exact hf ⟨s, call, s'⟩ (by simp)

/-- **The evidence stays in the status.**  In every run whose associations name
    tickets that the start evidence names, the status of a deployment that was
    started with a review checkout or a Treehouse binding has the evidence that
    it had after its start; only the branch head may be another. -/
theorem evidence_stays_in_status {parse : String → Option ReviewObjective}
    {h : List (Run.Step Database Call)} (hr : Reaches dates parse h db)
    (hf : ∀ st ∈ h, Faithful st.before st.event.operation) (hs : db.startOf d = some s)
    (he : s.correlation.reviewCheckout.isSome = true ∨ s.correlation.hasBinding = true) :
    ∃ evidence status head,
      correlationFromRow s.correlation s.ticketId s.launch.worktreeRoot = evidence ∧
      (evidence.reviewCheckout.isSome = true ∨ evidence.hasBinding = true) ∧
      queryDeploymentStatus dates db d = .ok (some status) ∧
      status.row.correlation = { evidence with branchHeadSha := head } ∧
      (evidence.branchHeadSha.isSome = true → head.isSome = true) := by
  obtain ⟨hsound, -, row, hrow, hfol⟩ := (evidenced hr d).started s hs
  obtain ⟨checkout, ha⟩ := hsound
  obtain ⟨head, hcol, hhead⟩ := hfol.correlation
  have hstart := read_row ha ⟨id, (branch_of_accepted ha).1⟩ (.inl rfl)
  have hticket : TicketOf s row.ticketId := by
    refine named hr hf d s hs row.ticketId ?_
    rw [Database.ticketOf, hrow]
    rfl
  have hread := read_row ha hhead hticket
  have hstored : dates.normalize s.timestamp = some s.timestamp := by
    obtain ⟨stored, hmem, rfl, -⟩ := Database.startOf_mem hs
    exact readable hr stored (Database.mem_eventsOf.1 hmem).1
  obtain ⟨status, hstatus, -, hcorr⟩ := deploymentFromRow_ok (d := d) hfol hstored
  refine ⟨_, status, head, hstart, ?_, ?_, ?_, hhead.1⟩
  · refine he.imp (fun hrc => ?_) id
    simp [readCheckout_isSome ha.read, hrc]
  · rw [queryDeploymentStatus, hrow, Option.elim_some, hstatus]
    rfl
  · rw [hcorr, hcol, hread]

namespace StatusSample

def time : String := "2026-02-04T00:00:00.000Z"

def env : Environment := ⟨time, some [("pa", "/pa/root")], fun _ => some (some "pa")⟩

def sha : String := String.ofList (List.replicate 40 'b')

/-- The start of a review of `PA-5` with a checkout. -/
def start : RegistryEvent :=
  { RegistryEvent.bare "d-000005" "requirements" .started time with
    ticketId := some "PA-5"
    launch := { Launch.empty with
      mode := some "review-auto"
      runtime := some "pi"
      repo := some "/pa/trees/5"
      repoRoot := some "/pa/root"
      worktreeRoot := some "/pa/trees/5" }
    correlation := { Correlation.empty with
      reviewCheckout := some (ReviewCheckout.mk "pa" "/pa/root" "/pa/trees/5" "PA-5" "lease-5"
        "pa:pa:PA-5" "feature/5" sha none sha sha).toJson } }

def associate : Call := ⟨.associate ⟨"d-000005", "PA-6", some "PA-5", "me", "moved", none⟩, env⟩

/-- Whether the status of the review has its checkout. -/
def shown (db : Database) : Bool :=
  (queryDeploymentStatus isoDates db "d-000005").toOption.any fun status =>
    status.any fun status => status.row.correlation.reviewCheckout.isSome

end StatusSample

/-- Another ticket makes the checkout of a review disappear from its status. -/
theorem association_hides_review_checkout :
    ∃ h db, Reaches isoDates (fun _ => none) h db ∧
      h.map (·.event) = [⟨.append StatusSample.start, StatusSample.env⟩, StatusSample.associate] ∧
      (db.startOf "d-000005").any (fun s => s.correlation.reviewCheckout.isSome) = true ∧
      StatusSample.shown db = false := by
  have hok : (Run.exec (perform isoDates fun _ => none) Database.empty
      [⟨.append StatusSample.start, StatusSample.env⟩, StatusSample.associate]).toOption.any
        (fun db => (db.startOf "d-000005").any (fun s => s.correlation.reviewCheckout.isSome) &&
          !StatusSample.shown db) = true := by decide
  obtain ⟨h, db, hr, hm, hp⟩ := reaches_of_exec hok
  rw [Bool.and_eq_true, Bool.not_eq_true'] at hp
  exact ⟨h, db, hr, hm, hp⟩

theorem evidence_stays_in_status_started :
    ∃ (db : Database) (status : DeploymentStatus) (evidence : Correlation) (head : Option String),
      queryDeploymentStatus isoDates db "d-000005" = .ok (some status) ∧
      (evidence.reviewCheckout.isSome = true ∨ evidence.hasBinding = true) ∧
      status.row.correlation = { evidence with branchHeadSha := head } := by
  have hok : (Run.exec (perform isoDates fun _ => none) Database.empty
      [⟨.append StatusSample.start, StatusSample.env⟩]).toOption.any
        (fun db => (db.startOf "d-000005").any fun s => s.correlation.reviewCheckout.isSome) = true := by
    decide
  obtain ⟨h, db, hr, hm, hp⟩ := reaches_of_exec hok
  obtain ⟨s, hs, he⟩ := (Option.any_eq_true _ _).1 hp
  have hf : ∀ st ∈ h, Faithful st.before st.event.operation := by
    intro st hst input hop
    have hev : st.event ∈ h.map (·.event) := List.mem_map_of_mem hst
    rw [hm, List.mem_singleton] at hev
    rw [hev] at hop
    cases hop
  obtain ⟨evidence, status, head, -, hev, hq, hcorr, -⟩ := evidence_stays_in_status hr hf hs (.inl he)
  exact ⟨db, status, evidence, head, hq, hev, hcorr⟩

end PaPlatform.Registry
