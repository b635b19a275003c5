/-
  The correlation evidence of a deployment.

  An accepted event keeps the correlation columns of the start, except for the
  branch head.  `Evidenced` holds of every reachable registry: the row of a
  deployment follows its start.
-/
import PaPlatform.Registry.Tickets
import PaPlatform.Registry.Terminal

namespace PaPlatform.Registry

open Js Guard

variable {dates : DateReader} {op : Operation} {db db' : Database} {e s row : RegistryEvent}
  {old : Deployment} {d x : String}

/-! ## Columns that an event may carry -/

/-- Columns `c` that an event of a deployment with the start columns `s` may
    carry: the branch state and base are those of the start, a head is of a
    materialized branch, and such a branch comes with its head. -/
structure Keeps (s c : Correlation) : Prop where
  state : c.branchState = none ∨ c.branchState = s.branchState
  base : c.branchBaseSha = none ∨ c.branchBaseSha = s.branchBaseSha
  head : ∀ h, c.branchHeadSha = some h → hexOk 40 h = true ∧ s.branchState = some .materialized
  full : c.branchState.isSome = true ∨ c.branchBaseSha.isSome = true →
    s.branchState = some .materialized → c.branchHeadSha.isSome = true

theorem keeps_empty {s : Correlation} : Keeps s .empty := by
  refine ⟨.inl rfl, .inl rfl, fun _ h => ?_, fun h _ => ?_⟩
  · cases h
  · rcases h with h | h <;> cases h

theorem keeps_of_hasAny {s c : Correlation} (h : c.hasAny = false) : Keeps s c := by
  simp only [Correlation.hasAny, Bool.or_eq_false_iff, Option.isSome_eq_false_iff,
    Option.isNone_iff_eq_none] at h
  obtain ⟨⟨⟨-, hstate⟩, hbase⟩, hhead⟩ := h
  refine ⟨.inl hstate, .inl hbase, fun h hh => ?_, fun h _ => ?_⟩
  · rw [hhead] at hh
    cases hh
  · simp [hstate, hbase] at h

/-- The evidence of an event was validated. -/
theorem validated (h : validateRegistryEvent e = .ok ()) :
    ∃ checkout, e.correlation.Accepted
      ⟨e.ticketId, e.launch.worktreeRoot, e.event = .started && e.correlation.hasBinding⟩ checkout := by
  simp only [validateRegistryEvent, bind_eq_ok] at h
  obtain ⟨_, -, _, -, _, -, _, -, c, hc, -⟩ := h
  cases hv : validateCorrelation e.correlation
      ⟨e.ticketId, e.launch.worktreeRoot, e.event = .started && e.correlation.hasBinding⟩ with
  | error k =>
    rw [hv] at hc
    cases hc
  | ok c' =>
    obtain ⟨checkout, ha, -⟩ := validateCorrelation_eq_ok.1 hv
    exact ⟨checkout, ha⟩

/-- The branch columns of validated columns: a head is a commit of a
    materialized branch, and such a branch has a head. -/
theorem branch_of_accepted {c : Correlation} {context : CorrelationContext}
    {checkout : Option ReviewCheckout} (ha : c.Accepted context checkout) :
    (∀ h, c.branchHeadSha = some h → hexOk 40 h = true ∧ c.branchState = some .materialized) ∧
      (c.branchBaseSha.isSome = true → c.branchState.isSome = true) ∧
      (c.branchState = some .materialized → c.branchHeadSha.isSome = true) := by
  have hcol := ha.columns
  have hbr := ha.branch
  simp only [Correlation.checkColumns, optionalColumn, bind_eq_ok, correlationCheck_eq_ok] at hcol
  simp only [Correlation.checkBranch, bind_eq_ok, correlationCheck_eq_ok] at hbr
  obtain ⟨_, -, _, -, _, -, _, -, _, -, _, hhex, -⟩ := hcol
  obtain ⟨_, hsome, _, hplan, hmat⟩ := hbr
  refine ⟨?_, ?_, ?_⟩
  · intro h hh
    rw [hh] at hhex hsome hplan
    refine ⟨by simpa using hhex, ?_⟩
    cases hst : c.branchState with
    | none => simp [hst] at hsome
    | some st =>
      cases st with
      | planned => simp [hst] at hplan
      | materialized => rfl
  · intro hb
    rcases hsome with hs | ⟨hn, -⟩
    · exact hs
    · simp [hn] at hb
  · intro hs
    rcases hmat with hn | hh
    · exact absurd hs hn
    · exact hh

theorem unchanged_eq {α : Type} [DecidableEq α] {r e : Option α} (h : unchanged r e = true) :
    r = none ∨ r = e := by
  simpa [unchanged] using h

/-- Every immutable field of an accepted event is absent or that of the start. -/
theorem assertKeepsCorrelation_ok {u : Unit} (h : assertKeepsCorrelation e s = .ok u) :
    ∀ f ∈ immutableCorrelationFields e s, f.2 = true := by
  unfold assertKeepsCorrelation at h
  cases hf : (immutableCorrelationFields e s).find? fun f => !f.2 with
  | some f =>
    rw [hf] at h
    cases h
  | none =>
    rw [List.find?_eq_none] at hf
    intro f hmem
    simpa using hf f hmem

/-- **What an accepted event carries.** -/
theorem keeps_of_identity (hv : validateRegistryEvent e = .ok ())
    (hid : assertEventMatchesStartedIdentity dates db e = .ok ())
    (hs : db.startOf e.deploymentId = some s) : Keeps s.correlation e.correlation := by
  obtain ⟨checkout, ha⟩ := validated hv
  simp only [assertEventMatchesStartedIdentity, hs, bind_eq_ok] at hid
  obtain ⟨_, -, row, hr, _, hk, -⟩ := hid
  have hall := assertKeepsCorrelation_ok hk
  rw [toRow_eq hr] at hall
  have hstate := hall ("branch_state", unchanged e.correlation.branchState s.correlation.branchState)
    (by simp [immutableCorrelationFields])
  have hbase := hall
    ("branch_base_sha", unchanged e.correlation.branchBaseSha s.correlation.branchBaseSha)
    (by simp [immutableCorrelationFields])
  obtain ⟨hhead, hsome, hmat⟩ := branch_of_accepted ha
  have hst := unchanged_eq hstate
  refine ⟨hst, unchanged_eq hbase, fun h hh => ?_, fun h hm => ?_⟩
  · obtain ⟨hhex, hm⟩ := hhead h hh
    refine ⟨hhex, ?_⟩
    rcases hst with hn | heq
    · rw [hn] at hm
      cases hm
    · exact heq ▸ hm
  · refine hmat ?_
    rcases hst with hn | heq
    · have hs' := h.elim id hsome
      simp [hn] at hs'
    · exact heq.trans hm

/-- Before the start no event carries evidence. -/
theorem hasAny_of_identity (hid : assertEventMatchesStartedIdentity dates db e = .ok ())
    (hs : db.startOf e.deploymentId = none) : e.correlation.hasAny = false := by
  simp only [assertEventMatchesStartedIdentity, hs, throwIf_eq_ok] at hid
  simpa using hid

/-- What the reader returns of columns: none of them, or all with the review
    checkout that it has parsed. -/
theorem correlationFromRow_cases (c : Correlation) (ticketId worktreeRoot : Option String) :
    correlationFromRow c ticketId worktreeRoot = .empty ∨
      ∃ checkout, correlationFromRow c ticketId worktreeRoot = { c with reviewCheckout := checkout } ∧
        (c.reviewCheckout = none → checkout = none) := by
  unfold correlationFromRow
  split
  · rename_i c' hc
    obtain ⟨checkout, ha, rfl⟩ := validateCorrelation_eq_ok.1 hc
    refine .inr ⟨_, rfl, fun hn => ?_⟩
    have hread := ha.read
    rw [hn, readCheckout, Option.elim_none, Except.ok.injEq] at hread
    rw [← hread]
    rfl
  · exact .inl rfl

theorem hasAny_read {c : Correlation} (h : c.hasAny = false) (ticketId worktreeRoot : Option String) :
    (correlationFromRow c ticketId worktreeRoot).hasAny = false := by
  rcases correlationFromRow_cases c ticketId worktreeRoot with hr | ⟨checkout, hr, hn⟩
  · rw [hr]
    rfl
  · have hrc : c.reviewCheckout = none := by
      simp only [Correlation.hasAny, Bool.or_eq_false_iff, Option.isSome_eq_false_iff,
        Option.isNone_iff_eq_none] at h
      exact h.1.1.1.1
    rw [hr, hn hrc, ← hrc]
    exact h

theorem Keeps.read {s c : Correlation} (h : Keeps s c) (ticketId worktreeRoot : Option String) :
    Keeps s (correlationFromRow c ticketId worktreeRoot) := by
  rcases correlationFromRow_cases c ticketId worktreeRoot with hr | ⟨checkout, hr, -⟩
  · rw [hr]
    exact keeps_empty
  · rw [hr]
    exact ⟨h.state, h.base, h.head, h.full⟩

theorem or_keeps {α : Type} {a b c : Option α} (h : a = none ∨ a = c) (h' : b = none ∨ b = c) :
    b.or a = none ∨ b.or a = c := by
  rcases h' with rfl | rfl
  · simpa using h
  · cases b with
    | none => simpa using h
    | some b => exact .inr rfl

theorem Keeps.merge {s c c' : Correlation} (h : Keeps s c) (h' : Keeps s c') :
    Keeps s (mergeCorrelation c c') := by
  constructor
  · exact or_keeps h.state h'.state
  · exact or_keeps h.base h'.base
  · intro x hx
    rcases Option.or_eq_some_iff.1 hx with hx | ⟨-, hx⟩
    · exact h'.head x hx
    · exact h.head x hx
  · intro hx hs
    simp only [mergeCorrelation, Option.isSome_or, Bool.or_eq_true] at hx ⊢
    by_cases hn : c'.branchState.isSome = true ∨ c'.branchBaseSha.isSome = true
    · exact .inl (h'.full hn hs)
    · exact .inr (h.full (by tauto) hs)

/-- The branch columns of a deployment that follows its start. -/
theorem coalesce_keeps {s c : Correlation} (h : Keeps s c) {head : Option String} :
    Correlation.coalesceBranch { s with branchHeadSha := head } c =
      { s with branchHeadSha := c.branchHeadSha.or head } := by
  have hstate : c.branchState.or s.branchState = s.branchState := by
    rcases h.state with hn | heq
    · rw [hn, Option.none_or]
    · rw [heq, Option.or_self]
  have hbase : c.branchBaseSha.or s.branchBaseSha = s.branchBaseSha := by
    rcases h.base with hn | heq
    · rw [hn, Option.none_or]
    · rw [heq, Option.or_self]
  simp only [Correlation.coalesceBranch, hstate, hbase]

/-! ## The row of a deployment follows its start -/

/-- The evidence of a start was validated. -/
def Sound (s : RegistryEvent) : Prop :=
  ∃ checkout, s.correlation.Accepted ⟨s.ticketId, s.launch.worktreeRoot, s.correlation.hasBinding⟩
    checkout

theorem keeps_self (hs : Sound s) : Keeps s.correlation s.correlation := by
  obtain ⟨checkout, ha⟩ := hs
  obtain ⟨hhead, -, hfull⟩ := branch_of_accepted ha
  exact ⟨.inr rfl, .inr rfl, hhead, fun _ hm => hfull hm⟩

/-- A branch head that a deployment with the start columns `s` can have. -/
def HeadOf (s : Correlation) (head : Option String) : Prop :=
  (s.branchHeadSha.isSome = true → head.isSome = true) ∧
    ∀ h, head = some h → hexOk 40 h = true ∧ s.branchState = some .materialized

/-- A row that differs from its start in nothing but the head, the ticket, the
    process and the outcome. -/
structure Follows (dates : DateReader) (s : RegistryEvent) (row : Deployment) : Prop where
  launch : row.launch = s.launch
  startedAt : row.startedAt = some s.timestamp
  completedAt : ∀ t, row.completedAt = some t → dates.normalize t = some t
  correlation : ∃ head, row.correlation = { s.correlation with branchHeadSha := head } ∧
    HeadOf s.correlation head

theorem Follows.start (hs : Sound s) (team : String) :
    Follows dates s ((Deployment.fresh team).launched s) := by
  obtain ⟨checkout, ha⟩ := hs
  refine ⟨rfl, rfl, ?_, s.correlation.branchHeadSha, rfl, id, (branch_of_accepted ha).1⟩
  intro t ht
  cases ht

theorem Follows.coalesce (h : Follows dates s old) (hk : Keeps s.correlation row.correlation) :
    ∃ head, Correlation.coalesceBranch old.correlation row.correlation =
      { s.correlation with branchHeadSha := head } ∧ HeadOf s.correlation head := by
  obtain ⟨head, hc, hsome, hhead⟩ := h.correlation
  refine ⟨row.correlation.branchHeadSha.or head, ?_, ?_, ?_⟩
  · rw [hc, coalesce_keeps hk]
  · intro hs
    simp [hsome hs]
  · intro x hx
    rcases Option.or_eq_some_iff.1 hx with hx | ⟨-, hx⟩
    · exact hk.head x hx
    · exact hhead x hx

/-- An event keeps the row. -/
theorem Follows.observe (h : Follows dates s old) (hk : Keeps s.correlation row.correlation)
    (ht : dates.normalize row.timestamp = some row.timestamp) : Follows dates s (old.observe row) := by
  have hcomp : ∀ t, some row.timestamp = some t → dates.normalize t = some t := by
    rintro t ⟨⟩
    exact ht
  unfold Deployment.observe
  cases row.event with
  | updated => exact ⟨h.launch, h.startedAt, h.completedAt, h.coalesce hk⟩
  | completed => exact ⟨h.launch, h.startedAt, hcomp, h.coalesce hk⟩
  | crashed => exact ⟨h.launch, h.startedAt, hcomp, h.coalesce hk⟩
  | pid => exact ⟨h.launch, h.startedAt, h.completedAt, h.correlation⟩
  | started => exact h
  | amended => exact h
  | ticketAssociated => exact h

/-- The row and the log of `d` follow the start of `d`. -/
structure EvidencedAt (dates : DateReader) (db : Database) (d : String) : Prop where
  unstarted : db.startOf d = none → db.deployments d = none ∧
    ∀ e ∈ db.eventsOf d, e.row.correlation.hasAny = false
  started : ∀ s, db.startOf d = some s → Sound s ∧
    (∀ e ∈ db.eventsOf d, Keeps s.correlation e.row.correlation) ∧
    ∃ row, db.deployments d = some row ∧ Follows dates s row

def Evidenced (dates : DateReader) (db : Database) : Prop := ∀ d, EvidencedAt dates db d

theorem EvidencedAt.congr (h : EvidencedAt dates db d) (hs : db'.startOf d = db.startOf d)
    (he : ∀ e ∈ db'.eventsOf d, e ∈ db.eventsOf d) (hd : db'.deployments d = db.deployments d) :
    EvidencedAt dates db' d := by
  constructor
  · intro hn
    rw [hs] at hn
    obtain ⟨h1, h2⟩ := h.unstarted hn
    exact ⟨hd.trans h1, fun e hmem => h2 e (he e hmem)⟩
  · intro s hst
    rw [hs] at hst
    obtain ⟨hsound, hk, row, hrow, hf⟩ := h.started s hst
    exact ⟨hsound, fun e hmem => hk e (he e hmem), row, hd.trans hrow, hf⟩

theorem Evidenced.release (h : Evidenced dates db) : Evidenced dates (db.release x) := by
  intro d
  exact (h d).congr rfl (fun _ hmem => hmem) rfl

theorem Evidenced.dropTerminals (h : Evidenced dates db) : Evidenced dates (db.dropTerminals x) := by
  intro d
  refine (h d).congr Database.startOf_dropTerminals ?_ rfl
  intro e hmem
  simp only [Database.mem_eventsOf] at hmem ⊢
  exact ⟨(List.mem_filter.1 hmem.1).1, hmem.2⟩

/-- What an event other than a start may carry, before and after the start. -/
def Admissible (db : Database) (row : RegistryEvent) : Prop :=
  (db.startOf row.deploymentId = none → row.correlation.hasAny = false) ∧
    ∀ s, db.startOf row.deploymentId = some s → Keeps s.correlation row.correlation

theorem admissible_of_accepted (ha : Accepted dates db e row) : Admissible db row := by
  rw [Admissible, toRow_deploymentId ha.written, toRow_correlation ha.written]
  exact ⟨hasAny_of_identity ha.identity, fun s hs => keeps_of_identity ha.valid ha.identity hs⟩

theorem Evidenced.insert (h : Evidenced dates db) (hs : row.event ≠ .started)
    (ha : Admissible db row) : Evidenced dates (db.insert row) := by
  intro d
  by_cases hd : d = row.deploymentId
  · subst hd
    have hst : (db.insert row).startOf row.deploymentId = db.startOf row.deploymentId :=
      Database.startOf_insert_of_ne hs
    constructor
    · intro hn
      rw [hst] at hn
      obtain ⟨h1, h2⟩ := (h row.deploymentId).unstarted hn
      refine ⟨h1, fun e hmem => ?_⟩
      rw [Database.eventsOf_insert_self] at hmem
      rcases List.mem_append.1 hmem with hmem | hmem
      · exact h2 e hmem
      · rw [List.mem_singleton.1 hmem]
        exact ha.1 hn
    · intro s hs'
      rw [hst] at hs'
      obtain ⟨hsound, hk, hrow⟩ := (h row.deploymentId).started s hs'
      refine ⟨hsound, fun e hmem => ?_, hrow⟩
      rw [Database.eventsOf_insert_self] at hmem
      rcases List.mem_append.1 hmem with hmem | hmem
      · exact hk e hmem
      · rw [List.mem_singleton.1 hmem]
        exact ha.2 s hs'
  · refine (h d).congr (Database.startOf_insert_other hd) ?_ rfl
    intro e hmem
    rwa [Database.eventsOf_insert_other hd] at hmem

theorem Evidenced.observed (h : Evidenced dates db) (hs : row.event ≠ .started)
    (ha : Admissible db row) (ht : dates.normalize row.timestamp = some row.timestamp) :
    Evidenced dates ((db.insert row).project row) := by
  intro d
  have hi := h.insert hs ha d
  by_cases hd : d = row.deploymentId
  · subst hd
    constructor
    · intro hn
      rw [Database.startOf_project] at hn
      obtain ⟨h1, h2⟩ := hi.unstarted hn
      refine ⟨?_, ?_⟩
      · rw [Database.deployments_project_self, h1, projected, if_neg hs]
        rfl
      · rw [Database.eventsOf_project]
        exact h2
    · intro s hst
      rw [Database.startOf_project] at hst
      obtain ⟨hsound, hk, old, hold, hf⟩ := hi.started s hst
      refine ⟨hsound, ?_, old.observe row, ?_, hf.observe ?_ ht⟩
      · rw [Database.eventsOf_project]
        exact hk
      · rw [Database.deployments_project_self, hold, projected, if_neg hs]
        rfl
      · rw [Database.startOf_insert_of_ne hs] at hst
        exact ha.2 s hst
  · refine hi.congr Database.startOf_project ?_ (Database.deployments_project_other hd)
    intro e hmem
    rwa [Database.eventsOf_project] at hmem

theorem Evidenced.start (h : Evidenced dates db) (hs : row.event = .started) (hsound : Sound row)
    (hn : db.startOf row.deploymentId = none) : Evidenced dates ((db.insert row).project row) := by
  intro d
  by_cases hd : d = row.deploymentId
  · subst hd
    obtain ⟨hdep, hev⟩ := (h row.deploymentId).unstarted hn
    have hst : ((db.insert row).project row).startOf row.deploymentId = some row := by
      rw [Database.startOf_project, Database.startOf_insert_self hs hn]
    constructor
    · intro hn'
      rw [hst] at hn'
      cases hn'
    · intro s hs'
      rw [hst, Option.some.injEq] at hs'
      subst hs'
      refine ⟨hsound, fun e hmem => ?_, (Deployment.fresh row.team).launched row, ?_,
        Follows.start hsound _⟩
      · rw [Database.eventsOf_project, Database.eventsOf_insert_self] at hmem
        rcases List.mem_append.1 hmem with hmem | hmem
        · exact keeps_of_hasAny (hev e hmem)
        · rw [List.mem_singleton.1 hmem]
          exact keeps_self hsound
      · rw [Database.deployments_project_self, projected, if_pos hs, Database.deployments_insert, hdep]
        rfl
  · refine (h d).congr ?_ ?_ (Database.deployments_project_other hd)
    · rw [Database.startOf_project, Database.startOf_insert_other hd]
    · intro e hmem
      rwa [Database.eventsOf_project, Database.eventsOf_insert_other hd] at hmem

theorem changesCorrelation_of_hasAny {c c' : Correlation} (h : c'.hasAny = false) :
    changesCorrelation c c' = false := by
  simp only [Correlation.hasAny, Correlation.hasBinding, Bool.or_eq_false_iff,
    Option.isSome_eq_false_iff, Option.isNone_iff_eq_none] at h
  simp [changesCorrelation, differs, h]

theorem fromRow_correlation (h : fromRow dates row = .ok e) :
    e.correlation = correlationFromRow row.correlation row.ticketId row.launch.worktreeRoot := by
  simp only [fromRow, bind_eq_ok, pure_eq_ok] at h
  obtain ⟨t, -, rfl⟩ := h
  rfl

/-- The event that a reconciliation retains may be written again. -/
theorem admissible_of_retained {existing : RegistryEvent} {stored : StoredEvent}
    (h : Evidenced dates db) (hv : validateRegistryEvent e = .ok ())
    (hid : assertEventMatchesStartedIdentity dates db e = .ok ())
    (hst : stored ∈ db.terminalRows e.deploymentId) (hf : fromRow dates stored.row = .ok existing)
    (hr : toRow dates (withTerminalCorrelation existing e) = .ok row) : Admissible db row := by
  have hd := (retained_row hst hf hr).1
  have hmem := (Database.mem_terminalRows.1 hst).1
  rw [Admissible, hd, toRow_correlation hr]
  constructor
  · intro hn
    have hstored := ((h e.deploymentId).unstarted hn).2 stored hmem
    have hreq := hasAny_of_identity hid hn
    rw [withTerminalCorrelation, changesCorrelation_of_hasAny hreq, if_neg (by simp),
      fromRow_correlation hf]
    exact hasAny_read hstored _ _
  · intro s hs
    have hk := (((h e.deploymentId).started s hs).2.1 stored hmem).read stored.row.ticketId
      stored.row.launch.worktreeRoot
    rw [← fromRow_correlation hf] at hk
    rw [withTerminalCorrelation]
    split_ifs
    · exact hk.merge (keeps_of_identity hv hid hs)
    · exact hk

theorem Evidenced.associate {input : AssociateDeploymentTicketInput} {start : RegistryEvent}
    {projection : Deployment} (h : Evidenced dates db)
    (ha : Associated dates db input start row projection) :
    Evidenced dates ((db.insert row).setDeployment input.deploymentId
      (some { projection with ticketId := some input.ticketId })) := by
  obtain ⟨env, actor, reason, hrow⟩ := ha.written
  have hne : row.event ≠ .started := by
    rw [toRow_event hrow]
    simp [associationEvent, RegistryEvent.bare]
  have hadm : Admissible db row := by
    rw [Admissible, toRow_correlation hrow]
    exact ⟨fun _ => rfl, fun _ _ => keeps_empty⟩
  intro d
  have hi := h.insert hne hadm d
  by_cases hd : d = input.deploymentId
  · subst hd
    constructor
    · intro hn
      rw [Database.startOf_setDeployment, Database.startOf_insert_of_ne hne, ha.start_read] at hn
      cases hn
    · intro s hst
      obtain ⟨hsound, hk, old, hold, hf⟩ := hi.started s hst
      rw [Database.deployments_insert, ha.projected, Option.some.injEq] at hold
      subst hold
      exact ⟨hsound, hk, _, Database.deployments_setDeployment_self, hf.launch, hf.startedAt, hf.completedAt,
        hf.correlation⟩
  · exact hi.congr rfl (fun _ hmem => hmem) (Database.deployments_setDeployment_other hd)

/-- **Every write keeps the evidence.** -/
theorem Evidenced.write (h : Evidenced dates db) (hw : Writes dates op db db') :
    Evidenced dates db' := by
  cases hw with
  | same => exact h
  | released => exact h.release
  | claimed => exact fun d => (h d).congr rfl (fun _ hmem => hmem) rfl
  | @started e row _ hs hv hr hn hd =>
    obtain ⟨checkout, ha⟩ := validated hv
    refine h.start ((toRow_event hr).trans hs) ⟨checkout, ?_⟩ ?_
    · rw [toRow_eq hr]
      simpa [hs] using ha
    · rw [toRow_deploymentId hr, hn]
  | @observed e row _ hs ht ha =>
    refine h.observed ?_ (admissible_of_accepted ha) (toRow_timestamp ha.written)
    rw [toRow_event ha.written]
    exact hs
  | @replaced e row _ _ ht ha =>
    rw [← toRow_event ha.written] at ht
    refine h.dropTerminals.observed (ne_started_of_terminal ht) ?_ (toRow_timestamp ha.written)
    rw [Admissible, Database.startOf_dropTerminals]
    exact admissible_of_accepted ha
  | @retained e existing row stored _ _ ht hv hid hst hf hr =>
    have hne := ne_started_of_terminal (retained_row hst hf hr).2
    refine (h.dropTerminals.observed hne ?_ (toRow_timestamp hr)).release
    rw [Admissible, Database.startOf_dropTerminals]
    exact admissible_of_retained h hv hid hst hf hr
  | associated _ ha => exact h.associate ha

theorem evidenced {parse : String → Option ReviewObjective} {h : List (Run.Step Database Call)}
    (hr : Reaches dates parse h db) : Evidenced dates db := by
  refine hr.invariant (P := fun _ db => Evidenced dates db) ?_ ?_
  · intro d
    refine ⟨fun _ => ⟨rfl, ?_⟩, fun s hs => ?_⟩
    · simp [Database.eventsOf, Database.empty]
    · simp [Database.startOf, Database.eventsOf, Database.empty] at hs
  · intro h s call s' _ hs hok
    exact hs.write (perform_writes hok)

end PaPlatform.Registry
