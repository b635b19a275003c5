/-
  The event log against the `deployments` table.

  `computeDeploymentStatuses` folds the events as they are read, with the first
  outcome and the latest branch of a deployment; the table is updated event by
  event.  `Projected` says that both agree; it is kept by every step that is
  `Regular`.
-/
import PaPlatform.Registry.Status
import PaPlatform.Lib.Latest

namespace PaPlatform.Registry

open Js Guard Latest

variable {dates : DateReader} {op : Operation} {db db' : Database} {e s r : RegistryEvent}
  {row : Deployment} {d x : String} {l : List StoredEvent} {stored : StoredEvent}

/-! ## The fold over the events -/

/-- `readRegistry`. -/
def readRegistry (dates : DateReader) (db : Database) : Result (List RegistryEvent) :=
  db.events.mapM fun e => fromRow dates e.row

/-- Whether an event has one of the branch columns. -/
def hasBranch (e : RegistryEvent) : Bool :=
  e.correlation.branchState.isSome || e.correlation.branchBaseSha.isSome ||
    e.correlation.branchHeadSha.isSome

/-- The status of one deployment, from its events. -/
def computeStatus (deployId : String) (events : List RegistryEvent) : DeploymentStatus :=
  let started := events.find? fun e => e.event = .started
  let completed := events.find? fun e => e.event = .completed
  let crashed := events.find? fun e => e.event = .crashed
  let pid := events.find? fun e => e.event = .pid
  let currentBranch := latest hasBranch events
  let currentTicket := latest (fun e => e.event = .ticketAssociated) events
  let first := started.or events.head?
  let evidence := started.elim Correlation.empty (·.correlation)
  ⟨deployId, {
    team := first.elim "" (·.team)
    status := ((completed.bind (·.status)).map (·.state)).getD
      (if crashed.isSome then .crashed else if started.isSome then .running else .unknown)
    startedAt := some (first.elim "" (·.timestamp))
    completedAt := (completed.map (·.timestamp)).or (crashed.map (·.timestamp))
    pid := pid.bind (·.pid)
    ticketId := (currentTicket.bind (·.ticketId)).or (started.bind (·.ticketId))
    launch := started.elim .empty (·.launch)
    outcome := { Outcome.empty with
      summary := completed.bind (·.outcome.summary)
      logFile := (completed.bind (·.outcome.logFile)).or (started.bind (·.outcome.logFile))
      fallback := completed.any (·.outcome.fallback) }
    correlation := { evidence with
      branchState := (currentBranch.bind (·.correlation.branchState)).or evidence.branchState
      branchBaseSha := (currentBranch.bind (·.correlation.branchBaseSha)).or evidence.branchBaseSha
      branchHeadSha := (currentBranch.bind (·.correlation.branchHeadSha)).or evidence.branchHeadSha } }⟩

/-- The keys of `grouped`, in the order of their first events. -/
def groupKeys (events : List RegistryEvent) : List String :=
  events.foldl (fun ids e => if e.deploymentId ∈ ids then ids else ids ++ [e.deploymentId]) []

/-- `computeDeploymentStatuses`. -/
def computeDeploymentStatuses (dates : DateReader) (events : List RegistryEvent) :
    List DeploymentStatus :=
  let statuses := (groupKeys events).map fun d =>
    computeStatus d (events.filter fun e => e.deploymentId = d)
  statuses.mergeSort fun a b => dates.time (b.row.startedAt.getD "") ≤ dates.time (a.row.startedAt.getD "")

theorem mem_groupKeys {events : List RegistryEvent} :
    d ∈ groupKeys events ↔ ∃ e ∈ events, e.deploymentId = d := by
  have hfold : ∀ ids : List String, d ∈ events.foldl
      (fun ids e => if e.deploymentId ∈ ids then ids else ids ++ [e.deploymentId]) ids ↔
        d ∈ ids ∨ ∃ e ∈ events, e.deploymentId = d := by
    induction events with
    | nil => simp
    | cons e events ih =>
      intro ids
      rw [List.foldl_cons, ih]
      by_cases hm : e.deploymentId ∈ ids
      · rw [if_pos hm]
        simp only [List.mem_cons, exists_eq_or_imp]
        constructor
        · tauto
        · rintro (h | rfl | h)
          · exact .inl h
          · exact .inl hm
          · exact .inr h
      · rw [if_neg hm]
        rw [List.mem_append, List.mem_singleton, eq_comm (a := d)]
        simp only [List.mem_cons, exists_eq_or_imp, or_assoc]
  rw [groupKeys, hfold []]
  simp

/-- The fold has one entry for each deployment of the events. -/
theorem mem_computeDeploymentStatuses {events : List RegistryEvent} {status : DeploymentStatus} :
    status ∈ computeDeploymentStatuses dates events ↔ ∃ d, (∃ e ∈ events, e.deploymentId = d) ∧
      status = computeStatus d (events.filter fun e => e.deploymentId = d) := by
  rw [computeDeploymentStatuses, List.mem_mergeSort, List.mem_map]
  simp only [mem_groupKeys, eq_comm]

/-! ## The events as they are read -/

/-- A row of the log, as it is read. -/
def RegistryEvent.read (r : RegistryEvent) : RegistryEvent :=
  let associated := r.event = .ticketAssociated
  { r with
    ticketId := optionalString r.ticketId
    previousTicketId := if associated then optionalString r.previousTicketId else none
    actor := if associated then optionalString r.actor else none
    reason := if associated then optionalString r.reason else none
    note := optionalString r.note
    launch := r.launch.fromRow
    outcome := r.outcome.fromRow
    correlation := correlationFromRow r.correlation r.ticketId r.launch.worktreeRoot }

theorem fromRow_eq (h : dates.normalize r.timestamp = some r.timestamp) :
    fromRow dates r = .ok r.read := by
  unfold fromRow normalizeTimestamp
  rw [h]
  rfl

theorem readRegistry_eq (h : Readable dates db) :
    readRegistry dates db = .ok (db.events.map fun e => e.row.read) := by
  rw [readRegistry]
  have hall : ∀ e ∈ db.events, dates.normalize e.row.timestamp = some e.row.timestamp := h
  generalize db.events = l at hall
  induction l with
  | nil => rfl
  | cons e l ih =>
    rw [List.mapM_cons, fromRow_eq (hall e (by simp)), ih fun e' he' => hall e' (by simp [he'])]
    rfl

theorem read_filter (events : List StoredEvent) (d : String) :
    (events.map fun e => e.row.read).filter (fun e => e.deploymentId = d) =
      (events.filter fun e => e.row.deploymentId = d).map fun e => e.row.read := by
  rw [List.filter_map]
  rfl

/-- The branch head that the reader returns of a row. -/
def readHead (r : RegistryEvent) : Option String := r.read.correlation.branchHeadSha

theorem readHead_cases (r : RegistryEvent) :
    readHead r = none ∨ readHead r = r.correlation.branchHeadSha := by
  unfold readHead
  rcases correlationFromRow_cases r.correlation r.ticketId r.launch.worktreeRoot with
    h | ⟨checkout, h, -⟩
  · left
    show (correlationFromRow r.correlation r.ticketId r.launch.worktreeRoot).branchHeadSha = none
    rw [h]
    rfl
  · right
    show (correlationFromRow r.correlation r.ticketId r.launch.worktreeRoot).branchHeadSha = _
    rw [h]

theorem readHead_toRow (h : toRow dates e = .ok r) : readHead r = readHead e := by
  rw [toRow_eq h]
  rfl

/-! ## What the log says -/

def hasHead (e : StoredEvent) : Bool := (readHead e.row).isSome

/-- The latest branch head of a log. -/
def headOf (l : List StoredEvent) : Option String := (latest hasHead l).bind fun e => readHead e.row

def completedIn (l : List StoredEvent) : Option StoredEvent :=
  l.find? fun e => e.row.event = .completed

def crashedIn (l : List StoredEvent) : Option StoredEvent := l.find? fun e => e.row.event = .crashed

/-- The status and the time of completion of a deployment with the log `l`. -/
def outcomeOf (l : List StoredEvent) : DeploymentState × Option String :=
  ((((completedIn l).bind (·.row.status)).map (·.state)).getD
      (if (crashedIn l).isSome then .crashed else .running),
    ((completedIn l).map (·.row.timestamp)).or ((crashedIn l).map (·.row.timestamp)))

theorem headOf_snoc : headOf (l ++ [stored]) = (readHead stored.row).or (headOf l) := by
  rw [headOf, latest_snoc]
  cases h : readHead stored.row with
  | none => simp [hasHead, h, headOf]
  | some head => simp [hasHead, h]

theorem completedIn_snoc : completedIn (l ++ [stored]) =
    (completedIn l).or (if stored.row.event = .completed then some stored else none) := by
  simp [completedIn, List.find?_append, List.find?_singleton]

theorem crashedIn_snoc : crashedIn (l ++ [stored]) =
    (crashedIn l).or (if stored.row.event = .crashed then some stored else none) := by
  simp [crashedIn, List.find?_append, List.find?_singleton]

/-- An event that is not terminal keeps the outcome. -/
theorem outcomeOf_snoc (h : stored.row.event.isTerminal = false) :
    outcomeOf (l ++ [stored]) = outcomeOf l := by
  have h1 : stored.row.event ≠ .completed := by
    intro he
    simp [he, EventKind.isTerminal] at h
  have h2 : stored.row.event ≠ .crashed := by
    intro he
    simp [he, EventKind.isTerminal] at h
  simp only [outcomeOf, completedIn_snoc, crashedIn_snoc, if_neg h1, if_neg h2, Option.or_none]

/-- Without terminal events a deployment is running. -/
theorem outcomeOf_running (h : ∀ e ∈ l, e.row.event.isTerminal = false) :
    completedIn l = none ∧ crashedIn l = none := by
  constructor
  · rw [completedIn, List.find?_eq_none]
    intro e he hc
    have ht := h e he
    simp only [decide_eq_true_eq] at hc
    simp [hc, EventKind.isTerminal] at ht
  · rw [crashedIn, List.find?_eq_none]
    intro e he hc
    have ht := h e he
    simp only [decide_eq_true_eq] at hc
    simp [hc, EventKind.isTerminal] at ht

/-! ## The fold says what the log says -/

/-- The first event of a kind, as it is read. -/
theorem find?_read (kind : EventKind) :
    (l.map fun e => e.row.read).find? (fun e => e.event = kind) =
      (l.find? fun e => e.row.event = kind).map fun e => e.row.read := by
  rw [List.find?_map]
  rfl

theorem latest_read (kind : EventKind) :
    latest (fun e => e.event = kind) (l.map fun e => e.row.read) =
      (latest (fun e : StoredEvent => e.row.event = kind) l).map fun e => e.row.read := by
  rw [latest_map]
  rfl

theorem computeStatus_outcome {start : StoredEvent}
    (hs : l.find? (fun e => e.row.event = .started) = some start) :
    (computeStatus d (l.map fun e => e.row.read)).row.status = (outcomeOf l).1 ∧
      (computeStatus d (l.map fun e => e.row.read)).row.completedAt = (outcomeOf l).2 := by
  simp only [computeStatus, find?_read, hs, ← completedIn.eq_def, ← crashedIn.eq_def, outcomeOf]
  constructor
  · cases completedIn l <;> cases crashedIn l <;> rfl
  · cases completedIn l <;> cases crashedIn l <;> rfl

theorem computeStatus_ticket {start : StoredEvent}
    (hs : l.find? (fun e => e.row.event = .started) = some start) :
    (computeStatus d (l.map fun e => e.row.read)).row.ticketId =
      ((latest (fun e : StoredEvent => e.row.event = .ticketAssociated) l).bind fun e =>
        optionalString e.row.ticketId).or (optionalString start.row.ticketId) := by
  simp only [computeStatus, find?_read, hs, latest_read]
  cases latest (fun e : StoredEvent => e.row.event = .ticketAssociated) l <;> rfl

/-- The branch columns of the fold are those of the start, with the latest head. -/
theorem computeStatus_branch {start : StoredEvent}
    (hs : l.find? (fun e => e.row.event = .started) = some start) (hsound : Sound start.row)
    (hk : ∀ e ∈ l, Keeps start.row.correlation e.row.correlation) :
    let c := (computeStatus d (l.map fun e => e.row.read)).row.correlation
    c.branchState = start.row.correlation.branchState ∧
      c.branchBaseSha = start.row.correlation.branchBaseSha ∧ c.branchHeadSha = headOf l := by
  obtain ⟨checkout, ha⟩ := hsound
  have hread : start.row.read.correlation = { start.row.correlation with
      reviewCheckout := checkout.map ReviewCheckout.toJson } :=
    read_row ha ⟨id, (branch_of_accepted ha).1⟩ (.inl rfl)
  have hmem : start ∈ l := List.mem_of_find?_eq_some hs
  have hkeeps : ∀ e ∈ l, Keeps start.row.correlation e.row.read.correlation :=
    fun e he => (hk e he).read _ _
  simp only [computeStatus, find?_read, hs, latest_map, Option.map_some, Option.elim_some, hread]
  have hlatest : ∀ e, latest (fun e : StoredEvent => hasBranch e.row.read) l = some e →
      Keeps start.row.correlation e.row.read.correlation := fun e he => hkeeps e (mem_of_latest he)
  refine ⟨?_, ?_, ?_⟩
  · cases hl : latest (fun e : StoredEvent => hasBranch e.row.read) l with
    | none => rfl
    | some e =>
      rcases (hlatest e hl).state with hn | heq
      · simp [hn]
      · simp [heq]
  · cases hl : latest (fun e : StoredEvent => hasBranch e.row.read) l with
    | none => rfl
    | some e =>
      rcases (hlatest e hl).base with hn | heq
      · simp [hn]
      · simp [heq]
  · by_cases hm : start.row.correlation.branchState = some .materialized
    · -- an event of a materialized branch has a branch column iff it has a head
      have hcongr : latest (fun e : StoredEvent => hasBranch e.row.read) l = latest hasHead l := by
        refine latest_congr fun e he => ?_
        have hfull := (hkeeps e he).full
        rw [hasHead, readHead, hasBranch]
        cases hh : e.row.read.correlation.branchHeadSha.isSome with
        | true => simp
        | false =>
          rw [hh] at hfull
          by_contra hne
          rw [Bool.or_false, Bool.not_eq_false, Bool.or_eq_true] at hne
          exact absurd (hfull hne hm) (by simp)
      have hstart : hasHead start = true := by
        rw [hasHead, readHead, hread]
        exact (branch_of_accepted ha).2.2 hm
      rw [hcongr, headOf]
      cases hl : latest hasHead l with
      | none =>
        rw [latest_eq_none.1 hl start hmem] at hstart
        cases hstart
      | some e =>
        have hh := latest_satisfies hl
        rw [hasHead] at hh
        obtain ⟨head, hh⟩ := Option.isSome_iff_exists.1 hh
        rw [Option.map_some, Option.bind_some, Option.bind_some, hh]
        show (readHead e.row).or _ = _
        rw [hh, Option.some_or]
    · -- otherwise no event has a head
      have hnone : ∀ e ∈ l, readHead e.row = none := by
        intro e he
        cases hh : readHead e.row with
        | none => rfl
        | some head => exact absurd ((hkeeps e he).head head hh).2 hm
      have hs' : start.row.correlation.branchHeadSha = none := by
        cases hh : start.row.correlation.branchHeadSha with
        | none => rfl
        | some head => exact absurd ((hk start hmem).head head hh).2 hm
      have hl : latest hasHead l = none := by
        rw [latest_eq_none]
        intro e he
        rw [hasHead, hnone e he]
        rfl
      rw [headOf, hl, hs', Option.bind_none, Option.or_none]
      cases hb : latest (fun e : StoredEvent => hasBranch e.row.read) l with
      | none => rfl
      | some e => exact hnone e (mem_of_latest hb)

/-! ## Regular steps -/

/-- The outcome that `e` brings to a deployment with the row `row` is the one
    that the log `l` tells: it is the first of its kind, or repeats it. -/
def Settles (dates : DateReader) (l : List StoredEvent) (row : Deployment) (e : RegistryEvent) : Prop :=
  match e.event with
  | .completed => ∃ status, e.status = some status ∧ (completedIn l = none ∨
      (row.status = status.state ∧ row.completedAt = dates.normalize e.timestamp))
  | .crashed => completedIn l = none ∧ (crashedIn l = none ∨
      row.completedAt = dates.normalize e.timestamp)
  | _ => True

/-- The head that `e` brings is read if it is projected, and projected if it is
    read. -/
def Shows (row : Deployment) (e : RegistryEvent) : Prop :=
  match e.event with
  | .updated | .completed | .crashed =>
    readHead e ≠ none ∨ e.correlation.branchHeadSha = none ∨
      e.correlation.branchHeadSha = row.correlation.branchHeadSha
  | _ => readHead e = none ∨ readHead e = row.correlation.branchHeadSha

/-- The event `e`, added to the log. -/
def Consistent (dates : DateReader) (db : Database) (e : RegistryEvent) : Prop :=
  ∀ row, db.deployments e.deploymentId = some row →
    Settles dates (db.eventsOf e.deploymentId) row e ∧ Shows row e

/-- The terminal event `e`, in the place of those of the log `l`: its head is
    read, or it has none and the latest head is not in an event that goes. -/
def Replaces (l : List StoredEvent) (row : Deployment) (e : RegistryEvent) : Prop :=
  (e.event = .completed → e.status.isSome = true) ∧
    (readHead e ≠ none ∨ ((e.correlation.branchHeadSha = none ∨
        e.correlation.branchHeadSha = row.correlation.branchHeadSha) ∧
      ∀ stored, latest hasHead l = some stored → stored.row.event.isTerminal = false))

/-- A step after which the log and the table agree, if they did before. -/
def Regular (dates : DateReader) (db : Database) (op : Operation) : Prop :=
  match op with
  | .append e =>
    if e.event = .started then db.startOf e.deploymentId = none → db.terminalRows e.deploymentId = []
    else Consistent dates db e
  | .reconcileTerminalIfAbsent e => db.terminalRows e.deploymentId = [] → Consistent dates db e
  | .reconcileTerminal e => ∀ row r, db.deployments e.deploymentId = some row →
      rewrites dates db e = some r → Replaces (db.eventsOf e.deploymentId) row r
  | _ => True

/-! ## The invariant -/

/-- The row of a deployment with the log `l` is what the log says. -/
structure Projects (l : List StoredEvent) (row : Deployment) : Prop where
  status : row.status = (outcomeOf l).1
  completedAt : row.completedAt = (outcomeOf l).2
  head : row.correlation.branchHeadSha = headOf l

def Projected (db : Database) : Prop :=
  ∀ d row, db.deployments d = some row → Projects (db.eventsOf d) row

theorem Projects.observe (h : Projects l row) (hr : toRow dates e = .ok r) (hs : e.event ≠ .started)
    (hset : Settles dates l row e) (hshow : Shows row e) (id : ℕ) :
    Projects (l ++ [⟨id, r⟩]) (row.observe r) := by
  have he := toRow_event hr
  have hn : dates.normalize e.timestamp = some r.timestamp := by
    simp only [toRow, normalizeTimestamp, bind_eq_ok, pure_eq_ok, require_eq_ok] at hr
    obtain ⟨t, ht, rfl⟩ := hr
    exact ht
  have hcorr := toRow_correlation hr
  have hread := readHead_toRow hr
  have hst : r.status = e.status := by rw [toRow_eq hr]
  -- the head after an event that projects its head
  have hproj : readHead e ≠ none ∨ e.correlation.branchHeadSha = none ∨
      e.correlation.branchHeadSha = row.correlation.branchHeadSha →
      r.correlation.branchHeadSha.or row.correlation.branchHeadSha = headOf (l ++ [⟨id, r⟩]) := by
    intro hsh
    rw [headOf_snoc, hread, hcorr, ← h.head]
    rcases readHead_cases e with hnone | heq
    · rw [hnone, Option.none_or]
      rcases hsh with hsh | hsh | hsh
      · exact absurd hnone hsh
      · rw [hsh, Option.none_or]
      · rw [hsh, Option.or_self]
    · rw [heq]
  -- the head after an event that does not
  have hkeep : readHead e = none ∨ readHead e = row.correlation.branchHeadSha →
      row.correlation.branchHeadSha = headOf (l ++ [⟨id, r⟩]) := by
    intro hsh
    rw [headOf_snoc, hread, ← h.head]
    rcases hsh with hsh | hsh
    · rw [hsh, Option.none_or]
    · rw [hsh, Option.or_self]
  -- an event that is not terminal keeps the outcome
  have hquiet : r.event.isTerminal = false → ∀ {row' : Deployment}, row'.status = row.status →
      row'.completedAt = row.completedAt →
      row'.correlation.branchHeadSha = headOf (l ++ [⟨id, r⟩]) → Projects (l ++ [⟨id, r⟩]) row' := by
    intro ht row' h1 h2 h3
    have hout : outcomeOf (l ++ [⟨id, r⟩]) = outcomeOf l := outcomeOf_snoc ht
    refine ⟨?_, ?_, h3⟩
    · rw [hout, h1, h.status]
    · rw [hout, h2, h.completedAt]
  unfold Settles at hset
  unfold Shows at hshow
  unfold Deployment.observe
  cases hk : e.event with
  | started => exact absurd hk hs
  | completed =>
    rw [hk] at he hset hshow
    obtain ⟨status, hstatus, hfirst⟩ := hset
    rw [hstatus] at hst
    rw [he]
    have hout : outcomeOf (l ++ [⟨id, r⟩]) = (status.state, some r.timestamp) := by
      rcases hfirst with hfirst | ⟨h1, h2⟩
      · simp [outcomeOf, completedIn_snoc, hfirst, he, hst]
      · cases hc : completedIn l with
        | none => simp [outcomeOf, completedIn_snoc, hc, he, hst]
        | some c =>
          have hsame : outcomeOf (l ++ [⟨id, r⟩]) = outcomeOf l := by
            simp [outcomeOf, completedIn_snoc, crashedIn_snoc, hc, he]
          rw [hsame, ← hn, ← h1, ← h2, h.status, h.completedAt]
    refine ⟨?_, ?_, hproj hshow⟩
    · rw [hout, hst]
      rfl
    · rw [hout]
  | crashed =>
    rw [hk] at he hset hshow
    obtain ⟨hnone, hfirst⟩ := hset
    rw [he]
    have hout : outcomeOf (l ++ [⟨id, r⟩]) = (.crashed, some r.timestamp) := by
      cases hc : crashedIn l with
      | none => simp [outcomeOf, completedIn_snoc, crashedIn_snoc, hnone, hc, he]
      | some c =>
        rcases hfirst with hfirst | hfirst
        · rw [hc] at hfirst
          cases hfirst
        · rw [h.completedAt, hn] at hfirst
          simp only [outcomeOf, hnone, hc, Option.map_none, Option.none_or, Option.map_some] at hfirst
          simp [outcomeOf, completedIn_snoc, crashedIn_snoc, hnone, hc, he, hfirst]
    refine ⟨?_, ?_, hproj hshow⟩
    · rw [hout]
    · rw [hout]
  | updated =>
    rw [hk] at he hshow
    rw [he]
    exact hquiet (by rw [he]; rfl) rfl rfl (hproj hshow)
  | pid =>
    rw [hk] at he hshow
    rw [he]
    exact hquiet (by rw [he]; rfl) rfl rfl (hkeep hshow)
  | amended =>
    rw [hk] at he hshow
    rw [he]
    exact hquiet (by rw [he]; rfl) rfl rfl (hkeep hshow)
  | ticketAssociated =>
    rw [hk] at he hshow
    rw [he]
    exact hquiet (by rw [he]; rfl) rfl rfl (hkeep hshow)

/-- A terminal event in the place of the terminal events of the log. -/
theorem Projects.replace (h : Projects l row) (hr : toRow dates e = .ok r)
    (ht : e.event.isTerminal = true) (hc : Replaces l row e) (id : ℕ) :
    Projects ((l.filter fun e => !e.row.event.isTerminal) ++ [⟨id, r⟩]) (row.observe r) := by
  obtain ⟨hstatus, hhead⟩ := hc
  have he := toRow_event hr
  have hst : r.status = e.status := by rw [toRow_eq hr]
  have hrun : ∀ x ∈ l.filter (fun e => !e.row.event.isTerminal), x.row.event.isTerminal = false := by
    intro x hx
    simpa using (List.mem_filter.1 hx).2
  obtain ⟨hnone, hnone'⟩ := outcomeOf_running hrun
  have hproj : r.correlation.branchHeadSha.or row.correlation.branchHeadSha =
      headOf ((l.filter fun e => !e.row.event.isTerminal) ++ [⟨id, r⟩]) := by
    rw [headOf_snoc, readHead_toRow hr, toRow_correlation hr]
    rcases readHead_cases e with hn | heq
    · rw [hn, Option.none_or]
      rcases hhead with hh | ⟨hh, hlast⟩
      · exact absurd hn hh
      · have hkept : headOf (l.filter fun e => !e.row.event.isTerminal) = headOf l := by
          rw [headOf, latest_filter fun x hx => by simp [hlast x hx], headOf]
        rw [hkept, ← h.head]
        rcases hh with hh | hh
        · rw [hh, Option.none_or]
        · rw [hh, Option.or_self]
    · rw [heq]
      cases hh : e.correlation.branchHeadSha with
      | some head => rfl
      | none =>
        rcases hhead with hr' | ⟨-, hlast⟩
        · rw [heq, hh] at hr'
          exact absurd rfl hr'
        · rw [Option.none_or, Option.none_or, h.head, headOf, headOf,
            latest_filter fun x hx => by simp [hlast x hx]]
  unfold Deployment.observe
  cases hk : e.event with
  | completed =>
    rw [hk] at he
    obtain ⟨status, hsome⟩ := Option.isSome_iff_exists.1 (hstatus hk)
    rw [hsome] at hst
    rw [he]
    refine ⟨?_, ?_, hproj⟩
    · simp [outcomeOf, completedIn_snoc, hnone, he, hst]
    · simp [outcomeOf, completedIn_snoc, hnone, he]
  | crashed =>
    rw [hk] at he
    rw [he]
    refine ⟨?_, ?_, hproj⟩
    · simp [outcomeOf, completedIn_snoc, crashedIn_snoc, hnone, hnone', he]
    · simp [outcomeOf, completedIn_snoc, crashedIn_snoc, hnone, hnone', he]
  | started => simp [hk, EventKind.isTerminal] at ht
  | pid => simp [hk, EventKind.isTerminal] at ht
  | amended => simp [hk, EventKind.isTerminal] at ht
  | updated => simp [hk, EventKind.isTerminal] at ht
  | ticketAssociated => simp [hk, EventKind.isTerminal] at ht

theorem Projected.congr (h : Projected db) (he : ∀ d, db'.eventsOf d = db.eventsOf d)
    (hd : db'.deployments = db.deployments) : Projected db' := by
  intro d row hrow
  rw [hd] at hrow
  rw [he]
  exact h d row hrow

/-- An event that is added and projected. -/
theorem Projected.observed (h : Projected db) (hr : toRow dates e = .ok r) (hs : e.event ≠ .started)
    (hc : Consistent dates db e) : Projected ((db.insert r).project r) := by
  intro d row hrow
  rw [Database.eventsOf_project]
  have hd' := toRow_deploymentId hr
  by_cases hd : d = r.deploymentId
  · subst hd
    have hne : r.event ≠ .started := by rwa [toRow_event hr]
    rw [Database.deployments_project_self, projected, if_neg hne, Database.deployments_insert,
      Option.map_eq_some_iff] at hrow
    obtain ⟨old, hold, rfl⟩ := hrow
    obtain ⟨hset, hshow⟩ := hc old (by rw [← hd']; exact hold)
    rw [Database.eventsOf_insert_self]
    rw [← hd'] at hset
    exact (h r.deploymentId old hold).observe hr hs hset hshow _
  · rw [Database.deployments_project_other hd] at hrow
    rw [Database.eventsOf_insert_other hd]
    exact h d row hrow

theorem Projected.replaced (h : Projected db) (hr : toRow dates e = .ok r)
    (ht : e.event.isTerminal = true)
    (hc : ∀ row, db.deployments e.deploymentId = some row →
      Replaces (db.eventsOf e.deploymentId) row e) :
    Projected (((db.dropTerminals e.deploymentId).insert r).project r) := by
  intro d row hrow
  rw [Database.eventsOf_project]
  have hd' := toRow_deploymentId hr
  by_cases hd : d = r.deploymentId
  · subst hd
    have hne : r.event ≠ .started := by
      rw [toRow_event hr]
      exact ne_started_of_terminal ht
    rw [Database.deployments_project_self, projected, if_neg hne, Database.deployments_insert,
      Database.deployments_dropTerminals, Option.map_eq_some_iff] at hrow
    obtain ⟨old, hold, rfl⟩ := hrow
    rw [Database.eventsOf_insert_self, ← hd', Database.eventsOf_dropTerminals_self]
    rw [← hd'] at hc
    exact (h r.deploymentId old hold).replace hr ht (hc old hold) _
  · rw [Database.deployments_project_other hd] at hrow
    rw [Database.eventsOf_insert_other hd, Database.eventsOf_dropTerminals_other (by rwa [← hd'])]
    exact h d row hrow

/-- A start, with no terminal event before it. -/
theorem Projected.start (h : Projected db) (hev : EvidencedAt dates db r.deploymentId)
    (hs : r.event = .started) (hsound : Sound r) (hn : db.startOf r.deploymentId = none)
    (ht : db.terminalRows r.deploymentId = []) : Projected ((db.insert r).project r) := by
  intro d row hrow
  rw [Database.eventsOf_project]
  by_cases hd : d = r.deploymentId
  · subst hd
    obtain ⟨hdep, hany⟩ := hev.unstarted hn
    rw [Database.deployments_project_self, projected, if_pos hs, Database.deployments_insert, hdep,
      Option.some.injEq] at hrow
    subst hrow
    have hrun : ∀ e ∈ db.eventsOf r.deploymentId, e.row.event.isTerminal = false := by
      intro e he
      rw [Database.terminalRows, List.filter_eq_nil_iff] at ht
      simpa using ht e he
    obtain ⟨hc, hc'⟩ := outcomeOf_running hrun
    have hnoHead : headOf (db.eventsOf r.deploymentId) = none := by
      have hl : latest hasHead (db.eventsOf r.deploymentId) = none := by
        rw [latest_eq_none]
        intro e he
        have ha := hasAny_read (hany e he) e.row.ticketId e.row.launch.worktreeRoot
        simp only [Correlation.hasAny, Bool.or_eq_false_iff] at ha
        exact ha.2
      rw [headOf, hl, Option.bind_none]
    have hread : readHead r = r.correlation.branchHeadSha := by
      obtain ⟨checkout, ha⟩ := hsound
      have hr : r.read.correlation = _ := read_row ha ⟨id, (branch_of_accepted ha).1⟩ (.inl rfl)
      rw [readHead, hr]
    rw [Database.eventsOf_insert_self]
    have hout : outcomeOf (db.eventsOf r.deploymentId ++ [⟨db.nextId, r⟩]) =
        outcomeOf (db.eventsOf r.deploymentId) := outcomeOf_snoc (by simp [hs, EventKind.isTerminal])
    refine ⟨?_, ?_, ?_⟩
    · rw [hout, outcomeOf, hc, hc']
      rfl
    · rw [hout, outcomeOf, hc, hc']
      rfl
    · rw [headOf_snoc, hread, hnoHead, Option.or_none]
      rfl
  · rw [Database.deployments_project_other hd] at hrow
    rw [Database.eventsOf_insert_other hd]
    exact h d row hrow

theorem Projected.associate {input : AssociateDeploymentTicketInput} {start : RegistryEvent}
    (h : Projected db) (ha : Associated dates db input start r row) :
    Projected ((db.insert r).setDeployment input.deploymentId
      (some { row with ticketId := some input.ticketId })) := by
  obtain ⟨env, actor, reason, hr⟩ := ha.written
  have hd' : r.deploymentId = input.deploymentId := toRow_deploymentId hr
  have he : r.event = .ticketAssociated := toRow_event hr
  intro d row' hrow
  rw [Database.eventsOf_setDeployment]
  by_cases hd : d = input.deploymentId
  · subst hd
    rw [Database.deployments_setDeployment_self, Option.some.injEq] at hrow
    subst hrow
    have hp := h input.deploymentId row ha.projected
    have hnone : readHead r = none := by
      rcases readHead_cases r with hn | heq
      · exact hn
      · rw [heq, toRow_correlation hr]
        rfl
    rw [← hd', Database.eventsOf_insert_self, hd']
    have hout : outcomeOf (db.eventsOf input.deploymentId ++ [⟨db.nextId, r⟩]) =
        outcomeOf (db.eventsOf input.deploymentId) := outcomeOf_snoc (by simp [he, EventKind.isTerminal])
    refine ⟨?_, ?_, ?_⟩
    · rw [hout]
      exact hp.status
    · rw [hout]
      exact hp.completedAt
    · rw [headOf_snoc, hnone, Option.none_or]
      exact hp.head
  · rw [Database.deployments_setDeployment_other hd] at hrow
    rw [Database.eventsOf_insert_other (by rwa [hd'])]
    exact h d row' hrow

/-! ## Runs -/

/-- An authority event is read as it was written. -/
theorem authority_consistent {timestamp note : String} {base : Option String} {head : String}
    (hv : validateRegistryEvent (authorityEvent d timestamp note base head) = .ok ()) :
    Consistent dates db (authorityEvent d timestamp note base head) := by
  intro row hrow
  refine ⟨trivial, .inl ?_⟩
  obtain ⟨checkout, ha⟩ := validated hv
  have hok := validateCorrelation_eq_ok.2 ⟨checkout, ha, rfl⟩
  have hread : readHead (authorityEvent d timestamp note base head) = some head := by
    show (correlationFromRow (authorityEvent d timestamp note base head).correlation none none).branchHeadSha = _
    unfold correlationFromRow
    have hctx : (⟨(authorityEvent d timestamp note base head).ticketId,
        (authorityEvent d timestamp note base head).launch.worktreeRoot,
        (authorityEvent d timestamp note base head).event = .started &&
          (authorityEvent d timestamp note base head).correlation.hasBinding⟩ : CorrelationContext) =
        ⟨none, none, false⟩ := rfl
    rw [hctx] at hok
    have hreq : ((authorityEvent d timestamp note base head).correlation.treehousePath.isSome &&
        (none : Option String).isSome) = false := by simp
    rw [hreq, hok]
    rfl
  rw [hread]
  simp

theorem consistent_of_submits (hreg : Regular dates db op) (hsub : op.Submits db e)
    (hs : e.event ≠ .started) (hv : validateRegistryEvent e = .ok ()) : Consistent dates db e := by
  cases op with
  | append e' =>
    cases hsub
    rw [Regular, if_neg hs] at hreg
    exact hreg
  | reconcileTerminalIfAbsent e' =>
    obtain ⟨rfl, hnil⟩ := hsub
    exact hreg hnil
  | advanceParent options =>
    obtain ⟨d, timestamp, note, base, head, rfl⟩ := hsub
    exact authority_consistent hv
  | advanceDirect options =>
    obtain ⟨d, timestamp, note, base, head, rfl⟩ := hsub
    exact authority_consistent hv
  | claim input => exact hsub.elim
  | reconcileTerminal e' => exact hsub.elim
  | associate input => exact hsub.elim

/-- **A regular write keeps the agreement.** -/
theorem Projected.write (h : Projected db) (hev : Evidenced dates db) (hreg : Regular dates db op)
    (hw : Writes dates op db db') : Projected db' := by
  cases hw with
  | same => exact h
  | released => exact h.congr (fun _ => rfl) rfl
  | claimed => exact h.congr (fun _ => rfl) rfl
  | @started e r hop hs hv hr hn hd =>
    obtain ⟨checkout, ha⟩ := validated hv
    have hs' := (toRow_event hr).trans hs
    rw [hop, Regular, if_pos hs] at hreg
    rw [← toRow_deploymentId hr] at hn hreg
    refine h.start (hev r.deploymentId) hs' ⟨checkout, ?_⟩ hn (hreg hn)
    rw [toRow_eq hr]
    simpa [hs] using ha
  | @observed e r hsub hs ht ha =>
    exact h.observed ha.written hs (consistent_of_submits hreg hsub hs ha.valid)
  | @replaced e r hop hrw ht ha =>
    rw [hop] at hreg
    exact h.replaced ha.written ht fun row hrow => hreg row e hrow hrw
  | @retained e existing r stored hop hrw ht hv hid hst hf hr =>
    rw [hop] at hreg
    have hd : (withTerminalCorrelation existing e).deploymentId = e.deploymentId := by
      rw [withTerminalCorrelation_deploymentId, fromRow_deploymentId hf]
      exact (Database.mem_eventsOf.1 (Database.mem_terminalRows.1 hst).1).2
    have ht' : (withTerminalCorrelation existing e).event.isTerminal = true := by
      rw [← toRow_event hr]
      exact (retained_row hst hf hr).2
    rw [← hd]
    refine (h.replaced hr ht' ?_).congr (fun _ => rfl) rfl
    rw [hd]
    exact fun row hrow => hreg row _ hrow hrw
  | associated _ ha => exact h.associate ha

theorem projected_of_regular {parse : String → Option ReviewObjective}
    {h : List (Run.Step Database Call)} (hr : Reaches dates parse h db)
    (hreg : ∀ st ∈ h, Regular dates st.before st.event.operation) : Projected db := by
  refine hr.invariant (P := fun h db => (∀ st ∈ h, Regular dates st.before st.event.operation) →
    Projected db) ?_ ?_ hreg
  · intro _ d row hrow
    simp [Database.empty] at hrow
  · intro h s call s' hrs ih hok hreg
    refine (ih fun st hst => hreg st (by simp [hst])).write (evidenced hrs) ?_ (perform_writes hok)
    exact hreg ⟨s, call, s'⟩ (by simp)

/-- The ticket of the fold is that of the row. -/
theorem computeStatus_tracked {start : StoredEvent} (ht : TrackedAt db d)
    (hs : (db.eventsOf d).find? (fun e => e.row.event = .started) = some start)
    (hrow : db.deployments d = some row) :
    (computeStatus d ((db.eventsOf d).map fun e => e.row.read)).row.ticketId =
      optionalString row.ticketId := by
  have hst : db.startOf d = some start.row := by rw [Database.startOf, hs, Option.map_some]
  obtain ⟨row', hrow', hpath⟩ := ht.started start.row hst
  rw [hrow, Option.some.injEq] at hrow'
  subst hrow'
  have hlast := hpath.last
  have hmoves : (db.ticketMoves d).getLast? =
      (latest (fun e : StoredEvent => e.row.event = .ticketAssociated) (db.eventsOf d)).map
        fun e => (e.row.previousTicketId, e.row.ticketId) := by
    rw [Database.ticketMoves, List.getLast?_map, Database.ticketEvents, latest_eq_getLast]
  rw [hmoves] at hlast
  rw [computeStatus_ticket hs, hlast]
  cases hl : latest (fun e : StoredEvent => e.row.event = .ticketAssociated) (db.eventsOf d) with
  | none => rfl
  | some e =>
    have hm : (e.row.previousTicketId, e.row.ticketId) ∈ db.ticketMoves d := by
      have hsat := latest_satisfies hl
      exact List.mem_map_of_mem (List.mem_filter.2 ⟨mem_of_latest hl, hsat⟩)
    obtain ⟨t, htk, hc⟩ := ht.canonical _ hm
    have htk' : e.row.ticketId = some t := htk
    simp only [Option.bind_some, Option.map_some, Option.getD_some, htk', optionalString_canonical hc,
      Option.some_or]

/-- **The log and the table agree.**  In every run of regular steps, the fold of
    the events has one status for each deployment that was started, with the
    status, the time of completion, the ticket and the branch of its row. -/
theorem log_agrees_with_table {parse : String → Option ReviewObjective}
    {h : List (Run.Step Database Call)} (hr : Reaches dates parse h db)
    (hreg : ∀ st ∈ h, Regular dates st.before st.event.operation) (hs : db.startOf d = some s) :
    ∃ events row, readRegistry dates db = .ok events ∧ db.deployments d = some row ∧
      (∃ status ∈ computeDeploymentStatuses dates events, status.deployId = d) ∧
      ∀ status ∈ computeDeploymentStatuses dates events, status.deployId = d →
        status.row.status = row.status ∧ status.row.completedAt = row.completedAt ∧
        status.row.ticketId = optionalString row.ticketId ∧
        status.row.correlation.branchState = row.correlation.branchState ∧
        status.row.correlation.branchBaseSha = row.correlation.branchBaseSha ∧
        status.row.correlation.branchHeadSha = row.correlation.branchHeadSha := by
  obtain ⟨hsound, hk, row, hrow, hfol⟩ := (evidenced hr d).started s hs
  obtain ⟨head, hcorr, -⟩ := hfol.correlation
  have hp := projected_of_regular hr hreg d row hrow
  rw [Database.startOf, Option.map_eq_some_iff] at hs
  obtain ⟨start, hfind, rfl⟩ := hs
  have hmem := List.mem_of_find?_eq_some hfind
  refine ⟨_, row, readRegistry_eq (readable hr), hrow, ?_, ?_⟩
  · refine ⟨_, mem_computeDeploymentStatuses.2 ⟨d, ?_, rfl⟩, rfl⟩
    obtain ⟨hin, hd⟩ := Database.mem_eventsOf.1 hmem
    exact ⟨start.row.read, List.mem_map_of_mem hin, hd⟩
  · intro status hstatus hd
    obtain ⟨d', -, rfl⟩ := mem_computeDeploymentStatuses.1 hstatus
    have hd' : d' = d := hd
    subst hd'
    rw [read_filter]
    obtain ⟨ho1, ho2⟩ := computeStatus_outcome (d := d') hfind
    obtain ⟨hb1, hb2, hb3⟩ := computeStatus_branch (d := d') hfind hsound hk
    refine ⟨ho1.trans hp.status.symm, ho2.trans hp.completedAt.symm, ?_, ?_, ?_, hb3.trans hp.head.symm⟩
    · exact computeStatus_tracked (tracked hr d') hfind hrow
    · rw [hcorr]
      exact hb1
    · rw [hcorr]
      exact hb2

namespace ProjectionSample

def time : String := "2026-02-05T00:00:00.000Z"

def env : Environment := ⟨time, none, fun _ => none⟩

def start : RegistryEvent := RegistryEvent.bare "d-000007" "planner" .started time

def completion (status : Option CompletionStatus) : RegistryEvent :=
  { RegistryEvent.bare "d-000007" "planner" .completed time with status }

/-- A deployment that starts and completes. -/
def calls (status : Option CompletionStatus) : List Call :=
  [⟨.append start, env⟩, ⟨.append (completion status), env⟩]

/-- The statuses of the deployment in the fold and in the table. -/
def statuses (db : Database) : Option (List DeploymentState × DeploymentState) := do
  let events ← (readRegistry isoDates db).toOption
  let row ← db.deployments "d-000007"
  return ((computeDeploymentStatuses isoDates events).map (·.row.status), row.status)

end ProjectionSample

/-- A completion without a status is a success in the table, and running in the
    fold. -/
theorem completion_without_status_diverges :
    ∃ h db, Reaches isoDates (fun _ => none) h db ∧
      h.map (·.event) = ProjectionSample.calls none ∧
      ProjectionSample.statuses db = some ([.running], .success) := by
  have hok : (Run.exec (perform isoDates fun _ => none) Database.empty
      (ProjectionSample.calls none)).toOption.any
        (fun db => ProjectionSample.statuses db = some ([.running], .success)) = true := by
    decide +kernel
  obtain ⟨h, db, hr, hm, hp⟩ := reaches_of_exec hok
  exact ⟨h, db, hr, hm, of_decide_eq_true hp⟩

theorem log_agrees_with_table_completed :
    ∃ (db : Database) (events : List RegistryEvent) (row : Deployment),
      readRegistry isoDates db = .ok events ∧ db.deployments "d-000007" = some row ∧
        ∀ status ∈ computeDeploymentStatuses isoDates events, status.deployId = "d-000007" →
          status.row.status = row.status := by
  let step := perform isoDates fun _ => none
  have hok : (step Database.empty ⟨.append ProjectionSample.start, ProjectionSample.env⟩).toOption.any
      (fun db₁ => (completedIn (db₁.eventsOf "d-000007")).isNone &&
        (step db₁ ⟨.append (ProjectionSample.completion (some .success)),
          ProjectionSample.env⟩).toOption.any fun db₂ => (db₂.startOf "d-000007").isSome) = true := by
    decide +kernel
  cases h₁ : step Database.empty ⟨.append ProjectionSample.start, ProjectionSample.env⟩ with
  | error k =>
    rw [h₁] at hok
    cases hok
  | ok db₁ =>
    rw [h₁] at hok
    obtain ⟨hnone, hok⟩ := Bool.and_eq_true_iff.1 hok
    cases h₂ : step db₁ ⟨.append (ProjectionSample.completion (some .success)), ProjectionSample.env⟩ with
    | error k =>
      rw [h₂] at hok
      cases hok
    | ok db₂ =>
      rw [h₂] at hok
      obtain ⟨s, hs⟩ := Option.isSome_iff_exists.1 hok
      have hr : Reaches isoDates (fun _ => none) _ db₂ := .snoc (.snoc .nil h₁) h₂
      have hreg : ∀ st ∈ ([] ++ [⟨Database.empty, ⟨.append ProjectionSample.start, ProjectionSample.env⟩,
          db₁⟩] ++ [⟨db₁, ⟨.append (ProjectionSample.completion (some .success)), ProjectionSample.env⟩,
          db₂⟩] : List (Run.Step Database Call)), Regular isoDates st.before st.event.operation := by
        intro st hst
        rcases List.mem_append.1 hst with hst | hst
        · rw [List.nil_append, List.mem_singleton] at hst
          subst hst
          exact fun _ => rfl
        · rw [List.mem_singleton] at hst
          subst hst
          intro row hrow
          exact ⟨⟨.success, rfl, .inl (Option.isNone_iff_eq_none.1 hnone)⟩, .inr (.inl rfl)⟩
      obtain ⟨events, row, hread, hrow, -, hall⟩ := log_agrees_with_table hr hreg hs
      exact ⟨db₂, events, row, hread, hrow, fun status hst hd => (hall status hst hd).1⟩

end PaPlatform.Registry
