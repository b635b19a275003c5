/-
  What an operation of the registry can do.

  `Writes` lists, once for all operations, the databases that a call can return,
  with the guards of each; `perform_writes` says that the list is complete.
  Above it, the effect of each statement on the events and the row of one
  deployment.
-/
import PaPlatform.Registry.ReviewClaims

namespace PaPlatform.Registry

open Js Guard

variable {dates : DateReader} {db db' : Database} {e e' row : RegistryEvent} {d x : String}

/-! ## Statements on one deployment -/

/-- The row of a deployment after an event. -/
def projected (row : RegistryEvent) (old : Option Deployment) : Option Deployment :=
  if row.event = .started then some ((old.getD (.fresh row.team)).launched row)
  else old.map (·.observe row)

namespace Database

@[simp] theorem events_project : (db.project row).events = db.events := by
  simp only [project, release, setDeployment]
  split_ifs <;> rfl

@[simp] theorem nextId_project : (db.project row).nextId = db.nextId := by
  simp only [project, release, setDeployment]
  split_ifs <;> rfl

@[simp] theorem nextId_release : (db.release d).nextId = db.nextId := rfl

@[simp] theorem events_release : (db.release d).events = db.events := rfl

@[simp] theorem events_setDeployment {r : Option Deployment} :
    (db.setDeployment d r).events = db.events := rfl

@[simp] theorem deployments_insert : (db.insert row).deployments = db.deployments := rfl

@[simp] theorem deployments_dropTerminals : (db.dropTerminals d).deployments = db.deployments := rfl

@[simp] theorem deployments_release : (db.release d).deployments = db.deployments := rfl

theorem deployments_setDeployment_self {r : Option Deployment} :
    (db.setDeployment d r).deployments d = r := Function.update_self ..

theorem deployments_setDeployment_other {r : Option Deployment} (h : x ≠ d) :
    (db.setDeployment d r).deployments x = db.deployments x := Function.update_of_ne h ..

theorem deployments_project : (db.project row).deployments =
    Function.update db.deployments row.deploymentId (projected row (db.deployments row.deploymentId)) := by
  simp only [project, projected, release, setDeployment]
  split_ifs <;> rfl

theorem deployments_project_self : (db.project row).deployments row.deploymentId =
    projected row (db.deployments row.deploymentId) := by
  rw [deployments_project, Function.update_self]

theorem deployments_project_other (h : x ≠ row.deploymentId) :
    (db.project row).deployments x = db.deployments x := by
  rw [deployments_project, Function.update_of_ne h]

@[simp] theorem claims_insert : (db.insert row).claims = db.claims := rfl

@[simp] theorem claims_dropTerminals : (db.dropTerminals d).claims = db.claims := rfl

@[simp] theorem claims_setDeployment {r : Option Deployment} :
    (db.setDeployment d r).claims = db.claims := rfl

theorem claims_project : (db.project row).claims =
    if row.event.isTerminal = true then (db.release row.deploymentId).claims else db.claims := by
  simp only [project]
  by_cases hs : row.event = .started
  · simp [hs, EventKind.isTerminal]
  · rw [if_neg hs]
    split_ifs <;> rfl

/-! ### The log -/

@[simp] theorem eventsOf_project : (db.project row).eventsOf x = db.eventsOf x := by
  simp [eventsOf]

@[simp] theorem eventsOf_release : (db.release d).eventsOf x = db.eventsOf x := rfl

@[simp] theorem eventsOf_setDeployment {r : Option Deployment} :
    (db.setDeployment d r).eventsOf x = db.eventsOf x := rfl

theorem eventsOf_insert_self :
    (db.insert row).eventsOf row.deploymentId = db.eventsOf row.deploymentId ++ [⟨db.nextId, row⟩] := by
  simp [eventsOf, insert]

theorem eventsOf_insert_other (h : x ≠ row.deploymentId) :
    (db.insert row).eventsOf x = db.eventsOf x := by
  simp [eventsOf, insert, h.symm]

theorem eventsOf_dropTerminals_self :
    (db.dropTerminals d).eventsOf d = (db.eventsOf d).filter fun e => !e.row.event.isTerminal := by
  simp only [eventsOf, dropTerminals, List.filter_filter]
  congr 1
  funext e
  by_cases h : e.row.deploymentId = d <;> simp [h]

theorem eventsOf_dropTerminals_other (h : x ≠ d) :
    (db.dropTerminals d).eventsOf x = db.eventsOf x := by
  simp only [eventsOf, dropTerminals, List.filter_filter]
  congr 1
  funext e
  by_cases hx : e.row.deploymentId = x
  · simp [hx, h]
  · simp [hx]

theorem mem_eventsOf {e : StoredEvent} : e ∈ db.eventsOf d ↔ e ∈ db.events ∧ e.row.deploymentId = d := by
  simp [eventsOf]

/-! ### The start -/

@[simp] theorem startOf_project : (db.project row).startOf x = db.startOf x := by
  simp [startOf]

@[simp] theorem startOf_release : (db.release d).startOf x = db.startOf x := rfl

@[simp] theorem startOf_setDeployment {r : Option Deployment} :
    (db.setDeployment d r).startOf x = db.startOf x := rfl

theorem startOf_insert_of_ne (h : row.event ≠ .started) : (db.insert row).startOf x = db.startOf x := by
  by_cases hx : x = row.deploymentId
  · subst hx
    simp [startOf, eventsOf_insert_self, List.find?_append, h]
  · rw [startOf, eventsOf_insert_other hx, startOf]

theorem startOf_insert_other (h : x ≠ row.deploymentId) : (db.insert row).startOf x = db.startOf x := by
  rw [startOf, eventsOf_insert_other h, startOf]

theorem startOf_insert_self (hs : row.event = .started) (h : db.startOf row.deploymentId = none) :
    (db.insert row).startOf row.deploymentId = some row := by
  rw [startOf, Option.map_eq_none_iff] at h
  rw [startOf, eventsOf_insert_self, List.find?_append, h]
  simp [hs]

@[simp] theorem startOf_dropTerminals : (db.dropTerminals d).startOf x = db.startOf x := by
  by_cases hx : x = d
  · subst hx
    rw [startOf, eventsOf_dropTerminals_self, List.find?_filter, startOf]
    congr 2
    funext e
    cases e.row.event <;> rfl
  · rw [startOf, eventsOf_dropTerminals_other hx, startOf]

theorem startOf_mem (h : db.startOf d = some row) :
    ∃ stored ∈ db.eventsOf d, stored.row = row ∧ row.event = .started := by
  rw [startOf, Option.map_eq_some_iff] at h
  obtain ⟨stored, hf, rfl⟩ := h
  exact ⟨stored, List.mem_of_find?_eq_some hf, rfl, by simpa using List.find?_some hf⟩

theorem startOf_eq_none : db.startOf d = none ↔ ∀ e ∈ db.eventsOf d, e.row.event ≠ .started := by
  simp [startOf, Option.map_eq_none_iff, List.find?_eq_none]

end Database

/-! ## The row of an event -/

theorem toRow_eq (h : toRow dates e = .ok row) : row = { e with timestamp := row.timestamp } := by
  simp only [toRow, bind_eq_ok, pure_eq_ok] at h
  obtain ⟨t, -, rfl⟩ := h
  rfl

theorem toRow_event (h : toRow dates e = .ok row) : row.event = e.event := by rw [toRow_eq h]

theorem toRow_deploymentId (h : toRow dates e = .ok row) : row.deploymentId = e.deploymentId := by
  rw [toRow_eq h]

theorem toRow_correlation (h : toRow dates e = .ok row) : row.correlation = e.correlation := by
  rw [toRow_eq h]

theorem toRow_timestamp (h : toRow dates e = .ok row) :
    dates.normalize row.timestamp = some row.timestamp := by
  simp only [toRow, normalizeTimestamp, bind_eq_ok, pure_eq_ok, require_eq_ok] at h
  obtain ⟨t, ht, rfl⟩ := h
  exact dates.normalize_normalize ht

theorem insert_upsert_ok {db₁ db₂ : Database} (h₁ : insertRegistryEvent dates db e = .ok db₁)
    (h₂ : upsertDeployment dates db₁ e = .ok db₂) :
    ∃ row, toRow dates e = .ok row ∧ db₂ = (db.insert row).project row := by
  simp only [insertRegistryEvent, bind_eq_ok, pure_eq_ok] at h₁
  obtain ⟨row, hr, rfl⟩ := h₁
  simp only [upsertDeployment, hr, ok_bind, pure_eq_ok] at h₂
  exact ⟨row, hr, h₂.symm⟩

/-- An event that is inserted and projected. -/
theorem insert_project_ok {db₂ : Database}
    (h : (insertRegistryEvent dates db e >>= fun db => upsertDeployment dates db e) = .ok db₂) :
    ∃ row, toRow dates e = .ok row ∧ db₂ = (db.insert row).project row := by
  rw [bind_eq_ok] at h
  obtain ⟨db₁, h₁, h₂⟩ := h
  exact insert_upsert_ok h₁ h₂

/-! ## The writes -/

/-- An event that passed the checks of a transaction, and its row. -/
structure Accepted (dates : DateReader) (db : Database) (e row : RegistryEvent) : Prop where
  valid : validateRegistryEvent e = .ok ()
  identity : assertEventMatchesStartedIdentity dates db e = .ok ()
  written : toRow dates e = .ok row

/-- The ticket event `row` of an association, and the guards of its transaction. -/
structure Associated (dates : DateReader) (db : Database) (input : AssociateDeploymentTicketInput)
    (start row : RegistryEvent) (projection : Deployment) : Prop where
  projected : db.deployments input.deploymentId = some projection
  start_read : db.startOf input.deploymentId = some start
  running : projection.status = .running
  canonical : isCanonicalTicketId input.ticketId = true
  expected : projection.ticketId = input.expectedTicketId
  moved : projection.ticketId ≠ some input.ticketId
  unprotected : projection.ticketId.isSome = true → hasProtectedBuilderLaunchEvidence start = false
  written : ∃ env actor reason,
    toRow dates (associationEvent input env start projection.ticketId actor reason) = .ok row

/-- The guards of `claimReviewAuthorization`. -/
structure Claimable (db : Database) (input : ReviewAuthorizationClaimInput)
    (projection : Deployment) : Prop where
  projected : db.deployments input.deploymentId = some projection
  running : projection.status = .running
  unconsumed : ∀ c ∈ db.claims, c.authorizationId ≠ input.authorizationId
  unclaimed : ∀ c ∈ db.claims, c.deploymentId ≠ input.deploymentId
  free : ∀ c ∈ (db.reconcileClaims input.ticketId input.branch).claims, c.ticketId = input.ticketId →
    c.branch = input.branch → c.active = false

/-- The events that an operation adds to the log. -/
def Operation.Submits (op : Operation) (db : Database) (e : RegistryEvent) : Prop :=
  match op with
  | .append e' => e = e'
  | .reconcileTerminalIfAbsent e' => e = e' ∧ db.terminalRows e.deploymentId = []
  | .advanceParent _ | .advanceDirect _ =>
    ∃ d timestamp note base head, e = authorityEvent d timestamp note base head
  | _ => False

/-- The event that a reconciliation puts in the place of the terminal events of
    its deployment, if it does not keep the one that is stored. -/
def rewrites (dates : DateReader) (db : Database) (requested : RegistryEvent) : Option RegistryEvent := do
  let rows ← (storedTerminals dates db requested.deploymentId).toOption
  match existingTerminal rows with
  | none => some requested
  | some existing =>
    if isFailedTerminal existing || !isFailedTerminal requested then
      if 1 < rows.length ∨ changesCorrelation existing.correlation requested.correlation = true then
        some (withTerminalCorrelation existing requested)
      else none
    else some requested

/-- The databases that an operation can return. -/
inductive Writes (dates : DateReader) (op : Operation) (db : Database) : Database → Prop
  | same : Writes dates op db db
  | released (d : String) : Writes dates op db (db.release d)
  | claimed {input : ReviewAuthorizationClaimInput} {projection : Deployment} {claimedAt : String} :
      Claimable db input projection → Writes dates op db { db with
        claims := (db.reconcileClaims input.ticketId input.branch).claims ++ [newClaim input claimedAt] }
  | started {e row : RegistryEvent} : op = .append e → e.event = .started →
      validateRegistryEvent e = .ok () → toRow dates e = .ok row → db.startOf e.deploymentId = none →
      db.deployments e.deploymentId = none → Writes dates op db ((db.insert row).project row)
  | observed {e row : RegistryEvent} : op.Submits db e → e.event ≠ .started →
      e.event ≠ .ticketAssociated → Accepted dates db e row →
      Writes dates op db ((db.insert row).project row)
  | replaced {e row : RegistryEvent} : op = .reconcileTerminal e → rewrites dates db e = some e →
      e.event.isTerminal = true → Accepted dates db e row → Writes dates op db (((db.dropTerminals e.deploymentId).insert row).project row)
  | retained {e existing row : RegistryEvent} {stored : StoredEvent} : op = .reconcileTerminal e →
      rewrites dates db e = some (withTerminalCorrelation existing e) →
      e.event.isTerminal = true → validateRegistryEvent e = .ok () →
      assertEventMatchesStartedIdentity dates db e = .ok () →
      stored ∈ db.terminalRows e.deploymentId → fromRow dates stored.row = .ok existing →
      toRow dates (withTerminalCorrelation existing e) = .ok row →
      Writes dates op db ((((db.dropTerminals e.deploymentId).insert row).project row).release e.deploymentId)
  | associated {input : AssociateDeploymentTicketInput} {start row : RegistryEvent}
      {projection : Deployment} : op = .associate input → Associated dates db input start row projection →
      Writes dates op db ((db.insert row).setDeployment input.deploymentId
        (some { projection with ticketId := some input.ticketId }))

theorem append_writes (h : appendRegistryEvent dates db e = .ok db') :
    Writes dates (.append e) db db' := by
  simp only [appendRegistryEvent, bind_eq_ok, throwIf_eq_ok] at h
  obtain ⟨_, hne, _, hv, h⟩ := h
  by_cases hs : e.event = .started
  · rw [if_pos hs] at h
    cases hstart : db.startOf e.deploymentId with
    | some existing =>
      simp only [hstart, bind_eq_ok, pure_eq_ok] at h
      obtain ⟨_, -, rfl⟩ := h
      exact .same
    | none =>
      simp only [hstart] at h
      rw [bind_eq_ok] at h
      obtain ⟨_, hd, h⟩ := h
      obtain ⟨row, hr, rfl⟩ := insert_project_ok h
      refine .started rfl hs hv hr hstart ?_
      simpa using hd
  · rw [if_neg hs, bind_eq_ok] at h
    obtain ⟨_, hid, h⟩ := h
    obtain ⟨row, hr, rfl⟩ := insert_project_ok h
    exact .observed rfl hs hne ⟨hv, hid, hr⟩

theorem checkTerminal_ok {u : Unit} (h : checkTerminal e = .ok u) :
    validateRegistryEvent e = .ok () ∧ e.event.isTerminal = true := by
  simp only [checkTerminal, bind_eq_ok, throwIf_eq_ok] at h
  obtain ⟨_, hv, ht⟩ := h
  exact ⟨hv, by simpa using ht⟩

theorem existingTerminal_mem {rows : List RegistryEvent} (h : existingTerminal rows = some e) :
    e ∈ rows := by
  unfold existingTerminal at h
  cases hf : rows.find? fun e => isFailedTerminal e with
  | some f =>
    rw [hf, Option.some_or, Option.some.injEq] at h
    subst h
    exact List.mem_of_find?_eq_some hf
  | none =>
    rw [hf, Option.none_or] at h
    exact List.mem_of_mem_head? h

theorem mem_of_mapM {α β : Type} {f : α → Result β} {l : List α} {l' : List β} {b : β}
    (h : l.mapM f = .ok l') (hb : b ∈ l') : ∃ a ∈ l, f a = .ok b := by
  induction l generalizing l' with
  | nil =>
    simp only [List.mapM_nil, pure_eq_ok] at h
    subst h
    simp at hb
  | cons a l ih =>
    simp only [List.mapM_cons, bind_eq_ok, pure_eq_ok] at h
    obtain ⟨b', hb', bs, hbs, rfl⟩ := h
    rcases List.mem_cons.1 hb with rfl | hb
    · exact ⟨a, by simp, hb'⟩
    · obtain ⟨a', ha', hf⟩ := ih hbs hb
      exact ⟨a', by simp [ha'], hf⟩

theorem withTerminalCorrelation_deploymentId :
    (withTerminalCorrelation e e').deploymentId = e.deploymentId := by
  unfold withTerminalCorrelation
  split_ifs <;> rfl

theorem withTerminalCorrelation_event : (withTerminalCorrelation e e').event = e.event := by
  unfold withTerminalCorrelation
  split_ifs <;> rfl

theorem fromRow_event (h : fromRow dates row = .ok e) : e.event = row.event := by
  simp only [fromRow, bind_eq_ok, pure_eq_ok] at h
  obtain ⟨t, -, rfl⟩ := h
  rfl

theorem fromRow_deploymentId (h : fromRow dates row = .ok e) : e.deploymentId = row.deploymentId := by
  simp only [fromRow, bind_eq_ok, pure_eq_ok] at h
  obtain ⟨t, -, rfl⟩ := h
  rfl

theorem Database.mem_terminalRows {stored : StoredEvent} :
    stored ∈ db.terminalRows d ↔ stored ∈ db.eventsOf d ∧ stored.row.event.isTerminal = true := by
  rw [Database.terminalRows, List.mem_filter]

theorem ne_started_of_terminal (h : row.event.isTerminal = true) : row.event ≠ .started := by
  intro hs
  simp [hs, EventKind.isTerminal] at h

/-- The event that a reconciliation retains is a terminal one of the deployment. -/
theorem retained_row {existing : RegistryEvent} {stored : StoredEvent}
    (hst : stored ∈ db.terminalRows d) (hf : fromRow dates stored.row = .ok existing)
    (hr : toRow dates (withTerminalCorrelation existing e) = .ok row) :
    row.deploymentId = d ∧ row.event.isTerminal = true := by
  rw [Database.mem_terminalRows, Database.mem_eventsOf] at hst
  rw [toRow_deploymentId hr, toRow_event hr, withTerminalCorrelation_deploymentId,
    withTerminalCorrelation_event, fromRow_deploymentId hf, fromRow_event hf]
  exact ⟨hst.1.2, hst.2⟩

theorem reconcile_writes {r : Reconciled}
    (h : reconcileTerminalRegistryEvent dates db e = .ok (db', r)) :
    Writes dates (.reconcileTerminal e) db db' := by
  simp only [reconcileTerminalRegistryEvent, bind_eq_ok] at h
  obtain ⟨_, hc, _, hid, rows, hrows, h⟩ := h
  obtain ⟨hv, ht⟩ := checkTerminal_ok hc
  have hrw : rewrites dates db e = (match existingTerminal rows with
      | none => some e
      | some existing =>
        if isFailedTerminal existing || !isFailedTerminal e then
          if 1 < rows.length ∨ changesCorrelation existing.correlation e.correlation = true then
            some (withTerminalCorrelation existing e)
          else none
        else some e) := by
    rw [rewrites, hrows]
    rfl
  have hnew : ∀ {db'' : Database}, rewrites dates db e = some e →
      replaceTerminals dates db e.deploymentId e = .ok db'' →
      Writes dates (.reconcileTerminal e) db db'' := by
    intro db'' hsome hr
    obtain ⟨row, hrow, rfl⟩ := insert_project_ok hr
    exact .replaced rfl hsome ht ⟨hv, hid, hrow⟩
  cases hex : existingTerminal rows with
  | none =>
    rw [hex] at hrw
    simp only [hex, bind_eq_ok, pure_eq_ok, Prod.mk.injEq] at h
    obtain ⟨db'', hr, rfl, -⟩ := h
    exact hnew hrw hr
  | some existing =>
    rw [hex] at hrw
    simp only [hex] at h
    split_ifs at h with hf hch
    · simp only [bind_eq_ok, pure_eq_ok, Prod.mk.injEq] at h
      obtain ⟨db'', hr, rfl, -⟩ := h
      obtain ⟨row, hrow, rfl⟩ := insert_project_ok hr
      obtain ⟨stored, hst, hfr⟩ := mem_of_mapM hrows (existingTerminal_mem hex)
      simp only [if_pos hf, if_pos hch] at hrw
      exact .retained rfl hrw ht hv hid hst hfr hrow
    · simp only [ok_bind, pure_eq_ok, Prod.mk.injEq] at h
      obtain ⟨rfl, -⟩ := h
      exact .released _
    · simp only [bind_eq_ok, pure_eq_ok, Prod.mk.injEq] at h
      obtain ⟨db'', hr, rfl, -⟩ := h
      simp only [if_neg hf] at hrw
      exact hnew hrw hr

theorem reconcileIfAbsent_writes {r : Reconciled}
    (h : reconcileTerminalRegistryEventIfAbsent dates db e = .ok (db', r)) :
    Writes dates (.reconcileTerminalIfAbsent e) db db' := by
  simp only [reconcileTerminalRegistryEventIfAbsent, bind_eq_ok] at h
  obtain ⟨_, hc, _, hid, rows, hrows, h⟩ := h
  obtain ⟨hv, ht⟩ := checkTerminal_ok hc
  cases rows with
  | cons existing rows =>
    simp only [pure_eq_ok, Prod.mk.injEq] at h
    obtain ⟨rfl, -⟩ := h
    exact .released _
  | nil =>
    simp only [bind_eq_ok, pure_eq_ok, Prod.mk.injEq] at h
    obtain ⟨db₁, h₁, db₂, h₂, rfl, -⟩ := h
    obtain ⟨row, hr, rfl⟩ := insert_upsert_ok h₁ h₂
    have hnil : db.terminalRows e.deploymentId = [] := by
      rw [storedTerminals] at hrows
      cases hl : db.terminalRows e.deploymentId with
      | nil => rfl
      | cons s l =>
        simp only [hl, List.mapM_cons, bind_eq_ok, pure_eq_ok] at hrows
        obtain ⟨_, -, _, -, hcons⟩ := hrows
        cases hcons
    refine .observed ⟨rfl, hnil⟩ (ne_started_of_terminal ht) ?_ ⟨hv, hid, hr⟩
    intro hs
    simp [hs, EventKind.isTerminal] at ht

theorem commitAuthority_writes {op : Operation} (hs : op.Submits db e) (he : e.event = .updated)
    (h : commitAuthority dates db e = .ok db') : Writes dates op db db' := by
  simp only [commitAuthority, bind_eq_ok] at h
  obtain ⟨_, hv, _, hid, db₁, h₁, h₂⟩ := h
  obtain ⟨row, hr, rfl⟩ := insert_upsert_ok h₁ h₂
  exact .observed hs (by simp [he]) (by simp [he]) ⟨hv, hid, hr⟩

theorem advanceParent_writes {env : Environment} {options : AdvanceParentAuthoritySnapshotOptions}
    (h : advanceParentAuthoritySnapshot dates db env options = .ok db') :
    Writes dates (.advanceParent options) db db' := by
  simp only [advanceParentAuthoritySnapshot, bind_eq_ok] at h
  obtain ⟨parent, -, parentStart, -, childStart, -, _, -, _, -, h⟩ := h
  split at h
  · simp only [bind_eq_ok, pure_eq_ok] at h
    obtain ⟨_, -, rfl⟩ := h
    exact .same
  · simp only [bind_eq_ok] at h
    obtain ⟨_, -, h⟩ := h
    split_ifs at h
    · exact commitAuthority_writes ⟨_, _, _, _, _, rfl⟩ rfl h
    · rw [pure_eq_ok] at h
      subst h
      exact .same
    · rw [bind_eq_ok] at h
      obtain ⟨_, -, h⟩ := h
      exact commitAuthority_writes ⟨_, _, _, _, _, rfl⟩ rfl h

theorem advanceDirect_writes {env : Environment} {options : AdvanceDirectAuthoritySnapshotOptions}
    (h : advanceDirectAuthoritySnapshot dates db env options = .ok db') :
    Writes dates (.advanceDirect options) db db' := by
  simp only [advanceDirectAuthoritySnapshot, bind_eq_ok] at h
  obtain ⟨current, -, started, -, _, -, h⟩ := h
  split_ifs at h
  · simp only [bind_eq_ok, pure_eq_ok] at h
    obtain ⟨_, -, rfl⟩ := h
    exact .same
  · exact commitAuthority_writes ⟨_, _, _, _, _, rfl⟩ rfl h

theorem updateTicket_ok {expected : Option String} {ticketId : String} {projection : Deployment}
    (hp : db.deployments d = some projection) (h : updateTicket db d expected ticketId = .ok db') :
    projection.ticketId = expected ∧
      db' = db.setDeployment d (some { projection with ticketId := some ticketId }) := by
  simp only [updateTicket, hp, bind_eq_ok, throwIf_eq_ok, pure_eq_ok, not_or, not_not] at h
  obtain ⟨_, ⟨-, ht⟩, rfl⟩ := h
  exact ⟨ht, rfl⟩

/-- An association that is accepted returns the database as it is, or writes. -/
theorem associate_cases {env : Environment} {input : AssociateDeploymentTicketInput}
    {r : AssociateDeploymentTicketResult}
    (h : associateDeploymentTicket dates db env input = .ok (db', r)) :
    (db' = db ∧ input.expectedTicketId = some input.ticketId) ∨
      ∃ start row projection, Associated dates db input start row projection ∧
        db' = (db.insert row).setDeployment input.deploymentId
          (some { projection with ticketId := some input.ticketId }) := by
  simp only [associateDeploymentTicket, bind_eq_ok, throwIf_eq_ok, require_eq_ok] at h
  obtain ⟨actor, -, reason, -, _, hcan, _, -, projection, hp, start, hs, _, hrun, repoRoot, -, _, -,
    _, -, _, hexp, h⟩ := h
  rw [not_ne_iff] at hexp
  split_ifs at h with hmoved
  · rw [pure_eq_ok, Prod.mk.injEq] at h
    exact .inl ⟨h.1.symm, hexp.trans hmoved⟩
  · simp only [bind_eq_ok, throwIf_eq_ok, pure_eq_ok, Prod.mk.injEq] at h
    obtain ⟨_, hprot, _, -, _, -, db₁, h₁, db₂, h₂, rfl, -⟩ := h
    simp only [insertRegistryEvent, bind_eq_ok, pure_eq_ok] at h₁
    obtain ⟨row, hr, rfl⟩ := h₁
    have hp' : (db.insert row).deployments input.deploymentId = some projection := hp
    obtain ⟨ht, rfl⟩ := updateTicket_ok hp' h₂
    rw [← ht] at hr hprot hmoved hexp
    refine .inr ⟨start, row, projection, ⟨hp, hs, by simpa using hrun, by simpa using hcan, hexp.symm,
      hmoved, ?_, env, actor, reason, hr⟩, rfl⟩
    intro hsome
    simpa [hsome] using hprot

theorem associate_writes {env : Environment} {input : AssociateDeploymentTicketInput}
    {r : AssociateDeploymentTicketResult}
    (h : associateDeploymentTicket dates db env input = .ok (db', r)) :
    Writes dates (.associate input) db db' := by
  rcases associate_cases h with ⟨rfl, -⟩ | ⟨start, row, projection, ha, rfl⟩
  · exact .same
  · exact .associated rfl ha

/-- **The compare of an association**: the current ticket is the expected one. -/
theorem associate_expects {env : Environment} {input : AssociateDeploymentTicketInput}
    {r : AssociateDeploymentTicketResult} {current : Deployment}
    (h : associateDeploymentTicket dates db env input = .ok (db', r))
    (hp : db.deployments input.deploymentId = some current) :
    input.expectedTicketId = optionalString current.ticketId := by
  simp only [associateDeploymentTicket, bind_eq_ok, throwIf_eq_ok, require_eq_ok] at h
  obtain ⟨actor, -, reason, -, _, -, _, -, projection, hp', _, -, _, -, _, -, _, -, _, -, _, hexp, -⟩ := h
  rw [hp, Option.some.injEq] at hp'
  rw [hp']
  exact not_ne_iff.1 hexp

theorem claim_writes {parse : String → Option ReviewObjective} {env : Environment}
    {input : ReviewAuthorizationClaimInput} {claim : ReviewAuthorizationClaim}
    (h : claimReviewAuthorization parse dates db env input = .ok (db', claim)) :
    Writes dates (.claim input) db db' := by
  simp only [claimReviewAuthorization, bind_eq_ok, throwIf_eq_ok, require_eq_ok, pure_eq_ok,
    Prod.mk.injEq] at h
  obtain ⟨_, -, projection, hp, start, -, _, hrun, _, -, _, hun, _, hcl, _, hfree, _, -, claimedAt, -,
    _, -, rfl, -⟩ := h
  refine .claimed ⟨hp, by simpa using hrun, ?_, ?_, ?_⟩
  · intro c hc heq
    exact hun ⟨c, hc, heq⟩
  · intro c hc heq
    exact hcl ⟨c, hc, heq⟩
  · intro c hc ht hb
    by_contra ha
    exact hfree ⟨c, hc, ht, hb, by simpa using ha⟩

/-- **Every call does one of the writes.** -/
theorem perform_writes {parse : String → Option ReviewObjective} {call : Call}
    (h : perform dates parse db call = .ok db') : Writes dates call.operation db db' := by
  unfold perform at h
  cases hop : call.operation with
  | append e =>
    simp only [hop] at h
    exact append_writes h
  | advanceParent options =>
    simp only [hop] at h
    exact advanceParent_writes h
  | advanceDirect options =>
    simp only [hop] at h
    exact advanceDirect_writes h
  | claim input =>
    simp only [hop] at h
    obtain ⟨⟨db'', c⟩, hr, rfl⟩ := map_eq_ok.1 h
    exact claim_writes hr
  | reconcileTerminal e =>
    simp only [hop] at h
    obtain ⟨⟨db'', r⟩, hr, rfl⟩ := map_eq_ok.1 h
    exact reconcile_writes hr
  | reconcileTerminalIfAbsent e =>
    simp only [hop] at h
    obtain ⟨⟨db'', r⟩, hr, rfl⟩ := map_eq_ok.1 h
    exact reconcileIfAbsent_writes hr
  | associate input =>
    simp only [hop] at h
    obtain ⟨⟨db'', r⟩, hr, rfl⟩ := map_eq_ok.1 h
    exact associate_writes hr

/-! ## The ids -/

/-- The ids of the log increase and are below the next one. -/
structure Ordered (db : Database) : Prop where
  increasing : db.events.Pairwise fun a b => a.id < b.id
  below : ∀ e ∈ db.events, e.id < db.nextId

theorem Ordered.insert (h : Ordered db) : Ordered (db.insert row) := by
  constructor
  · refine List.pairwise_append.2 ⟨h.increasing, List.pairwise_singleton _ _, ?_⟩
    intro a ha b hb
    rw [List.mem_singleton.1 hb]
    exact h.below a ha
  · intro e he
    rcases List.mem_append.1 he with he | he
    · exact Nat.lt_succ_of_lt (h.below e he)
    · rw [List.mem_singleton.1 he]
      exact Nat.lt_succ_self _

theorem Ordered.dropTerminals (h : Ordered db) : Ordered (db.dropTerminals d) :=
  ⟨h.increasing.filter _, fun e he => h.below e (List.mem_filter.1 he).1⟩

theorem Ordered.release (h : Ordered db) : Ordered (db.release d) := ⟨h.increasing, h.below⟩

theorem Ordered.project (h : Ordered db) : Ordered (db.project row) := by
  constructor
  · rw [Database.events_project]
    exact h.increasing
  · rw [Database.events_project, Database.nextId_project]
    exact h.below

theorem Ordered.write {op : Operation} (h : Ordered db) (hw : Writes dates op db db') : Ordered db' := by
  cases hw with
  | same => exact h
  | released d => exact h.release
  | claimed => exact ⟨h.increasing, h.below⟩
  | started => exact h.insert.project
  | observed => exact h.insert.project
  | replaced => exact h.dropTerminals.insert.project
  | retained => exact h.dropTerminals.insert.project.release
  | associated => exact ⟨h.insert.increasing, h.insert.below⟩

theorem Ordered.eventsOf (h : Ordered db) : (db.eventsOf d).Pairwise fun a b => a.id < b.id :=
  h.increasing.filter _

end PaPlatform.Registry
