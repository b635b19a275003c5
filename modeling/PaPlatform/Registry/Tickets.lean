/-
  The history of the ticket of a deployment.

  The current ticket is in the projection, its history in the log.  `Tracked`
  holds of every reachable registry: the `ticket-associated` events of a
  deployment are a chain of moves from the ticket of its start to its current
  ticket.
-/
import PaPlatform.Registry.Consumption
import PaPlatform.Lib.Chain

namespace PaPlatform.Registry

open Js Guard Chain

variable {dates : DateReader} {op : Operation} {db db' : Database} {e row : RegistryEvent} {d x : String}

namespace Database

/-- The `ticket-associated` events of `d`. -/
def ticketEvents (db : Database) (d : String) : List StoredEvent :=
  (db.eventsOf d).filter fun e => e.row.event = .ticketAssociated

/-- The changes of the ticket of `d`. -/
def ticketMoves (db : Database) (d : String) : List (Option String × Option String) :=
  (db.ticketEvents d).map fun e => (e.row.previousTicketId, e.row.ticketId)

@[simp] theorem ticketMoves_project : (db.project row).ticketMoves x = db.ticketMoves x := by
  simp [ticketMoves, ticketEvents]

@[simp] theorem ticketMoves_release : (db.release d).ticketMoves x = db.ticketMoves x := rfl

@[simp] theorem ticketMoves_setDeployment {r : Option Deployment} :
    (db.setDeployment d r).ticketMoves x = db.ticketMoves x := rfl

theorem ticketMoves_insert (h : row.event ≠ .ticketAssociated) :
    (db.insert row).ticketMoves x = db.ticketMoves x := by
  by_cases hx : x = row.deploymentId
  · subst hx
    simp [ticketMoves, ticketEvents, eventsOf_insert_self, h]
  · simp only [ticketMoves, ticketEvents, eventsOf_insert_other hx]

theorem ticketMoves_insert_self (h : row.event = .ticketAssociated) :
    (db.insert row).ticketMoves row.deploymentId =
      db.ticketMoves row.deploymentId ++ [(row.previousTicketId, row.ticketId)] := by
  simp [ticketMoves, ticketEvents, eventsOf_insert_self, h]

theorem ticketMoves_insert_other (h : x ≠ row.deploymentId) :
    (db.insert row).ticketMoves x = db.ticketMoves x := by
  simp only [ticketMoves, ticketEvents, eventsOf_insert_other h]

@[simp] theorem ticketMoves_dropTerminals : (db.dropTerminals d).ticketMoves x = db.ticketMoves x := by
  by_cases hx : x = d
  · subst hx
    simp only [ticketMoves, ticketEvents, eventsOf_dropTerminals_self, List.filter_filter]
    congr 2
    funext e
    cases e.row.event <;> rfl
  · simp only [ticketMoves, ticketEvents, eventsOf_dropTerminals_other hx]

end Database

/-- The current ticket of a deployment and its history. -/
structure TrackedAt (db : Database) (d : String) : Prop where
  unstarted : db.startOf d = none → db.ticketMoves d = [] ∧ db.deployments d = none
  started : ∀ start, db.startOf d = some start → ∃ row, db.deployments d = some row ∧
    Path start.ticketId (db.ticketMoves d) row.ticketId
  moved : ∀ m ∈ db.ticketMoves d, m.1 ≠ m.2
  canonical : ∀ m ∈ db.ticketMoves d, ∃ t, m.2 = some t ∧ isCanonicalTicketId t = true

def Tracked (db : Database) : Prop := ∀ d, TrackedAt db d

theorem observe_ticketId {old : Deployment} : (old.observe row).ticketId = old.ticketId := by
  unfold Deployment.observe
  cases row.event <;> rfl

/-- A write that keeps the starts, the tickets and the moves. -/
theorem TrackedAt.congr (h : TrackedAt db d) (hs : db'.startOf d = db.startOf d)
    (hm : db'.ticketMoves d = db.ticketMoves d)
    (hd : (db'.deployments d).map (·.ticketId) = (db.deployments d).map (·.ticketId)) :
    TrackedAt db' d := by
  constructor
  · intro hn
    rw [hs] at hn
    obtain ⟨h1, h2⟩ := h.unstarted hn
    rw [h2, Option.map_none, Option.map_eq_none_iff] at hd
    exact ⟨hm.trans h1, hd⟩
  · intro start hst
    rw [hs] at hst
    obtain ⟨old, hold, hpath⟩ := h.started start hst
    rw [hold, Option.map_some, Option.map_eq_some_iff] at hd
    obtain ⟨row, hrow, ht⟩ := hd
    refine ⟨row, hrow, ?_⟩
    rw [hm, ht]
    exact hpath
  · rw [hm]
    exact h.moved
  · rw [hm]
    exact h.canonical

theorem Tracked.dropTerminals (h : Tracked db) : Tracked (db.dropTerminals d) := by
  intro x
  exact (h x).congr Database.startOf_dropTerminals Database.ticketMoves_dropTerminals rfl

theorem Tracked.release (h : Tracked db) : Tracked (db.release d) := by
  intro x
  exact (h x).congr rfl rfl rfl

/-- An event other than a start or an association keeps the history. -/
theorem Tracked.observed (h : Tracked db) (hs : row.event ≠ .started)
    (ht : row.event ≠ .ticketAssociated) : Tracked ((db.insert row).project row) := by
  intro x
  refine (h x).congr ?_ ?_ ?_
  · rw [Database.startOf_project, Database.startOf_insert_of_ne hs]
  · rw [Database.ticketMoves_project, Database.ticketMoves_insert ht]
  · by_cases hx : x = row.deploymentId
    · subst hx
      rw [Database.deployments_project_self, projected, if_neg hs, Option.map_map]
      congr 1
      funext old
      exact observe_ticketId
    · rw [Database.deployments_project_other hx]
      rfl

theorem Tracked.terminal (h : Tracked db) (ht : row.event.isTerminal = true) :
    Tracked ((db.insert row).project row) := by
  refine h.observed (ne_started_of_terminal ht) ?_
  intro hs
  simp [hs, EventKind.isTerminal] at ht

theorem Tracked.start (h : Tracked db) (hs : row.event = .started)
    (hn : db.startOf row.deploymentId = none) : Tracked ((db.insert row).project row) := by
  have ht : row.event ≠ .ticketAssociated := by simp [hs]
  intro x
  by_cases hx : x = row.deploymentId
  · subst hx
    obtain ⟨hm, hd⟩ := (h row.deploymentId).unstarted hn
    have hm' : ((db.insert row).project row).ticketMoves row.deploymentId = [] := by
      rw [Database.ticketMoves_project, Database.ticketMoves_insert ht, hm]
    constructor
    · intro hn'
      rw [Database.startOf_project, Database.startOf_insert_self hs hn] at hn'
      cases hn'
    · intro start hst
      rw [Database.startOf_project, Database.startOf_insert_self hs hn] at hst
      cases hst
      refine ⟨(Deployment.fresh row.team).launched row, ?_, ?_⟩
      · rw [Database.deployments_project_self, projected, if_pos hs, Database.deployments_insert, hd]
        rfl
      · rw [hm']
        exact .nil _
    · simp [hm']
    · simp [hm']
  · refine (h x).congr ?_ ?_ ?_
    · rw [Database.startOf_project, Database.startOf_insert_other hx]
    · rw [Database.ticketMoves_project, Database.ticketMoves_insert ht]
    · rw [Database.deployments_project_other hx]
      rfl

theorem Tracked.associate {input : AssociateDeploymentTicketInput} {start : RegistryEvent}
    {projection : Deployment} (h : Tracked db) (ha : Associated dates db input start row projection) :
    Tracked ((db.insert row).setDeployment input.deploymentId
      (some { projection with ticketId := some input.ticketId })) := by
  obtain ⟨env, actor, reason, hrow⟩ := ha.written
  have heq := toRow_eq hrow
  have hd : row.deploymentId = input.deploymentId := by rw [heq]; rfl
  have he : row.event = .ticketAssociated := by rw [heq]; rfl
  have hmove : (row.previousTicketId, row.ticketId) = (projection.ticketId, some input.ticketId) := by
    rw [heq]; rfl
  intro x
  by_cases hx : x = input.deploymentId
  · subst hx
    obtain ⟨old, hold, hpath⟩ := (h input.deploymentId).started start ha.start_read
    rw [ha.projected] at hold
    cases hold
    have hm : ((db.insert row).setDeployment input.deploymentId
        (some { projection with ticketId := some input.ticketId })).ticketMoves input.deploymentId =
          db.ticketMoves input.deploymentId ++ [(projection.ticketId, some input.ticketId)] := by
      rw [Database.ticketMoves_setDeployment, ← hd, Database.ticketMoves_insert_self he, hmove]
    have hs : ((db.insert row).setDeployment input.deploymentId
        (some { projection with ticketId := some input.ticketId })).startOf input.deploymentId =
          some start := by
      rw [Database.startOf_setDeployment, Database.startOf_insert_of_ne (by simp [he]), ha.start_read]
    constructor
    · intro hn
      rw [hs] at hn
      cases hn
    · intro start' hst
      rw [hs] at hst
      cases hst
      refine ⟨_, Function.update_self .., ?_⟩
      rw [hm]
      exact hpath.snoc _
    · rw [hm]
      intro m hmem
      rcases List.mem_append.1 hmem with hmem | hmem
      · exact (h input.deploymentId).moved m hmem
      · rw [List.mem_singleton.1 hmem]
        exact ha.moved
    · rw [hm]
      intro m hmem
      rcases List.mem_append.1 hmem with hmem | hmem
      · exact (h input.deploymentId).canonical m hmem
      · rw [List.mem_singleton.1 hmem]
        exact ⟨input.ticketId, rfl, ha.canonical⟩
  · refine (h x).congr ?_ ?_ ?_
    · rw [Database.startOf_setDeployment, Database.startOf_insert_of_ne (by simp [he])]
    · rw [Database.ticketMoves_setDeployment,
        Database.ticketMoves_insert_other (by rw [hd]; exact hx)]
    · rw [Database.deployments_setDeployment_other hx]
      rfl

/-- **Every write keeps the history.** -/
theorem Tracked.write (h : Tracked db) (hw : Writes dates op db db') : Tracked db' := by
  cases hw with
  | same => exact h
  | released d => exact h.release
  | claimed hc => exact fun x => (h x).congr rfl rfl rfl
  | @started e row _ hs hv hr hn hd =>
    refine h.start ((toRow_event hr).trans hs) ?_
    rw [toRow_deploymentId hr, hn]
  | @observed e row _ hs ht ha =>
    refine h.observed ?_ ?_
    · rw [toRow_event ha.written]
      exact hs
    · rw [toRow_event ha.written]
      exact ht
  | @replaced e row _ _ ht ha =>
    rw [← toRow_event ha.written] at ht
    exact h.dropTerminals.terminal ht
  | @retained e existing row stored _ _ ht hv hid hst hf hr =>
    exact (h.dropTerminals.terminal (retained_row hst hf hr).2).release
  | associated _ ha => exact h.associate ha

/-! ## Rivals -/

/-- The ticket column of `d`. -/
def Database.ticketOf (db : Database) (d : String) : Option (Option String) :=
  (db.deployments d).map (·.ticketId)

/-- An event other than a start keeps the tickets. -/
theorem ticketOf_observed (hs : row.event ≠ .started) :
    ((db.insert row).project row).ticketOf d = db.ticketOf d := by
  by_cases hd : d = row.deploymentId
  · subst hd
    rw [Database.ticketOf, Database.deployments_project_self, projected, if_neg hs, Option.map_map]
    congr 1
    funext old
    exact observe_ticketId
  · rw [Database.ticketOf, Database.deployments_project_other hd]
    rfl

/-- The effect of a write on the start and the ticket of a deployment. -/
inductive TicketChange (dates : DateReader) (op : Operation) (db db' : Database) (d : String) : Prop
  | kept : db'.startOf d = db.startOf d → db'.ticketOf d = db.ticketOf d →
      TicketChange dates op db db' d
  | launched {row : RegistryEvent} : db.startOf d = none → db'.startOf d = some row →
      db'.ticketOf d = some row.ticketId → TicketChange dates op db db' d
  | moved {input : AssociateDeploymentTicketInput} {start row : RegistryEvent}
      {projection : Deployment} : op = .associate input → input.deploymentId = d →
      Associated dates db input start row projection → db'.startOf d = db.startOf d →
      db'.ticketOf d = some (some input.ticketId) → TicketChange dates op db db' d

theorem ticketChange_observed (hs : row.event ≠ .started) :
    TicketChange dates op db ((db.insert row).project row) d := by
  refine .kept ?_ (ticketOf_observed hs)
  rw [Database.startOf_project, Database.startOf_insert_of_ne hs]

theorem TicketChange.dropTerminals (h : TicketChange dates op (db.dropTerminals x) db' d) :
    (∀ input, op ≠ .associate input) → TicketChange dates op db db' d := by
  intro hop
  cases h with
  | kept hs ht => exact .kept (hs.trans Database.startOf_dropTerminals) ht
  | launched hn hs ht => exact .launched (Database.startOf_dropTerminals.symm.trans hn) hs ht
  | moved ho => exact absurd ho (hop _)

/-- **What a write does to a ticket.** -/
theorem Writes.ticketChange (hw : Writes dates op db db') (d : String) :
    TicketChange dates op db db' d := by
  cases hw with
  | same => exact .kept rfl rfl
  | released => exact .kept rfl rfl
  | claimed => exact .kept rfl rfl
  | @started e row _ hs hv hr hn hd =>
    have hs' := (toRow_event hr).trans hs
    rw [← toRow_deploymentId hr] at hn
    by_cases hx : d = row.deploymentId
    · subst hx
      refine @TicketChange.launched dates op db _ _ row hn ?_ ?_
      · rw [Database.startOf_project, Database.startOf_insert_self hs' hn]
      · rw [Database.ticketOf, Database.deployments_project_self, projected, if_pos hs']
        rfl
    · refine .kept ?_ ?_
      · rw [Database.startOf_project, Database.startOf_insert_other hx]
      · rw [Database.ticketOf, Database.deployments_project_other hx]
        rfl
  | @observed e row _ hs ht ha =>
    refine ticketChange_observed ?_
    rw [toRow_event ha.written]
    exact hs
  | @replaced e row hop _ ht ha =>
    rw [← toRow_event ha.written] at ht
    refine (ticketChange_observed (ne_started_of_terminal ht)).dropTerminals ?_
    simp [hop]
  | @retained e existing row stored hop _ ht hv hid hst hf hr =>
    have hs := ne_started_of_terminal (retained_row hst hf hr).2
    refine .kept ?_ (ticketOf_observed hs)
    rw [Database.startOf_release, Database.startOf_project, Database.startOf_insert_of_ne hs,
      Database.startOf_dropTerminals]
  | @associated input start row projection hop ha =>
    obtain ⟨env, actor, reason, hrow⟩ := ha.written
    have hne : row.event ≠ .started := by
      rw [toRow_event hrow]
      simp [associationEvent, RegistryEvent.bare]
    have hst : ((db.insert row).setDeployment input.deploymentId
        (some { projection with ticketId := some input.ticketId })).startOf d = db.startOf d := by
      rw [Database.startOf_setDeployment, Database.startOf_insert_of_ne hne]
    by_cases hd : d = input.deploymentId
    · refine .moved hop hd.symm ha hst ?_
      rw [hd, Database.ticketOf, Database.deployments_setDeployment_self]
      rfl
    · refine .kept hst ?_
      rw [Database.ticketOf, Database.deployments_setDeployment_other hd]
      rfl

/-- `d` was started and has the ticket `t`. -/
def Holds (db : Database) (d : String) (t : Option String) : Prop :=
  db.startOf d ≠ none ∧ db.ticketOf d = some t

/-- Whether a call is an association of `d`. -/
def Operation.associates (op : Operation) (d : String) : Bool :=
  match op with
  | .associate input => input.deploymentId = d
  | _ => false

/-- Only an association of `d` changes the ticket of `d`. -/
theorem Holds.write {t : Option String} (h : Holds db d t) (hop : op.associates d = false)
    (hw : Writes dates op db db') : Holds db' d t := by
  cases hw.ticketChange d with
  | kept hs ht => exact ⟨hs ▸ h.1, ht.trans h.2⟩
  | launched hn => exact absurd hn h.1
  | moved ho hd => simp [ho, Operation.associates, hd] at hop

theorem Holds.exec {parse : String → Option ReviewObjective} {t : Option String} {calls : List Call}
    (h : Holds db d t) (hc : ∀ c ∈ calls, c.operation.associates d = false)
    (he : Run.exec (perform dates parse) db calls = .ok db') : Holds db' d t := by
  induction calls generalizing db with
  | nil =>
    cases he
    exact h
  | cons c calls ih =>
    simp only [Run.exec, bind_eq_ok] at he
    obtain ⟨db₁, hok, he⟩ := he
    refine ih (h.write (hc c (by simp)) (perform_writes hok)) ?_ he
    intro c' hc'
    exact hc c' (by simp [hc'])

theorem optionalString_canonical {t : String} (h : isCanonicalTicketId t = true) :
    optionalString (some t) = some t := by
  have hne : t ≠ "" := by
    rintro rfl
    simp [show isCanonicalTicketId "" = false by decide] at h
  simp [optionalString, hne]

/-- **The set of an association**: a new ticket is the current one. -/
theorem associate_holds {env : Environment} {input : AssociateDeploymentTicketInput}
    {r : AssociateDeploymentTicketResult} (hnew : input.expectedTicketId ≠ some input.ticketId)
    (h : associateDeploymentTicket dates db env input = .ok (db', r)) :
    Holds db' input.deploymentId (some input.ticketId) ∧ isCanonicalTicketId input.ticketId = true := by
  rcases associate_cases h with ⟨-, heq⟩ | ⟨start, row, projection, ha, rfl⟩
  · exact absurd heq hnew
  · refine ⟨?_, ha.canonical⟩
    have hstart : db.startOf input.deploymentId ≠ none := by simp [ha.start_read]
    cases (Writes.associated rfl ha).ticketChange input.deploymentId with
    | kept _ ht =>
      rw [Database.ticketOf, Database.deployments_setDeployment_self, Database.ticketOf, ha.projected,
        Option.map_some, Option.map_some, Option.some.injEq] at ht
      exact absurd ht.symm ha.moved
    | launched hn => exact absurd hn hstart
    | moved hop _ _ hs ht =>
      cases hop
      exact ⟨hs ▸ hstart, ht⟩

/-- Of two associations of a deployment that expect the same ticket, the second
    throws once the first has set a new one. -/
theorem rival_throws {parse : String → Option ReviewObjective} {db₁ db₂ db₃ : Database}
    {env env' : Environment} {input input' : AssociateDeploymentTicketInput} {calls : List Call}
    (hd : input'.deploymentId = input.deploymentId)
    (he : input'.expectedTicketId = input.expectedTicketId)
    (hnew : input.expectedTicketId ≠ some input.ticketId)
    (hc : ∀ c ∈ calls, c.operation.associates input.deploymentId = false)
    (h₁ : perform dates parse db ⟨.associate input, env⟩ = .ok db₁)
    (h₂ : Run.exec (perform dates parse) db₁ calls = .ok db₂) :
    perform dates parse db₂ ⟨.associate input', env'⟩ ≠ .ok db₃ := by
  intro h₃
  simp only [perform] at h₁ h₃
  obtain ⟨⟨_, r⟩, hr, rfl⟩ := map_eq_ok.1 h₁
  obtain ⟨⟨_, r'⟩, hr', rfl⟩ := map_eq_ok.1 h₃
  obtain ⟨hholds, hcan⟩ := associate_holds hnew hr
  obtain ⟨-, hticket⟩ := hholds.exec hc h₂
  obtain ⟨row, hrow, ht⟩ := Option.map_eq_some_iff.1 hticket
  have hexp := associate_expects hr' (hd ▸ hrow)
  rw [he, ht, optionalString_canonical hcan] at hexp
  exact hnew hexp

/-- The database after a call: a transaction that throws is rolled back. -/
def after (dates : DateReader) (parse : String → Option ReviewObjective) (db : Database)
    (call : Call) : Database :=
  match perform dates parse db call with
  | .ok db' => db'
  | .error _ => db

theorem tracked {parse : String → Option ReviewObjective} {h : List (Run.Step Database Call)}
    (hr : Reaches dates parse h db) : Tracked db := by
  refine hr.invariant (P := fun _ db => Tracked db) ?_ ?_
  · intro d
    refine ⟨fun _ => ⟨rfl, rfl⟩, fun start hst => ?_, ?_, ?_⟩
    · simp [Database.startOf, Database.eventsOf, Database.empty] at hst
    · simp [Database.ticketMoves, Database.ticketEvents, Database.eventsOf, Database.empty]
    · simp [Database.ticketMoves, Database.ticketEvents, Database.eventsOf, Database.empty]
  · intro h s call s' _ hs hok
    exact hs.write (perform_writes hok)

theorem ordered {parse : String → Option ReviewObjective} {h : List (Run.Step Database Call)}
    (hr : Reaches dates parse h db) : Ordered db := by
  refine hr.invariant (P := fun _ db => Ordered db) ⟨List.Pairwise.nil, by simp [Database.empty]⟩ ?_
  intro h s call s' _ hs hok
  exact hs.write (perform_writes hok)

/-- **The ticket history is a chain**, in every reachable registry.  In the
    order of their ids, the associations of a deployment lead from the ticket of
    its start to its current ticket, each from where the one before ended and to
    another ticket.  Of two that expect the same ticket, one after the other and
    with no association between them, at most one sets a new ticket.  A call that
    throws changes nothing. -/
theorem ticket_history_chain {parse : String → Option ReviewObjective}
    {h : List (Run.Step Database Call)} (hr : Reaches dates parse h db) :
    (∀ d, (db.ticketEvents d).Pairwise fun a b => a.id < b.id) ∧
      (∀ d start, db.startOf d = some start → ∃ row, db.deployments d = some row ∧
        (∀ m ∈ (db.ticketMoves d).head?, m.1 = start.ticketId) ∧
        (db.ticketMoves d).IsChain (fun m m' => m'.1 = m.2) ∧
        (∀ m ∈ db.ticketMoves d, m.1 ≠ m.2) ∧
        row.ticketId = ((db.ticketMoves d).getLast?.map (·.2)).getD start.ticketId) ∧
      (∀ d, db.startOf d = none → db.ticketMoves d = []) ∧
      (∀ (input input' : AssociateDeploymentTicketInput) (env env' : Environment) (calls : List Call)
        (db₁ db₂ db₃ : Database), input'.deploymentId = input.deploymentId →
        input'.expectedTicketId = input.expectedTicketId →
        input.expectedTicketId ≠ some input.ticketId →
        (∀ c ∈ calls, c.operation.associates input.deploymentId = false) →
        perform dates parse db ⟨.associate input, env⟩ = .ok db₁ →
        Run.exec (perform dates parse) db₁ calls = .ok db₂ →
        perform dates parse db₂ ⟨.associate input', env'⟩ ≠ .ok db₃) ∧
      ∀ call k, perform dates parse db call = .error k → after dates parse db call = db := by
  have ht := tracked hr
  refine ⟨fun d => (ordered hr).eventsOf.filter _, ?_, ?_, ?_, ?_⟩
  · intro d start hst
    obtain ⟨row, hrow, hpath⟩ := (ht d).started start hst
    refine ⟨row, hrow, ?_, hpath.isChain, (ht d).moved, hpath.last⟩
    intro m hm
    cases hl : db.ticketMoves d with
    | nil => simp [hl] at hm
    | cons m' l =>
      rw [hl] at hpath hm
      cases hm
      exact hpath.first
  · intro d hn
    exact ((ht d).unstarted hn).1
  · intro input input' env env' calls db₁ db₂ db₃ hd he hnew hc h₁ h₂
    exact rival_throws hd he hnew hc h₁ h₂
  · intro call k hk
    rw [after, hk]

namespace TicketSample

def time : String := "2026-02-02T00:00:00.000Z"

def env : Environment := ⟨time, some [("pa", "/pa/repo")], fun _ => some (some "pa")⟩

/-- The start of a deployment without a ticket. -/
def start : RegistryEvent :=
  { RegistryEvent.bare "d-000002" "planner" .started time with
    launch := { Launch.empty with repoRoot := some "/pa/repo" } }

def associate (expected : Option String) (ticketId : String) : Call :=
  ⟨.associate ⟨"d-000002", ticketId, expected, "me", "moved", none⟩, env⟩

/-- A deployment gets a ticket and then another. -/
def moved : List Call := [⟨.append start, env⟩, associate none "PA-2", associate (some "PA-2") "PA-3"]

end TicketSample

theorem ticket_history_chain_moved :
    ∃ db : Database, db.ticketMoves "d-000002" = [(none, some "PA-2"), (some "PA-2", some "PA-3")] ∧
      ∃ row, db.deployments "d-000002" = some row ∧ row.ticketId = some "PA-3" := by
  have hok : (Run.exec (perform isoDates fun _ => none) Database.empty TicketSample.moved).toOption.any
      (fun db => decide (db.ticketMoves "d-000002" =
        [(none, some "PA-2"), (some "PA-2", some "PA-3")] ∧ (db.startOf "d-000002").isSome = true)) =
        true := by decide +kernel
  obtain ⟨h, db, hr, -, hdb⟩ := reaches_of_exec hok
  obtain ⟨hm, hst⟩ := of_decide_eq_true hdb
  obtain ⟨start, hst⟩ := Option.isSome_iff_exists.1 hst
  obtain ⟨row, hrow, -, -, -, ht⟩ := (ticket_history_chain hr).2.1 _ start hst
  refine ⟨db, hm, row, hrow, ?_⟩
  rw [ht, hm]
  rfl

end PaPlatform.Registry
