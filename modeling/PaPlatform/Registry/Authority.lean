/-
  Parent authority snapshots.

  `advanceParentAuthoritySnapshot` and `advanceDirectAuthoritySnapshot` move the
  projected branch head of one orchestrator.  `Advances` lists what an accepted
  call can do; a call that commits moves the head from its expected value, but
  for the initial branch transition of a call without settlement.
-/
import PaPlatform.Registry.Consumption

namespace PaPlatform.Registry

open Js Guard

variable {dates : DateReader} {op : Operation} {db db' : Database} {e row : RegistryEvent}
  {p d note : String}

/-! ## Authority events -/

namespace Database

/-- The authority events of `d`, the oldest first. -/
def authorities (db : Database) (d : String) : List StoredEvent := db.notes d isAuthority

/-- The projected branch head of `d`. -/
def head (db : Database) (d : String) : Option String :=
  (db.deployments d).bind (·.correlation.branchHeadSha)

theorem mem_notes {q : String → Bool} {stored : StoredEvent} : stored ∈ db.notes d q ↔
    stored ∈ db.eventsOf d ∧ stored.row.event = .updated ∧ stored.row.note.any q = true := by
  rw [notes, List.mem_filter, Bool.and_eq_true, decide_eq_true_eq]

theorem notes_insert_project {q : String → Bool} (he : row.event = .updated)
    (hn : row.note = some note) (hq : q note = true) :
    ((db.insert row).project row).notes row.deploymentId q =
      db.notes row.deploymentId q ++ [⟨db.nextId, row⟩] := by
  rw [notes, eventsOf_project, eventsOf_insert_self, List.filter_append, notes]
  simp [he, hn, hq]

theorem authorities_eq_nil (h : db.notes d isChildAuthority = []) (h' : db.notes d isOwnerAuthority = []) :
    db.authorities d = [] := by
  rw [authorities, List.eq_nil_iff_forall_not_mem]
  intro stored hs
  obtain ⟨h1, h2, h3⟩ := mem_notes.1 hs
  obtain ⟨n, hn, hqn⟩ := (Option.any_eq_true _ _).1 h3
  rw [isAuthority, Bool.or_eq_true] at hqn
  rcases hqn with hqn | hqn
  · rw [List.eq_nil_iff_forall_not_mem] at h
    exact h stored (mem_notes.2 ⟨h1, h2, by rw [hn]; exact hqn⟩)
  · rw [List.eq_nil_iff_forall_not_mem] at h'
    exact h' stored (mem_notes.2 ⟨h1, h2, by rw [hn]; exact hqn⟩)

end Database

theorem like_append (prefix_ s : String) : like prefix_ (prefix_ ++ s) = true := by
  rw [like, String.toList_append, List.map_append, List.isPrefixOf_iff_prefix]
  exact List.prefix_append _ _

theorem isAuthority_childNote (options : AdvanceParentAuthoritySnapshotOptions) :
    isAuthority (childNote options) = true := by
  rw [isAuthority, Bool.or_eq_true]
  left
  unfold childNote isChildAuthority
  cases options.settlement with
  | none => exact like_append _ _
  | some s =>
    rw [Option.elim_some, String.append_assoc, String.append_assoc]
    exact like_append _ _

theorem isAuthority_ownerNote (options : AdvanceDirectAuthoritySnapshotOptions) :
    isAuthority (ownerNote options) = true := by
  rw [isAuthority, Bool.or_eq_true]
  right
  unfold ownerNote isOwnerAuthority
  rw [String.append_assoc, String.append_assoc]
  exact like_append _ _

/-! ## One call -/

/-- A call that advances an authority snapshot. -/
structure Advance where
  deploymentId : String
  expected : String
  head : String
  settled : Bool
  note : String

/-- The advance of an operation.  Only a call of a child without settlement is
    not `settled`. -/
def Operation.advance : Operation → Option Advance
  | .advanceParent o => some ⟨o.parentDeploymentId, o.expectedBranchHeadSha, o.branchHeadSha,
      o.settlement.isSome, childNote o⟩
  | .advanceDirect o => some ⟨o.deploymentId, o.expectedBranchHeadSha, o.branchHeadSha, true,
      ownerNote o⟩
  | _ => none

/-- The initial branch transition: no child has moved the head of the start. -/
def Initial (db : Database) (a : Advance) : Prop :=
  a.settled = false ∧ db.head a.deploymentId ≠ some a.expected ∧
    db.notes a.deploymentId isChildAuthority = []

/-- What an accepted advance does. -/
inductive Advances (db : Database) (a : Advance) : Database → Prop
  | same : Advances db a db
  | committed {row : RegistryEvent} : row.deploymentId = a.deploymentId → row.event = .updated →
      row.note = some a.note → isAuthority a.note = true →
      row.correlation.branchHeadSha = some a.head → db.deployments a.deploymentId ≠ none →
      (db.head a.deploymentId = some a.expected ∨ Initial db a) →
      Advances db a ((db.insert row).project row)

theorem commitAuthority_ok (h : commitAuthority dates db e = .ok db') :
    ∃ row, toRow dates e = .ok row ∧ db' = (db.insert row).project row := by
  simp only [commitAuthority, bind_eq_ok] at h
  obtain ⟨_, -, _, -, db₁, h₁, h₂⟩ := h
  exact insert_upsert_ok h₁ h₂

theorem commitAuthority_advances {a : Advance} {timestamp : String} {base : Option String}
    (hn : isAuthority a.note = true) (hd : db.deployments a.deploymentId ≠ none)
    (hh : db.head a.deploymentId = some a.expected ∨ Initial db a)
    (h : commitAuthority dates db (authorityEvent a.deploymentId timestamp a.note base a.head) = .ok db') :
    Advances db a db' := by
  obtain ⟨row, hr, rfl⟩ := commitAuthority_ok h
  refine .committed ?_ ?_ ?_ hn ?_ hd hh
  · exact toRow_deploymentId hr
  · exact toRow_event hr
  · rw [toRow_eq hr]
    rfl
  · rw [toRow_correlation hr]
    rfl

theorem advanceParent_advances {env : Environment} {options : AdvanceParentAuthoritySnapshotOptions}
    {a : Advance} (ha : Operation.advance (.advanceParent options) = some a)
    (h : advanceParentAuthoritySnapshot dates db env options = .ok db') : Advances db a db' := by
  simp only [Operation.advance, Option.some.injEq] at ha
  subst ha
  simp only [advanceParentAuthoritySnapshot, bind_eq_ok, require_eq_ok] at h
  obtain ⟨parent, hp, parentStart, -, childStart, -, _, -, _, -, h⟩ := h
  have hd : db.deployments options.parentDeploymentId ≠ none := by simp [hp]
  have hhead : ∀ x, parent.correlation.branchHeadSha = some x →
      db.head options.parentDeploymentId = some x := by
    intro x hx
    rw [Database.head, hp, Option.bind_some, hx]
  split at h
  · simp only [bind_eq_ok, pure_eq_ok] at h
    obtain ⟨_, -, rfl⟩ := h
    exact .same
  · simp only [bind_eq_ok, doIf_eq_ok, throwIf_eq_ok] at h
    obtain ⟨_, hset, h⟩ := h
    split_ifs at h with hexp hex
    · exact commitAuthority_advances (isAuthority_childNote options) hd (.inl (hhead _ hexp.2)) h
    · rw [pure_eq_ok] at h
      subst h
      exact .same
    · rw [bind_eq_ok] at h
      obtain ⟨_, hinit, h⟩ := h
      rw [throwIf_eq_ok, not_not] at hinit
      have hunsettled : options.settlement.isSome = false := by
        cases hs : options.settlement.isSome with
        | false => rfl
        | true =>
          have hset := hset hs
          simp only [not_or, not_not] at hset
          exact absurd hset.2.2.2.2 hexp
      refine commitAuthority_advances (isAuthority_childNote options) hd (.inr ⟨hunsettled, ?_, ?_⟩) h
      · intro heq
        rw [Database.head, hp, Option.bind_some] at heq
        exact hexp ⟨hinit.1, heq⟩
      · exact List.isEmpty_iff.1 hinit.2.2

theorem advanceDirect_advances {env : Environment} {options : AdvanceDirectAuthoritySnapshotOptions}
    {a : Advance} (ha : Operation.advance (.advanceDirect options) = some a)
    (h : advanceDirectAuthoritySnapshot dates db env options = .ok db') : Advances db a db' := by
  simp only [Operation.advance, Option.some.injEq] at ha
  subst ha
  simp only [advanceDirectAuthoritySnapshot, bind_eq_ok, require_eq_ok] at h
  obtain ⟨current, hp, started, -, _, -, h⟩ := h
  split_ifs at h with hexp
  · simp only [bind_eq_ok, pure_eq_ok] at h
    obtain ⟨_, -, rfl⟩ := h
    exact .same
  · rw [not_ne_iff] at hexp
    refine commitAuthority_advances (isAuthority_ownerNote options) (by simp [hp]) (.inl ?_) h
    rw [Database.head, hp, Option.bind_some, hexp]

theorem perform_advances {parse : String → Option ReviewObjective} {call : Call} {a : Advance}
    (ha : call.operation.advance = some a) (h : perform dates parse db call = .ok db') :
    Advances db a db' := by
  unfold perform at h
  cases hop : call.operation with
  | advanceParent options =>
    simp only [hop] at h
    exact advanceParent_advances (hop ▸ ha) h
  | advanceDirect options =>
    simp only [hop] at h
    exact advanceDirect_advances (hop ▸ ha) h
  | claim input => simp [hop, Operation.advance] at ha
  | append e => simp [hop, Operation.advance] at ha
  | reconcileTerminal e => simp [hop, Operation.advance] at ha
  | reconcileTerminalIfAbsent e => simp [hop, Operation.advance] at ha
  | associate input => simp [hop, Operation.advance] at ha

/-! ## Calls on one orchestrator -/

/-- A call that leaves `p` alone, or is an advance of `p` to another head. -/
def OnlyAdvances (p : String) (op : Operation) : Prop :=
  match op with
  | .append e | .reconcileTerminal e | .reconcileTerminalIfAbsent e => e.deploymentId ≠ p
  | .associate input => input.deploymentId ≠ p
  | .advanceParent o => o.parentDeploymentId = p → o.branchHeadSha ≠ o.expectedBranchHeadSha
  | .advanceDirect o => o.deploymentId = p → o.branchHeadSha ≠ o.expectedBranchHeadSha
  | .claim _ => True

/-- The log and the row of `p` are the same. -/
def SameAt (p : String) (db db' : Database) : Prop :=
  db'.eventsOf p = db.eventsOf p ∧ db'.deployments p = db.deployments p

theorem sameAt_written (h : p ≠ row.deploymentId) : SameAt p db ((db.insert row).project row) := by
  refine ⟨?_, Database.deployments_project_other h⟩
  rw [Database.eventsOf_project, Database.eventsOf_insert_other h]

theorem sameAt_replaced (h : p ≠ row.deploymentId) (hd : p ≠ d) :
    SameAt p db (((db.dropTerminals d).insert row).project row) := by
  refine ⟨?_, Database.deployments_project_other h⟩
  rw [Database.eventsOf_project, Database.eventsOf_insert_other h,
    Database.eventsOf_dropTerminals_other hd]

/-- An operation that is not an advance leaves `p` alone. -/
theorem Writes.sameAt (hw : Writes dates op db db') (hop : OnlyAdvances p op)
    (hadv : op.advance = none) : SameAt p db db' := by
  cases hw with
  | same => exact ⟨rfl, rfl⟩
  | released => exact ⟨rfl, rfl⟩
  | claimed => exact ⟨rfl, rfl⟩
  | @started e row ho hs hv hr hn hd =>
    subst ho
    exact sameAt_written (by rw [toRow_deploymentId hr]; exact Ne.symm hop)
  | @observed e row hsub hs ht ha =>
    refine sameAt_written ?_
    rw [toRow_deploymentId ha.written]
    cases op with
    | append e' =>
      cases hsub
      exact Ne.symm hop
    | reconcileTerminalIfAbsent e' =>
      obtain ⟨rfl, -⟩ := hsub
      exact Ne.symm hop
    | advanceParent o => simp [Operation.advance] at hadv
    | advanceDirect o => simp [Operation.advance] at hadv
    | claim input => exact hsub.elim
    | reconcileTerminal e' => exact hsub.elim
    | associate input => exact hsub.elim
  | @replaced e row ho _ ht ha =>
    subst ho
    exact sameAt_replaced (by rw [toRow_deploymentId ha.written]; exact Ne.symm hop) (Ne.symm hop)
  | @retained e existing row stored ho _ ht hv hid hst hf hr =>
    subst ho
    exact sameAt_replaced (by rw [(retained_row hst hf hr).1]; exact Ne.symm hop) (Ne.symm hop)
  | @associated input start row projection ho ha =>
    subst ho
    obtain ⟨env, actor, reason, hr⟩ := ha.written
    have hd : p ≠ row.deploymentId := by
      rw [toRow_deploymentId hr]
      exact Ne.symm hop
    refine ⟨?_, Database.deployments_setDeployment_other (Ne.symm hop)⟩
    rw [Database.eventsOf_setDeployment, Database.eventsOf_insert_other hd]

theorem SameAt.authorities (h : SameAt p db db') : db'.authorities p = db.authorities p := by
  rw [Database.authorities, Database.notes, h.1, Database.authorities, Database.notes]

theorem SameAt.head (h : SameAt p db db') : db'.head p = db.head p := by
  rw [Database.head, h.2, Database.head]

/-- What a call does to the authority of `p`: nothing, or it adds an event of an
    advance of `p` and projects its head. -/
inductive Moves (p : String) (op : Operation) (db db' : Database) : Prop
  | kept : SameAt p db db' → Moves p op db db'
  | moved {a : Advance} {stored : StoredEvent} : op.advance = some a → a.deploymentId = p →
      db'.authorities p = db.authorities p ++ [stored] → stored.row.note = some a.note →
      stored.row.correlation.branchHeadSha = some a.head → db'.head p = some a.head →
      (db.head p = some a.expected ∨ Initial db a) → Moves p op db db'

theorem Advances.moves {a : Advance} (h : Advances db a db') (ha : op.advance = some a) :
    Moves p op db db' := by
  cases h with
  | same => exact .kept ⟨rfl, rfl⟩
  | @committed row hd he hn hauth hhead hdep hh =>
    by_cases hp : p = a.deploymentId
    · subst hp
      refine @Moves.moved _ _ _ _ a ⟨db.nextId, row⟩ ha rfl ?_ hn hhead ?_ hh
      · rw [← hd]
        exact Database.notes_insert_project he hn hauth
      · obtain ⟨old, hold⟩ := Option.ne_none_iff_exists'.1 hdep
        have hne : row.event ≠ .started := by simp [he]
        rw [← hd, Database.head, Database.deployments_project_self, projected, if_neg hne,
          Database.deployments_insert, hd, hold, Option.map_some, Option.bind_some]
        simp [Deployment.observe, he, Correlation.coalesceBranch, hhead]
    · exact .kept (sameAt_written (by rwa [hd]))

theorem perform_moves {parse : String → Option ReviewObjective} {call : Call}
    (hop : OnlyAdvances p call.operation) (h : perform dates parse db call = .ok db') :
    Moves p call.operation db db' := by
  cases ha : call.operation.advance with
  | some a => exact (perform_advances ha h).moves ha
  | none => exact .kept ((perform_writes h).sameAt hop ha)

/-! ## Runs -/

/-- The authority events only grow, and the head moves with them. -/
def Onward (p : String) (db db' : Database) : Prop :=
  db.authorities p <+: db'.authorities p ∧
    (db'.authorities p = db.authorities p → db'.head p = db.head p)

theorem Onward.trans {db'' : Database} (h : Onward p db db') (h' : Onward p db' db'') :
    Onward p db db'' := by
  refine ⟨h.1.trans h'.1, fun heq => ?_⟩
  have h1 : db'.authorities p = db.authorities p := by
    refine (List.IsPrefix.eq_of_length_le h.1 ?_).symm
    rw [← heq]
    exact h'.1.length_le
  rw [h'.2 (heq.trans h1.symm), h.2 h1]

theorem Moves.onward (h : Moves p op db db') : Onward p db db' := by
  cases h with
  | kept hs => exact ⟨by rw [hs.authorities], fun _ => hs.head⟩
  | moved _ _ hauth =>
    rw [Onward, hauth]
    refine ⟨List.prefix_append _ _, fun heq => ?_⟩
    simp at heq

/-- A call without settlement whose parent is not at the expected head is made
    only if no owner has moved the head, unless a child has. -/
def Anchored (db : Database) (op : Operation) : Prop :=
  ∀ a, op.advance = some a → Initial db a → db.notes a.deploymentId isOwnerAuthority = []

theorem advanceParent_replay {env : Environment} {options : AdvanceParentAuthoritySnapshotOptions}
    {stored : StoredEvent}
    (hst : stored ∈ db.notes options.parentDeploymentId (· == childNote options))
    (h : advanceParentAuthoritySnapshot dates db env options = .ok db') : db' = db := by
  simp only [advanceParentAuthoritySnapshot, bind_eq_ok] at h
  obtain ⟨parent, -, parentStart, -, childStart, -, _, -, _, -, h⟩ := h
  cases hl : db.notes options.parentDeploymentId (· == childNote options) with
  | nil => simp [hl] at hst
  | cons replay rest =>
    simp only [hl, List.head?_cons, bind_eq_ok, pure_eq_ok] at h
    obtain ⟨_, -, h⟩ := h
    exact h.symm

theorem advanceDirect_replay {env : Environment} {options : AdvanceDirectAuthoritySnapshotOptions}
    (hh : db.head options.deploymentId ≠ some options.expectedBranchHeadSha)
    (h : advanceDirectAuthoritySnapshot dates db env options = .ok db') : db' = db := by
  simp only [advanceDirectAuthoritySnapshot, bind_eq_ok, require_eq_ok] at h
  obtain ⟨current, hp, started, -, _, -, h⟩ := h
  rw [Database.head, hp, Option.bind_some] at hh
  rw [if_pos hh, bind_eq_ok] at h
  obtain ⟨_, -, h⟩ := h
  exact (pure_eq_ok.1 h).symm

/-- **The replay of an advance commits nothing.** -/
theorem replay_same {parse : String → Option ReviewObjective} {env : Environment} {a : Advance}
    {stored : StoredEvent} (ha : op.advance = some a) (hne : a.head ≠ a.expected)
    (hst : stored ∈ db.authorities a.deploymentId) (hn : stored.row.note = some a.note)
    (hh : db.head a.deploymentId = some a.head) (h : perform dates parse db ⟨op, env⟩ = .ok db') :
    db' = db := by
  cases op with
  | advanceParent options =>
    rw [Operation.advance, Option.some.injEq] at ha
    subst ha
    obtain ⟨h1, h2, -⟩ := Database.mem_notes.1 hst
    have hmem : stored ∈ db.notes options.parentDeploymentId (· == childNote options) :=
      Database.mem_notes.2 ⟨h1, h2, by simp [hn]⟩
    exact advanceParent_replay hmem h
  | advanceDirect options =>
    rw [Operation.advance, Option.some.injEq] at ha
    subst ha
    refine advanceDirect_replay ?_ h
    rw [hh]
    simpa using hne
  | claim input => simp [Operation.advance] at ha
  | append e => simp [Operation.advance] at ha
  | reconcileTerminal e => simp [Operation.advance] at ha
  | reconcileTerminalIfAbsent e => simp [Operation.advance] at ha
  | associate input => simp [Operation.advance] at ha

theorem OnlyAdvances.moves_head {a : Advance} (h : OnlyAdvances p op) (ha : op.advance = some a)
    (hp : a.deploymentId = p) : a.head ≠ a.expected := by
  cases op with
  | advanceParent options =>
    rw [Operation.advance, Option.some.injEq] at ha
    subst ha
    exact h hp
  | advanceDirect options =>
    rw [Operation.advance, Option.some.injEq] at ha
    subst ha
    exact h hp
  | claim input => simp [Operation.advance] at ha
  | append e => simp [Operation.advance] at ha
  | reconcileTerminal e => simp [Operation.advance] at ha
  | reconcileTerminalIfAbsent e => simp [Operation.advance] at ha
  | associate input => simp [Operation.advance] at ha

/-- Every step of a run moves the authority of `p` onward to the last state. -/
theorem run_onward {parse : String → Option ReviewObjective} {db₀ : Database}
    {h : List (Run.Step Database Call)} (hr : Run.Reaches (perform dates parse) db₀ h db)
    (honly : ∀ st ∈ h, OnlyAdvances p st.event.operation) :
    ∀ st ∈ h, Moves p st.event.operation st.before st.after ∧ Onward p st.after db := by
  induction hr with
  | nil => simp
  | @snoc h s s' call hr hok ih =>
    have hm : Moves p call.operation s s' := perform_moves (honly ⟨s, call, s'⟩ (by simp)) hok
    intro st hst
    rcases List.mem_append.1 hst with hst | hst
    · obtain ⟨h1, h2⟩ := ih (fun st hst => honly st (by simp [hst])) st hst
      exact ⟨h1, h2.trans hm.onward⟩
    · rw [List.mem_singleton.1 hst]
      exact ⟨hm, List.prefix_rfl, fun _ => rfl⟩

/-- **Authority snapshots are a compare-and-set chain.**  In every run of calls
    on an orchestrator `p` that are anchored:
    - a call that commits an authority event of `p` is an advance that moves the
      head of `p` from its expected head to its new one; the head may be another
      only in a call without settlement that commits the first authority event;
    - the call that committed the latest authority event commits nothing when it
      is made again. -/
theorem authority_snapshots_chain {parse : String → Option ReviewObjective} {db₀ : Database}
    {h : List (Run.Step Database Call)} (hr : Run.Reaches (perform dates parse) db₀ h db)
    (honly : ∀ st ∈ h, OnlyAdvances p st.event.operation)
    (hanch : ∀ st ∈ h, Anchored st.before st.event.operation) :
    ∀ st ∈ h, st.after.authorities p ≠ st.before.authorities p →
      (∃ a stored, st.event.operation.advance = some a ∧ a.deploymentId = p ∧
        st.after.authorities p = st.before.authorities p ++ [stored] ∧
        stored.row.correlation.branchHeadSha = some a.head ∧ st.after.head p = some a.head ∧
        (st.before.head p = some a.expected ∨
          (a.settled = false ∧ st.before.authorities p = []))) ∧
      (db.authorities p = st.after.authorities p → ∀ env db',
        perform dates parse db ⟨st.event.operation, env⟩ = .ok db' → db' = db) := by
  intro st hst hcommit
  obtain ⟨hmoves, honward⟩ := run_onward hr honly st hst
  cases hmoves with
  | kept hs => exact absurd hs.authorities hcommit
  | @moved a stored ha hp hauth hnote hhead hafter hbefore =>
    refine ⟨⟨a, stored, ha, hp, hauth, hhead, hafter, ?_⟩, ?_⟩
    · subst hp
      rcases hbefore with hb | hb
      · exact .inl hb
      · exact .inr ⟨hb.1, Database.authorities_eq_nil hb.2.2 (hanch st hst a ha hb)⟩
    · intro hlast env db' hok
      subst hp
      refine replay_same ha ((honly st hst).moves_head ha rfl) ?_ hnote ?_ hok
      · rw [hlast, hauth]
        simp
      · rw [honward.2 hlast, hafter]

namespace AuthoritySample

def time : String := "2026-02-06T00:00:00.000Z"

def env : Environment := ⟨time, none, fun _ => none⟩

def head (c : Char) : String := String.ofList (List.replicate 40 c)

/-- The start of a builder in the tree of `PA-8`, at the head `h`. -/
def builder (d mode h : String) (authority : BuilderAuthority) (parent : Option String) : Call :=
  ⟨.append { RegistryEvent.bare d "builder" .started time with
    ticketId := some "PA-8"
    launch := { Launch.empty with
      mode := some mode
      runtime := some "pi"
      binary := some "ppa"
      repo := some "/pa/trees/8"
      repoRoot := some "/pa/home"
      worktreeRoot := some "/pa/trees/8" }
    correlation := { Correlation.empty with
      parentDeploymentId := parent
      builderAuthority := some authority
      treehousePath := some "/pa/trees/8"
      treehouseLeaseId := some "lease-8"
      treehouseLeaseHolder := some "pa:pa:PA-8"
      branchState := some .materialized
      branchBaseSha := some (head '9')
      branchHeadSha := some h
      ticketSlotId := some "pa:pa:PA-8"
      repositoryPermit := some ⟨1, first_permit⟩ } }, env⟩

/-- The owner moves its head. -/
def direct (h h' : String) : Call :=
  ⟨.advanceDirect ⟨"d-00000a", "/pa/home", "/pa/trees/8", "PA-8", h, h', none⟩, env⟩

/-- The child, launched at `h`, finalizes at `h'`. -/
def finalize (h h' : String) : Call :=
  ⟨.advanceParent ⟨"d-00000a", "d-00000b", h, h', none, none⟩, env⟩

def launched : List Call := [builder "d-00000a" "orchestrator" (head '0') .orchestrator none]

/-- The owner moves its head, launches a child, and moves it back; then the
    child finalizes. -/
def returned : List Call :=
  [direct (head '0') (head '1'),
    builder "d-00000b" "implement" (head '1') .parentedImplement (some "d-00000a"),
    direct (head '1') (head '0'), finalize (head '1') (head '2')]

end AuthoritySample

/-- The child of the head that the owner has left commits a third authority
    event, from a head that is not the expected one. -/
theorem child_commits_after_owner_returned :
    ∃ db db' : Database,
      Run.exec (perform isoDates fun _ => none) Database.empty
        (AuthoritySample.launched ++ AuthoritySample.returned.take 3) = .ok db ∧
      perform isoDates (fun _ => none) db
        (AuthoritySample.finalize (AuthoritySample.head '1') (AuthoritySample.head '2')) = .ok db' ∧
      (db.authorities "d-00000a").length = 2 ∧ (db'.authorities "d-00000a").length = 3 ∧
      db.head "d-00000a" = some (AuthoritySample.head '0') := by
  have hok : (Run.exec (perform isoDates fun _ => none) Database.empty
      (AuthoritySample.launched ++ AuthoritySample.returned.take 3)).toOption.any (fun db =>
        (perform isoDates (fun _ => none) db
          (AuthoritySample.finalize (AuthoritySample.head '1') (AuthoritySample.head '2'))).toOption.any
            fun db' => decide ((db.authorities "d-00000a").length = 2 ∧
              (db'.authorities "d-00000a").length = 3 ∧
              db.head "d-00000a" = some (AuthoritySample.head '0'))) = true := by decide
  cases h₁ : Run.exec (perform isoDates fun _ => none) Database.empty
      (AuthoritySample.launched ++ AuthoritySample.returned.take 3) with
  | error k =>
    rw [h₁] at hok
    cases hok
  | ok db =>
    rw [h₁] at hok
    cases h₂ : perform isoDates (fun _ => none) db
        (AuthoritySample.finalize (AuthoritySample.head '1') (AuthoritySample.head '2')) with
    | error k =>
      rw [Except.toOption, Option.any_some, h₂] at hok
      cases hok
    | ok db' =>
      rw [Except.toOption, Option.any_some, h₂] at hok
      exact ⟨db, db', rfl, h₂, of_decide_eq_true hok⟩

theorem authority_snapshots_chain_returned :
    ∃ h : List (Run.Step Database Call),
      h.map (·.event) = [AuthoritySample.direct (AuthoritySample.head '0') (AuthoritySample.head '1'),
        AuthoritySample.direct (AuthoritySample.head '1') (AuthoritySample.head '0')] ∧
      ∀ st ∈ h, st.after.authorities "d-00000a" ≠ st.before.authorities "d-00000a" →
        ∃ a, st.event.operation.advance = some a ∧ st.after.head "d-00000a" = some a.head := by
  let calls := [AuthoritySample.direct (AuthoritySample.head '0') (AuthoritySample.head '1'),
    AuthoritySample.direct (AuthoritySample.head '1') (AuthoritySample.head '0')]
  have hok : (Run.exec (perform isoDates fun _ => none) Database.empty
      (AuthoritySample.launched ++ calls)).toOption.isSome = true := by decide
  cases he : Run.exec (perform isoDates fun _ => none) Database.empty
      (AuthoritySample.launched ++ calls) with
  | error k =>
    rw [he] at hok
    cases hok
  | ok db =>
    rw [Run.exec_append, bind_eq_ok] at he
    obtain ⟨db₀, -, he⟩ := he
    obtain ⟨h, hr, hm⟩ := Run.reaches_of_exec he
    have hcalls : ∀ st ∈ h, st.event = calls[0] ∨ st.event = calls[1] := by
      intro st hst
      have hev : st.event ∈ h.map (·.event) := List.mem_map_of_mem hst
      rw [hm] at hev
      simpa [calls] using hev
    have hne : AuthoritySample.head '1' ≠ AuthoritySample.head '0' := by decide
    have honly : ∀ st ∈ h, OnlyAdvances "d-00000a" st.event.operation := by
      intro st hst
      rcases hcalls st hst with heq | heq
      · rw [heq]
        exact fun _ => hne
      · rw [heq]
        exact fun _ => hne.symm
    have hanch : ∀ st ∈ h, Anchored st.before st.event.operation := by
      rintro st hst a ha ⟨hs, -⟩
      rcases hcalls st hst with heq | heq
      · rw [heq] at ha
        cases ha
        cases hs
      · rw [heq] at ha
        cases ha
        cases hs
    refine ⟨h, hm, fun st hst hcommit => ?_⟩
    obtain ⟨⟨a, stored, ha, -, -, -, hafter, -⟩, -⟩ :=
      authority_snapshots_chain hr honly hanch st hst hcommit
    exact ⟨a, ha, hafter⟩

end PaPlatform.Registry
