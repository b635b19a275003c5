/-
  Terminal reconciliation.

  `reconcileTerminalRegistryEvent` leaves one terminal event.  Its verdict is
  failed as soon as one terminal event of the deployment was: it does not depend
  on the order of the submissions.  A resubmission of the stored event is
  written again exactly when the event has a review checkout, since review
  checkouts are compared as objects.
-/
import PaPlatform.Registry.Consumption

namespace PaPlatform.Registry

open Js Guard

variable {dates : DateReader} {op : Operation} {db db' : Database} {e e' row : RegistryEvent}
  {d x : String}

/-! ## Reading the log -/

/-- The timestamps of the log are as `toRow` writes them. -/
def Readable (dates : DateReader) (db : Database) : Prop :=
  ∀ e ∈ db.events, dates.normalize e.row.timestamp = some e.row.timestamp

theorem Readable.insert (h : Readable dates db) (hr : toRow dates e = .ok row) :
    Readable dates (db.insert row) := by
  intro x hx
  rcases List.mem_append.1 hx with hx | hx
  · exact h x hx
  · rw [List.mem_singleton.1 hx]
    exact toRow_timestamp hr

theorem Readable.dropTerminals (h : Readable dates db) : Readable dates (db.dropTerminals d) :=
  fun x hx => h x (List.mem_filter.1 hx).1

theorem Readable.release (h : Readable dates db) : Readable dates (db.release d) := h

theorem Readable.project (h : Readable dates db) : Readable dates (db.project row) := by
  intro x hx
  rw [Database.events_project] at hx
  exact h x hx

theorem Readable.write (h : Readable dates db) (hw : Writes dates op db db') : Readable dates db' := by
  cases hw with
  | same => exact h
  | released => exact h
  | claimed => exact h
  | started _ _ _ hr => exact (h.insert hr).project
  | observed _ _ _ ha => exact (h.insert ha.written).project
  | replaced _ _ _ ha => exact (h.dropTerminals.insert ha.written).project
  | retained _ _ _ _ _ _ _ hr => exact (h.dropTerminals.insert hr).project.release
  | associated _ ha =>
    obtain ⟨env, actor, reason, hr⟩ := ha.written
    exact h.insert hr

theorem readable {parse : String → Option ReviewObjective} {h : List (Run.Step Database Call)}
    (hr : Reaches dates parse h db) : Readable dates db := by
  refine hr.invariant (P := fun _ db => Readable dates db) ?_ ?_
  · intro x hx
    simp [Database.empty] at hx
  · intro h s call s' _ hs hok
    exact hs.write (perform_writes hok)

theorem toRow_of_normalize (h : dates.normalize e.timestamp = some e.timestamp) :
    toRow dates e = .ok e := by
  unfold toRow normalizeTimestamp
  rw [h]
  rfl

theorem withTerminalCorrelation_timestamp :
    (withTerminalCorrelation e e').timestamp = e.timestamp := by
  unfold withTerminalCorrelation
  split_ifs <;> rfl

/-- A stored row is read. -/
theorem fromRow_ok (h : dates.normalize row.timestamp = some row.timestamp) :
    ∃ e, fromRow dates row = .ok e ∧ e.timestamp = row.timestamp := by
  unfold fromRow normalizeTimestamp
  rw [h]
  exact ⟨_, rfl, rfl⟩

theorem storedTerminals_ok (h : Readable dates db) : ∃ rows, storedTerminals dates db d = .ok rows := by
  have hall : ∀ s ∈ db.terminalRows d, ∃ e, fromRow dates s.row = .ok e := by
    intro s hs
    rw [Database.mem_terminalRows, Database.mem_eventsOf] at hs
    obtain ⟨e, he, -⟩ := fromRow_ok (h s hs.1.1)
    exact ⟨e, he⟩
  rw [storedTerminals]
  generalize db.terminalRows d = l at hall
  induction l with
  | nil => exact ⟨[], rfl⟩
  | cons s l ih =>
    obtain ⟨e, he⟩ := hall s (by simp)
    obtain ⟨rows, hrows⟩ := ih fun s' hs' => hall s' (by simp [hs'])
    refine ⟨e :: rows, ?_⟩
    rw [List.mapM_cons, he, hrows]
    rfl

/-! ## Verdicts -/

theorem fromRow_failed (h : fromRow dates row = .ok e) : isFailedTerminal e = isFailedTerminal row := by
  simp only [fromRow, bind_eq_ok, pure_eq_ok] at h
  obtain ⟨t, -, rfl⟩ := h
  rfl

theorem toRow_failed (h : toRow dates e = .ok row) : isFailedTerminal row = isFailedTerminal e := by
  rw [toRow_eq h]
  rfl

theorem withTerminalCorrelation_failed :
    isFailedTerminal (withTerminalCorrelation e e') = isFailedTerminal e := by
  unfold withTerminalCorrelation
  split_ifs <;> rfl

/-- Whether a stored terminal event of `d` is failed. -/
def Database.failed (db : Database) (d : String) : Bool :=
  (db.terminalRows d).any fun s => isFailedTerminal s.row

theorem existingTerminal_failed {rows : List RegistryEvent} (h : existingTerminal rows = some e) :
    isFailedTerminal e = rows.any fun e => isFailedTerminal e := by
  unfold existingTerminal at h
  cases hf : rows.find? fun e => isFailedTerminal e with
  | some f =>
    rw [hf, Option.some_or, Option.some.injEq] at h
    subst h
    rw [List.find?_some hf, eq_comm, List.any_eq_true]
    exact ⟨f, List.mem_of_find?_eq_some hf, List.find?_some hf⟩
  | none =>
    rw [hf, Option.none_or] at h
    rw [List.find?_eq_none] at hf
    rw [Bool.eq_false_of_not_eq_true (hf e (List.mem_of_mem_head? h)), eq_comm, List.any_eq_false]
    exact hf

theorem mapM_any {α β : Type} {f : α → Result β} {p : β → Bool} {q : α → Bool} {l : List α}
    {l' : List β} (hpq : ∀ a b, f a = .ok b → p b = q a) (h : l.mapM f = .ok l') :
    l'.any p = l.any q ∧ l'.length = l.length := by
  induction l generalizing l' with
  | nil =>
    simp only [List.mapM_nil, pure_eq_ok] at h
    subst h
    exact ⟨rfl, rfl⟩
  | cons a l ih =>
    simp only [List.mapM_cons, bind_eq_ok, pure_eq_ok] at h
    obtain ⟨b, hb, bs, hbs, rfl⟩ := h
    obtain ⟨h1, h2⟩ := ih hbs
    rw [List.any_cons, List.any_cons, hpq a b hb, h1, List.length_cons, h2, List.length_cons]
    exact ⟨rfl, rfl⟩

theorem storedTerminals_any {rows : List RegistryEvent} (h : storedTerminals dates db d = .ok rows) :
    (rows.any fun e => isFailedTerminal e) = db.failed d ∧
      rows.length = (db.terminalRows d).length :=
  mapM_any (fun _ _ h => fromRow_failed h) h

/-! ## One reconciliation -/

/-- The log of `d` with `row` as its one terminal event. -/
def Database.replaced (db : Database) (row : RegistryEvent) : Database :=
  ((db.dropTerminals row.deploymentId).insert row).project row

theorem Database.release_release : (db.release d).release d = db.release d := by
  simp only [Database.release, List.map_map]
  congr 2
  funext c
  by_cases h : c.deploymentId = d <;> simp [h]

theorem Database.release_replaced (ht : row.event.isTerminal = true) :
    (db.replaced row).release row.deploymentId = db.replaced row := by
  have hs := ne_started_of_terminal ht
  simp only [Database.replaced, Database.project, if_neg hs, if_pos ht, Database.release_release]

theorem terminalRows_replaced (ht : row.event.isTerminal = true) :
    (db.replaced row).terminalRows row.deploymentId = [⟨db.nextId, row⟩] := by
  rw [Database.terminalRows, Database.replaced, Database.eventsOf_project, Database.eventsOf_insert_self,
    Database.eventsOf_dropTerminals_self, List.filter_append, List.filter_filter]
  simp [ht, Database.dropTerminals]

theorem terminalRows_replaced_other (h : x ≠ row.deploymentId) :
    (db.replaced row).terminalRows x = db.terminalRows x := by
  rw [Database.terminalRows, Database.replaced, Database.eventsOf_project,
    Database.eventsOf_insert_other h, Database.eventsOf_dropTerminals_other h, Database.terminalRows]

/-- What an accepted reconciliation does: it keeps the one stored event, or
    writes the event that its verdict is taken from. -/
inductive Reconciles (dates : DateReader) (db : Database) (e : RegistryEvent) : Database → Prop
  | kept {stored : StoredEvent} {existing : RegistryEvent} :
      db.terminalRows e.deploymentId = [stored] → fromRow dates stored.row = .ok existing →
      isFailedTerminal stored.row = (isFailedTerminal stored.row || isFailedTerminal e) →
      changesCorrelation existing.correlation e.correlation = false →
      Reconciles dates db e (db.release e.deploymentId)
  | wrote {row : RegistryEvent} : row.deploymentId = e.deploymentId → row.event.isTerminal = true →
      dates.normalize row.timestamp = some row.timestamp →
      isFailedTerminal row = (db.failed e.deploymentId || isFailedTerminal e) →
      (db.failed e.deploymentId = false → isFailedTerminal e = true → Ok (toRow dates e)) →
      Reconciles dates db e (db.replaced row)

theorem replaceTerminals_ok (hd : e.deploymentId = d) (h : replaceTerminals dates db d e = .ok db') :
    ∃ row, toRow dates e = .ok row ∧ db' = db.replaced row := by
  obtain ⟨row, hr, rfl⟩ := insert_project_ok h
  refine ⟨row, hr, ?_⟩
  rw [Database.replaced, toRow_deploymentId hr, hd]

theorem reconcile_cases {r : Reconciled}
    (h : reconcileTerminalRegistryEvent dates db e = .ok (db', r)) : Reconciles dates db e db' := by
  simp only [reconcileTerminalRegistryEvent, bind_eq_ok] at h
  obtain ⟨_, hc, _, hid, rows, hrows, h⟩ := h
  obtain ⟨hv, ht⟩ := checkTerminal_ok hc
  obtain ⟨hany, hlen⟩ := storedTerminals_any hrows
  cases hex : existingTerminal rows with
  | none =>
    simp only [hex, bind_eq_ok, pure_eq_ok, Prod.mk.injEq] at h
    obtain ⟨db'', hr, rfl, -⟩ := h
    obtain ⟨row, hrow, rfl⟩ := replaceTerminals_ok rfl hr
    have hnil : rows = [] := by
      unfold existingTerminal at hex
      rw [Option.or_eq_none_iff, List.head?_eq_none_iff] at hex
      exact hex.2
    refine .wrote (toRow_deploymentId hrow) ?_ (toRow_timestamp hrow) ?_ fun _ _ => ⟨row, hrow⟩
    · rw [toRow_event hrow]
      exact ht
    · rw [toRow_failed hrow, ← hany, hnil]
      rfl
  | some existing =>
    simp only [hex] at h
    have hfail := (existingTerminal_failed hex).trans hany
    obtain ⟨stored, hst, hfr⟩ := mem_of_mapM hrows (existingTerminal_mem hex)
    by_cases hkeep : (isFailedTerminal existing || !isFailedTerminal e) = true
    · rw [if_pos hkeep] at h
      have hjoin : isFailedTerminal existing = (isFailedTerminal existing || isFailedTerminal e) := by
        cases he : isFailedTerminal existing with
        | true => rfl
        | false => simpa [he] using hkeep
      split_ifs at h with hch
      · simp only [bind_eq_ok, pure_eq_ok, Prod.mk.injEq] at h
        obtain ⟨db'', hr, rfl, -⟩ := h
        have hd : (withTerminalCorrelation existing e).deploymentId = e.deploymentId := by
          rw [withTerminalCorrelation_deploymentId, fromRow_deploymentId hfr]
          exact (Database.mem_eventsOf.1 (Database.mem_terminalRows.1 hst).1).2
        obtain ⟨row, hrow, rfl⟩ := replaceTerminals_ok hd hr
        obtain ⟨hd', ht'⟩ := retained_row hst hfr hrow
        rw [← hd', Database.release_replaced ht']
        refine .wrote hd' ht' (toRow_timestamp hrow) ?_ ?_
        · rw [toRow_failed hrow, withTerminalCorrelation_failed, hjoin, hfail]
        · intro hf he
          rw [hfail, hf, he] at hjoin
          cases hjoin
      · simp only [ok_bind, pure_eq_ok, Prod.mk.injEq] at h
        obtain ⟨rfl, -⟩ := h
        rw [not_or, not_lt, Bool.not_eq_true] at hch
        have hone : (db.terminalRows e.deploymentId).length = 1 := by
          rw [← hlen]
          have hpos := List.length_pos_of_mem (existingTerminal_mem hex)
          omega
        obtain ⟨stored', hone⟩ := List.length_eq_one_iff.1 hone
        rw [hone] at hst
        rw [List.mem_singleton] at hst
        subst hst
        refine .kept hone hfr ?_ hch.2
        rw [fromRow_failed hfr] at hjoin
        exact hjoin
    · rw [if_neg hkeep] at h
      simp only [bind_eq_ok, pure_eq_ok, Prod.mk.injEq] at h
      obtain ⟨db'', hr, rfl, -⟩ := h
      obtain ⟨row, hrow, rfl⟩ := replaceTerminals_ok rfl hr
      simp only [Bool.or_eq_true, Bool.not_eq_true', not_or, Bool.not_eq_true, Bool.not_eq_false] at hkeep
      refine .wrote (toRow_deploymentId hrow) ?_ (toRow_timestamp hrow) ?_ fun _ _ => ⟨row, hrow⟩
      · rw [toRow_event hrow]
        exact ht
      · rw [toRow_failed hrow, hkeep.2, Bool.or_true]

namespace Reconciles

/-- One terminal event is stored. -/
theorem one (h : Reconciles dates db e db') : ∃ stored, db'.terminalRows e.deploymentId = [stored] := by
  cases h with
  | kept hst => exact ⟨_, hst⟩
  | @wrote row hd ht =>
    rw [← hd, terminalRows_replaced ht]
    exact ⟨_, rfl⟩

/-- **The verdict is a join.** -/
theorem failed (h : Reconciles dates db e db') :
    db'.failed e.deploymentId = (db.failed e.deploymentId || isFailedTerminal e) := by
  cases h with
  | @kept stored existing hst hf hj =>
    have hs : (db.release e.deploymentId).failed e.deploymentId = db.failed e.deploymentId := rfl
    rw [hs, Database.failed, hst]
    simpa using hj
  | @wrote row hd ht _ hj =>
    rw [← hj, ← hd, Database.failed, terminalRows_replaced ht]
    simp

theorem other (h : Reconciles dates db e db') (hx : x ≠ e.deploymentId) :
    db'.terminalRows x = db.terminalRows x := by
  cases h with
  | kept => rfl
  | wrote hd => exact terminalRows_replaced_other (by rw [hd]; exact hx)

theorem startOf (h : Reconciles dates db e db') : db'.startOf x = db.startOf x := by
  cases h with
  | kept => rfl
  | @wrote row hd ht =>
    have hs := ne_started_of_terminal ht
    rw [Database.replaced, Database.startOf_project, Database.startOf_insert_of_ne hs,
      Database.startOf_dropTerminals]

theorem readable (h : Reconciles dates db e db') (hr : Readable dates db) : Readable dates db' := by
  cases h with
  | kept => exact hr
  | @wrote row hd ht hn =>
    intro s hs
    rw [Database.replaced, Database.events_project] at hs
    rcases List.mem_append.1 hs with hs | hs
    · exact hr s (List.mem_filter.1 hs).1
    · rw [List.mem_singleton.1 hs]
      exact hn

/-- The claims of the deployment are released. -/
theorem claims (h : Reconciles dates db e db') : db'.claims = (db.release e.deploymentId).claims := by
  cases h with
  | kept => rfl
  | wrote hd ht =>
    rw [Database.replaced, Database.claims_project, if_pos ht, ← hd]
    rfl

end Reconciles

/-- No claim of `d` is active. -/
def Idle (db : Database) (d : String) : Prop := ∀ c ∈ db.claims, c.deploymentId = d → c.active = false

theorem Idle.release_eq (h : Idle db d) : db.release d = db := by
  have hcl : (db.claims.map fun c => if c.deploymentId = d then { c with active := false } else c) =
      db.claims := by
    rw [List.map_congr_left (g := id), List.map_id]
    intro c hc
    by_cases hd : c.deploymentId = d
    · have ha := h c hc hd
      obtain ⟨_, _, _, _, _, _, _, _, _, active⟩ := c
      subst ha
      exact if_pos hd
    · exact if_neg hd
  rw [Database.release, hcl]

theorem Reconciles.idle (h : Reconciles dates db e db') : Idle db' e.deploymentId := by
  intro c hc hd
  rw [h.claims] at hc
  obtain ⟨c₀, -, rfl⟩ := List.mem_map.1 hc
  by_cases hc₀ : c₀.deploymentId = e.deploymentId
  · rw [if_pos hc₀]
  · rw [if_neg hc₀] at hd
    exact absurd hd hc₀

theorem Reconciles.idle_other (h : Reconciles dates db e db') (hi : Idle db d) : Idle db' d := by
  intro c hc hd
  rw [h.claims] at hc
  obtain ⟨c₀, hc₀, rfl⟩ := List.mem_map.1 hc
  by_cases he : c₀.deploymentId = e.deploymentId
  · rw [if_pos he]
  · rw [if_neg he] at hd ⊢
    exact hi c₀ hc₀ hd

/-! ## Submissions -/

/-- A reconciliation as a step. -/
def reconcileStep (dates : DateReader) (db : Database) (e : RegistryEvent) : Result Database :=
  (reconcileTerminalRegistryEvent dates db e).map (·.1)

theorem reconcileStep_cases (h : reconcileStep dates db e = .ok db') : Reconciles dates db e db' := by
  obtain ⟨⟨db'', r⟩, hr, rfl⟩ := map_eq_ok.1 h
  exact reconcile_cases hr

/-- The database after a submission, accepted or not. -/
def submit (dates : DateReader) (db : Database) (e : RegistryEvent) : Database :=
  match reconcileStep dates db e with
  | .ok db' => db'
  | .error _ => db

/-- The validators accept the event. -/
def Admits (dates : DateReader) (db : Database) (e : RegistryEvent) : Prop :=
  checkTerminal e = .ok () ∧ assertEventMatchesStartedIdentity dates db e = .ok ()

theorem assert_congr (h : db'.startOf e.deploymentId = db.startOf e.deploymentId) :
    assertEventMatchesStartedIdentity dates db' e = assertEventMatchesStartedIdentity dates db e := by
  rw [assertEventMatchesStartedIdentity, h, assertEventMatchesStartedIdentity]

theorem reconcileStep_admits (h : reconcileStep dates db e = .ok db') : Admits dates db e := by
  obtain ⟨⟨db'', r⟩, hr, rfl⟩ := map_eq_ok.1 h
  simp only [reconcileTerminalRegistryEvent, bind_eq_ok] at hr
  obtain ⟨_, hc, _, hid, -⟩ := hr
  exact ⟨hc, hid⟩

theorem replaceTerminals_of_toRow (h : toRow dates e = .ok row) :
    replaceTerminals dates db d e = .ok (((db.dropTerminals d).insert row).project row) := by
  simp only [replaceTerminals, insertRegistryEvent, upsertDeployment, h, ok_bind]
  rfl

/-- **What is admitted is accepted**, if its row can be written. -/
theorem reconcileStep_accepts (hr : Readable dates db) (ha : Admits dates db e)
    (hrow : Ok (toRow dates e)) : ∃ db', reconcileStep dates db e = .ok db' := by
  obtain ⟨hc, hid⟩ := ha
  obtain ⟨row, hrow⟩ := hrow
  obtain ⟨rows, hrows⟩ := storedTerminals_ok (d := e.deploymentId) hr
  simp only [reconcileStep, reconcileTerminalRegistryEvent, hc, hid, hrows, ok_bind]
  cases hex : existingTerminal rows with
  | none =>
    simp only [replaceTerminals_of_toRow hrow, ok_bind]
    exact ⟨_, rfl⟩
  | some existing =>
    obtain ⟨stored, hst, hf⟩ := mem_of_mapM hrows (existingTerminal_mem hex)
    have hst' := (Database.mem_eventsOf.1 (Database.mem_terminalRows.1 hst).1).1
    obtain ⟨read, hf', ht⟩ := fromRow_ok (hr stored hst')
    rw [hf, Except.ok.injEq] at hf'
    subst hf'
    have hret : toRow dates (withTerminalCorrelation existing e) =
        .ok (withTerminalCorrelation existing e) := by
      refine toRow_of_normalize ?_
      rw [withTerminalCorrelation_timestamp, ht]
      exact hr stored hst'
    dsimp only
    split_ifs
    · rw [replaceTerminals_of_toRow hret]
      exact ⟨_, rfl⟩
    · exact ⟨_, rfl⟩
    · rw [replaceTerminals_of_toRow hrow]
      exact ⟨_, rfl⟩

/-! ## The verdict of all submissions -/

theorem submit_cases (dates : DateReader) (db : Database) (e : RegistryEvent) :
    (∃ db', reconcileStep dates db e = .ok db' ∧ submit dates db e = db') ∨
      ((∃ k, reconcileStep dates db e = .error k) ∧ submit dates db e = db) := by
  unfold submit
  cases h : reconcileStep dates db e with
  | ok db' => exact .inl ⟨db', rfl, rfl⟩
  | error k => exact .inr ⟨⟨k, rfl⟩, rfl⟩

/-- A submission of `d` that counts in the verdict of `d`. -/
def Counts (dates : DateReader) (db : Database) (d : String) (e : RegistryEvent) : Prop :=
  e.deploymentId = d ∧ isFailedTerminal e = true ∧ Admits dates db e ∧ Ok (toRow dates e)

theorem submit_startOf : (submit dates db e).startOf x = db.startOf x := by
  rcases submit_cases dates db e with ⟨db', hok, heq⟩ | ⟨-, heq⟩
  · rw [heq]
    exact (reconcileStep_cases hok).startOf
  · rw [heq]

theorem submit_readable (h : Readable dates db) : Readable dates (submit dates db e) := by
  rcases submit_cases dates db e with ⟨db', hok, heq⟩ | ⟨-, heq⟩
  · rw [heq]
    exact (reconcileStep_cases hok).readable h
  · rwa [heq]

theorem counts_submit : Counts dates (submit dates db e) d e' ↔ Counts dates db d e' := by
  unfold Counts Admits
  rw [assert_congr submit_startOf]

/-- One submission joins its verdict to that of the log. -/
theorem submit_failed (hr : Readable dates db) :
    (submit dates db e).failed d = true ↔ db.failed d = true ∨ Counts dates db d e := by
  rcases submit_cases dates db e with ⟨db', hok, heq⟩ | ⟨⟨k, hk⟩, heq⟩
  · rw [heq]
    have hc := reconcileStep_cases hok
    by_cases hd : d = e.deploymentId
    · subst hd
      rw [hc.failed, Bool.or_eq_true]
      constructor
      · rintro (hf | hf)
        · exact .inl hf
        · cases hdb : db.failed e.deploymentId with
          | true => exact .inl rfl
          | false =>
            refine .inr ⟨rfl, hf, reconcileStep_admits hok, ?_⟩
            cases hc with
            | @kept stored existing hst hfr hj =>
              rw [Database.failed, hst] at hdb
              simp only [List.any_cons, List.any_nil, Bool.or_false] at hdb
              rw [hdb, hf] at hj
              cases hj
            | wrote _ _ _ _ hrow => exact hrow hdb hf
      · rintro (hf | ⟨-, hf, -⟩)
        · exact .inl hf
        · exact .inr hf
    · rw [Database.failed, hc.other hd, ← Database.failed]
      constructor
      · exact .inl
      · rintro (hf | ⟨rfl, -⟩)
        · exact hf
        · exact absurd rfl hd
  · rw [heq]
    constructor
    · exact .inl
    · rintro (hf | ⟨-, -, ha, hrow⟩)
      · exact hf
      · obtain ⟨db', hok⟩ := reconcileStep_accepts hr ha hrow
        rw [hk] at hok
        cases hok

/-- **The verdict of a list of submissions**, accepted or not. -/
theorem submits_failed {es : List RegistryEvent} (hr : Readable dates db) :
    (es.foldl (submit dates) db).failed d = true ↔
      db.failed d = true ∨ ∃ e ∈ es, Counts dates db d e := by
  induction es generalizing db with
  | nil => simp
  | cons e es ih =>
    rw [List.foldl_cons, ih (submit_readable hr), submit_failed hr, or_assoc]
    simp only [counts_submit, List.mem_cons, exists_eq_or_imp]

/-- **The order of the submissions does not matter.** -/
theorem submits_perm {es es' : List RegistryEvent} (hr : Readable dates db) (hp : es.Perm es') :
    (es.foldl (submit dates) db).failed d = (es'.foldl (submit dates) db).failed d := by
  rw [Bool.eq_iff_iff, submits_failed hr, submits_failed hr]
  simp only [hp.mem_iff]

/-! ## Resubmission -/

theorem changesCorrelation_self {c : Correlation} :
    changesCorrelation c c = c.reviewCheckout.isSome := by
  simp [changesCorrelation, differs]

/-- **A resubmission of the stored event** writes again if and only if it is
    accepted and has a review checkout. -/
theorem submit_stored {stored : StoredEvent} (hr : Readable dates db) (hi : Idle db d)
    (hst : db.terminalRows d = [stored]) (hf : fromRow dates stored.row = .ok e) :
    submit dates db e = db ↔ e.correlation.reviewCheckout = none ∨
      ¬ (validateRegistryEvent e = .ok () ∧ assertEventMatchesStartedIdentity dates db e = .ok ()) := by
  have hmem : stored ∈ db.terminalRows d := by simp [hst]
  obtain ⟨hev, ht⟩ := Database.mem_terminalRows.1 hmem
  obtain ⟨hin, hd⟩ := Database.mem_eventsOf.1 hev
  rw [← fromRow_deploymentId hf] at hd
  rw [← fromRow_event hf] at ht
  subst hd
  have hrows : storedTerminals dates db e.deploymentId = .ok [e] := by
    rw [storedTerminals, hst, List.mapM_cons, hf]
    rfl
  have hex : existingTerminal [e] = some e := by
    unfold existingTerminal
    cases hfe : isFailedTerminal e <;> simp [hfe]
  have hkeep : (isFailedTerminal e || !isFailedTerminal e) = true := by simp
  by_cases ha : validateRegistryEvent e = .ok () ∧ assertEventMatchesStartedIdentity dates db e = .ok ()
  · have hc : checkTerminal e = .ok () := by
      rw [checkTerminal, ha.1, ok_bind, ht, throwIf_neg (by simp)]
    obtain ⟨e', hf', hte⟩ := fromRow_ok (hr stored hin)
    rw [hf, Except.ok.injEq] at hf'
    subst hf'
    have hret : toRow dates (withTerminalCorrelation e e) = .ok (withTerminalCorrelation e e) := by
      refine toRow_of_normalize ?_
      rw [withTerminalCorrelation_timestamp, hte]
      exact hr stored hin
    have hlen : ¬ 1 < [e].length := by simp
    simp only [submit, reconcileStep, reconcileTerminalRegistryEvent, hc, ha.2, hrows, ok_bind, hex,
      if_pos hkeep, hlen, false_or, changesCorrelation_self]
    cases hrc : e.correlation.reviewCheckout with
    | none => exact ⟨fun _ => .inl rfl, fun _ => hi.release_eq⟩
    | some checkout =>
      simp only [Option.isSome_some, if_true, replaceTerminals_of_toRow hret, ok_bind]
      constructor
      · intro heq
        have hn : ((((db.dropTerminals e.deploymentId).insert (withTerminalCorrelation e e)).project
            (withTerminalCorrelation e e)).release e.deploymentId).nextId = db.nextId :=
          congrArg Database.nextId heq
        rw [Database.nextId_release, Database.nextId_project] at hn
        exact absurd hn (Nat.succ_ne_self db.nextId)
      · rintro (h | h)
        · cases h
        · exact absurd ⟨ha.1, trivial⟩ h
  · refine ⟨fun _ => .inr ha, fun _ => ?_⟩
    rcases submit_cases dates db e with ⟨db', hok, -⟩ | ⟨-, heq⟩
    · obtain ⟨hc, hid⟩ := reconcileStep_admits hok
      exact absurd ⟨(checkTerminal_ok hc).1, hid⟩ ha
    · exact heq

/-! ## Runs of reconciliations -/

/-- What a run of reconciliations leaves for a deployment. -/
structure Settled (dates : DateReader) (db₀ : Database) (d : String)
    (h : List (Run.Step Database RegistryEvent)) (db : Database) : Prop where
  readable : Readable dates db
  verdict : db.failed d = true ↔ db₀.failed d = true ∨
    ∃ st ∈ h, st.event.deploymentId = d ∧ isFailedTerminal st.event = true
  settled : (∃ st ∈ h, st.event.deploymentId = d) → Idle db d ∧ ∃ stored, db.terminalRows d = [stored]

theorem settled {db₀ : Database} {h : List (Run.Step Database RegistryEvent)}
    (hr₀ : Readable dates db₀) (hr : Run.Reaches (reconcileStep dates) db₀ h db) :
    Settled dates db₀ d h db := by
  refine hr.invariant (P := fun h db => Settled dates db₀ d h db) ?_ ?_
  · exact ⟨hr₀, by simp, by simp⟩
  · intro h s e s' _ hs hok
    have hc := reconcileStep_cases hok
    by_cases hd : d = e.deploymentId
    · subst hd
      refine ⟨hc.readable hs.readable, ?_, fun _ => ⟨hc.idle, hc.one⟩⟩
      rw [hc.failed, Bool.or_eq_true, hs.verdict]
      simp [or_and_right, exists_or, or_assoc]
    · refine ⟨hc.readable hs.readable, ?_, ?_⟩
      · rw [Database.failed, hc.other hd, ← Database.failed, hs.verdict]
        simp [or_and_right, exists_or, Ne.symm hd]
      · rintro ⟨st, hst, hde⟩
        rcases List.mem_append.1 hst with hst | hst
        · obtain ⟨hi, hone⟩ := hs.settled ⟨st, hst, hde⟩
          exact ⟨hc.idle_other hi, by rwa [hc.other hd]⟩
        · rw [List.mem_singleton.1 hst] at hde
          exact absurd hde.symm hd

/-- **Terminal reconciliation is sticky.**  After reconciliations from any
    reachable registry, a deployment that one of them was about has one terminal
    event; it is failed if and only if one that was stored or submitted was; the
    verdict of a list of submissions does not depend on their order.  Submitting
    the stored event again changes nothing if and only if it is refused or has
    no review checkout. -/
theorem terminal_reconciliation_sticky {parse : String → Option ReviewObjective} {db₀ : Database}
    {h₀ : List (Run.Step Database Call)} {h : List (Run.Step Database RegistryEvent)}
    (hr₀ : Reaches dates parse h₀ db₀) (hr : Run.Reaches (reconcileStep dates) db₀ h db)
    (hd : ∃ st ∈ h, st.event.deploymentId = d) :
    ∃ stored e, db.terminalRows d = [stored] ∧ fromRow dates stored.row = .ok e ∧
      (isFailedTerminal e = true ↔ (∃ s ∈ db₀.terminalRows d, isFailedTerminal s.row = true) ∨
        ∃ st ∈ h, st.event.deploymentId = d ∧ isFailedTerminal st.event = true) ∧
      (∀ es es' : List RegistryEvent, es.Perm es' →
        (es.foldl (submit dates) db₀).failed d = (es'.foldl (submit dates) db₀).failed d) ∧
      (submit dates db e = db ↔ e.correlation.reviewCheckout = none ∨
        ¬ (validateRegistryEvent e = .ok () ∧ assertEventMatchesStartedIdentity dates db e = .ok ())) := by
  have hs : Settled dates db₀ d h db := settled (readable hr₀) hr
  obtain ⟨hi, stored, hst⟩ := hs.settled hd
  have hmem : stored ∈ db.terminalRows d := by simp [hst]
  have hin := (Database.mem_eventsOf.1 (Database.mem_terminalRows.1 hmem).1).1
  obtain ⟨e, hf, -⟩ := fromRow_ok (hs.readable stored hin)
  refine ⟨stored, e, hst, hf, ?_, ?_, submit_stored hs.readable hi hst hf⟩
  · have hv := hs.verdict
    rw [Database.failed, hst, Database.failed, List.any_eq_true] at hv
    rw [fromRow_failed hf]
    simpa using hv
  · intro es es' hp
    exact submits_perm (readable hr₀) hp

namespace TerminalSample

def time : String := "2026-02-03T00:00:00.000Z"

def env : Environment := ⟨time, none, fun _ => none⟩

def sha : String := String.ofList (List.replicate 40 'a')

/-- The review checkout of `PA-4`. -/
def checkout : Json :=
  (ReviewCheckout.mk "pa" "/pa/repo" "/pa/trees/4" "PA-4" "lease-4" "pa:pa:PA-4" "feature/4" sha none
    sha sha).toJson

/-- The start of a review of `PA-4`. -/
def start (reviewCheckout : Option Json) : RegistryEvent :=
  { RegistryEvent.bare "d-000004" "requirements" .started time with
    ticketId := some "PA-4"
    launch := { Launch.empty with
      mode := some "review-auto"
      runtime := some "pi"
      repo := some "/pa/trees/4"
      repoRoot := some "/pa/repo"
      worktreeRoot := some "/pa/trees/4" }
    correlation := { Correlation.empty with reviewCheckout } }

/-- The success of the review. -/
def success (reviewCheckout : Option Json) : RegistryEvent :=
  { RegistryEvent.bare "d-000004" "requirements" .completed time with
    status := some .success
    correlation := { Correlation.empty with reviewCheckout } }

def crash : RegistryEvent := RegistryEvent.bare "d-000004" "requirements" .crashed time

/-- The registry after the start of the review, and after these submissions. -/
def run (reviewCheckout : Option Json) (es : List RegistryEvent) : Result (Database × Database) := do
  let db₀ ← perform isoDates (fun _ => none) Database.empty ⟨.append (start reviewCheckout), env⟩
  let db ← Run.exec (reconcileStep isoDates) db₀ es
  return (db₀, db)

/-- A run, if it is accepted and satisfies `p`. -/
theorem run_reaches {reviewCheckout : Option Json} {es : List RegistryEvent} {p : Database → Bool}
    (hok : (run reviewCheckout es).toOption.any (fun dbs => p dbs.2) = true) :
    ∃ h₀ db₀ h db, Reaches isoDates (fun _ => none) h₀ db₀ ∧
      Run.Reaches (reconcileStep isoDates) db₀ h db ∧ h.map (·.event) = es ∧ p db = true := by
  cases hrun : run reviewCheckout es with
  | error k =>
    rw [hrun] at hok
    cases hok
  | ok dbs =>
    rw [hrun] at hok
    simp only [run, bind_eq_ok, pure_eq_ok] at hrun
    obtain ⟨db₀, h₀, db, hes, rfl⟩ := hrun
    obtain ⟨h, hr, hm⟩ := Run.reaches_of_exec hes
    exact ⟨_, db₀, h, db, .snoc .nil h₀, hr, hm, hok⟩

end TerminalSample

/-- The success of a review with a checkout, submitted again, is deleted and
    inserted with a new id. -/
theorem resubmission_writes_again :
    ∃ (h₀ : List (Run.Step Database Call)) (db₀ : Database)
      (h : List (Run.Step Database RegistryEvent)) (db : Database) (stored : StoredEvent)
      (e : RegistryEvent), Reaches isoDates (fun _ => none) h₀ db₀ ∧
        Run.Reaches (reconcileStep isoDates) db₀ h db ∧
        h.map (·.event) = [TerminalSample.success (some TerminalSample.checkout)] ∧
        db.terminalRows "d-000004" = [stored] ∧ fromRow isoDates stored.row = .ok e ∧
        submit isoDates db e ≠ db := by
  let p : Database → Bool := fun db => (db.terminalRows "d-000004").length = 1 &&
    (db.terminalRows "d-000004").any fun stored => (fromRow isoDates stored.row).toOption.any fun e =>
      (submit isoDates db e).nextId ≠ db.nextId
  have hok : (TerminalSample.run (some TerminalSample.checkout)
      [TerminalSample.success (some TerminalSample.checkout)]).toOption.any (fun dbs => p dbs.2) =
        true := by decide +kernel
  obtain ⟨h₀, db₀, h, db, hr₀, hr, hm, hp⟩ := TerminalSample.run_reaches hok
  obtain ⟨hlen, hany⟩ := Bool.and_eq_true_iff.1 hp
  obtain ⟨stored, hst⟩ := List.length_eq_one_iff.1 (of_decide_eq_true hlen)
  rw [hst, List.any_cons, List.any_nil, Bool.or_false] at hany
  cases hf : fromRow isoDates stored.row with
  | error k =>
    rw [hf] at hany
    cases hany
  | ok e =>
    rw [hf] at hany
    refine ⟨h₀, db₀, h, db, stored, e, hr₀, hr, hm, hst, hf, fun heq => ?_⟩
    exact absurd (congrArg Database.nextId heq) (of_decide_eq_true hany)

theorem terminal_reconciliation_sticky_crashed :
    ∃ (db : Database) (stored : StoredEvent) (e : RegistryEvent),
      db.terminalRows "d-000004" = [stored] ∧ fromRow isoDates stored.row = .ok e ∧
        isFailedTerminal e = true := by
  have hok : (TerminalSample.run none [TerminalSample.success none, TerminalSample.crash,
      TerminalSample.success none]).toOption.any (fun _ => true) = true := by decide +kernel
  obtain ⟨h₀, db₀, h, db, hr₀, hr, hm, -⟩ := TerminalSample.run_reaches (p := fun _ => true) hok
  have hcrash : TerminalSample.crash ∈ h.map (·.event) := by simp [hm]
  obtain ⟨st, hst, hev⟩ := List.mem_map.1 hcrash
  have hd : st.event.deploymentId = "d-000004" := by rw [hev]; rfl
  obtain ⟨stored, e, hone, hf, hv, -⟩ := terminal_reconciliation_sticky hr₀ hr ⟨st, hst, hd⟩
  refine ⟨db, stored, e, hone, hf, hv.2 (.inr ⟨st, hst, hd, ?_⟩)⟩
  rw [hev]
  rfl

end PaPlatform.Registry
