/-
  The single operation in flight.

  `Coherent` ties the custody to the operation in flight; `Recorded` ties both
  to the operation records of the journal.  The consistency check of
  `readExecutionJournal` is therefore never reached.
-/
import PaPlatform.Custody.Replay

namespace PaPlatform.Custody

open Js Guard Run

variable {s s' : ExecutionState} {actor : ExecutionHolder} {now : Timestamp}
  {c : ExecutionCommand} {e : ExecutionInput} {h : History} {b : ExecutionBinding} {t : Timestamp}

/-! ## Custody and operation -/

/-- The custody names the operation in flight. -/
def Coherent (s : ExecutionState) : Prop := s.custody.inFlightOperation = s.operation.map (·.id)

theorem custodyAfterRestart_inFlight :
    (custodyAfterRestart s actor).inFlightOperation = s.custody.inFlightOperation := by
  unfold custodyAfterRestart
  split
  · rename_i hc _
    simp [hc]
  · rfl

/-- A restart leaves the custody of an operation in flight alone. -/
theorem custodyAfterRestart_of_some {o : ExecutionOperation} (ho : s.operation = some o) :
    custodyAfterRestart s actor = s.custody := by
  unfold custodyAfterRestart
  split
  · rename_i hn
    simp [ho] at hn
  · rfl

theorem Applied.coherent (ha : Applied s actor now c s') (hc : Coherent s) : Coherent s' := by
  unfold Coherent at *
  cases ha with
  | restartLaunch => exact hc
  | restartIntent => exact hc
  | restart => exact custodyAfterRestart_inFlight.trans hc
  | plan => exact hc
  | advance => exact hc
  | selectDirect hi => simp [ExecutionState.tick, hi.operation]
  | selectChild hi => simp [ExecutionState.tick, hi.operation]
  | replaceChild hi => simp [ExecutionState.tick, hi.operation]
  | selectReview hi => simp [ExecutionState.tick, hi.operation]
  | begin hw =>
    obtain ⟨_, hcust, -⟩ := hw.holder
    simp [begun, hcust]
  | finish hw =>
    obtain ⟨_, hcust, -⟩ := hw.holder
    simp [finished, hcust]
  | settle _ _ _ hn => simp [ExecutionState.tick, hn]
  | attempt => exact hc
  | resolve => exact hc
  | candidate => exact hc
  | accept => exact hc

theorem coherent_initial : Coherent (initialState b t) := rfl

theorem coherent_of_lineage (hr : Lineage b t h s) : Coherent s :=
  hr.invariant (P := fun _ s => Coherent s) coherent_initial fun _ _ _ _ _ hc hs =>
    (step_applied hs).coherent hc

/-! ## What `begin`, `finish` and the other commands do to the operation -/

theorem Applied.of_begin {o : ExecutionOperation} (ha : Applied s actor now (.begin o) s') :
    s.operation = none ∧ s'.operation = some o ∧ s'.custody.holder = some actor ∧
      o.id.1 ∉ s.usedOperationIds ∧ o.id.1 ∈ s'.usedOperationIds := by
  cases ha with
  | begin hw _ _ _ hn hid =>
    obtain ⟨_, hcust, -⟩ := hw.holder
    exact ⟨hn, rfl, by simp [begun, hcust], hid, by simp [begun]⟩

theorem Applied.of_finish {id evidence failure candidate}
    (ha : Applied s actor now (.finish id evidence failure candidate) s') :
    ∃ o, s.operation = some o ∧ o.id = id ∧ s.custody.holder = some actor ∧
      s'.operation = none := by
  cases ha with
  | finish hw ho hid =>
    obtain ⟨_, hcust, -⟩ := hw.holder
    exact ⟨_, ho, hid, by simp [hcust], rfl⟩

/-- The other commands keep an operation in flight, and its custody. -/
theorem Applied.keeps_operation (ha : Applied s actor now c s') (hb : c.begins = none)
    (hf : c.finishes = none) :
    s'.operation = s.operation ∧ (s.operation.isSome → s'.custody = s.custody) := by
  cases ha with
  | restartLaunch => exact ⟨rfl, fun _ => rfl⟩
  | restartIntent => exact ⟨rfl, fun _ => rfl⟩
  | restart =>
    refine ⟨rfl, fun ho => ?_⟩
    obtain ⟨o, ho⟩ := Option.isSome_iff_exists.1 ho
    exact custodyAfterRestart_of_some ho
  | plan => exact ⟨rfl, fun _ => rfl⟩
  | advance => exact ⟨rfl, fun _ => rfl⟩
  | selectDirect hi => exact ⟨rfl, by simp [hi.operation]⟩
  | selectChild hi => exact ⟨rfl, by simp [hi.operation]⟩
  | replaceChild hi => exact ⟨rfl, by simp [hi.operation]⟩
  | selectReview hi => exact ⟨rfl, by simp [hi.operation]⟩
  | begin => simp [ExecutionCommand.begins] at hb
  | finish => simp [ExecutionCommand.finishes] at hf
  | settle _ _ _ hn => exact ⟨rfl, by simp [hn]⟩
  | attempt => exact ⟨rfl, fun _ => rfl⟩
  | resolve => exact ⟨rfl, fun _ => rfl⟩
  | candidate => exact ⟨rfl, fun _ => rfl⟩
  | accept => exact ⟨rfl, fun _ => rfl⟩

/-- No id is ever forgotten. -/
theorem Applied.keeps_ids (ha : Applied s actor now c s') :
    ∀ id ∈ s.usedOperationIds, id ∈ s'.usedOperationIds := by
  intro id hid
  cases ha with
  | advance => exact List.mem_append_left _ hid
  | selectChild => exact List.mem_append_left _ hid
  | replaceChild => exact List.mem_append_left _ hid
  | begin => exact List.mem_append_left _ hid
  | _ => exact hid

theorem begins_eq_some {o : ExecutionOperation} : c.begins = some o ↔ c = .begin o := by
  cases c <;> simp [ExecutionCommand.begins]

theorem finishes_eq_some {id : Text} :
    c.finishes = some id ↔ ∃ evidence failure candidate, c = .finish id evidence failure candidate := by
  cases c <;> simp [ExecutionCommand.finishes]

/-! ## The operations begun in a history -/

/-- The ids of the operations begun in a history, oldest first. -/
def begunIds (h : History) : List Text :=
  h.filterMap fun st => st.event.command.begins.map (·.id)

/-- The step begins the operation `o` on behalf of `actor`. -/
def Begins (o : ExecutionOperation) (actor : ExecutionHolder)
    (st : Step ExecutionState ExecutionInput) : Prop :=
  st.event.command = .begin o ∧ st.event.actor = actor

/-- The step neither begins nor finishes an operation. -/
def Leaves (st : Step ExecutionState ExecutionInput) : Prop :=
  st.event.command.begins = none ∧ st.event.command.finishes = none

theorem begunIds_snoc {st : Step ExecutionState ExecutionInput} :
    begunIds (h ++ [st]) = begunIds h ++ (st.event.command.begins.map (·.id)).toList := by
  unfold begunIds
  rw [List.filterMap_append]
  cases hb : st.event.command.begins <;> simp [hb]

/-- Every id begun so far is used, and none was begun twice. -/
theorem begunIds_used (hr : Lineage b t h s) :
    (∀ id ∈ begunIds h, id.1 ∈ s.usedOperationIds) ∧ (begunIds h).Nodup := by
  refine hr.invariant (P := fun h s => (∀ id ∈ begunIds h, id.1 ∈ s.usedOperationIds) ∧
    (begunIds h).Nodup) ⟨by simp [begunIds], by simp [begunIds]⟩ ?_
  intro h s e s' _ ⟨hused, hnd⟩ hs
  have ha := step_applied hs
  rw [begunIds_snoc]
  cases hb : e.command.begins with
  | none =>
    simp only [Option.map_none, Option.toList_none, List.append_nil]
    exact ⟨fun id hid => ha.keeps_ids _ (hused id hid), hnd⟩
  | some o =>
    rw [begins_eq_some] at hb
    rw [hb] at ha
    obtain ⟨-, -, -, hnew, hin⟩ := ha.of_begin
    simp only [Option.map_some, Option.toList_some]
    refine ⟨?_, ?_⟩
    · intro id hid
      rcases List.mem_append.1 hid with hid | hid
      · exact ha.keeps_ids _ (hused id hid)
      · rw [List.mem_singleton.1 hid]; exact hin
    · rw [List.nodup_append]
      refine ⟨hnd, by simp, ?_⟩
      intro x hx y hy
      rw [List.mem_singleton.1 hy]
      rintro rfl
      exact hnew (hused _ hx)

/-- An operation in flight was begun by the holder of its custody, and no
    operation was begun or finished since. -/
theorem begun_by_holder (hr : Lineage b t h s) {o : ExecutionOperation}
    (ho : s.operation = some o) :
    ∃ actor, s.custody.holder = some actor ∧ Since (Begins o actor) Leaves h := by
  revert o
  refine hr.invariant (P := fun h s => ∀ {o}, s.operation = some o →
    ∃ actor, s.custody.holder = some actor ∧ Since (Begins o actor) Leaves h) ?_ ?_
  · intro o ho
    simp [initialState] at ho
  · intro h s e s' _ ih hs o ho
    have ha := step_applied hs
    cases hb : e.command.begins with
    | some o' =>
      rw [begins_eq_some] at hb
      rw [hb] at ha
      obtain ⟨-, ho', hh, -⟩ := ha.of_begin
      obtain rfl : o' = o := by simpa [ho'] using ho
      exact ⟨e.actor, hh, since_self ⟨hb, rfl⟩⟩
    | none =>
      cases hf : e.command.finishes with
      | some id =>
        obtain ⟨_, _, _, hc⟩ := finishes_eq_some.1 hf
        rw [hc] at ha
        obtain ⟨_, -, -, -, hn⟩ := ha.of_finish
        simp [hn] at ho
      | none =>
        obtain ⟨hop, hcu⟩ := ha.keeps_operation hb hf
        rw [hop] at ho
        obtain ⟨actor, hh, hsince⟩ := ih ho
        exact ⟨actor, by rw [hcu (by simp [ho]), hh], hsince.snoc ⟨hb, hf⟩⟩

/-! ## The operation records of the journal -/

/-- What the operation records say of the state after the same events. -/
structure Recorded (s : ExecutionState) (ops : List ExecutionOperationRecord) : Prop where
  coherent : Coherent s
  used : ∀ r ∈ ops, r.operation.id.1 ∈ s.usedOperationIds
  distinct : (ops.map (·.operation.id)).Nodup
  inFlight : ∀ o, s.operation = some o → ∃ r ∈ ops, r.operation = o ∧ r.finish = none ∧
    s.custody.holder = some r.actor

theorem recordOperation_other {ops sequence} (hb : e.command.begins = none)
    (hf : e.command.finishes = none) : recordOperation ops sequence e = .ok ops := by
  unfold recordOperation
  cases hc : e.command <;> simp_all [ExecutionCommand.begins, ExecutionCommand.finishes]

theorem findIdx?_of_nodup {ops : List ExecutionOperationRecord} {i : ℕ}
    {r : ExecutionOperationRecord} (hd : (ops.map (·.operation.id)).Nodup) (hi : ops[i]? = some r) :
    ops.findIdx? (·.operation.id = r.operation.id) = some i := by
  obtain ⟨hlt, rfl⟩ := List.getElem?_eq_some_iff.1 hi
  rw [List.findIdx?_eq_some_iff_getElem]
  refine ⟨hlt, by simp, fun j hj => ?_⟩
  have hne := List.pairwise_iff_getElem.1 hd j i (by simp; omega) (by simpa) hj
  simpa using hne

/-- **One round of the journal loop**: after an accepted transition the record
    update succeeds. -/
theorem Recorded.step {ops} (hrec : Recorded s ops) (sequence : ℕ) (hs : step s e = .ok s') :
    ∃ ops', recordOperation ops sequence e = .ok ops' ∧ Recorded s' ops' := by
  have ha := step_applied hs
  have hco := ha.coherent hrec.coherent
  cases hb : e.command.begins with
  | some o =>
    rw [begins_eq_some] at hb
    rw [hb] at ha
    obtain ⟨-, ho, hh, hnew, hin⟩ := ha.of_begin
    refine ⟨ops ++ [⟨o, e.actor, sequence, none⟩], by simp [recordOperation, hb], hco, ?_, ?_, ?_⟩
    · intro r hr
      rcases List.mem_append.1 hr with hr | hr
      · exact ha.keeps_ids _ (hrec.used r hr)
      · rw [List.mem_singleton.1 hr]; exact hin
    · rw [List.map_append, List.nodup_append]
      refine ⟨hrec.distinct, by simp, ?_⟩
      intro x hx y hy
      obtain ⟨r, hr, rfl⟩ := List.mem_map.1 hx
      obtain rfl : y = o.id := by simpa using hy
      intro heq
      exact hnew (heq ▸ hrec.used r hr)
    · intro o' ho'
      obtain rfl : o = o' := by simpa [ho] using ho'
      exact ⟨⟨o, e.actor, sequence, none⟩, by simp, rfl, rfl, hh⟩
  | none =>
    cases hf : e.command.finishes with
    | none =>
      obtain ⟨hop, hcu⟩ := ha.keeps_operation hb hf
      refine ⟨ops, recordOperation_other hb hf, hco, fun r hr => ha.keeps_ids _ (hrec.used r hr),
        hrec.distinct, ?_⟩
      intro o ho
      rw [hop] at ho
      obtain ⟨r, hr, h1, h2, h3⟩ := hrec.inFlight o ho
      exact ⟨r, hr, h1, h2, by rw [hcu (by simp [ho]), h3]⟩
    | some id =>
      obtain ⟨evidence, failure, candidate, hc⟩ := finishes_eq_some.1 hf
      have hids := ha.keeps_ids
      rw [hc] at ha
      obtain ⟨o, ho, rfl, hh, hn⟩ := ha.of_finish
      obtain ⟨r, hr, rfl, hfin, hact⟩ := hrec.inFlight o ho
      obtain ⟨i, hi⟩ := List.getElem?_of_mem hr
      obtain ⟨hlt, hget⟩ := List.getElem?_eq_some_iff.1 hi
      have hactor : r.actor = e.actor := by simpa [hact] using hh
      refine ⟨ops.set i { r with finish := some ⟨sequence, evidence⟩ }, ?_, hco, ?_, ?_, ?_⟩
      · unfold recordOperation
        rw [hc]
        simp only [findIdx?_of_nodup hrec.distinct hi, hi, require, Option.elim, ok_bind,
          throwIf, hfin, hactor]
        simp [pure, Except.pure]
      · intro r' hr'
        rcases List.mem_or_eq_of_mem_set hr' with hr' | rfl
        · exact hids _ (hrec.used r' hr')
        · exact hids _ (hrec.used r hr)
      · have hself : (ops.map (·.operation.id)).set i r.operation.id = ops.map (·.operation.id) := by
          rw [← hget, ← List.map_set, List.set_getElem_self]
        rw [List.map_set, hself]
        exact hrec.distinct
      · intro o' ho'
        simp [hn] at ho'

/-- **The journal loop follows the transitions**: on accepted events it never
    rejects an operation record. -/
theorem exec_replayStep {ops : List ExecutionOperationRecord} {es : List ExecutionInput}
    (hrec : Recorded s ops) (he : exec step s es = .ok s') :
    ∃ ops', exec replayStep (s, ops) es = .ok (s', ops') ∧ Recorded s' ops' := by
  induction es generalizing s ops with
  | nil => cases he; exact ⟨ops, rfl, hrec⟩
  | cons e es ih =>
    simp only [exec, bind_eq_ok] at he
    obtain ⟨s₁, hs, he⟩ := he
    obtain ⟨ops₁, ho, hrec₁⟩ := hrec.step (s.sequence + 1) hs
    obtain ⟨ops', hx, hrec'⟩ := ih hrec₁ he
    refine ⟨ops', ?_, hrec'⟩
    simp only [exec, replayStep, hs, ho, ok_bind]
    exact hx

theorem recorded_initial : Recorded (initialState b t) [] :=
  ⟨coherent_initial, by simp, by simp, by simp [initialState]⟩

/-! ## The result -/

/-- **Single operation in flight.**  In every state reached the custody and
    the operation agree; no operation is begun twice; a `finish` closes the
    operation in flight on behalf of the actor that began it; and the journal
    loop accepts the events with the same final state. -/
theorem single_operation_in_flight (hr : Lineage b t h s) :
    (s.operation.isSome ↔ s.custody.inFlightOperation.isSome) ∧
    s.operation.map (·.id) = s.custody.inFlightOperation ∧
    (s.custody = .idle → s.operation = none) ∧
    (begunIds h).Nodup ∧
    (∀ pre st post id evidence failure candidate, h = pre ++ st :: post →
      st.event.command = .finish id evidence failure candidate →
      ∃ o, st.before.operation = some o ∧ o.id = id ∧ Since (Begins o st.event.actor) Leaves pre) ∧
    ∃ ops, exec replayStep (initialState b t, []) (h.map (·.event)) = .ok (s, ops) := by
  have hco : s.custody.inFlightOperation = s.operation.map (·.id) := coherent_of_lineage hr
  refine ⟨by simp [hco], hco.symm, ?_, (begunIds_used hr).2, ?_, ?_⟩
  · intro hidle
    simpa [hidle] using hco.symm
  · rintro pre st post id evidence failure candidate rfl hc
    obtain ⟨hpre, hs, -⟩ := hr.split
    have ha := step_applied hs
    rw [hc] at ha
    obtain ⟨o, ho, hid, hh, -⟩ := ha.of_finish
    obtain ⟨actor, hh', hsince⟩ := begun_by_holder hpre ho
    obtain rfl : st.event.actor = actor := by simpa [hh] using hh'
    exact ⟨o, ho, hid, hsince⟩
  · obtain ⟨ops, hx, -⟩ := exec_replayStep recorded_initial hr.exec_eq
    exact ⟨ops, hx⟩

theorem single_operation_in_flight_opened :
    ∃ h s, Lineage Sample.binding Sample.start h s ∧ h.map (·.event) = Sample.opened ∧
      s.operation.map (·.id) = s.custody.inFlightOperation ∧ (begunIds h).Nodup := by
  obtain ⟨h, s, hr, hm⟩ := lineage_of_isOk Sample.binding Sample.start Sample.opened (by decide)
  obtain ⟨-, h2, -, h4, -⟩ := single_operation_in_flight hr
  exact ⟨h, s, hr, hm, h2, h4⟩

end PaPlatform.Custody
