/-
  Settling a pending operation.

  A journal holds 1024 events at most, and a retry that fails adds one.  So a pending operation
  can be settled as long as the journal is not full; after that nothing is added to it.
-/
import PaPlatform.Documents.Authority

namespace PaPlatform.Documents

open Js Guard

variable {digests : Digests} {r r' : Registry} {s s' : State} {key : TicketKey} {subject : DocumentPackage}
  {events log : List DocumentEvent} {e : DocumentEvent} {data : DocumentEventData} {i : DocumentIntent}
  {w : Working} {host : Host} {sha id decisionId : String} {operation : DocumentOperation} {n : ℕ}

/-! ## Full journals -/

/-- A full journal stays as it is. -/
theorem Stepped.full (h : Stepped digests s s') (hfull : 1024 ≤ (s.registry.journal key).length) :
    s'.registry.journal key = s.registry.journal key := by
  cases h with
  | keeps _ _ => rfl
  | @adds r' k data _ _ ha _ _ _ _ _ =>
    refine ha.others key fun hk => ?_
    have hbound := ha.bounded
    rw [← hk] at hbound
    omega

theorem full_run {h : List (Run.Step State Event)} (hs : s.Sound digests)
    (hfull : 1024 ≤ (s.registry.journal key).length) (hr : Run.Reaches (step digests) s h s') :
    s'.registry.journal key = s.registry.journal key := by
  refine (hr.invariant (P := fun _ t => t.Sound digests ∧ t.registry.journal key = s.registry.journal key)
    ⟨hs, rfl⟩ ?_).2
  rintro _ t event t' - ⟨ht, hj⟩ hstep
  have hstepped := stepped ht hstep
  exact ⟨hstepped.sound ht, (hstepped.full (hj ▸ hfull)).trans hj⟩

/-! ## Successful calls -/

namespace Registry

theorem Sound.events_ok (hs : r.Sound digests) (hne : r.journal key ≠ []) :
    r.events digests key = .ok (r.journal key) := by
  have hbound := hs.bounded key
  rw [journal, List.length_map] at hbound
  simp only [events, bind_eq_ok, throwIf_eq_ok, exists_const, Bool.not_eq_false, not_lt]
  exact ⟨hs.keys key hne, hbound, hs.reads key⟩

theorem readRows_data {predecessor : Option String} {rows : List EventRow}
    (h : readRows digests key n predecessor rows = .ok events) : ∀ e ∈ events, e.data.ok = true := by
  induction rows generalizing n predecessor events with
  | nil =>
    cases h
    simp
  | cons row rows ih =>
    simp only [readRows, bind_eq_ok, throwIf_eq_ok, exists_const, pure_eq_ok, eventData_eq_ok] at h
    obtain ⟨-, _, ⟨hdata, -⟩, rest, hrest, rfl⟩ := h
    intro e he
    rcases List.mem_cons.1 he with rfl | he
    · exact hdata
    · exact ih hrest e he

/-- An event on a stored package is appended to a journal that is not full. -/
theorem Sound.append_of (hs : r.Sound digests) (data : DocumentEventData) (hne : r.journal key ≠ [])
    (hlen : (r.journal key).length = n) (hn : n < 1024) (hok : data.ok = true)
    (hsubject : r.subject digests data.subjectSha256 = .ok subject)
    (hkey : subject.key = key) (hevidence : data.evidence? = none) :
    r.append digests key n data [] = .ok (r.insert key (r.nextRow digests key n data)) := by
  simp only [append, bind_eq_ok, throwIf_eq_ok, exists_const, pure_eq_ok, not_not, ne_eq, eventData_eq_ok, not_lt]
  refine ⟨by omega, _, hs.events_ok hne, data, ⟨hok, rfl⟩, hlen, subject, hsubject, hkey, r, rfl, (), ?_, rfl⟩
  simp only [checkEvidence, hevidence, Option.elim_none]

end Registry

/-! ## Retries -/

/-- The host lets the effect of an operation be observed or made again. -/
structure Host.Retries (host : Host) (subject : DocumentPackage) (operation : DocumentOperation)
    (sha decisionId : String) (events : List DocumentEvent) : Prop where
  caller : host.caller subject = true
  available : host.available subject = true
  effect : host.proven operation subject = false →
    approved events sha decisionId = true ∧ host.sources subject = true ∧
      (operation = .queue → host.published subject = true)

/-- The steps of an undisturbed retry whose effect does not throw. -/
def retry (host : Host) (subject : DocumentPackage) (i : DocumentIntent) (expectedRevision : ℕ) : List Event :=
  .enter host i.operation i.subjectSha256 i.decisionId expectedRevision ::
    if host.proven i.operation subject = true then [.settle] else [.authorize host, .perform host, .finish, .complete]

/-- What is known of a pending operation. -/
structure Begun (digests : Digests) (r : Registry) (key : TicketKey) (i : DocumentIntent) (subject : DocumentPackage) :
    Prop where
  ok : (DocumentEventData.intent i).ok = true
  id : i.operationId = operationId digests i.subjectSha256 i.decisionId i.operation
  alone : documentPending (r.journal key) = [i]
  allows : r.Allows digests subject i.subjectSha256 i.operation (r.journal key)
  keyed : subject.key = key
  queue : i.operation = .queue → documentCompletedOperation (r.journal key) i.subjectSha256 .publish = true

theorem State.Sound.begun (hs : s.Sound digests) (hi : i ∈ documentPending (s.registry.journal key)) :
    ∃ subject, Begun digests s.registry key i subject := by
  obtain ⟨e, hmem, he⟩ := List.mem_filterMap.1 (mem_pending.1 hi).1
  have hdata : e.data = .intent i := by
    cases hd : e.data with
    | intent j =>
      rw [hd] at he
      cases he
      rfl
    | _ => simp [hd, DocumentEventData.intent?] at he
  obtain ⟨before, later, hsplit⟩ := List.append_of_mem hmem
  have hprefix : before <+: s.registry.journal key := ⟨e :: later, hsplit.symm⟩
  obtain ⟨subject, hal, hkey⟩ := hs.grounded key before e later i hsplit hdata
  have hf := hs.lawful key before e later hsplit
  rw [hdata] at hf
  obtain ⟨-, -, hid, -, hqueue⟩ := hf
  refine ⟨subject, hdata ▸ Registry.readRows_data (hs.registry.reads key) e hmem, hid, ?_,
    hal.mono List.prefix_rfl hprefix, hkey, fun hop => completed_mono (hqueue hop) hprefix⟩
  have hle := (hs.lawful key).pending_le
  obtain ⟨j, hj⟩ := List.length_eq_one_iff.1 (le_antisymm hle (List.length_pos_of_mem hi))
  rw [hj] at hi ⊢
  rw [List.mem_singleton.1 hi]

section
variable (hs : s.Sound digests) (hfree : s.holder = none) (hb : Begun digests s.registry key i subject)
  (hlen : (s.registry.journal key).length < 1024)
  (hretry : host.Retries subject i.operation i.subjectSha256 i.decisionId (s.registry.journal key))

/-- The publication that retries the operation. -/
def retrying (i : DocumentIntent) (subject : DocumentPackage) (phase : Phase) : Working :=
  ⟨subject, i.subjectSha256, i.decisionId, i.operation, phase⟩

include hb in
theorem retrying_id (phase : Phase) : (retrying i subject phase).operationId digests = i.operationId := hb.id.symm

include hb in
theorem begun_ne_nil : s.registry.journal key ≠ [] := by
  intro hnil
  have halone := hb.alone
  rw [hnil] at halone
  cases halone

include hs hfree hb hlen hretry in
theorem retry_enters :
    step digests s (.enter host i.operation i.subjectSha256 i.decisionId (s.registry.journal key).length) =
    .ok { s with holder := some (retrying i subject (if host.proven i.operation subject = true
      then .settling (s.registry.journal key) else .authorizing (s.registry.journal key))) } := by
  have hne := begun_ne_nil hb
  have hi : i ∈ documentPending (s.registry.journal key) := hb.alone ▸ List.mem_singleton_self i
  have hok := hb.ok
  simp only [DocumentEventData.ok, Bool.and_eq_true] at hok
  have hrevision : s.registry.revision digests subject (s.registry.journal key).length =
      .ok (s.registry.journal key) := by
    simp only [Registry.revision, bind_eq_ok, throwIf_eq_ok, exists_const, pure_eq_ok, not_not, ne_eq, hb.keyed]
    exact ⟨by omega, _, hs.registry.events_ok hne, rfl, rfl⟩
  have hphase : Phase.first ((completedIds (s.registry.journal key)).contains i.operationId)
      ((documentPending (s.registry.journal key)).any (·.operationId == i.operationId))
      (host.proven i.operation subject) (s.registry.journal key) = .ok (some (if host.proven i.operation subject = true
        then .settling (s.registry.journal key) else .authorizing (s.registry.journal key))) := by
    have hopen : (completedIds (s.registry.journal key)).contains i.operationId = false := by
      simpa using (mem_pending.1 hi).2
    rw [first_eq_ok, hopen, hb.alone]
    cases host.proven i.operation subject <;> simp
  simp only [step, State.enter, State.phaseOf, bind_eq_ok, throwIf_eq_ok, exists_const, pure_eq_ok, not_and,
    Bool.not_eq_false, ← hb.id]
  refine ⟨subject, hb.allows.stored, hok.2, hb.allows.queue, by simp [hfree], _, hrevision, hretry.caller,
    hretry.available, _, ⟨by simp [hb.alone], (), hb.allows.predecessor, hphase⟩, rfl⟩

/-- The state after a result of the operation. -/
def State.resulting (s : State) (digests : Digests) (key : TicketKey) (i : DocumentIntent) (outcome : ResultOutcome)
    (code : String) : State :=
  { s with
    registry := s.registry.insert key (s.registry.nextRow digests key (s.registry.journal key).length
      (.result i.subjectSha256 i.operationId outcome code))
    holder := none }

include hs hb hlen in
/-- A publication of the operation appends a result and ends. -/
theorem retry_appends (phase : Phase) (outcome : ResultOutcome) (code : String)
    (hcode : textOk isResultCode code = true) :
    State.append digests { s with holder := some (retrying i subject phase) } (retrying i subject phase)
      (s.registry.journal key).length outcome code = .ok (s.resulting digests key i outcome code) := by
  have hok := hb.ok
  simp only [DocumentEventData.ok, Bool.and_eq_true] at hok
  have happend := hs.registry.append_of (.result i.subjectSha256 i.operationId outcome code) (begun_ne_nil hb) rfl hlen
    (by simp only [DocumentEventData.ok, hok.1.1, hok.1.2, hcode, Bool.and_self]) hb.allows.stored hb.keyed rfl
  simp only [State.append, bind_eq_ok, pure_eq_ok, retrying_id hb]
  exact ⟨_, hb.keyed ▸ happend, rfl⟩

theorem journal_resulting (s : State) (digests : Digests) (key : TicketKey) (i : DocumentIntent)
    (outcome : ResultOutcome) (code : String) :
    ∃ e : DocumentEvent, e.data = .result i.subjectSha256 i.operationId outcome code ∧
      (s.resulting digests key i outcome code).registry.journal key = s.registry.journal key ++ [e] := by
  refine ⟨(s.registry.nextRow digests key (s.registry.journal key).length
    (.result i.subjectSha256 i.operationId outcome code)).body, rfl, ?_⟩
  rw [State.resulting, Registry.journal_insert, if_pos rfl]

theorem completes_resulting (code : String) :
    i.operationId ∈ completedIds ((s.resulting digests key i .completed code).registry.journal key) := by
  obtain ⟨e, he, hj⟩ := journal_resulting s digests key i .completed code
  rw [hj, completedIds_snoc, he]
  exact List.mem_append_right _ (List.mem_singleton_self _)

include hs hb hretry in
/-- The retry is authorized, if its effect is not observed. -/
theorem retry_authorized (hproven : host.proven i.operation subject = false) (phase : Phase) :
    s.registry.authorize digests host (retrying i subject phase) = .ok () := by
  obtain ⟨happroved, hsources, -⟩ := hretry.effect hproven
  simp only [Registry.authorize, bind_eq_ok, throwIf_eq_ok, exists_const, Bool.not_eq_false]
  simp only [retrying, hb.keyed]
  exact ⟨hretry.caller, hretry.available, _, hs.registry.events_ok (begun_ne_nil hb), happroved, hsources⟩

include hs hb hretry in
theorem retry_begins (hproven : host.proven i.operation subject = false) :
    step digests { s with holder := some (retrying i subject (.authorizing (s.registry.journal key))) }
        (.authorize host) =
      .ok { s with holder := some (retrying i subject .performing) } := by
  have hpublished := (hretry.effect hproven).2.2
  have hne : documentPending (s.registry.journal key) ≠ [] := by simp [hb.alone]
  simp only [step, Option.elim_some, State.work, State.authorize, State.begin, retrying, bind_eq_ok, throwIf_eq_ok,
    exists_const, pure_eq_ok, if_neg hne]
  refine ⟨(), retry_authorized hs hb hretry hproven _, ?_, _, rfl, rfl⟩
  rintro ⟨hop, hno | hno⟩
  · rw [hb.queue hop] at hno
    cases hno
  · rw [hpublished hop] at hno
    cases hno

theorem retry_performs (hauth : ∀ phase, s.registry.authorize digests host (retrying i subject phase) = .ok ()) :
    step digests { s with holder := some (retrying i subject .performing) } (.perform host) =
      .ok { s with holder := some (retrying i subject .performing) } := by
  have hok := hauth .performing
  simp only [step, Option.elim_some, State.work, retrying] at hok ⊢
  rw [hok]
  rfl

include hs hb in
theorem retry_finishes : step digests { s with holder := some (retrying i subject .performing) } .finish =
    .ok { s with holder := some (retrying i subject (.finishing (s.registry.journal key).length)) } := by
  have hok := hs.registry.events_ok (begun_ne_nil hb)
  simp only [step, Option.elim_some, State.work, retrying, hb.keyed]
  rw [hok]
  rfl

end

/-- **A pending operation can be settled as long as the journal is not full.**  In every state
    that a run reaches while no publication holds the mutex, a retry of the pending operation
    completes it if the host lets the effect be observed or made again and the journal has less than 1024
    events.  To a journal with 1024 events nothing is ever added, so that an operation that is pending in
    it stays pending. -/
theorem pending_settles {h : List (Run.Step State Event)} (hr : Run.Reaches (step digests) .empty h s)
    (hfree : s.holder = none) (hi : i ∈ documentPending (s.registry.journal key))
    (hsubject : s.registry.subject digests i.subjectSha256 = .ok subject)
    (hretry : host.Retries subject i.operation i.subjectSha256 i.decisionId (s.registry.journal key)) :
    ((s.registry.journal key).length < 1024 →
      ∃ s', Run.exec (step digests) s (retry host subject i (s.registry.journal key).length) = .ok s' ∧
        s'.holder = none ∧ i.operationId ∈ completedIds (s'.registry.journal key)) ∧
    (1024 ≤ (s.registry.journal key).length →
      ∀ h' s', Run.Reaches (step digests) s h' s' → i ∈ documentPending (s'.registry.journal key)) := by
  have hs := sound_run hr
  refine ⟨fun hlen => ?_, fun hfull h' s' hr' => full_run hs hfull hr' ▸ hi⟩
  obtain ⟨subject', hb⟩ := hs.begun hi
  obtain rfl : subject' = subject := Except.ok.inj (hb.allows.stored.symm.trans hsubject)
  have henter := retry_enters hs hfree hb hlen hretry
  cases hproven : host.proven i.operation subject' with
  | true =>
    have hsettle : step digests { s with holder := some (retrying i subject' (.settling (s.registry.journal key))) }
        .settle = .ok (s.resulting digests key i .completed "OBSERVED_COMPLETE") :=
      retry_appends hs hb hlen _ .completed _ (by decide)
    refine ⟨s.resulting digests key i .completed "OBSERVED_COMPLETE", ?_, rfl, completes_resulting _⟩
    rw [hproven, if_pos rfl] at henter
    rw [retry, hproven, if_pos rfl, Run.exec, henter, ok_bind, Run.exec, hsettle, ok_bind, Run.exec]
  | false =>
    have hcomplete : step digests
        { s with holder := some (retrying i subject' (.finishing (s.registry.journal key).length)) } .complete =
          .ok (s.resulting digests key i .completed "COMPLETED") :=
      retry_appends hs hb hlen _ .completed _ (by decide)
    refine ⟨s.resulting digests key i .completed "COMPLETED", ?_, rfl, completes_resulting _⟩
    rw [hproven, if_neg Bool.false_ne_true] at henter
    rw [retry, hproven, if_neg Bool.false_ne_true, Run.exec, henter, ok_bind, Run.exec,
      retry_begins hs hb hretry hproven, ok_bind, Run.exec,
      retry_performs (retry_authorized hs hb hretry hproven), ok_bind, Run.exec, retry_finishes hs hb, ok_bind,
      Run.exec, hcomplete, ok_bind, Run.exec]

/-! ## Failures -/

/-- The steps of an undisturbed retry whose effect throws. -/
def failure (host : Host) (i : DocumentIntent) (expectedRevision : ℕ) (code : DocumentErrorCode) : List Event :=
  [.enter host i.operation i.subjectSha256 i.decisionId expectedRevision, .authorize host, .fail code, .record]

/-- A result does not change what is approved. -/
theorem approved_result {outcome : ResultOutcome} {code : String} (he : e.data = .result sha id outcome code) :
    approved (events ++ [e]) = approved events := by
  funext sha decisionId
  simp [approved, latestDecision, he, DocumentEventData.decision?, DocumentEventData.revokes?]

theorem code_ok (code : DocumentErrorCode) : textOk isResultCode code.text = true := by
  cases code <;> decide

/-- A retry that fails adds an event, and the operation stays pending. -/
theorem failure_adds (hs : s.Sound digests) (hfree : s.holder = none) (hb : Begun digests s.registry key i subject)
    (hlen : (s.registry.journal key).length < 1024)
    (hretry : host.Retries subject i.operation i.subjectSha256 i.decisionId (s.registry.journal key))
    (hproven : host.proven i.operation subject = false) (code : DocumentErrorCode) :
    Run.exec (step digests) s (failure host i (s.registry.journal key).length code) =
      .ok (s.resulting digests key i .unknown code.text) := by
  have henter := retry_enters hs hfree hb hlen hretry
  rw [hproven, if_neg Bool.false_ne_true] at henter
  have hfail : step digests { s with holder := some (retrying i subject .performing) } (.fail code) =
      .ok { s with holder := some (retrying i subject (.failing (s.registry.journal key).length code)) } := by
    have hreads := hs.registry.events_ok (begun_ne_nil hb)
    simp only [step, Option.elim_some, State.work, retrying, hb.keyed]
    rw [hreads]
    rfl
  have hrecord : step digests
      { s with holder := some (retrying i subject (.failing (s.registry.journal key).length code)) } .record =
        .ok (s.resulting digests key i .unknown code.text) :=
    retry_appends hs hb hlen _ .unknown _ (code_ok code)
  rw [failure, Run.exec, henter, ok_bind, Run.exec, retry_begins hs hb hretry hproven, ok_bind, Run.exec, hfail,
    ok_bind, Run.exec, hrecord, ok_bind, Run.exec]

/-- **Failures can use up the journal.**  From every state in which an operation is pending and may be
    retried, retries whose effect throws lead to a full journal; there the operation is pending forever. -/
theorem failures_fill {h : List (Run.Step State Event)} (hr : Run.Reaches (step digests) .empty h s)
    (hfree : s.holder = none) (hi : i ∈ documentPending (s.registry.journal key))
    (hsubject : s.registry.subject digests i.subjectSha256 = .ok subject)
    (hretry : host.Retries subject i.operation i.subjectSha256 i.decisionId (s.registry.journal key))
    (hproven : host.proven i.operation subject = false) :
    ∃ h' s', Run.Reaches (step digests) s h' s' ∧ s'.holder = none ∧ (s'.registry.journal key).length = 1024 ∧
      ∀ h'' t, Run.Reaches (step digests) s' h'' t → i ∈ documentPending (t.registry.journal key) := by
  have hs := sound_run hr
  have hfills (k : ℕ) (hk : (s.registry.journal key).length + k ≤ 1024) :
      ∃ es s', Run.exec (step digests) s es = .ok s' ∧ s'.holder = none ∧
        i ∈ documentPending (s'.registry.journal key) ∧ s'.registry.subjects = s.registry.subjects ∧
        (s'.registry.journal key).length = (s.registry.journal key).length + k ∧
        approved (s'.registry.journal key) = approved (s.registry.journal key) := by
    induction k with
    | zero => exact ⟨[], s, rfl, hfree, hi, rfl, rfl, rfl⟩
    | succ k ih =>
      obtain ⟨es, t, hexec, hfree', hi', hsub, hlen, happroved⟩ := ih (by omega)
      obtain ⟨_, hr', -⟩ := Run.reaches_of_exec hexec
      have ht := sound_from hs hr'
      obtain ⟨subject', hb⟩ := ht.begun hi'
      have hsubject' : t.registry.subject digests i.subjectSha256 = .ok subject :=
        Registry.subject_mono hsubject (hsub ▸ List.prefix_rfl)
      obtain rfl : subject' = subject := Except.ok.inj (hb.allows.stored.symm.trans hsubject')
      have hretry' : host.Retries subject' i.operation i.subjectSha256 i.decisionId (t.registry.journal key) :=
        ⟨hretry.caller, hretry.available, fun hno => happroved ▸ hretry.effect hno⟩
      have hfailure := failure_adds ht hfree' hb (by omega) hretry' hproven .uncertain
      obtain ⟨e, he, hj⟩ := journal_resulting t digests key i .unknown DocumentErrorCode.uncertain.text
      refine ⟨es ++ failure host i (t.registry.journal key).length .uncertain,
        t.resulting digests key i .unknown DocumentErrorCode.uncertain.text, ?_, rfl, ?_, hsub, ?_, ?_⟩
      · rw [Run.exec_append, hexec, ok_bind, hfailure]
      · rw [hj]
        exact mem_pending_snoc hi' (by simp [he, DocumentEventData.completes?])
      · rw [hj, List.length_append, List.length_singleton, hlen, Nat.add_assoc]
      · rw [hj, approved_result he, happroved]
  have hbound := hs.registry.bounded key
  obtain ⟨es, s', hexec, hfree', hi', -, hlen, -⟩ := hfills (1024 - (s.registry.journal key).length) (by omega)
  obtain ⟨h', hr', -⟩ := Run.reaches_of_exec hexec
  have hfull : (s'.registry.journal key).length = 1024 := by omega
  exact ⟨h', s', hr', hfree', hfull, fun h'' t ht => full_run (sound_from hs hr') hfull.ge ht ▸ hi'⟩

theorem failures_fill_sample : ∃ h s h' s', Run.Reaches (step Sample.constant) .empty h s ∧
    Run.Reaches (step Sample.constant) s h' s' ∧ s'.holder = none ∧
    (s'.registry.journal Sample.package.key).length = 1024 ∧
    ∀ h'' t, Run.Reaches (step Sample.constant) s' h'' t →
      Sample.intent ∈ documentPending (t.registry.journal Sample.package.key) := by
  obtain ⟨h, s, hr, -, hpending, hfree, hsubject, happroved⟩ := Sample.reaches
  have hi : Sample.intent ∈ documentPending (s.registry.journal Sample.package.key) :=
    hpending ▸ List.mem_singleton_self _
  have hretry : Sample.willing.Retries Sample.package Sample.intent.operation Sample.intent.subjectSha256
      Sample.intent.decisionId (s.registry.journal Sample.package.key) := by
    refine ⟨rfl, rfl, fun _ => ⟨happroved, rfl, fun hop => ?_⟩⟩
    cases hop
  obtain ⟨h', s', hr', hfull⟩ := failures_fill hr hfree hi hsubject hretry rfl
  exact ⟨h, s, h', s', hr, hr', hfull⟩

/-- A host at which the effect is observed. -/
def Sample.observing : Host :=
  ⟨fun _ => true, fun _ => true, fun _ => false, fun _ => false, fun _ => true, fun _ => true⟩

theorem pending_settles_sample : ∃ h s, Run.Reaches (step Sample.constant) .empty h s ∧
    Sample.intent ∈ documentPending (s.registry.journal Sample.package.key) ∧
    ((s.registry.journal Sample.package.key).length < 1024 →
      ∃ s', Run.exec (step Sample.constant) s (retry Sample.observing Sample.package Sample.intent
          (s.registry.journal Sample.package.key).length) = .ok s' ∧
        s'.holder = none ∧ Sample.intent.operationId ∈ completedIds (s'.registry.journal Sample.package.key)) := by
  obtain ⟨h, s, hr, -, hpending, hfree, hsubject, -⟩ := Sample.reaches
  have hi : Sample.intent ∈ documentPending (s.registry.journal Sample.package.key) :=
    hpending ▸ List.mem_singleton_self _
  refine ⟨h, s, hr, hi, (pending_settles hr hfree hi hsubject ⟨rfl, rfl, fun hproven => ?_⟩).1⟩
  cases hproven

end PaPlatform.Documents
