/-
  What every run of the document service keeps.

  A publication acts for an operation that is pending in the journal of its ticket from
  its intent to its result.  Nothing but freezes comes in between.
-/
import PaPlatform.Documents.Lawful

namespace PaPlatform.Documents

open Js Guard

variable {digests : Digests} {r r' : Registry} {s s' : State} {key : TicketKey} {subject : DocumentPackage}
  {events log : List DocumentEvent} {e : DocumentEvent} {data : DocumentEventData} {i : DocumentIntent}
  {w : Working} {c : Capturing} {host : Host} {sha id decisionId : String} {operation : DocumentOperation} {n : ℕ}

/-! ## Packages with an operation -/

/-- The operation suits the package, whose predecessor is published. -/
structure Registry.Allows (digests : Digests) (r : Registry) (subject : DocumentPackage) (sha : String)
    (operation : DocumentOperation) (events : List DocumentEvent) : Prop where
  stored : r.subject digests sha = .ok subject
  queue : operation = .queue → subject.queue = true
  predecessor : r.checkPredecessor digests subject events = .ok ()

theorem Registry.Allows.mono (h : r.Allows digests subject sha operation events) (hp : r.subjects <+: r'.subjects)
    (he : events <+: log) : r'.Allows digests subject sha operation log :=
  ⟨subject_mono h.stored hp, h.queue, checkPredecessor_mono h.predecessor hp he⟩

/-- Every intent of the journal was allowed when it was appended. -/
def Registry.Grounded (digests : Digests) (r : Registry) (key : TicketKey) (events : List DocumentEvent) : Prop :=
  ∀ before e later i, events = before ++ e :: later → e.data = .intent i →
    ∃ subject, r.Allows digests subject i.subjectSha256 i.operation before ∧ subject.key = key

theorem Registry.Grounded.mono (h : r.Grounded digests key events) (hp : r.subjects <+: r'.subjects) :
    r'.Grounded digests key events := by
  intro before e later i hsplit he
  obtain ⟨subject, hal, hkey⟩ := h before e later i hsplit he
  exact ⟨subject, hal.mono hp List.prefix_rfl, hkey⟩

theorem Registry.Grounded.snoc (h : r.Grounded digests key events)
    (hi : ∀ i, e.data = .intent i →
      ∃ subject, r.Allows digests subject i.subjectSha256 i.operation events ∧ subject.key = key) :
    r.Grounded digests key (events ++ [e]) := by
  intro before x later i hsplit hx
  rcases later.eq_nil_or_concat with rfl | ⟨later, y, rfl⟩
  · obtain ⟨rfl, hxe⟩ := List.append_inj' hsplit rfl
    cases hxe
    exact hi i hx
  · rw [List.concat_eq_append, ← List.cons_append, ← List.append_assoc] at hsplit
    exact h before x later i (List.append_inj' hsplit rfl).1 hx

theorem Registry.Adds.isPrefix (ha : r.Adds r' key data) (k : TicketKey) : r.journal k <+: r'.journal k := by
  by_cases hk : k = key
  · obtain ⟨e, -, he⟩ := ha.event
    rw [hk, he]
    exact List.prefix_append ..
  · rw [ha.others k hk]

/-! ## Waiting calls and holders -/

/-- What a waiting call has read. -/
def Capturing.Waits (c : Capturing) (log : List DocumentEvent) : Prop :=
  ∀ decisionId, c.action = .revoke decisionId →
    c.expectedRevision ≤ log.length ∧ approved (log.take c.expectedRevision) c.sha256 decisionId = true

theorem Capturing.Waits.mono (h : c.Waits events) (hp : events <+: log) : c.Waits log := by
  intro decisionId hc
  obtain ⟨hle, ha⟩ := h decisionId hc
  obtain ⟨t, rfl⟩ := hp
  exact ⟨by rw [List.length_append]; omega, by rwa [List.take_append_of_le_length hle]⟩

/-- The operation is pending. -/
def Pending (events : List DocumentEvent) (id : String) : Prop := ∃ i ∈ documentPending events, i.operationId = id

theorem Undisturbed.pending_iff (h : Undisturbed events log) : Pending log id ↔ Pending events id := by
  rw [Pending, Pending, h.pending]

/-- What a publication has read, and what it has done. -/
def Working.Holds (digests : Digests) (w : Working) (r : Registry) : Prop :=
  match w.phase with
  | .settling events => Undisturbed events (r.journal w.subject.key) ∧ Pending events (w.operationId digests)
  | .authorizing events =>
    Undisturbed events (r.journal w.subject.key) ∧
      (∀ i ∈ documentPending events, i.operationId = w.operationId digests) ∧
      w.operationId digests ∉ completedIds events ∧ r.Allows digests w.subject w.sha256 w.operation events
  | .performing | .finishing _ | .failing _ _ => Pending (r.journal w.subject.key) (w.operationId digests)

/-- A freeze does not disturb a publication. -/
theorem Working.Holds.frozen (h : w.Holds digests r) (ha : r.Adds r' key (.frozen sha)) : w.Holds digests r' := by
  have hun (es : List DocumentEvent) (hes : Undisturbed es (r.journal w.subject.key)) :
      Undisturbed es (r'.journal w.subject.key) := by
    by_cases hk : w.subject.key = key
    · obtain ⟨e, he, hj⟩ := ha.event
      rw [hk] at hes ⊢
      rw [hj]
      exact hes.snoc he
    · rwa [ha.others _ hk]
  have hpend (hp : Pending (r.journal w.subject.key) (w.operationId digests)) :
      Pending (r'.journal w.subject.key) (w.operationId digests) := (hun _ (.refl _)).pending_iff.2 hp
  unfold Holds at h ⊢
  cases hphase : w.phase with
  | settling es =>
    simp only [hphase] at h ⊢
    exact ⟨hun es h.1, h.2⟩
  | authorizing es =>
    simp only [hphase] at h ⊢
    exact ⟨hun es h.1, h.2.1, h.2.2.1, h.2.2.2.mono ha.subjects List.prefix_rfl⟩
  | _ =>
    simp only [hphase] at h ⊢
    exact hpend h

/-! ## States -/

/-- The invariant of the service. -/
structure State.Sound (digests : Digests) (s : State) : Prop where
  registry : s.registry.Sound digests
  lawful : ∀ key, Lawful digests (s.registry.journal key)
  grounded : ∀ key, s.registry.Grounded digests key (s.registry.journal key)
  waits : ∀ c ∈ s.waiting, c.Waits (s.registry.journal c.subject.key)
  holds : ∀ w, s.holder = some w → w.Holds digests s.registry

theorem sound_empty : State.Sound digests .empty := by
  refine ⟨Registry.sound_empty, fun _ => lawful_nil, ?_, ?_, ?_⟩
  · intro key before e later i hsplit
    simp [State.empty, Registry.empty, Registry.journal] at hsplit
  · intro c hc
    cases hc
  · intro w hw
    cases hw

/-! ## Steps -/

/-- What a step can do: it adds an event that follows, or leaves the journals as they are. -/
inductive Stepped (digests : Digests) (s : State) : State → Prop
  | keeps {waiting : List Capturing} {holder : Option Working}
      (waits : ∀ c ∈ waiting, c.Waits (s.registry.journal c.subject.key))
      (holds : ∀ w, holder = some w → w.Holds digests s.registry) : Stepped digests s ⟨s.registry, waiting, holder⟩
  | adds {r' : Registry} {key : TicketKey} {data : DocumentEventData} {waiting : List Capturing}
      {holder : Option Working} (added : s.registry.Adds r' key data) (registry : r'.Sound digests)
      (follows : Follows digests (s.registry.journal key) data)
      (allows : ∀ i, data = .intent i → ∃ subject,
        s.registry.Allows digests subject i.subjectSha256 i.operation (s.registry.journal key) ∧ subject.key = key)
      (waits : ∀ c ∈ waiting, c ∈ s.waiting) (holds : ∀ w, holder = some w → w.Holds digests r') :
      Stepped digests s ⟨r', waiting, holder⟩

/-- A step keeps the invariant. -/
theorem Stepped.sound (hs : s.Sound digests) (h : Stepped digests s s') : s'.Sound digests := by
  cases h with
  | keeps hw hh => exact ⟨hs.registry, hs.lawful, hs.grounded, hw, hh⟩
  | @adds r' key data waiting holder ha hr hf hi hw hh =>
    obtain ⟨e, rfl, he⟩ := ha.event
    refine ⟨hr, fun k => ?_, fun k => ?_, fun c hc => (hs.waits c (hw c hc)).mono (ha.isPrefix _), hh⟩
    · by_cases hk : k = key
      · rw [hk, he]
        exact (hs.lawful key).snoc hf
      · rw [ha.others k hk]
        exact hs.lawful k
    · by_cases hk : k = key
      · rw [hk, he]
        exact ((hs.grounded key).snoc hi).mono ha.subjects
      · rw [ha.others k hk]
        exact (hs.grounded k).mono ha.subjects

theorem stepped_freeze {bytes : List Bytes} (hs : s.Sound digests)
    (h : s.freeze digests host subject n bytes = .ok s') : Stepped digests s s' := by
  simp only [State.freeze, bind_eq_ok, throwIf_eq_ok, exists_const, pure_eq_ok] at h
  obtain ⟨-, -, -, -, r', hr', rfl⟩ := h
  rcases hs.registry.freeze_ok hr' with rfl | ⟨⟨sha, ha⟩, hsound⟩
  · exact .keeps hs.waits hs.holds
  · refine Stepped.adds ha hsound trivial ?_ (fun _ hc => hc) fun w hw => (hs.holds w hw).frozen ha
    intro i hi
    cases hi

theorem stepped_ask {action : CaptureAction} {callerIdentity : String} (hs : s.Sound digests)
    (h : s.ask digests host sha n action callerIdentity = .ok s') : Stepped digests s s' := by
  simp only [State.ask, bind_eq_ok, throwIf_eq_ok, exists_const] at h
  obtain ⟨subject, -, -, events, hev, -, -, h⟩ := h
  obtain ⟨rfl, hlen, -⟩ := hs.registry.revision_ok hev
  cases action with
  | capture =>
    obtain rfl := pure_eq_ok.1 h
    refine Stepped.keeps (fun c hc => ?_) hs.holds
    rcases List.mem_append.1 hc with hc | hc
    · exact hs.waits c hc
    · obtain rfl := List.mem_singleton.1 hc
      intro id hid
      cases hid
  | revoke decisionId =>
    simp only [bind_eq_ok, throwIf_eq_ok, exists_const, pure_eq_ok, Bool.not_eq_false] at h
    obtain ⟨-, happroved, rfl⟩ := h
    refine Stepped.keeps (fun c hc => ?_) hs.holds
    rcases List.mem_append.1 hc with hc | hc
    · exact hs.waits c hc
    · obtain rfl := List.mem_singleton.1 hc
      intro id hid
      cases hid
      exact ⟨hlen.ge, by rwa [← hlen, List.take_length]⟩

theorem stepped_commit {a : Captured} (hs : s.Sound digests) (h : s.commit digests c a = .ok s') :
    Stepped digests s s' := by
  simp only [State.commit, bind_eq_ok, throwIf_eq_ok, exists_const, pure_eq_ok, Bool.not_eq_true,
    Option.isSome_eq_false_iff, Option.isNone_iff_eq_none, Bool.not_eq_false, List.contains_eq_mem,
    decide_eq_true_eq] at h
  obtain ⟨hc, -, hfree, -, -, events, hev, r', hr', rfl⟩ := h
  obtain ⟨rfl, hlen, -⟩ := hs.registry.revision_ok hev
  have hwaiting (x : Capturing) (hx : x ∈ s.waiting.erase c) : x ∈ s.waiting := List.mem_of_mem_erase hx
  have hholder (w : Working) (hw : s.holder = some w) : w.Holds digests r' := by
    rw [hfree] at hw
    cases hw
  unfold State.captureEvent at hr'
  cases haction : c.action with
  | capture =>
    rw [haction] at hr'
    obtain ⟨-, ha, hsound⟩ := hs.registry.append_ok hr'
    refine Stepped.adds ha hsound trivial ?_ hwaiting hholder
    intro i hi
    cases hi
  | revoke decisionId =>
    rw [haction] at hr'
    split_ifs at hr' with happroved
    · obtain ⟨-, ha, hsound⟩ := hs.registry.append_ok hr'
      refine Stepped.adds ha hsound ?_ ?_ hwaiting hholder
      · obtain ⟨-, hok⟩ := hs.waits c hc decisionId haction
        rwa [← hlen, List.take_length] at hok
      · intro i hi
        cases hi
    · cases hr'
      exact Stepped.keeps (fun x hx => hs.waits x (hwaiting x hx)) hholder

theorem first_eq_ok {completed begun proven : Bool} {phase : Option Phase} :
    Phase.first completed begun proven events = .ok phase ↔
      (completed = true ∧ proven = true ∧ phase = none) ∨
      (completed = false ∧ begun = true ∧ proven = true ∧ phase = some (.settling events)) ∨
      (completed = false ∧ (begun && proven) = false ∧ phase = some (.authorizing events)) := by
  cases completed <;> cases begun <;> cases proven <;>
    simp [Phase.first, throwIf_neg, throwIf_pos, pure_eq_ok, eq_comm (a := phase)]

theorem stepped_enter (hs : s.Sound digests) (h : s.enter digests host operation sha decisionId n = .ok s') :
    Stepped digests s s' := by
  simp only [State.enter, State.phaseOf, bind_eq_ok, throwIf_eq_ok, exists_const, pure_eq_ok, not_and,
    Bool.not_eq_false] at h
  obtain ⟨subject, hsubject, -, hqueue, -, events, hev, -, -, phase, ⟨hothers, _, hpre, hphase⟩, rfl⟩ := h
  obtain ⟨rfl, -, -⟩ := hs.registry.revision_ok hev
  refine Stepped.keeps hs.waits fun w hw => ?_
  rcases first_eq_ok.1 hphase with ⟨-, -, rfl⟩ | ⟨-, hbegun, -, rfl⟩ | ⟨hnew, -, rfl⟩
  · cases hw
  · cases hw
    obtain ⟨i, hi, hid⟩ := List.any_eq_true.1 hbegun
    exact ⟨.refl _, i, hi, eq_of_beq hid⟩
  · cases hw
    refine ⟨.refl _, fun i hi => ?_, fun hmem => ?_, hsubject, hqueue, hpre⟩
    · by_contra hne
      exact hothers (List.any_eq_true.2 ⟨i, hi, bne_iff_ne.2 hne⟩)
    · have hcontains : (completedIds (s.registry.journal subject.key)).contains
          (operationId digests sha decisionId operation) = true := List.contains_iff_mem.2 hmem
      rw [hcontains] at hnew
      cases hnew

/-- A publication appends a result and ends. -/
theorem stepped_append {outcome : ResultOutcome} {code : String} (hs : s.Sound digests)
    (hp : (s.registry.journal w.subject.key).length = n →
      Pending (s.registry.journal w.subject.key) (w.operationId digests))
    (h : s.append digests w n outcome code = .ok s') : Stepped digests s s' := by
  simp only [State.append, bind_eq_ok, pure_eq_ok] at h
  obtain ⟨r', hr', rfl⟩ := h
  obtain ⟨hlen, ha, hsound⟩ := hs.registry.append_ok hr'
  refine Stepped.adds ha hsound (hp hlen) ?_ (fun _ hc => hc) ?_
  · intro i hi
    cases hi
  · intro w hw
    cases hw

theorem authorize_ok {u : Unit} (hs : s.registry.Sound digests) (h : s.registry.authorize digests host w = .ok u) :
    approved (s.registry.journal w.subject.key) w.sha256 w.decisionId = true := by
  simp only [Registry.authorize, bind_eq_ok, throwIf_eq_ok, exists_const, Bool.not_eq_false] at h
  obtain ⟨-, -, events, hev, happroved, -⟩ := h
  exact hs.events_eq hev ▸ happroved

theorem stepped_authorize (hs : s.Sound digests) (hw : s.holder = some w) (hphase : w.phase = .authorizing events)
    (h : s.authorize digests host w events = .ok s') : Stepped digests s s' := by
  have hholds := hs.holds w hw
  simp only [Working.Holds, hphase] at hholds
  obtain ⟨hun, hsame, hnew, hallows⟩ := hholds
  simp only [State.authorize, State.begin, bind_eq_ok, throwIf_eq_ok, exists_const, pure_eq_ok, not_and, not_or,
    Bool.not_eq_false] at h
  obtain ⟨_, hauth, hqueue, r', hr', rfl⟩ := h
  split_ifs at hr' with hnone
  · obtain ⟨hlen, ha, hsound⟩ := hs.registry.append_ok hr'
    have hjournal := hun.eq hlen
    refine Stepped.adds ha hsound ⟨?_, ?_, rfl, authorize_ok hs.registry hauth, ?_⟩ ?_ (fun _ hc => hc) ?_
    · rw [hjournal]
      exact hnone
    · -- an earlier intent of the operation would be pending or completed
      rw [hjournal]
      intro hmem
      obtain ⟨i, hi, hid⟩ := List.mem_map.1 hmem
      have hpending := mem_pending.2 ⟨hi, fun hc => hnew ((show i.operationId = w.operationId digests from hid) ▸ hc)⟩
      rw [hnone] at hpending
      cases hpending
    · intro hop
      rw [hjournal]
      exact (hqueue hop).1
    · intro i hi
      cases hi
      exact ⟨w.subject, hjournal.symm ▸ hallows, rfl⟩
    · intro w' hw'
      cases hw'
      obtain ⟨e, he, hev⟩ := ha.event
      refine ⟨⟨w.operationId digests, w.operation, w.sha256, w.decisionId⟩, ?_, rfl⟩
      rw [hev, pending_intent he (hjournal.symm ▸ hnew)]
      exact List.mem_append_right _ (List.mem_singleton_self _)
  · cases hr'
    refine Stepped.keeps hs.waits fun w' hw' => ?_
    cases hw'
    obtain ⟨i, hi⟩ := List.exists_mem_of_ne_nil _ hnone
    exact hun.pending_iff.2 ⟨i, hi, hsame i hi⟩

theorem stepped_work {event : Event} (hs : s.Sound digests) (hw : s.holder = some w)
    (h : s.work digests w event = .ok s') : Stepped digests s s' := by
  have hholds := hs.holds w hw
  unfold Working.Holds at hholds
  have hreads {phase : Phase} (hp : Pending (s.registry.journal w.subject.key) (w.operationId digests))
      (hphase : (∃ n, phase = .finishing n) ∨ ∃ n code, phase = .failing n code) :
      Stepped digests s { s with holder := some { w with phase } } := by
    refine Stepped.keeps hs.waits fun w' hw' => ?_
    cases hw'
    obtain ⟨n, rfl⟩ | ⟨n, code, rfl⟩ := hphase <;> exact hp
  cases event with
  | settle =>
    cases hphase : w.phase with
    | settling events =>
      simp only [State.work, hphase] at h hholds
      exact stepped_append hs (fun hlen => hholds.1.pending_iff.2 hholds.2) h
    | _ => simp only [State.work, hphase, reduceCtorEq] at h
  | authorize host =>
    cases hphase : w.phase with
    | authorizing events =>
      simp only [State.work, hphase] at h
      exact stepped_authorize hs hw hphase h
    | _ => simp only [State.work, hphase, reduceCtorEq] at h
  | perform host =>
    cases hphase : w.phase with
    | performing =>
      simp only [State.work, hphase, map_eq_ok] at h
      obtain ⟨-, -, rfl⟩ := h
      exact .keeps hs.waits hs.holds
    | _ => simp only [State.work, hphase, reduceCtorEq] at h
  | finish =>
    cases hphase : w.phase with
    | performing =>
      simp only [State.work, hphase, map_eq_ok] at h hholds
      obtain ⟨events, -, rfl⟩ := h
      exact hreads hholds (Or.inl ⟨_, rfl⟩)
    | _ => simp only [State.work, hphase, reduceCtorEq] at h
  | complete =>
    cases hphase : w.phase with
    | finishing n =>
      simp only [State.work, hphase] at h hholds
      exact stepped_append hs (fun _ => hholds) h
    | _ => simp only [State.work, hphase, reduceCtorEq] at h
  | fail code =>
    cases hphase : w.phase with
    | performing =>
      simp only [State.work, hphase, map_eq_ok] at h hholds
      obtain ⟨events, -, rfl⟩ := h
      exact hreads hholds (Or.inr ⟨_, _, rfl⟩)
    | finishing n =>
      simp only [State.work, hphase, map_eq_ok] at h hholds
      obtain ⟨events, -, rfl⟩ := h
      exact hreads hholds (Or.inr ⟨_, _, rfl⟩)
    | _ => simp only [State.work, hphase, reduceCtorEq] at h
  | record =>
    cases hphase : w.phase with
    | failing n code =>
      simp only [State.work, hphase] at h hholds
      exact stepped_append hs (fun _ => hholds) h
    | _ => simp only [State.work, hphase, reduceCtorEq] at h
  | abandon =>
    cases h
    refine Stepped.keeps hs.waits fun w' hw' => ?_
    cases hw'
  | _ => cases h

theorem stepped {event : Event} (hs : s.Sound digests) (h : step digests s event = .ok s') : Stepped digests s s' := by
  have hwork {event : Event} (h : s.holder.elim (.error .input) (fun w => s.work digests w event) = .ok s') :
      Stepped digests s s' := by
    cases hholder : s.holder with
    | none =>
      rw [hholder] at h
      cases h
    | some w =>
      rw [hholder] at h
      exact stepped_work hs hholder h
  cases event with
  | freeze host subject n bytes => exact stepped_freeze hs h
  | ask host sha n action callerIdentity => exact stepped_ask hs h
  | commit c a => exact stepped_commit hs h
  | enter host operation sha decisionId n => exact stepped_enter hs h
  | _ => exact hwork h

theorem sound_from {h : List (Run.Step State Event)} (hs : s.Sound digests) (hr : Run.Reaches (step digests) s h s') :
    s'.Sound digests :=
  hr.invariant (P := fun _ t => t.Sound digests) hs fun _ _ _ _ _ ht hstep => (stepped ht hstep).sound ht

theorem sound_run {h : List (Run.Step State Event)} (hr : Run.Reaches (step digests) .empty h s) : s.Sound digests :=
  sound_from sound_empty hr

/-! ## A sample -/

namespace Sample

def zeros : Sha256 := ⟨"0000000000000000000000000000000000000000000000000000000000000000", by decide⟩

def constant : Digests := ⟨fun _ => zeros, fun _ => zeros, fun _ => zeros, fun _ _ _ => zeros⟩

def package : DocumentPackage where
  packageId := "intake"
  revision := 1
  repository := ⟨"pa-platform", "/src/pa-platform"⟩
  ticket := "PA-1"
  predecessor := none
  members := [⟨"brief", 1, zeros.1⟩, ⟨"requirements", 1, zeros.1⟩, ⟨"uat", 1, zeros.1⟩]
  queue := true

/-- A host that agrees to everything; nothing is published yet. -/
def willing : Host := ⟨fun _ => true, fun _ => true, fun _ => true, fun _ => true, fun _ => false, fun _ => false⟩

def capturing : Capturing := ⟨package, zeros.1, 1, .capture, zeros.1⟩

def captured : Captured := ⟨.approved, "operator", zeros.1, [1], "1", true, true⟩

/-- The package is frozen and approved; its publication begins and is cut short. -/
def publication : List Event :=
  [.freeze willing package 0 [[1], [1], [1]], .ask willing zeros.1 1 .capture zeros.1, .commit capturing captured,
    .enter willing .publish zeros.1 "decision-1" 2, .authorize willing, .perform willing, .abandon]

def intent : DocumentIntent := ⟨"effect-" ++ zeros.1, .publish, zeros.1, "decision-1"⟩

theorem publishes : ((Run.exec (step constant) .empty publication).toOption.map fun s =>
    (documentPending (s.registry.journal package.key), s.holder.isNone,
      (s.registry.subject constant zeros.1).toOption,
      approved (s.registry.journal package.key) zeros.1 "decision-1")) = some ([intent], true, some package, true) := by
  decide +kernel

theorem reaches : ∃ h s, Run.Reaches (step constant) .empty h s ∧ h.map Run.Step.event = publication ∧
    documentPending (s.registry.journal package.key) = [intent] ∧ s.holder = none ∧
    s.registry.subject constant intent.subjectSha256 = .ok package ∧
    approved (s.registry.journal package.key) intent.subjectSha256 intent.decisionId = true := by
  obtain ⟨s, hs, hend⟩ := Option.map_eq_some_iff.1 publishes
  simp only [Prod.mk.injEq, Option.isNone_iff_eq_none] at hend
  obtain ⟨hpending, hfree, hsubject, happroved⟩ := hend
  cases hexec : Run.exec (step constant) .empty publication with
  | error e =>
    rw [hexec] at hs
    cases hs
  | ok t =>
    rw [hexec] at hs
    cases hs
    obtain ⟨h, hr, hmap⟩ := Run.reaches_of_exec hexec
    refine ⟨h, s, hr, hmap, hpending, hfree, ?_, happroved⟩
    cases hp : s.registry.subject constant intent.subjectSha256 with
    | error e =>
      rw [show zeros.1 = intent.subjectSha256 from rfl, hp] at hsubject
      cases hsubject
    | ok p =>
      rw [show zeros.1 = intent.subjectSha256 from rfl, hp] at hsubject
      exact congrArg Except.ok (Option.some.inj hsubject)

end Sample

/-! ## Main results -/

/-- The rows of a ticket are numbered and chained, and its operations come one after
    another. -/
structure InOrder (digests : Digests) (r : Registry) (key : TicketKey) : Prop where
  numbered : (r.rows key).map (·.revision) = List.range' 1 (r.rows key).length
  chained : (r.rows key).map (·.predecessor) =
    (none :: (r.rows key).map fun row => some row.sha256).take (r.rows key).length
  digest : ∀ row ∈ r.rows key, row.sha256 = (digests.event row.body).1
  pending : ∀ before, before <+: r.journal key → (documentPending before).length ≤ 1
  begun : ((intents (r.journal key)).map (·.operationId)).Nodup
  completed : (completedIds (r.journal key)).Nodup
  after : ∀ before e later id, r.journal key = before ++ e :: later → e.data.completes? = some id → Pending before id

theorem readRows_eq_ok {predecessor : Option String} {rows : List EventRow}
    (h : readRows digests key n predecessor rows = .ok events) :
    rows.map (·.revision) = List.range' (n + 1) rows.length ∧
      rows.map (·.predecessor) = (predecessor :: rows.map fun row => some row.sha256).take rows.length ∧
      ∀ row ∈ rows, row.sha256 = (digests.event row.body).1 := by
  induction rows generalizing n predecessor events with
  | nil => exact ⟨rfl, rfl, by simp⟩
  | cons row rows ih =>
    simp only [readRows, bind_eq_ok, throwIf_eq_ok, exists_const, pure_eq_ok, not_or, not_not, ne_eq] at h
    obtain ⟨⟨-, hrev, hrow, -, hpred, hsha⟩, -, -, rest, hrest, -⟩ := h
    obtain ⟨hnum, hchain, hdig⟩ := ih hrest
    refine ⟨?_, ?_, ?_⟩
    · rw [List.map_cons, hnum, hrow, hrev, List.length_cons, List.range'_succ]
    · rw [List.map_cons, hchain, hpred, List.length_cons, List.take_succ_cons, List.map_cons]
    · intro x hx
      rcases List.mem_cons.1 hx with rfl | hx
      · exact hsha.symm
      · exact hdig x hx

/-- **One operation at a time.**  In every run the rows of a ticket are chained without gaps,
    at most one of its operations is pending at any time, no operation is begun or completed
    twice, and each is completed after its intent. -/
theorem operations_in_order {h : List (Run.Step State Event)} (hr : Run.Reaches (step digests) .empty h s)
    (key : TicketKey) : InOrder digests s.registry key := by
  have hs := sound_run hr
  obtain ⟨hnum, hchain, hdig⟩ := readRows_eq_ok (hs.registry.reads key)
  have hlaw := hs.lawful key
  refine ⟨hnum, hchain, hdig, ?_, hlaw.intents_nodup, hlaw.completed_nodup, ?_⟩
  · rintro before ⟨later, hlater⟩
    exact Lawful.pending_le (Lawful.beginning (hlater ▸ hlaw))
  · intro before e later id hsplit hid
    have hf := hlaw before e later hsplit
    cases hd : e.data with
    | result sha op outcome code =>
      cases outcome with
      | completed =>
        rw [hd] at hf hid
        cases hid
        exact hf
      | _ => simp [hd, DocumentEventData.completes?] at hid
    | _ => simp [hd, DocumentEventData.completes?] at hid

theorem operations_in_order_sample : ∃ h s, Run.Reaches (step Sample.constant) .empty h s ∧
    documentPending (s.registry.journal Sample.package.key) = [Sample.intent] ∧
    InOrder Sample.constant s.registry Sample.package.key := by
  obtain ⟨h, s, hr, -, hpending, -⟩ := Sample.reaches
  exact ⟨h, s, hr, hpending, operations_in_order hr Sample.package.key⟩

/-- The intents and the revocations of a ticket are authorized by the events before them. -/
structure Authorized (digests : Digests) (r : Registry) (key : TicketKey) : Prop where
  intent : ∀ before e later i, r.journal key = before ++ e :: later → e.data = .intent i →
    approved before i.subjectSha256 i.decisionId = true ∧
      i.operationId = operationId digests i.subjectSha256 i.decisionId i.operation ∧
      (i.operation = .queue → documentCompletedOperation before i.subjectSha256 .publish = true)
  package : ∀ before e later i, r.journal key = before ++ e :: later → e.data = .intent i →
    ∃ subject, r.subject digests i.subjectSha256 = .ok subject ∧ subject.key = key ∧
      (i.operation = .queue → subject.queue = true) ∧
      ∀ sha, subject.predecessor = some sha → documentCompletedOperation before sha .publish = true
  revoked : ∀ before e later sha decisionId evidence, r.journal key = before ++ e :: later →
    e.data = .revoked sha decisionId evidence → approved before sha decisionId = true

theorem checkPredecessor_ok {u : Unit} (h : r.checkPredecessor digests subject events = .ok u)
    (hsha : subject.predecessor = some sha) : documentCompletedOperation events sha .publish = true := by
  simp only [Registry.checkPredecessor, hsha, Option.elim_some, bind_eq_ok, throwIf_eq_ok, exists_const,
    Bool.not_eq_false] at h
  obtain ⟨-, -, -, hdone⟩ := h
  exact hdone

/-- **Effects under authority.**  In every run each intent names the decision on its package that
    is the latest one when the intent is appended, an approval that was not revoked; and so does
    a publication before each part of its effect, while its intent alone is pending.  A package is queued
    after it was published, and published after its predecessor; a package of one id and revision
    is stored once. -/
theorem publications_authorized {h : List (Run.Step State Event)} (hr : Run.Reaches (step digests) .empty h s) :
    (∀ key, Authorized digests s.registry key) ∧
      (s.registry.subjects.Pairwise fun a b =>
        ¬ (a.body.key = b.body.key ∧ a.body.packageId = b.body.packageId ∧ a.body.revision = b.body.revision)) ∧
      ∀ st ∈ h, ∀ host, st.event = .perform host → ∃ w i, st.before.holder = some w ∧
        approved (st.before.registry.journal w.subject.key) w.sha256 w.decisionId = true ∧
        documentPending (st.before.registry.journal w.subject.key) = [i] ∧ i.operationId = w.operationId digests := by
  have hs := sound_run hr
  refine ⟨fun key => ⟨?_, ?_, ?_⟩, hs.registry.once, ?_⟩
  · intro before e later i hsplit he
    have hf := hs.lawful key before e later hsplit
    rw [he] at hf
    exact ⟨hf.2.2.2.1, hf.2.2.1, hf.2.2.2.2⟩
  · intro before e later i hsplit he
    obtain ⟨subject, hal, hkey⟩ := hs.grounded key before e later i hsplit he
    exact ⟨subject, hal.stored, hkey, hal.queue, fun sha hsha => checkPredecessor_ok hal.predecessor hsha⟩
  · intro before e later sha decisionId evidence hsplit he
    have hf := hs.lawful key before e later hsplit
    rw [he] at hf
    exact hf
  · intro st hst host hevent
    obtain ⟨pre, post, rfl⟩ := List.append_of_mem hst
    obtain ⟨hbefore, hstep, -⟩ := hr.split
    have hsound := sound_run hbefore
    rw [hevent] at hstep
    cases hw : st.before.holder with
    | none =>
      simp only [step, hw, Option.elim_none, reduceCtorEq] at hstep
    | some w =>
      have hholds := hsound.holds w hw
      unfold Working.Holds at hholds
      cases hphase : w.phase with
      | performing =>
        simp only [step, hw, Option.elim_some, State.work, hphase, map_eq_ok] at hstep hholds
        obtain ⟨_, hauth, -⟩ := hstep
        obtain ⟨i, hi, hid⟩ := hholds
        refine ⟨w, i, rfl, authorize_ok hsound.registry hauth, ?_, hid⟩
        have hle := (hsound.lawful w.subject.key).pending_le
        obtain ⟨j, hj⟩ := List.length_eq_one_iff.1 (le_antisymm hle (List.length_pos_of_mem hi))
        rw [hj] at hi ⊢
        rw [List.mem_singleton.1 hi]
      | _ => simp only [step, hw, Option.elim_some, State.work, hphase, reduceCtorEq] at hstep

theorem publications_authorized_sample : ∃ h s, Run.Reaches (step Sample.constant) .empty h s ∧
    (∃ st ∈ h, st.event = .perform Sample.willing) ∧ (∀ key, Authorized Sample.constant s.registry key) ∧
    ∀ st ∈ h, ∀ host, st.event = .perform host → ∃ w i, st.before.holder = some w ∧
      approved (st.before.registry.journal w.subject.key) w.sha256 w.decisionId = true ∧
      documentPending (st.before.registry.journal w.subject.key) = [i] ∧
      i.operationId = w.operationId Sample.constant := by
  obtain ⟨h, s, hr, hmap, -⟩ := Sample.reaches
  obtain ⟨hauthorized, -, hperform⟩ := publications_authorized hr
  have hmem : Event.perform Sample.willing ∈ h.map Run.Step.event := by
    rw [hmap]
    simp [Sample.publication]
  exact ⟨h, s, hr, List.mem_map.1 hmem, hauthorized, hperform⟩

end PaPlatform.Documents
