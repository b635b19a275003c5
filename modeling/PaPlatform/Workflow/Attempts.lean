/-
  The attempts of a run and its coordinators.

  Each attempt is about a new revision of the same package, after a decision about the
  revision before it.  An adoption changes the coordinator, never the package.
-/
import PaPlatform.Workflow.Authority

namespace PaPlatform.Workflow.Replay

open Js Guard

variable {j : Journal} {s s' s₀ : WorkflowRun} {e : Entry} {data : Json} {h : History} {runId : String}

/-! ## Attempts -/

/-- The second bundle is the next revision of the first one. -/
structure Succeeds (x y : ReviewBundle) : Prop where
  revision : y.revision = x.revision + 1
  repository : y.repository = x.repository
  ticket : y.ticket = x.ticket
  route : y.route = x.route
  baseSha : y.handoff.baseSha = x.handoff.baseSha
  branch : y.handoff.branch = x.handoff.branch
  workflow : y.workflow = x.workflow
  /-- An amendment can never become fresh creation. -/
  amendment : y.handoff.type.isFresh = true → x.handoff.type.isFresh = true

/-- An attempt follows another one, after a decision about its subject. -/
structure Linked (j : Journal) (decisions : List WorkflowDecision) (a b : WorkflowAttempt) : Prop where
  predecessor : b.predecessor = some a.attemptId
  subjects : ∃ x y, j.subject a.subjectSha256 = .ok x ∧ x.subjectId = a.subjectRef ∧
    j.subject b.subjectSha256 = .ok y ∧ y.subjectId = b.subjectRef ∧ Succeeds x y
  decision : ∃ d ∈ decisions, d.subjectSha256 = a.subjectSha256 ∧ d.subjectRef = a.subjectRef ∧
    (d.outcome = .approved ∨ d.outcome = .changesRequested)

/-- The attempts form one chain, up to the current subject. -/
structure Chained (j : Journal) (s : WorkflowRun) : Prop where
  chain : s.attempts.IsChain (Linked j s.decisions)
  ids : (s.attempts.map (·.attemptId)).Nodup
  refs : (s.attempts.map (·.subjectRef)).Nodup
  bound : s.attempts.length ≤ 256
  current : s.attempt.subjectSha256 = s.subjectSha256 ∧ s.attempt.subjectRef = s.subject.subjectId
  subject : j.subject s.subjectSha256 = .ok s.subject
  decided : ∀ d ∈ s.decisions, ∃ b, j.subject d.subjectSha256 = .ok b ∧ d.subjectRef = b.subjectId

theorem Linked.mono {ds es : List WorkflowDecision} {a b : WorkflowAttempt} (h : Linked j ds a b) (hsub : ds ⊆ es) :
    Linked j es a b := by
  obtain ⟨d, hd, hok⟩ := h.decision
  exact ⟨h.predecessor, h.subjects, d, hsub hd, hok⟩

/-- What the chain of attempts depends on; outcomes may be added. -/
theorem Chained.of_same (hc : Chained j s) (hearlier : s'.earlier = s.earlier)
    (hattempt : ∃ o, s'.attempt = { s.attempt with outcomes := o }) (hsub : s.decisions ⊆ s'.decisions)
    (hsubject : s'.subject = s.subject) (hsha : s'.subjectSha256 = s.subjectSha256)
    (hd : ∀ d ∈ s'.decisions, d ∈ s.decisions ∨
      d.subjectSha256 = s.subjectSha256 ∧ d.subjectRef = s.subject.subjectId) :
    Chained j s' := by
  obtain ⟨o, ho⟩ := hattempt
  obtain ⟨hchain, hids, hrefs, hbound, hcurrent, hs, hdecided⟩ := hc
  unfold WorkflowRun.attempts at hchain hids hrefs hbound
  constructor
  · rw [WorkflowRun.attempts, hearlier, ho]
    rw [List.isChain_append] at hchain ⊢
    refine ⟨hchain.1.imp fun a b hab => hab.mono hsub, List.isChain_singleton _, fun x hx y hy => ?_⟩
    rw [List.head?_cons, Option.mem_some_iff] at hy
    subst hy
    have hlink := (hchain.2.2 x hx s.attempt rfl).mono hsub
    exact ⟨hlink.predecessor, hlink.subjects, hlink.decision⟩
  · rw [WorkflowRun.attempts, hearlier, ho]
    simpa using hids
  · rw [WorkflowRun.attempts, hearlier, ho]
    simpa using hrefs
  · rw [WorkflowRun.attempts, hearlier]
    simpa using hbound
  · rw [ho, hsha, hsubject]
    exact hcurrent
  · rw [hsha, hsubject]
    exact hs
  · intro d hmem
    rcases hd d hmem with hold | ⟨hdsha, href⟩
    · exact hdecided d hold
    · exact ⟨s.subject, by rw [hdsha]; exact hs, href⟩

/-- What a revision needs. -/
theorem revision_ok {next : ReviewBundle} {reason : RevisionReason} (h : s.subjectRevisionReason next = .ok reason) :
    Succeeds s.subject next ∧ (∀ a ∈ s.attempts, a.subjectRef ≠ next.subjectId) ∧
      ∃ d ∈ s.decisions, d.subjectSha256 = s.subjectSha256 ∧
        (d.outcome = .approved ∨ d.outcome = .changesRequested) := by
  simp only [WorkflowRun.subjectRevisionReason, bind_eq_ok, throwIf_eq_ok, exists_const, not_le, not_not] at h
  obtain ⟨-, -, ⟨hrev, hrefs, hrepo, hticket, hroute, hbase, hbranch, hwf⟩, h⟩ := h
  have hdecision : ∀ o, s.subjectDecisions.getLast?.map WorkflowDecision.outcome = some o →
      ∃ d ∈ s.decisions, d.subjectSha256 = s.subjectSha256 ∧ d.outcome = o := by
    intro o ho
    obtain ⟨d, hd, rfl⟩ := Option.map_eq_some_iff.1 ho
    obtain ⟨hmem, hsha⟩ := List.mem_filter.1 (List.mem_of_getLast? hd)
    exact ⟨d, hmem, by simpa using hsha, rfl⟩
  have hrefs : ∀ a ∈ s.attempts, a.subjectRef ≠ next.subjectId := by simpa using hrefs
  have hok : (next.handoff.type.isFresh = true → s.subject.handoff.type.isFresh = true) ∧
      ∃ o, s.subjectDecisions.getLast?.map WorkflowDecision.outcome = some o ∧
        (o = .approved ∨ o = .changesRequested) := by
    split at h
    · next ho =>
      simp only [bind_eq_ok, throwIf_eq_ok, exists_const, not_and, Bool.not_eq_true] at h
      refine ⟨fun hf => ?_, _, ho, Or.inr rfl⟩
      by_contra hn
      rw [h.1 (by simpa using hn)] at hf
      cases hf
    · next ho =>
      refine ⟨fun hf => ?_, _, ho, Or.inl rfl⟩
      rw [if_neg (by simp [hf])] at h
      split_ifs at h with hold
      exact hold.1
    · cases h
  obtain ⟨hamend, o, ho, hor⟩ := hok
  obtain ⟨d, hd, hsha, rfl⟩ := hdecision o ho
  exact ⟨⟨hrev, hrepo, hticket, hroute, hbase, hbranch, hwf, hamend⟩, hrefs, d, hd, hsha, hor⟩

theorem chained_admitted (h : j.admitted runId data = .ok s) : Chained j s := by
  simp only [Journal.admitted, bind_eq_ok, throwIf_eq_ok, exists_const, pure_eq_ok] at h
  obtain ⟨a, -, sha, -, dsha, -, raw, -, d, -, subject, hsubject, -, rev, -, caller, -, -, res, -, _, -, rfl⟩ := h
  exact ⟨List.isChain_singleton _, by simp [WorkflowRun.attempts], by simp [WorkflowRun.attempts],
    by simp [WorkflowRun.attempts], ⟨rfl, rfl⟩, hsubject, by simp⟩

theorem chained_applied (hc : Chained j s) (h : Applied j s e s') : Chained j s' := by
  cases h with
  | @revised sha next reason id ht hnext hreason hfresh =>
    obtain ⟨hsucc, hrefs, d, hd, hdsha, ho⟩ := revision_ok hreason
    obtain ⟨-, hlen, -⟩ := revision_pending hreason
    have hattempts : ∀ a : WorkflowAttempt, ({ s with earlier := s.attempts, attempt := a } : WorkflowRun).attempts =
        s.attempts ++ [a] := fun _ => rfl
    constructor
    · show (s.attempts ++ [_]).IsChain _
      rw [List.isChain_append]
      refine ⟨hc.chain, List.isChain_singleton _, fun x hx y hy => ?_⟩
      rw [List.head?_cons, Option.mem_some_iff] at hy
      subst hy
      rw [WorkflowRun.attempts, List.getLast?_append, List.getLast?_singleton, Option.some_or,
        Option.mem_some_iff] at hx
      subst hx
      refine ⟨rfl, ⟨s.subject, next, ?_, hc.current.2.symm, hnext, rfl, hsucc⟩, d, hd, ?_, ?_, ho⟩
      · rw [hc.current.1]
        exact hc.subject
      · rw [hc.current.1]
        exact hdsha
      · rw [hc.current.2]
        obtain ⟨b, hb, href⟩ := hc.decided d hd
        rw [hdsha, hc.subject] at hb
        rw [href, Except.ok.inj hb]
    · show ((s.attempts ++ [_]).map _).Nodup
      rw [List.map_append, List.nodup_append]
      refine ⟨hc.ids, by simp, ?_⟩
      simpa using hfresh
    · show ((s.attempts ++ [_]).map _).Nodup
      rw [List.map_append, List.nodup_append]
      refine ⟨hc.refs, by simp, ?_⟩
      simpa using hrefs
    · show (s.attempts ++ [_]).length ≤ 256
      rw [List.length_append, List.length_singleton]
      omega
    · exact ⟨rfl, rfl⟩
    · exact hnext
    · exact hc.decided
  | adopted => exact hc.of_same rfl ⟨_, rfl⟩ (fun _ => id) rfl rfl fun d hd => Or.inl hd
  | @decided d step hd hstep hkind hrun hsha href =>
    refine hc.of_same rfl ⟨_, rfl⟩ (List.subset_append_left _ _) rfl rfl fun k hk => ?_
    rcases List.mem_append.1 hk with hk | hk
    · exact Or.inl hk
    · rw [List.mem_singleton.1 hk]
      exact Or.inr ⟨hsha, href⟩
  | revoked => exact hc.of_same rfl ⟨_, rfl⟩ (fun _ => id) rfl rfl fun d hd => Or.inl hd
  | intended => exact hc.of_same rfl ⟨_, rfl⟩ (fun _ => id) rfl rfl fun d hd => Or.inl hd
  | reconciled => exact hc.of_same rfl ⟨_, rfl⟩ (fun _ => id) rfl rfl fun d hd => Or.inl hd
  | settled => exact hc.of_same rfl ⟨_, rfl⟩ (fun _ => id) rfl rfl fun d hd => Or.inl hd

theorem chained_run (h₀ : Chained j s₀) (hr : Run.Reaches j.apply s₀ h s) : Chained j s := by
  induction hr with
  | nil => exact h₀
  | snoc _ hs ih => exact chained_applied ih (applied hs)

/-- The subject of an attempt is an older revision than that of another one. -/
def Older (j : Journal) (a b : WorkflowAttempt) : Prop :=
  ∃ x y, j.subject a.subjectSha256 = .ok x ∧ j.subject b.subjectSha256 = .ok y ∧ x.revision < y.revision

instance : Trans (Older j) (Older j) (Older j) where
  trans := by
    rintro a b c ⟨x, y, hx, hy, hxy⟩ ⟨y', z, hy', hz, hyz⟩
    obtain rfl : y = y' := Except.ok.inj (hy.symm.trans hy')
    exact ⟨x, z, hx, hz, hxy.trans hyz⟩

/-- No two attempts are about one subject. -/
theorem Chained.subjects (hc : Chained j s) : (s.attempts.map (·.subjectSha256)).Nodup := by
  have holder : s.attempts.IsChain (Older j) := hc.chain.imp fun a b hab => by
    obtain ⟨x, y, hx, -, hy, -, hsucc⟩ := hab.subjects
    exact ⟨x, y, hx, hy, by rw [hsucc.revision]; omega⟩
  rw [List.isChain_iff_pairwise] at holder
  rw [List.Nodup, List.pairwise_map]
  refine holder.imp ?_
  rintro a b ⟨x, y, hx, hy, hlt⟩ hsame
  rw [hsame, hy] at hx
  rw [Except.ok.inj hx] at hlt
  exact lt_irrefl _ hlt

/-! ## The package -/

/-- What a run never changes. -/
structure Lineage where
  runId : String
  definition : WorkflowDefinition
  configRevision : String
  resources : Option WorkflowResources
  caller : WorkflowCaller
  repository : Repository
  ticket : String
  route : Route
  baseSha : String
  branch : String
  workflow : WorkflowRef

def WorkflowRun.lineage (s : WorkflowRun) : Lineage where
  runId := s.runId
  definition := s.definition
  configRevision := s.configRevision
  resources := s.resources
  caller := s.caller
  repository := s.subject.repository
  ticket := s.subject.ticket
  route := s.subject.route
  baseSha := s.subject.handoff.baseSha
  branch := s.subject.handoff.branch
  workflow := s.subject.workflow

theorem lineage_applied (h : Applied j s e s') : s'.lineage = s.lineage := by
  cases h with
  | revised ht hnext hreason =>
    obtain ⟨hsucc, -⟩ := revision_ok hreason
    simp only [WorkflowRun.lineage, hsucc.repository, hsucc.ticket, hsucc.route, hsucc.baseSha, hsucc.branch,
      hsucc.workflow]
  | adopted => rfl
  | decided => rfl
  | revoked => rfl
  | intended => rfl
  | reconciled => rfl
  | settled => rfl

theorem lineage_run (hr : Run.Reaches j.apply s₀ h s) : s.lineage = s₀.lineage := by
  induction hr with
  | nil => rfl
  | snoc _ hs ih => exact (lineage_applied (applied hs)).trans ih

/-! ## Coordinators -/

/-- The coordinator acts for the package, in the role that admitted it. -/
structure Coordinated (s : WorkflowRun) : Prop where
  subject : s.subjectCaller s.workflowCoordinator
  team : s.workflowCoordinator.team = s.caller.team
  mode : s.workflowCoordinator.mode = s.caller.mode

theorem coordinated_applied (hc : Coordinated s) (h : Applied j s e s') : Coordinated s' := by
  cases h with
  | revised ht hnext hreason =>
    obtain ⟨hsucc, -⟩ := revision_ok hreason
    obtain ⟨⟨hkey, hroot, hticket⟩, hteam, hmode⟩ := hc
    exact ⟨⟨by rw [hsucc.repository]; exact hkey, by rw [hsucc.repository]; exact hroot,
      by rw [hsucc.ticket]; exact hticket⟩, hteam, hmode⟩
  | adopted ht hpurpose hid hteam hmode hcaller => exact ⟨hcaller, hteam.trans hc.team, hmode.trans hc.mode⟩
  | decided => exact ⟨hc.subject, hc.team, hc.mode⟩
  | revoked => exact ⟨hc.subject, hc.team, hc.mode⟩
  | intended => exact ⟨hc.subject, hc.team, hc.mode⟩
  | reconciled => exact ⟨hc.subject, hc.team, hc.mode⟩
  | settled => exact ⟨hc.subject, hc.team, hc.mode⟩

theorem coordinated_admitted (h : j.admitted runId data = .ok s) : Coordinated s := by
  simp only [Journal.admitted, bind_eq_ok, throwIf_eq_ok, exists_const, pure_eq_ok] at h
  obtain ⟨a, -, sha, -, dsha, -, raw, -, d, -, subject, hsubject, -, rev, -, caller, -, hcaller, res, -, _, -, rfl⟩ := h
  exact ⟨not_not.1 hcaller, rfl, rfl⟩

theorem coordinated_run (h₀ : Coordinated s₀) (hr : Run.Reaches j.apply s₀ h s) : Coordinated s := by
  induction hr with
  | nil => exact h₀
  | snoc _ hs ih => exact coordinated_applied ih (applied hs)

/-- The step adopts a coordinator for documents only. -/
def AdoptsDocuments (st : Run.Step WorkflowRun Entry) : Prop :=
  st.event.type = .coordinatorAdopted ∧ st.after.coordinatorDocumentOnly = true

theorem adopted_subject (ht : e.type = .coordinatorAdopted) (h : Applied j s e s') :
    s'.subjectSha256 = s.subjectSha256 := by
  cases h with
  | revised ht' => cases ht.symm.trans ht'
  | _ => rfl

/-- The subject that a coordinator for documents has adopted stays the same until the next adoption. -/
theorem documents_run {sha : String} (hr : Run.Reaches j.apply s₀ h s)
    (hp : Run.Since (fun st => AdoptsDocuments st ∧ st.before.subjectSha256 = sha)
      (fun st => st.event.type ≠ .coordinatorAdopted) h) :
    s.coordinatorDocumentOnly = true ∧ s.coordinatorDocumentSubjectSha256 = some sha := by
  induction hr with
  | nil =>
    obtain ⟨pre, st, post, hnil, -⟩ := hp
    simp at hnil
  | @snoc h s s' e _ hs ih =>
    rcases Run.since_snoc.1 hp with ⟨⟨ht, hdoc⟩, rfl⟩ | ⟨hp, hne⟩
    · dsimp only at ht hdoc ⊢
      cases applied hs with
      | adopted _ hpurpose hid hteam hmode hcaller =>
        exact ⟨hdoc, if_pos (of_decide_eq_true hdoc)⟩
      | revised ht' => cases ht.symm.trans ht'
      | decided hd hstep hkind hrun hsha href hfresh hperm hcase =>
        rcases hcase with ⟨ht', -⟩ | ⟨ht', -⟩ <;> cases ht.symm.trans ht'
      | revoked hid => cases ht.symm.trans (revoked?_type hid)
      | intended hi => cases ht.symm.trans (intent?_type hi)
      | reconciled ht' => cases ht.symm.trans ht'
      | settled hid => cases ht.symm.trans (settled?_type hid)
    · obtain ⟨hdoc, hsha⟩ := ih hp
      cases applied hs with
      | adopted ht => exact absurd ht hne
      | revised => exact ⟨hdoc, hsha⟩
      | decided => exact ⟨hdoc, hsha⟩
      | revoked => exact ⟨hdoc, hsha⟩
      | intended => exact ⟨hdoc, hsha⟩
      | reconciled => exact ⟨hdoc, hsha⟩
      | settled => exact ⟨hdoc, hsha⟩

/-- The subject stays the same until it is revised. -/
theorem subject_run {sha : String} (hr : Run.Reaches j.apply s₀ h s)
    (hp : Run.Since (fun st => st.after.subjectSha256 = sha) Stays h) : s.subjectSha256 = sha := by
  induction hr with
  | nil =>
    obtain ⟨pre, st, post, hnil, -⟩ := hp
    simp at hnil
  | @snoc h s s' e _ hs ih =>
    rcases Run.since_snoc.1 hp with hsha | ⟨hp, hne⟩
    · exact hsha
    · have hsame := ih hp
      cases applied hs with
      | revised ht => exact absurd ht hne
      | adopted => exact hsame
      | decided => exact hsame
      | revoked => exact hsame
      | intended => exact hsame
      | reconciled => exact hsame
      | settled => exact hsame

/-! ## Replayed journals -/

/-- **Attempts form one chain.**  In a journal that replays, each attempt is about the next revision of the package
    that was admitted, after a decision about the revision before it; no two attempts share their id or subject. -/
theorem attempts_chained {entries : List Entry} (hreplay : j.replayWorkflow runId entries = .ok s) :
    ∃ s₀ h, Replays j runId entries s₀ h s ∧ s.lineage = s₀.lineage ∧ Chained j s ∧
      (s.attempts.map (·.subjectSha256)).Nodup := by
  obtain ⟨s₀, h, hr⟩ := replays hreplay
  obtain ⟨first, -, -, h₀⟩ := hr.admitted
  have hc := chained_run (chained_admitted h₀) hr.reaches
  exact ⟨s₀, h, hr, lineage_run hr.reaches, hc, hc.subjects⟩

theorem attempts_chained_sample :
    ∃ s s₀ h, Replays ReplaySample.journal "wf-1" ReplaySample.entries s₀ h s ∧ Chained ReplaySample.journal s := by
  obtain ⟨s, hs⟩ := ReplaySample.accepted
  obtain ⟨s₀, h, hr, -, hc, -⟩ := attempts_chained hs
  exact ⟨s, s₀, h, hr, hc⟩

/-- **Adoption grants no execution.**  The coordinator acts for the admitted package in the admitted role; after a
    coordinator was adopted for documents, and until the next adoption, an intent publishes, or it queues a subject
    that was revised since. -/
theorem adoption_bounded {entries : List Entry} (hreplay : j.replayWorkflow runId entries = .ok s) :
    ∃ s₀ h, Replays j runId entries s₀ h s ∧ Coordinated s ∧
      ∀ pre a mid b post i step, h = pre ++ a :: (mid ++ b :: post) → AdoptsDocuments a →
        (∀ c ∈ mid, c.event.type ≠ .coordinatorAdopted) → b.event.intent? = some i →
        b.before.step i.stepId = some step → step.operation = "publication.pair" ∨
          step.operation = "ticket.queue" ∧ ∃ c ∈ mid, c.event.type = .subjectRevised := by
  obtain ⟨s₀, h, hr⟩ := replays hreplay
  obtain ⟨first, -, -, h₀⟩ := hr.admitted
  refine ⟨s₀, h, hr, coordinated_run (coordinated_admitted h₀) hr.reaches, ?_⟩
  rintro pre a mid b post i step rfl ha hno hi hstep
  have hreaches := hr.reaches
  rw [← List.cons_append, ← List.append_assoc] at hreaches
  obtain ⟨hmid, hb, -⟩ := hreaches.split
  obtain ⟨-, hadopt, -⟩ := hmid.split
  obtain ⟨hdoc, hsha⟩ := documents_run hmid ⟨pre, a, mid, rfl, ⟨ha, rfl⟩, hno⟩
  obtain ⟨step', d, hstep', -, -, -, -, hallowed, -⟩ := intent_applied hi (applied hb)
  obtain rfl := Option.some.inj (hstep.symm.trans hstep')
  simp only [WorkflowRun.coordinatorOperationAllowed, hdoc, hsha, Bool.not_true, Bool.false_or, Bool.or_eq_true,
    Bool.and_eq_true, beq_iff_eq, bne_iff_ne, ne_eq, Option.some.injEq] at hallowed
  rcases hallowed with hop | ⟨hop, hne⟩
  · exact Or.inl hop
  · refine Or.inr ⟨hop, ?_⟩
    by_contra hstay
    have hafter : a.after.subjectSha256 = a.before.subjectSha256 := adopted_subject ha.1 (applied hadopt)
    exact hne (subject_run hmid ⟨pre, a, mid, rfl, hafter, fun x hx ht => hstay ⟨x, hx, ht⟩⟩).symm

theorem adoption_bounded_sample :
    ∃ s s₀ h, Replays ReplaySample.journal "wf-1" ReplaySample.entries s₀ h s ∧ Coordinated s := by
  obtain ⟨s, hs⟩ := ReplaySample.accepted
  obtain ⟨s₀, h, hr, hc, -⟩ := adoption_bounded hs
  exact ⟨s, s₀, h, hr, hc⟩

end PaPlatform.Workflow.Replay
