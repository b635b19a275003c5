/-
  Interleaved calls of the service.

  While calls wait for their hosts the journal goes on; a call appends only under the
  revision that it has read.  So its state is current when it appends, and what it
  appends is replayed, if the host's answer suits that state.
-/
import PaPlatform.Workflow.Written

namespace PaPlatform.Workflow.Replay

open Js Guard

variable {store : Store} {entries entries' : List Entry} {s s' : WorkflowRun} {host : Host} {rev : ℕ} {a : Answer}
  {call : Call} {r : Running} {e : Entry}

/-! ## Journals -/

/-- The entries have the revisions 1, 2, 3, ... -/
def Numbered (entries : List Entry) : Prop := entries.map (·.revision) = List.range' 1 entries.length

theorem Numbered.snoc (h : Numbered entries) (he : e.revision = entries.length + 1) : Numbered (entries ++ [e]) := by
  unfold Numbered at h ⊢
  rw [List.map_append, h, List.length_append, List.length_singleton, List.range'_concat]
  simp [he, Nat.add_comm]

theorem status_snoc (hne : entries ≠ []) :
    store.status (entries ++ [e]) = store.status entries >>= fun s => store.apply s e := by
  cases entries with
  | nil => exact absurd rfl hne
  | cons first rest =>
    simp only [Store.status, Journal.replayWorkflow, List.cons_append, Run.exec_snoc, bind_assoc]

theorem status_ne_nil (h : store.status entries = .ok s) : entries ≠ [] := by
  rintro rfl
  cases h

/-- A journal that replays was replayed before its last entry, too. -/
theorem status_beginning (hp : entries <+: entries') (hne : entries ≠ []) (h : Ok (store.status entries')) :
    Ok (store.status entries) := by
  obtain ⟨t, rfl⟩ := hp
  induction t using List.reverseRecOn with
  | nil => simpa using h
  | append_singleton t e ih =>
    rw [← List.append_assoc, status_snoc (by simp [hne])] at h
    obtain ⟨s', hs'⟩ := h
    obtain ⟨s, hs, -⟩ := bind_eq_ok.1 hs'
    exact ih ⟨s, hs⟩

theorem revision_run {j : Journal} {s₀ : WorkflowRun} {h : History} (hr : Run.Reaches j.apply s₀ h s) :
    s.revision = (h.getLast?.map (·.event.revision)).getD s₀.revision := by
  cases hr with
  | nil => rfl
  | snoc _ hs =>
    obtain ⟨t, -, rfl⟩ := map_eq_ok.1 hs
    simp

theorem admitted_start {j : Journal} {runId : String} {data : Json} (h : j.admitted runId data = .ok s) :
    s.runId = runId ∧ s.revision = 1 := by
  simp only [Journal.admitted, bind_eq_ok, throwIf_eq_ok, exists_const, pure_eq_ok] at h
  obtain ⟨a, -, sha, -, dsha, -, raw, -, d, -, subject, -, -, rev, -, caller, -, -, res, -, _, -, rfl⟩ := h
  exact ⟨rfl, rfl⟩

/-- What is known of a state that is read. -/
theorem status_facts (hs : store.status entries = .ok s) :
    Clean s ∧ s.runId = store.runId ∧ (Numbered entries → s.revision = entries.length) := by
  obtain ⟨s₀, h, hr⟩ := replays hs
  obtain ⟨first, rfl, -, h₀⟩ := hr.admitted
  refine ⟨clean_run (clean_admitted h₀) hr.reaches, ?_, fun hn => ?_⟩
  · have hlineage := congrArg Lineage.runId (lineage_run hr.reaches)
    exact hlineage.trans (admitted_start h₀).1
  · rw [Numbered, List.map_cons, List.map_map, List.length_cons, List.length_map, List.range'_succ,
      List.cons.injEq] at hn
    have hlast : h.getLast?.map (fun st => st.event.revision) = (List.range' 2 h.length).getLast? := by
      rw [← hn.2, List.getLast?_map]
      rfl
    rw [revision_run hr.reaches, hlast, List.getLast?_range', (admitted_start h₀).2, List.length_cons, List.length_map]
    split_ifs with hzero
    · rw [hzero]
      rfl
    · rw [Option.getD_some]
      omega

/-- The first half of a call keeps what it has read, with its revision. -/
theorem start_kept {j : Journal} (h : call.start j host rev s = .ok r) :
    r.call = call ∧ r.state = s ∧ r.expectedRevision = s.revision := by
  cases call with
  | decide stepId =>
    obtain ⟨c, hc, rfl⟩ := map_eq_ok.1 h
    simp only [WorkflowRun.decideStart, bind_eq_ok, throwIf_eq_ok, not_or, not_not, ne_eq] at hc
    obtain ⟨-, -, -, -, -, ⟨hrev, -⟩, -⟩ := hc
    exact ⟨rfl, rfl, hrev.symm⟩
  | recoverCancelled decisionId sha =>
    obtain ⟨c, hc, rfl⟩ := map_eq_ok.1 h
    simp only [WorkflowRun.recoverStart, bind_eq_ok, throwIf_eq_ok, not_or, not_not, ne_eq] at hc
    obtain ⟨-, -, -, -, -, ⟨hrev, -⟩, -⟩ := hc
    exact ⟨rfl, rfl, hrev.symm⟩
  | revoke decisionId =>
    obtain ⟨c, hc, rfl⟩ := map_eq_ok.1 h
    simp only [WorkflowRun.revokeStart, bind_eq_ok, throwIf_eq_ok, not_or, not_not, ne_eq] at hc
    obtain ⟨-, -, -, ⟨hrev, -⟩, -⟩ := hc
    exact ⟨rfl, rfl, hrev.symm⟩
  | adoptCoordinator sha =>
    obtain ⟨c, hc, rfl⟩ := map_eq_ok.1 h
    simp only [WorkflowRun.adoptStart, Host.adoptionCheck, bind_eq_ok, throwIf_eq_ok, not_or, not_not, ne_eq] at hc
    obtain ⟨-, -, -, ⟨-, -, -, ⟨hrev, -⟩, -⟩, -⟩ := hc
    exact ⟨rfl, rfl, hrev.symm⟩
  | requestStep stepId decisionId =>
    obtain ⟨c, hc, rfl⟩ := map_eq_ok.1 h
    simp only [WorkflowRun.requestStart, bind_eq_ok, throwIf_eq_ok, not_or, not_not, ne_eq] at hc
    obtain ⟨-, -, -, ⟨hrev, -⟩, -⟩ := hc
    exact ⟨rfl, rfl, hrev.symm⟩
  | reconcile intentId =>
    obtain ⟨c, hc, rfl⟩ := map_eq_ok.1 h
    simp only [WorkflowRun.reconcileStart, bind_eq_ok, throwIf_eq_ok, not_not, ne_eq] at hc
    obtain ⟨-, -, -, -, -, hrev, -⟩ := hc
    exact ⟨rfl, rfl, hrev.symm⟩
  | settle intentId =>
    obtain ⟨c, -, rfl⟩ := map_eq_ok.1 h
    exact ⟨rfl, rfl, rfl⟩

/-- The second half of a call appends one entry to a journal of the revision that it has read, if it appends. -/
theorem commit_kept (h : store.commit r a entries = .ok entries') :
    (entries' = entries ∧ ∀ s, Suits s r.call a) ∨ entries.length = r.expectedRevision ∧
      ∃ t d, entries' = entries ++ [⟨entries.length + 1, t, d⟩] := by
  have happend : ∀ make, store.append entries r.expectedRevision make = .ok entries' →
      (entries' = entries ∧ ∀ s, Suits s r.call a) ∨ entries.length = r.expectedRevision ∧
        ∃ t d, entries' = entries ++ [⟨entries.length + 1, t, d⟩] := by
    intro make h
    obtain ⟨hlen, t, d, -, rfl⟩ := append_eq_ok h
    exact Or.inr ⟨hlen, t, d, by rw [hlen]⟩
  unfold Store.commit at h
  split at h
  · simp only [Store.decideCommit, bind_eq_ok] at h
    obtain ⟨-, -, -, -, record, -, h⟩ := h
    exact happend _ h
  · simp only [Store.recoverCommit, bind_eq_ok] at h
    obtain ⟨-, -, -, -, -, -, -, -, record, -, h⟩ := h
    exact happend _ h
  · next hcall =>
    rcases approved_eq_ok h with h | h
    · exact Or.inl ⟨h, fun s => by rw [hcall]; trivial⟩
    · simp only [bind_eq_ok] at h
      obtain ⟨-, -, h⟩ := h
      exact happend _ h
  · next hcall =>
    simp only [Store.adoptCommit, bind_eq_ok] at h
    obtain ⟨-, -, -, -, h⟩ := h
    rcases approved_eq_ok h with h | h
    · exact Or.inl ⟨h, fun s => by rw [hcall]; trivial⟩
    · exact happend _ h
  · simp only [Store.requestCommit, bind_eq_ok] at h
    obtain ⟨step, -, -, -, h⟩ := h
    exact happend _ h
  · simp only [Store.reconcileCommit, bind_eq_ok] at h
    obtain ⟨intent, -, h⟩ := h
    exact happend _ h
  · simp only [Store.settleCommit, bind_eq_ok] at h
    obtain ⟨intent, -, step, -, outcome, -, -, -, h⟩ := h
    exact happend _ h

/-! ## Runs -/

/-- Each waiting call has read a beginning of the journal. -/
structure Kept (store : Store) (σ : Service) : Prop where
  numbered : Numbered σ.entries
  running : ∀ r ∈ σ.running, ∃ entries host rev s, entries <+: σ.entries ∧ store.status entries = .ok s ∧
    r.call.start store.toJournal host rev s = .ok r

theorem Kept.mono {σ σ' : Service} (hk : Kept store σ) (hn : Numbered σ'.entries) (hp : σ.entries <+: σ'.entries)
    (hr : ∀ r ∈ σ'.running, r ∈ σ.running) : Kept store σ' := by
  refine ⟨hn, fun r hmem => ?_⟩
  obtain ⟨entries, host, rev, s, hprefix, hrest⟩ := hk.running r (hr r hmem)
  exact ⟨entries, host, rev, s, hprefix.trans hp, hrest⟩

/-- The journal only grows, by numbered entries. -/
theorem act_grows {σ σ' : Service} {act : Action} (h : store.act σ act = .ok σ') :
    σ.entries <+: σ'.entries ∧ (Numbered σ.entries → Numbered σ'.entries) := by
  cases act with
  | begin host call rev =>
    simp only [Store.act, bind_eq_ok, pure_eq_ok] at h
    obtain ⟨-, -, -, -, rfl⟩ := h
    exact ⟨List.prefix_rfl, id⟩
  | finish index answer =>
    simp only [Store.act, bind_eq_ok, pure_eq_ok] at h
    obtain ⟨r, -, entries, hcommit, rfl⟩ := h
    rcases commit_kept hcommit with ⟨rfl, -⟩ | ⟨-, t, d, rfl⟩
    · exact ⟨List.prefix_rfl, id⟩
    · exact ⟨List.prefix_append _ _, fun hn => hn.snoc rfl⟩
  | revise data =>
    simp only [Store.act, bind_eq_ok, pure_eq_ok] at h
    obtain ⟨-, -, rfl⟩ := h
    exact ⟨List.prefix_append _ _, fun hn => hn.snoc rfl⟩

theorem kept_act {σ σ' : Service} {act : Action} (hk : Kept store σ) (h : store.act σ act = .ok σ') :
    Kept store σ' := by
  obtain ⟨hp, hn⟩ := act_grows h
  have hn' := hn hk.numbered
  cases act with
  | begin host call rev =>
    simp only [Store.act, bind_eq_ok, pure_eq_ok] at h
    obtain ⟨s, hs, r, hr, rfl⟩ := h
    refine ⟨hn', fun r' hr' => ?_⟩
    rcases List.mem_append.1 hr' with hr' | hr'
    · exact hk.running r' hr'
    · rw [List.mem_singleton.1 hr', (start_kept hr).1]
      exact ⟨σ.entries, host, rev, s, List.prefix_rfl, hs, hr⟩
  | finish index answer =>
    simp only [Store.act, bind_eq_ok, pure_eq_ok] at h
    obtain ⟨r, -, entries, -, rfl⟩ := h
    exact hk.mono hn' hp fun r => List.mem_of_mem_eraseIdx
  | revise data =>
    simp only [Store.act, bind_eq_ok, pure_eq_ok] at h
    obtain ⟨-, -, rfl⟩ := h
    exact hk.mono hn' hp fun r => id

/-- What `P` says of the state, the call and the answer, when a call goes on. -/
def Store.Finishes (store : Store) (P : WorkflowRun → Call → Answer → Prop) (st : Run.Step Service Action) : Prop :=
  ∀ index a r s, st.event = .finish index a → st.before.running[index]? = some r →
    store.status st.before.entries = .ok s → P s r.call a

/-- The call that goes on has read the current state. -/
theorem Kept.current {σ : Service} (hk : Kept store σ) (hmem : r ∈ σ.running)
    (hlen : σ.entries.length = r.expectedRevision) (hs : store.status σ.entries = .ok s) :
    ∃ host rev, r.call.start store.toJournal host rev s = .ok r := by
  obtain ⟨entries, host, rev, t, hp, ht, hstart⟩ := hk.running r hmem
  obtain ⟨-, -, hrev⟩ := start_kept hstart
  have hn : Numbered entries := by
    obtain ⟨rest, hrest⟩ := hp
    have hall := hk.numbered
    rw [Numbered, ← hrest, List.map_append, List.length_append, ← List.range'_append_1] at hall
    exact (List.append_inj hall (by simp)).1
  have hsame : entries = σ.entries := by
    refine hp.eq_of_length ?_
    rw [hlen, hrev, (status_facts ht).2.2 hn]
  subst hsame
  obtain rfl : t = s := Except.ok.inj (ht.symm.trans hs)
  exact ⟨host, rev, hstart⟩

/-- One action keeps a journal readable exactly if the answer suits. -/
theorem readable_act {σ σ' : Service} {act : Action} (hname : IsName store.runId) (hk : Kept store σ)
    (hne : σ.entries ≠ []) (hnew : store.Finishes NewId ⟨σ, act, σ'⟩) (h : store.act σ act = .ok σ') :
    Ok (store.status σ'.entries) ↔ Ok (store.status σ.entries) ∧ store.Finishes Suits ⟨σ, act, σ'⟩ := by
  cases act with
  | begin host call rev =>
    simp only [Store.act, bind_eq_ok, pure_eq_ok] at h
    obtain ⟨s, hs, r, hr, rfl⟩ := h
    refine ⟨fun hok => ⟨hok, ?_⟩, And.left⟩
    intro index a r s hev
    cases hev
  | finish index answer =>
    simp only [Store.act, bind_eq_ok, pure_eq_ok, require_eq_ok] at h
    obtain ⟨r, hr, entries, hcommit, rfl⟩ := h
    have hmem := List.mem_of_getElem? hr
    by_cases hok : Ok (store.status σ.entries)
    · obtain ⟨s, hs⟩ := hok
      have hsuits : store.Finishes Suits ⟨σ, .finish index answer, ⟨entries, σ.running.eraseIdx index⟩⟩ ↔
          Suits s r.call answer := by
        refine ⟨fun hall => hall index answer r s rfl hr hs, ?_⟩
        rintro hsuits _ _ r' s' hev hr' hs'
        cases hev
        obtain rfl : r = r' := Option.some.inj (hr.symm.trans hr')
        obtain rfl : s = s' := Except.ok.inj (hs.symm.trans hs')
        exact hsuits
      rw [hsuits]
      rcases commit_kept hcommit with ⟨rfl, hall⟩ | ⟨hlen, t, d, hentries⟩
      · exact iff_of_true ⟨s, hs⟩ ⟨⟨s, hs⟩, hall s⟩
      · obtain ⟨host, rev, hstart⟩ := hk.current hmem hlen hs
        obtain ⟨hclean, hrun, -⟩ := status_facts hs
        have hid := hnew index answer r s rfl hr hs
        rcases commit_accepts hs hrun hname hclean hid hstart hcommit with ⟨hsame, -⟩ | ⟨t, d, rfl, hiff⟩
        · rw [hsame] at hentries
          simp at hentries
        · rw [status_snoc hne, hs, ok_bind, hiff]
          exact ⟨fun hsuits => ⟨⟨s, rfl⟩, hsuits⟩, And.right⟩
    · refine iff_of_false (fun hafter => hok ?_) fun hboth => hok hboth.1
      rcases commit_kept hcommit with ⟨rfl, -⟩ | ⟨-, t, d, rfl⟩
      · exact hafter
      · exact status_beginning (List.prefix_append _ _) hne hafter
  | revise data =>
    simp only [Store.act, bind_eq_ok, pure_eq_ok] at h
    obtain ⟨s, hs, rfl⟩ := h
    refine iff_of_true ⟨s, hs⟩ ⟨status_beginning (List.prefix_append _ _) hne ⟨s, hs⟩, ?_⟩
    intro index a r s hev
    cases hev

/-- A journal that replays, and no call that waits. -/
structure Opens (store : Store) (σ : Service) : Prop where
  numbered : Numbered σ.entries
  readable : Ok (store.status σ.entries)
  idle : σ.running = []

theorem kept_run {σ₀ σ : Service} {h : List (Run.Step Service Action)} (h₀ : Opens store σ₀)
    (hr : Run.Reaches store.act σ₀ h σ) : Kept store σ ∧ σ.entries ≠ [] := by
  induction hr with
  | nil =>
    obtain ⟨s, hs⟩ := h₀.readable
    exact ⟨⟨h₀.numbered, by simp [h₀.idle]⟩, status_ne_nil hs⟩
  | @snoc h σ σ' act _ hs ih =>
    refine ⟨kept_act ih.1 hs, fun hnil => ih.2 ?_⟩
    have hp := (act_grows hs).1
    rw [hnil] at hp
    exact List.prefix_nil.1 hp

/-- **The service writes what it can read.**  However its calls interleave, the journal of a run replays exactly if
    no host gave a captured decision evidence that an earlier decision names, or a result more than 256 references. -/
theorem journal_readable {σ₀ σ : Service} {h : List (Run.Step Service Action)} (hname : IsName store.runId)
    (h₀ : Opens store σ₀) (hr : Run.Reaches store.act σ₀ h σ) (hnew : ∀ st ∈ h, store.Finishes NewId st) :
    (∃ s, store.status σ.entries = .ok s) ↔ ∀ st ∈ h, store.Finishes Suits st := by
  induction hr with
  | nil => exact iff_of_true h₀.readable (by simp)
  | @snoc h σ σ' act hr hs ih =>
    obtain ⟨hk, hne⟩ := kept_run h₀ hr
    have hih := ih fun st hst => hnew st (List.mem_append_left _ hst)
    have hact := readable_act hname hk hne (hnew _ (by simp)) hs
    rw [List.forall_mem_append, List.forall_mem_singleton, ← hih]
    exact hact

/-! ## A sample -/

namespace ServiceSample

open ReplaySample (journal settling)

/-- The sample journal, before the result of the publication. -/
def pairStore : Store := { journal with runId := "wf-1", fits := fun _ => true }

def operator : Host where
  authenticate := WorkflowCaller.json ReplaySample.caller
  continues _ _ := false
  evidence _ := true
  inactive _ := true
  documents _ := true
  owner _ := true
  admits _ _ := true
  commands := true

def published : Answer where
  before := operator
  within := operator
  capture := ⟨.null, .null, .null⟩
  now := .null
  uuid := ⟨"", by decide⟩
  outcome := .str "completed"
  evidence := [ReplaySample.evidence "pair-1"]

def opening : Service := ⟨ReplaySample.entries.take 3, []⟩

theorem settling_eq_true (h : settling s = true) : ∃ intent step,
    s.pending.find? (·.intentId == "intent-1") = some intent ∧ s.step intent.stepId = some step ∧
      step.kind = .publication ∧ s.coordinatorQueueOnly = false ∧ s.workflowCoordinator = ReplaySample.caller ∧
      s.subjectCaller ReplaySample.caller := by
  simp only [settling, Bool.and_eq_true, Bool.not_eq_true', beq_iff_eq, decide_eq_true_eq, Option.any_eq_true] at h
  obtain ⟨⟨⟨⟨intent, hintent, step, hstep, hkind⟩, hqueue⟩, hcoordinator⟩, hcaller⟩ := h
  exact ⟨intent, step, hintent, hstep, hkind, hqueue, hcoordinator, hcaller⟩

theorem opening_status : ∃ s, pairStore.status opening.entries = .ok s ∧ settling s = true :=
  ReplaySample.accepted_settling

theorem opening_numbered : Numbered opening.entries := rfl

/-- The publication is settled, by one call. -/
theorem settles : ∃ h σ, Run.Reaches pairStore.act opening h σ ∧ h ≠ [] ∧
    ∀ st ∈ h, pairStore.Finishes NewId st := by
  obtain ⟨s, hs, hsettling⟩ := opening_status
  obtain ⟨intent, step, hintent, hstep, hkind, hqueue, hcoordinator, hcaller⟩ := settling_eq_true hsettling
  have hread : parseCaller operator.authenticate = some ReplaySample.caller := by decide +kernel
  let r : Running := ⟨.settle "intent-1", s, s.revision, ReplaySample.caller⟩
  let waiting : Service := { opening with running := [r] }
  have hbegin : pairStore.act opening (.begin operator (.settle "intent-1") 3) = .ok waiting := by
    simp only [Store.act, bind_eq_ok, pure_eq_ok, hs, Except.ok.injEq, exists_eq_left']
    refine ⟨r, map_eq_ok.2 ⟨ReplaySample.caller, ?_, rfl⟩, rfl⟩
    simp only [WorkflowRun.settleStart, Host.caller, bind_eq_ok, throwIf_eq_ok, exists_const, pure_eq_ok, require_eq_ok,
      contract_eq_ok]
    refine ⟨intent, hintent, ?_, ReplaySample.caller, hread, not_not.2 ?_, rfl⟩
    · simp [hqueue]
    · rw [WorkflowRun.exactCaller, hcoordinator]
      exact ⟨hcaller, rfl, rfl, Or.inl ⟨rfl, rfl⟩⟩
  have hfinish : ∃ entries, pairStore.settleCommit r "intent-1" published opening.entries = .ok entries := by
    have hrev : r.expectedRevision = 3 := (status_facts hs).2.2 opening_numbered
    obtain ⟨e, he⟩ : ∃ e, evidenceRef (ReplaySample.evidence "pair-1") = some e :=
      Option.isSome_iff_exists.1 (by decide +kernel)
    refine ⟨opening.entries ++ [⟨3 + 1, .result, .obj [("intentId", .str "intent-1"), ("outcome", .str "completed"),
      ("evidence", .arr [EvidenceRef.json e])]⟩], ?_⟩
    simp only [Store.settleCommit, Store.append, bind_eq_ok, throwIf_eq_ok, exists_const, require_eq_ok, contract_eq_ok,
      pure_eq_ok]
    refine ⟨intent, hintent, step, hstep, .completed, ?_, by simp [published], ?_⟩
    · rw [hkind]
      rfl
    · have hpending : (s.pending.any fun i => i.intentId == "intent-1") = true :=
        List.any_eq_true.2 ⟨intent, List.mem_of_find?_eq_some hintent, by simpa using List.find?_some hintent⟩
      have hrefs : published.evidence.mapM evidenceRef = some [e] := by
        rw [published, List.mapM_cons, he]
        rfl
      refine ⟨?_, ⟨.result, _⟩, ⟨s, hs, by simp [hpending], [e], hrefs, rfl⟩, ?_, ?_⟩
      · rw [hrev]
        exact not_not.2 rfl
      · simp [pairStore]
      · rw [hrev]
        rfl
  obtain ⟨entries, hfinish⟩ := hfinish
  have hact : pairStore.act waiting (.finish 0 published) = .ok ⟨entries, []⟩ := by
    simp only [Store.act, bind_eq_ok, pure_eq_ok, require_eq_ok]
    exact ⟨r, rfl, entries, hfinish, rfl⟩
  refine ⟨_, _, .snoc (.snoc .nil hbegin) hact, by simp, ?_⟩
  intro st hst index a r' s' hevent hr' hs'
  simp only [List.nil_append, List.cons_append, List.mem_cons, List.not_mem_nil, or_false] at hst
  rcases hst with rfl | rfl
  · cases hevent
  · obtain ⟨rfl, rfl⟩ := Action.finish.inj hevent
    have hcall : r'.call = .settle "intent-1" := congrArg Running.call (Option.some.inj hr').symm
    show NewId s' r'.call published
    rw [hcall]
    exact trivial

end ServiceSample

theorem journal_readable_sample : ∃ h σ, h ≠ [] ∧ Run.Reaches ServiceSample.pairStore.act ServiceSample.opening h σ ∧
    ((∃ s, ServiceSample.pairStore.status σ.entries = .ok s) ↔
      ∀ st ∈ h, ServiceSample.pairStore.Finishes Suits st) := by
  obtain ⟨h, σ, hr, hne, hnew⟩ := ServiceSample.settles
  obtain ⟨s, hs, -⟩ := ServiceSample.opening_status
  have hname : IsName ServiceSample.pairStore.runId := isName_of_isId (by decide)
  exact ⟨h, σ, hne, hr, journal_readable hname ⟨ServiceSample.opening_numbered, ⟨s, hs⟩, rfl⟩ hr hnew⟩

end PaPlatform.Workflow.Replay
