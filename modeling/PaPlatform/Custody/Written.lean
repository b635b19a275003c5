/-
  What the custody service writes can be read back.

  * `Replays`: the journal reads back with a given state, whose restart still
    fits into the journal;
  * `wp_perform`: a call on a journal that replays leaves one that replays, with
    the state that the call returned;
  * `written_is_replayed`: the same after any sequence of calls.
-/
import PaPlatform.Custody.Service

namespace PaPlatform.Custody

open Js Guard Effect

variable {sha256 : Bytes → Sha256} {b : ExecutionBinding} {host : HostAnswers} {records : RecordStore}
  {s s' : ExecutionState} {r : Replayed} {actor : ExecutionHolder} {c : ExecutionCommand}
  {now : Timestamp}

/-! ## The budget of a restart -/

/-- A recorded launch leaves room for its intent, and a recorded intent for its
    restart. -/
structure RestartBudget (s : ExecutionState) : Prop where
  pending : s.pendingRestart.isSome → s.sequence < maxEvents
  launch : s.restartLaunch.isSome → s.pendingRestart = none →
    s.sequence < maxEventsBeforeIntent ∧ s.sequence + 1 < maxEvents

theorem Settled.budget (h : Settled s) : RestartBudget s := by
  refine ⟨fun hp => ?_, fun hl => ?_⟩
  · simp [h.pendingRestart] at hp
  · simp [h.restartLaunch] at hl

/-- The commands other than a handoff are accepted in settled states only, and
    lead to settled states. -/
theorem Applied.settled (ha : Applied s actor now c s') (hc : c.isHandoff = false) : Settled s' := by
  cases ha with
  | restartLaunch | restartIntent | restart => cases hc
  | begin hw => exact ⟨by simpa using hw.pendingRestart, by simpa using hw.restartLaunch⟩
  | finish hw => exact ⟨hw.pendingRestart, hw.restartLaunch⟩
  | settle hs => exact ⟨hs.pendingRestart, hs.restartLaunch⟩
  | plan hi | advance hi | selectDirect hi | selectChild hi | replaceChild hi | selectReview hi
  | attempt hi | resolve hi | candidate hi | accept hi => exact ⟨hi.pendingRestart, hi.restartLaunch⟩

/-- The caps of the service keep the budget. -/
theorem Applied.budget (ha : Applied s actor now c s')
    (hc : c.isRestartIntent = true → s.sequence < maxEventsBeforeIntent) : RestartBudget s' := by
  by_cases hh : c.isHandoff = false
  · exact (ha.settled hh).budget
  · cases ha with
    | restartLaunch _ hset _ _ _ hlt =>
      refine ⟨fun hp => ?_, fun _ _ => ?_⟩
      · simp [ExecutionState.tick, hset.pendingRestart] at hp
      · simp only [maxEventsBeforeIntent, maxEvents]
        change s.sequence + 1 < 255 ∧ s.sequence + 1 + 1 < 256
        omega
    | restartIntent =>
      have hlt := hc rfl
      refine ⟨fun _ => ?_, fun _ hp => by cases hp⟩
      simp only [maxEventsBeforeIntent] at hlt
      change s.sequence + 1 < 256
      omega
    | restart => exact (Settled.mk rfl rfl).budget
    | _ => simp [ExecutionCommand.isHandoff] at hh

/-! ## Journals that read back -/

/-- The journal reads back with the state `s`, and has room for its restart. -/
structure Replays (sha256 : Bytes → Sha256) (b : ExecutionBinding) (records : RecordStore)
    (s : ExecutionState) : Prop where
  reads : ∃ r, readExecutionJournal sha256 records b = .ok r ∧ r.state = s
  budget : RestartBudget s

/-- The directories that the service can leave: without a record of the
    lineage, or with a journal that reads back. -/
def Good (sha256 : Bytes → Sha256) (b : ExecutionBinding) (records : RecordStore) : Prop :=
  lineageNames sha256 records b = [] ∨ ∃ s, Replays sha256 b records s

/-- What a failed call leaves: the directory as it was, or a journal that reads
    back. -/
def Spared (sha256 : Bytes → Sha256) (b : ExecutionBinding) (records records' : RecordStore) : Prop :=
  records' = records ∨ ∃ s, Replays sha256 b records' s

theorem Spared.refl : Spared sha256 b records records := Or.inl rfl

theorem Good.spared {records' : RecordStore} (hg : Good sha256 b records)
    (h : Spared sha256 b records records') : Good sha256 b records' := by
  rcases h with rfl | h
  · exact hg
  · exact Or.inr h

/-- A directory whose journal is accepted replays within the budget. -/
theorem Good.replays (hg : Good sha256 b records)
    (hr : readExecutionJournal sha256 records b = .ok r) : Replays sha256 b records r.state := by
  rcases hg with hnil | ⟨s, ⟨r', hr', rfl⟩, hb⟩
  · simp [readExecutionJournal, hnil, throwIf] at hr
  · obtain rfl : r' = r := by simpa [hr'] using hr
    exact ⟨⟨r', hr', rfl⟩, hb⟩

/-- The intent of a lineage alone reads back with the initial state. -/
theorem readExecutionJournal_intent (hb : b.Accepted) (hnil : lineageNames sha256 records b = [])
    (t : Timestamp) :
    ∃ r, readExecutionJournal sha256
      (records.insert (intentName sha256 b) (executionIntent b t)) b = .ok r ∧
      r.state = initialState b t := by
  have hnew : intentName sha256 b ∉ records := by
    intro hin
    have hmem : intentName sha256 b ∈ lineageNames sha256 records b := mem_lineageNames.2 ⟨hin, rfl⟩
    simp [hnil] at hmem
  have hkeys : (records.insert (intentName sha256 b) (executionIntent b t)).keys =
      intentName sha256 b :: records.keys := by
    rw [AList.keys_insert, List.erase_of_not_mem (by simpa [AList.mem_keys] using hnew)]
  have hnames : lineageNames sha256 (records.insert (intentName sha256 b) (executionIntent b t)) b =
      [intentName sha256 b] := by
    have hid : (intentName sha256 b).id = executionId sha256 b := rfl
    unfold lineageNames at hnil ⊢
    rw [hkeys, List.filter_cons_of_pos (by simp [hid]), hnil]
  have hevents : eventNames sha256
      (records.insert (intentName sha256 b) (executionIntent b t)) b = [] := by
    simp [eventNames, hnames]
  refine ⟨⟨initialState b t, executionIntent b t, []⟩, ?_, rfl⟩
  simp [readExecutionJournal, hnames, hevents, AList.lookup_insert, readIntent_executionIntent hb,
    throwIf, require, replayEvents]

/-! ## What a call keeps -/

/-- The call returns the state of the journal that it leaves, or fails without
    harm. -/
def Keeps (sha256 : Bytes → Sha256) (b : ExecutionBinding) (records : RecordStore)
    (call : Call ExecutionState) (records₁ : RecordStore) : Prop :=
  wp call (fun s records' => Replays sha256 b records' s)
    (fun _ records' => Spared sha256 b records records') records₁

theorem Keeps.locked {call : Call ExecutionState} {records₁ : RecordStore}
    (h : Keeps sha256 b records call records₁) (h₁ : Spared sha256 b records records₁) :
    Keeps sha256 b records (locked host call) records₁ := by
  unfold Keeps Custody.locked
  simp only [wp_bind, wp_failIf, wp_pure]
  refine ⟨fun _ => h₁, fun _ => wp_mono h ?_ fun _ _ he => he⟩
  intro s records' hs
  exact ⟨fun _ => Or.inr ⟨s, hs⟩, fun _ => hs⟩

theorem keeps_load {f : Replayed → Call ExecutionState}
    (h : ∀ r, readExecutionJournal sha256 records b = .ok r → Keeps sha256 b records (f r) records) :
    Keeps sha256 b records (load sha256 b >>= f) records := by
  unfold Keeps load at *
  simp only [wp_bind, wp_get, wp_liftM]
  exact ⟨fun r hr => h r hr, fun _ _ => Spared.refl⟩

theorem keeps_demand {α : Type} {o : Option α} {e : WorkflowFailure} {f : α → Call ExecutionState}
    (h : ∀ a, o = some a → Keeps sha256 b records (f a) records) :
    Keeps sha256 b records (demand o e >>= f) records := by
  unfold Keeps at *
  simp only [wp_bind, wp_demand]
  exact ⟨fun _ => Spared.refl, h⟩

theorem keeps_failIf {p : Prop} [Decidable p] {e : WorkflowFailure}
    {f : PUnit → Call ExecutionState} (h : ¬ p → Keeps sha256 b records (f ⟨⟩) records) :
    Keeps sha256 b records (failIf p e >>= f) records := by
  unfold Keeps at *
  simp only [wp_bind, wp_failIf]
  exact ⟨fun _ => Spared.refl, h⟩

theorem keeps_nativeCheck {answer : Bool} {f : PUnit → Call ExecutionState}
    (h : Keeps sha256 b records (f ⟨⟩) records) :
    Keeps sha256 b records (nativeCheck answer >>= f) records :=
  keeps_failIf fun _ => h

theorem keeps_transition {f : ExecutionState → Call ExecutionState}
    (h : ∀ s', transition s actor c now = .ok s' → Keeps sha256 b records (f s') records) :
    Keeps sha256 b records ((liftM (transition s actor c now) : Call ExecutionState) >>= f)
      records := by
  unfold Keeps at *
  simp only [wp_bind, wp_liftM]
  exact ⟨h, fun _ _ => Spared.refl⟩

theorem keeps_publish {fault : Option StorageFault} {name : RecordName} {value : Json}
    {f : PUnit → Call ExecutionState} (hn : records.lookup name = none)
    (hgood : Replays sha256 b (records.insert name value) s)
    (h : Keeps sha256 b records (f ⟨⟩) (records.insert name value)) :
    Keeps sha256 b records (publish fault name value >>= f) records := by
  unfold Keeps at *
  rw [wp_bind]
  exact wp_publish hn h (fun _ => Or.inr ⟨s, hgood⟩) fun _ => Spared.refl

/-- An accepted event, published, keeps the journal readable. -/
theorem keeps_publishEvent {project : Option (Bool × Bool)}
    (hr : readExecutionJournal sha256 records b = .ok r) (hlt : r.state.sequence < maxEvents)
    (hc : c.Consistent sha256) (hs : transition r.state actor c now = .ok s)
    (hcap : c.isRestartIntent = true → r.state.sequence < maxEventsBeforeIntent) :
    Keeps sha256 b records (publishEvent sha256 b host project r actor c now s) records := by
  have happ : Applied r.state actor now c s := (transition_applied hs).2
  have hnew : records.lookup (eventName sha256 b s.sequence) = none := by
    rw [AList.lookup_eq_none, happ.sequence]
    exact (readExecutionJournal_ok hr).2.2.1
  have hgood : Replays sha256 b (records.insert (eventName sha256 b s.sequence)
      (ExecutionEvent.mk (executionId sha256 b) s.sequence (digestOf sha256 r.previous) actor c
        now).toJson) s :=
    ⟨readExecutionJournal_append hr hlt hc hs, happ.budget hcap⟩
  unfold publishEvent
  extract_lets event
  refine keeps_nativeCheck (keeps_nativeCheck (keeps_publish hnew hgood ?_))
  simp only [Keeps, nativeCheck, wp_bind, wp_failIf, wp_pure]
  exact ⟨fun _ => Or.inr ⟨s, hgood⟩, fun _ => hgood⟩

/-! ## The calls -/

theorem keeps_initializeCustody (hb : b.Accepted) (hg : Good sha256 b records) (actorInput : Json) :
    Keeps sha256 b records (initializeCustody sha256 b host actorInput) records := by
  have hload : ∀ records₁, Good sha256 b records₁ → Spared sha256 b records records₁ →
      Keeps sha256 b records (do
        let loaded ← load sha256 b
        nativeCheck host.reaffirm
        return loaded.state) records₁ := by
    intro records₁ hg₁ hs₁
    unfold Keeps load nativeCheck
    simp only [wp_bind, wp_get, wp_liftM, wp_failIf, wp_pure]
    exact ⟨fun r hr => ⟨fun _ => hs₁, fun _ => hg₁.replays hr⟩, fun _ _ => hs₁⟩
  refine keeps_demand fun actor _ => Keeps.locked ?_ Spared.refl
  refine keeps_nativeCheck (keeps_nativeCheck ?_)
  unfold Keeps
  rw [wp_bind, wp_get]
  split_ifs with hnil
  · exact keeps_load fun r _ => keeps_failIf fun _ => hload records hg Spared.refl
  · rw [not_not] at hnil
    refine keeps_failIf fun _ => keeps_demand fun t _ => keeps_failIf fun _ => ?_
    have hgood : Replays sha256 b (records.insert (intentName sha256 b) (executionIntent b t))
        (initialState b t) :=
      ⟨readExecutionJournal_intent hb hnil t, (Settled.mk rfl rfl).budget⟩
    have hnew : records.lookup (intentName sha256 b) = none := by
      rw [AList.lookup_eq_none]
      intro hin
      have hmem : intentName sha256 b ∈ lineageNames sha256 records b := mem_lineageNames.2 ⟨hin, rfl⟩
      simp [hnil] at hmem
    exact keeps_publish hnew hgood (hload _ (Or.inr ⟨_, hgood⟩) (Or.inr ⟨_, hgood⟩))

theorem keeps_apply (actorInput input : Json) :
    Keeps sha256 b records (Custody.apply sha256 b host actorInput input) records := by
  refine keeps_demand fun actor _ => keeps_demand fun c hc => keeps_failIf fun hhandoff => ?_
  refine Keeps.locked ?_ Spared.refl
  refine keeps_nativeCheck (keeps_nativeCheck (keeps_load fun r hr => ?_))
  refine keeps_failIf fun hlt => keeps_failIf fun _ => keeps_demand fun now _ => ?_
  refine keeps_transition fun s hs => ?_
  refine keeps_nativeCheck (keeps_nativeCheck (keeps_nativeCheck ?_))
  refine keeps_publishEvent hr (by omega) (parseCommand_consistent hc) hs fun hi => ?_
  cases c <;> simp_all [ExecutionCommand.isRestartIntent, ExecutionCommand.isHandoff]

theorem restart_consistent {action : RestartAction} {previousOwner : ExecutionHolder}
    {evidence : SourceVersion} {c : ExecutionCommand}
    (h : parseCommand sha256 (ExecutionCommand.restart action previousOwner evidence).toJson =
      some c) : c = .restart action previousOwner evidence ∧ c.Consistent sha256 := by
  have hc : (ExecutionCommand.restart action previousOwner evidence).Consistent sha256 := trivial
  rw [parseCommand_toJson hc, Option.some.injEq] at h
  subst h
  exact ⟨rfl, hc⟩

theorem keeps_restart (actorInput expectedSequence evidenceInput : Json) :
    Keeps sha256 b records (Custody.restart sha256 b host actorInput expectedSequence evidenceInput)
      records := by
  refine keeps_demand fun actor _ => keeps_demand fun evidence _ => keeps_demand fun expected _ => ?_
  refine keeps_demand fun assertRestart _ => Keeps.locked ?_ Spared.refl
  refine keeps_load fun r hr => keeps_failIf fun hlt => keeps_demand fun c hc => ?_
  refine keeps_nativeCheck (keeps_nativeCheck (keeps_demand fun now _ => ?_))
  refine keeps_transition fun s hs => keeps_nativeCheck (keeps_nativeCheck ?_)
  obtain ⟨rfl, hcons⟩ := restart_consistent hc
  rw [not_or] at hlt
  exact keeps_publishEvent hr (by omega) hcons hs fun hi => by simp [ExecutionCommand.isRestartIntent] at hi

theorem keeps_recordRestartIntent (hg : Good sha256 b records)
    (actorInput expectedSequence evidenceInput : Json) (action : RestartAction) :
    Keeps sha256 b records
      (recordRestartIntent sha256 b host actorInput expectedSequence evidenceInput action)
      records := by
  refine keeps_demand fun actor _ => keeps_demand fun evidence _ => keeps_demand fun expected _ => ?_
  refine keeps_demand fun assertRestart _ => Keeps.locked ?_ Spared.refl
  refine keeps_load fun r hr => keeps_failIf fun _ => keeps_failIf fun hlt => ?_
  refine keeps_demand fun c hc => keeps_nativeCheck (keeps_nativeCheck (keeps_demand fun now _ => ?_))
  obtain ⟨rfl, hcons⟩ := restart_consistent hc
  have hret : Keeps sha256 b records (pure r.state) records :=
    wp_pure.2 (hg.replays hr)
  split_ifs with hreuse
  · exact keeps_nativeCheck (keeps_nativeCheck (keeps_nativeCheck hret))
  · refine keeps_transition fun s hs => keeps_nativeCheck (keeps_nativeCheck ?_)
    have hcap : r.state.sequence < maxEventsBeforeIntent := by
      by_contra hge
      exact hlt ⟨hreuse, by omega⟩
    exact keeps_publishEvent hr (by simp only [maxEventsBeforeIntent, maxEvents] at *; omega) hcons hs
      fun _ => hcap

/-- **A call on a journal that replays leaves one that replays**, with the state
    that the call returned. -/
theorem keeps_perform (hb : b.Accepted) (hg : Good sha256 b records) (request : Request) :
    Keeps sha256 b records (request.perform sha256 b host) records := by
  cases request with
  | initialized actor => exact keeps_initializeCustody hb hg actor
  | apply actor command => exact keeps_apply actor command
  | reserveRestartLaunch actor expected evidence =>
    exact keeps_recordRestartIntent hg actor expected evidence .restartLaunch
  | prepareRestart actor expected evidence =>
    exact keeps_recordRestartIntent hg actor expected evidence .restartIntent
  | restart actor expected evidence => exact keeps_restart actor expected evidence

/-! ## Sequences of calls -/

/-- A call on a good directory leaves a good one. -/
theorem Good.perform (hb : b.Accepted) (hg : Good sha256 b records) (request : Request)
    (host : HostAnswers) : Good sha256 b (outcome (request.perform sha256 b host) records).2 := by
  have hk : Keeps sha256 b records (request.perform sha256 b host) records :=
    keeps_perform hb hg request
  rcases hm : outcome (request.perform sha256 b host) records with ⟨e | s, records'⟩
  · exact hg.spared ((wp_of_error hm).1 hk)
  · exact Or.inr ⟨s, (wp_of_ok hm).1 hk⟩

theorem good_records (hb : b.Accepted) (hg : Good sha256 b records)
    (calls : List (Request × HostAnswers)) : Good sha256 b (Custody.records sha256 b records calls) := by
  induction calls generalizing records with
  | nil => exact hg
  | cons call calls ih => exact ih (hg.perform hb call.1 call.2)

/-- A good directory holds at most `maxEvents` events of the lineage. -/
theorem Good.length_le (hg : Good sha256 b records) :
    (eventNames sha256 records b).length ≤ maxEvents := by
  rcases hg with hnil | ⟨s, ⟨r, hr, -⟩, -⟩
  · simp [eventNames, hnil]
  · obtain ⟨hlen, hle, -⟩ := readExecutionJournal_ok hr
    rw [hlen]
    exact hle

/-- **What is written can be replayed**: after any sequence of calls with any
    answers of the host, the next call leaves a journal that is accepted if it
    wrote anything, and that replays to the state it returned; the journal is
    never longer than its cap, and a recorded restart always fits into it. -/
theorem written_is_replayed (hb : b.Accepted) {records₀ : RecordStore}
    (hnew : lineageNames sha256 records₀ b = []) (calls : List (Request × HostAnswers))
    (request : Request) (host : HostAnswers) :
    let before := Custody.records sha256 b records₀ calls
    let after := outcome (request.perform sha256 b host) before
    (after.2 ≠ before → ∃ r, readExecutionJournal sha256 after.2 b = .ok r) ∧
      (∀ s, after.1 = .ok s → ∃ r, readExecutionJournal sha256 after.2 b = .ok r ∧ r.state = s) ∧
      (eventNames sha256 after.2 b).length ≤ maxEvents ∧
      ∀ r, readExecutionJournal sha256 after.2 b = .ok r → RestartBudget r.state := by
  intro before after
  have hg : Good sha256 b before := good_records hb (Or.inl hnew) calls
  have hg' : Good sha256 b after.2 := hg.perform hb request host
  have hk : Keeps sha256 b before (request.perform sha256 b host) before :=
    keeps_perform hb hg request
  refine ⟨fun hne => ?_, fun s hs => ?_, hg'.length_le, fun r hr => (hg'.replays hr).budget⟩
  · rcases hm : outcome (request.perform sha256 b host) before with ⟨e | s, records'⟩
    · rcases (wp_of_error hm).1 hk with heq | ⟨s, ⟨r, hr, -⟩, -⟩
      · exact absurd (by simp [after, hm, heq]) hne
      · exact ⟨r, by simpa [after, hm] using hr⟩
    · obtain ⟨r, hr, -⟩ := ((wp_of_ok hm).1 hk).reads
      exact ⟨r, by simpa [after, hm] using hr⟩
  · have hm : outcome (request.perform sha256 b host) before = (.ok s, after.2) := Prod.ext hs rfl
    exact ((wp_of_ok hm).1 hk).reads

/-- A host that agrees to everything. -/
def Sample.answers : HostAnswers where
  lock := true
  unlock := true
  authorize := true
  assertLive := true
  assertLiveHolder := true
  now := .str start.1
  verifyEvidence _ _ := true
  assertHandover := true
  assertRestart := some true
  reaffirm := true
  projectCustody := none
  storage := none

theorem written_is_replayed_initialized :
    let request := Request.initialized Sample.launcher.toJson
    let after := outcome (request.perform (fun _ => Sample.sha) Sample.binding Sample.answers) ∅
    after.1.isOk = true ∧
      ∀ s, after.1 = .ok s →
        ∃ r, readExecutionJournal (fun _ => Sample.sha) after.2 Sample.binding = .ok r ∧
          r.state = s :=
  ⟨by decide +kernel, (written_is_replayed Sample.binding_accepted rfl [] _ _).2.1⟩

end PaPlatform.Custody
