/-
  The children of sessions that are gone.

  `terminate` sends `SIGTERM` and starts a timer, but the timer sends `SIGKILL`
  only if no signal was sent before, and `handleError` ends a session without any
  signal.  So a running child outlives its session exactly if its session is
  ended by a `SIGTERM` that is sent, or by an error event.
-/
import PaPlatform.Hub.Views

namespace PaPlatform.Hub

open Js SessionManager

variable {o : SessionManagerOptions} {h h' : SessionManager} {e : Event} {id : SessionId} {v : View}
  {l : List (Run.Step SessionManager Event)} {sent : Bool} {reason : TerminateReason}

/-- The child exited, or was sent `SIGKILL`, or has a timer whose firing sends it. -/
def ChildProcess.Covered (c : ChildProcess) : Prop :=
  c.running = false ∨ c.sigkill = true ∨ c.timer = true ∧ ∀ sent, (c.escalate sent).sigkill = true

/-- No child outlives its session uncovered. -/
def SessionManager.Covered (h : SessionManager) : Prop :=
  ∀ id s t, h.child id = some (s, t) → id ∉ h.sessions → t.child.Covered

/-- The event ends the session `id` and starts no timer that kills the child. -/
def Event.Leaves (id : SessionId) : Event → Prop
  | .stop id' sent | .disconnect id' sent => id' = id ∧ sent = true
  | .cleanup sent => sent id = true
  | .error id' _ => id' = id
  | _ => False

/-- The event leaves a running child of a session. -/
def Event.Abandons (h : SessionManager) (e : Event) : Prop :=
  ∃ id ∈ h.sessions, ∃ s t, h.child id = some (s, t) ∧ t.child.running = true ∧ e.Leaves id

/-- What holds of every session: the child of a session in the map was sent no
    signal, and the others are covered. -/
structure View.Guarded (v : View) : Prop where
  listed : v.listed = true → v.terminated = false ∧ v.stream.child.killed = false ∧
    v.stream.child.timer = false ∧ v.stream.child.sigkill = false
  exited : v.stream.child.exitCode ≠ none → v.stream.child.running = false
  covered : v.listed = false → v.stream.child.Covered

theorem View.Fresh.guarded (hf : v.Fresh) : v.Guarded := by
  obtain ⟨launched, hc⟩ := hf.child
  refine ⟨fun _ => ⟨hf.open_, by rw [hc]; exact ⟨rfl, rfl, rfl⟩⟩, fun hx => ?_, fun hl => ?_⟩
  · rw [hc] at hx
    exact absurd rfl hx
  · rw [hf.listed] at hl
    cases hl

/-- A change that keeps the child, and the map of sessions. -/
theorem View.Guarded.same {v' : View} (hg : v.Guarded) (hl : v'.listed = v.listed)
    (ht : v'.terminated = v.terminated) (hc : v'.stream.child = v.stream.child) : v'.Guarded := by
  refine ⟨fun h => ?_, fun h => ?_, fun h => ?_⟩
  · rw [ht, hc]
    exact hg.listed (hl ▸ h)
  · rw [hc] at h ⊢
    exact hg.exited h
  · rw [hc]
    exact hg.covered (hl ▸ h)

/-! ## Ended sessions -/

/-- What `stop`, `disconnect` and `cleanup` leave of a session that is running. -/
theorem stop_child (hg : v.Guarded) (hl : v.listed = true) :
    (v.stop reason sent).listed = false ∧
      (v.stream.child.exitCode ≠ none ∧ (v.stop reason sent).stream.child = v.stream.child ∨
        v.stream.child.exitCode = none ∧
          (v.stop reason sent).stream.child = { v.stream.child.kill sent with timer := true }) := by
  obtain ⟨ht, hk, -, -⟩ := hg.listed hl
  unfold View.stop View.terminate
  rw [if_pos hl, if_neg (by simp [ht])]
  by_cases hx : v.stream.child.exitCode = none
  · rw [if_neg (by simp [hx, hk])]
    exact ⟨rfl, Or.inr ⟨hx, rfl⟩⟩
  · rw [if_pos (Or.inl hx)]
    exact ⟨rfl, Or.inl ⟨hx, rfl⟩⟩

/-- A child that was sent no signal is killed by its timer. -/
theorem escalate_sigkill {c : ChildProcess} (hx : c.exitCode = none) (hk : c.killed = false) (sent : Bool) :
    (c.escalate sent).sigkill = true := by
  unfold ChildProcess.escalate
  rw [if_pos ⟨hx, hk⟩]

theorem View.Guarded.stop (hg : v.Guarded)
    (hs : v.listed = true → v.stream.child.running = true → sent = false) : (v.stop reason sent).Guarded := by
  by_cases hl : v.listed = true
  · obtain ⟨-, hk, -, -⟩ := hg.listed hl
    obtain ⟨hul, ⟨hx, hc⟩ | ⟨hx, hc⟩⟩ := stop_child hg hl
    · refine ⟨fun h => absurd h (by rw [hul]; simp), fun h => ?_, fun _ => ?_⟩
      · rw [hc] at h ⊢
        exact hg.exited h
      · rw [hc]
        exact Or.inl (hg.exited hx)
    · refine ⟨fun h => absurd h (by rw [hul]; simp), fun h => ?_, fun _ => ?_⟩
      · rw [hc] at h
        exact absurd hx h
      · rw [hc]
        by_cases hr : v.stream.child.running = true
        · have hks : ({ v.stream.child.kill sent with timer := true } : ChildProcess).killed = false := by
            show (v.stream.child.killed || (v.stream.child.running && sent)) = false
            rw [hk, hs hl hr, Bool.and_false, Bool.or_false]
          exact Or.inr (Or.inr ⟨rfl, escalate_sigkill hx hks⟩)
        · exact Or.inl (Bool.not_eq_true _ ▸ hr)
  · unfold View.stop
    rwa [if_neg hl]

/-- The timer of a child. -/
theorem View.Guarded.timer (hg : v.Guarded) (ht : v.stream.child.timer = true) :
    (v.withChild (v.stream.child.escalate sent)).Guarded := by
  have hl : v.listed = false := by
    rw [← Bool.not_eq_true]
    intro hl
    rw [(hg.listed hl).2.2.1] at ht
    cases ht
  have hsame : (v.stream.child.escalate sent).running = v.stream.child.running ∧
      (v.stream.child.escalate sent).exitCode = v.stream.child.exitCode := by
    unfold ChildProcess.escalate
    split_ifs <;> exact ⟨rfl, rfl⟩
  refine ⟨fun h => absurd h (by simp [View.withChild, hl]), fun h => ?_, fun _ => ?_⟩
  · show (v.stream.child.escalate sent).running = false
    rw [hsame.1]
    exact hg.exited (hsame.2 ▸ h)
  · show (v.stream.child.escalate sent).Covered
    rcases hg.covered hl with hr | hk | ⟨-, hk⟩
    · exact Or.inl (hsame.1.trans hr)
    · refine Or.inr (Or.inl ?_)
      unfold ChildProcess.escalate
      split_ifs
      · rfl
      · exact hk
    · exact Or.inr (Or.inl (hk sent))

theorem handleOutput_keeps {handle : LineReader → Carry → Bytes → List Value × Carry} {chunk : Bytes} :
    (v.handleOutput o handle chunk).listed = v.listed ∧
      (v.handleOutput o handle chunk).terminated = v.terminated ∧
      (v.handleOutput o handle chunk).stream.child = v.stream.child := by
  unfold View.handleOutput
  split_ifs
  · exact ⟨rfl, rfl, rfl⟩
  · dsimp only
    rw [View.emitData_eq]
    exact ⟨rfl, rfl, rfl⟩

/-- What an ended session keeps. -/
theorem finalize_keeps : (v.finalize.listed = true → False) ∧ v.finalize.terminated = v.terminated ∧
    v.finalize.stream.child = v.stream.child := by
  unfold View.finalize
  split_ifs with hl
  · exact ⟨by simp, rfl, rfl⟩
  · exact ⟨hl, rfl, rfl⟩

theorem View.Guarded.finalize (hg : v.Guarded) (hr : v.listed = true → v.stream.child.running = false) :
    v.finalize.Guarded := by
  by_cases hl : v.listed = true
  · obtain ⟨hul, -, hc⟩ := finalize_keeps (v := v)
    refine ⟨fun h => (hul h).elim, fun h => ?_, fun _ => ?_⟩
    · rw [hc] at h ⊢
      exact hg.exited h
    · rw [hc]
      exact Or.inl (hr hl)
  · unfold View.finalize
    rwa [if_neg hl]

theorem View.Guarded.close {code : Option ℤ} (hg : v.Guarded) (hr : v.stream.child.running = false) :
    (v.handleClose o code).Guarded := by
  unfold View.handleClose
  dsimp only
  rw [View.emitData_eq]
  split_ifs
  · refine ⟨fun h => hg.listed h, fun _ => hr, fun _ => Or.inl hr⟩
  · refine View.Guarded.finalize ⟨fun h => hg.listed h, fun _ => hr, fun _ => Or.inl hr⟩ fun _ => hr

/-- **A step keeps the children guarded**, unless it leaves a running one. -/
theorem View.Guarded.step (hg : v.Guarded) (hs : Hub.step o h e = .ok h') (hv : h.view id = some v)
    (hl : v.listed = true → v.stream.child.running = true → ¬ e.Leaves id) : (v.step o id e).Guarded := by
  cases e with
  | start time opts sink spawned => exact hg
  | resume time sessionId opts sink spawned => exact hg
  | register time deploymentId model runtime => exact hg
  | subscribe id' sink =>
    simp only [View.step, View.subscribe]
    split_ifs <;> exact hg.same rfl rfl rfl
  | unsubscribe id' sink =>
    simp only [View.step]
    split_ifs <;> exact hg.same rfl rfl rfl
  | stop id' sent | disconnect id' sent =>
    simp only [View.step]
    split_ifs with hid
    · refine hg.stop fun h1 h2 => ?_
      rw [← Bool.not_eq_true]
      exact fun h3 => hl h1 h2 ⟨hid, h3⟩
    · exact hg
  | cleanup sent =>
    refine hg.stop fun h1 h2 => ?_
    rw [← Bool.not_eq_true]
    exact hl h1 h2
  | stdout id' chunk | stderr id' chunk =>
    simp only [View.step]
    split_ifs
    · obtain ⟨h1, h2, h3⟩ := handleOutput_keeps (o := o) (v := v)
      exact hg.same h1 h2 h3
    · exact hg
  | exit id' code =>
    simp only [View.step]
    split_ifs
    · exact ⟨fun h => hg.listed h, fun _ => rfl, fun _ => Or.inl rfl⟩
    · exact hg
  | error id' message =>
    simp only [View.step]
    split_ifs with hid
    · unfold View.handleError
      split_ifs
      · exact hg
      · refine View.Guarded.finalize (hg.same rfl rfl rfl) fun h1 => ?_
        rw [← Bool.not_eq_true]
        exact fun h2 => hl h1 h2 hid
    · exact hg
  | close id' code =>
    simp only [View.step]
    split_ifs with hid
    · simp only [Hub.step] at hs
      obtain ⟨v', hv', hp, -⟩ := onChild_eq_ok.1 hs
      rw [hid, hv, Option.some.injEq] at hv'
      subst hv'
      simp only [Bool.and_eq_true, Bool.not_eq_true'] at hp
      exact hg.close hp.2
    · exact hg
  | timer id' sent =>
    simp only [View.step]
    split_ifs with hid
    · simp only [Hub.step] at hs
      obtain ⟨v', hv', hp, -⟩ := onChild_eq_ok.1 hs
      rw [hid, hv, Option.some.injEq] at hv'
      subst hv'
      exact hg.timer hp
    · exact hg

/-! ## Runs -/

theorem reaches_guarded (hr : Reaches o l h) (hc : ∀ st ∈ l, ¬ st.event.Abandons st.before) :
    h.Numbered ∧ ∀ id v, h.view id = some v → v.Guarded := by
  refine views_invariant (C := fun h e => ¬ Event.Abandons h e) (fun _ v hf => hf.guarded) ?_ hr hc
  intro h e h' id v hs hno hv hg
  refine hg.step hs hv fun hl hrun hleave => hno ⟨id, ?_, v.session, v.stream, ?_, hrun, hleave⟩
  · rw [(view_eq_some.1 hv).2.1] at hl
    exact of_decide_eq_true hl
  · exact child_eq_some.2 ⟨v, hv, rfl, rfl⟩

theorem covered_of_views (hall : ∀ id v, h.view id = some v → v.Guarded) : h.Covered := by
  intro id s t hc hid
  obtain ⟨v, hv, rfl, rfl⟩ := child_eq_some.1 hc
  exact (hall id v hv).covered (by rw [(view_eq_some.1 hv).2.1]; exact decide_eq_false hid)

/-- A running child that was sent a signal, or has no timer, is not covered. -/
theorem not_covered {c : ChildProcess} (hr : c.running = true) (hk : c.sigkill = false)
    (ht : c.killed = true ∨ c.timer = false) : ¬ c.Covered := by
  rintro (h1 | h1 | ⟨h1, h2⟩)
  · rw [hr] at h1
    cases h1
  · rw [hk] at h1
    cases h1
  · rcases ht with ht | ht
    · have h3 := h2 true
      unfold ChildProcess.escalate at h3
      rw [if_neg (by simp [ht])] at h3
      exact absurd (hk.symm.trans h3) (by simp)
    · rw [ht] at h1
      cases h1

/-- **A step that leaves a running child does so for good.** -/
theorem abandoned (hn : h.Numbered) (hall : ∀ id v, h.view id = some v → v.Guarded)
    (hs : step o h e = .ok h') (ha : e.Abandons h) : ¬ h'.Covered := by
  obtain ⟨id, hid, s, t, hc, hrun, hleave⟩ := ha
  obtain ⟨v, hv, rfl, rfl⟩ := child_eq_some.1 hc
  have hl : v.listed = true := by
    rw [(view_eq_some.1 hv).2.1]
    exact decide_eq_true hid
  have hg := hall id v hv
  obtain ⟨ht, hk, htimer, hsig⟩ := hg.listed hl
  have hafter : (v.step o id e).listed = false ∧ ¬ (v.step o id e).stream.child.Covered := by
    have hstop : ∀ reason, (v.stop reason true).listed = false ∧ ¬ (v.stop reason true).stream.child.Covered := by
      intro reason
      obtain ⟨hul, ⟨hx, -⟩ | ⟨-, hc⟩⟩ := stop_child hg hl
      · rw [hg.exited hx] at hrun
        cases hrun
      · refine ⟨hul, ?_⟩
        rw [hc]
        refine not_covered hrun hsig (Or.inl ?_)
        show (v.stream.child.killed || (v.stream.child.running && true)) = true
        rw [hrun]
        simp
    cases e with
    | stop id' sent | disconnect id' sent =>
      obtain ⟨rfl, rfl⟩ := hleave
      simp only [View.step, if_true]
      exact hstop _
    | cleanup sent =>
      have hsent : sent id = true := hleave
      simp only [View.step, hsent]
      exact hstop _
    | error id' message =>
      obtain rfl : id' = id := hleave
      simp only [View.step, if_true, View.handleError]
      rw [if_neg (by simp [ht])]
      obtain ⟨hul, -, hc⟩ := finalize_keeps (v := v.emit (.error message))
      refine ⟨by rw [← Bool.not_eq_true]; exact hul, ?_⟩
      rw [hc]
      exact not_covered hrun hsig (Or.inr htimer)
    | start | resume | register | subscribe | unsubscribe | stdout | stderr | exit | close | timer =>
      exact hleave.elim
  have hv' := (view_step hn hs id).1 v hv
  intro hcov
  refine hafter.2 (hcov id _ _ (child_eq_some.2 ⟨_, hv', rfl, rfl⟩) fun hid' => ?_)
  rw [(view_eq_some.1 hv').2.1] at hafter
  exact absurd hid' (of_decide_eq_false hafter.1)

/-- **No child outlives its session**, throughout a run exactly if no step leaves
    a running child. -/
theorem children_covered_iff (hr : Reaches o l h) :
    (∀ st ∈ l, st.after.Covered) ↔ ∀ st ∈ l, ¬ st.event.Abandons st.before := by
  constructor
  · intro hcov
    induction hr with
    | nil => simp
    | @snoc l h h' e hr hs ih =>
      have hbefore := ih fun st hst => hcov st (by simp [hst])
      intro st hst
      rcases List.mem_append.1 hst with hst | hst
      · exact hbefore st hst
      · rw [List.mem_singleton.1 hst]
        obtain ⟨hn, hall⟩ := reaches_guarded hr hbefore
        exact fun ha => abandoned hn hall hs ha (hcov ⟨h, e, h'⟩ (by simp))
  · intro hno st hst
    obtain ⟨pre, post, rfl⟩ := List.append_of_mem hst
    obtain ⟨-, -, hafter⟩ := hr.split
    exact covered_of_views (reaches_guarded hafter fun st' hst' => hno st' (by
      rcases List.mem_append.1 hst' with hst' | hst'
      · exact List.mem_append_left _ hst'
      · exact List.mem_append_right _ (by rw [List.mem_singleton.1 hst']; exact List.mem_cons_self ..))).2

/-! ## A run of one session -/

namespace Sample

/-- A hub whose normalizer accepts nothing. -/
def options : SessionManagerOptions where
  maxSessions := 3
  defaultModel := units "model"
  env := []
  normalizer := fun _ _ _ => none
  maxPromptLength := 131072
  binaryPath := units "opencode"
  runtimes := fun _ => false
  runtimeNormalizers := fun _ => none
  secretValues := some []
  double := .float

def first : SessionId := ⟨0, 1⟩

def start : Event := .start 0 ⟨none, "Hello", none, none, [], none⟩ 7 (.child true)

/-- The hub after these events. -/
def run (es : List Event) : SessionManager := es.foldl (fun h e => ((step options h e).toOption).getD h) .new

/-- The child exits, and the session is stopped before it closes. -/
def stoppedLate : List Event := [start, .exit first (some 0), .stop first true]

/-- The session of a running child is stopped. -/
def stopped : List Event := [start, .stop first true]

end Sample

open Sample in
theorem children_covered_exited : ∃ s t, (run stoppedLate).child first = some (s, t) ∧
    first ∉ (run stoppedLate).sessions ∧ t.child.Covered := by
  have hrun : ((run stoppedLate).child first).isSome = true ∧ first ∉ (run stoppedLate).sessions := by
    decide
  obtain ⟨⟨s, t⟩, hc⟩ := Option.isSome_iff_exists.1 hrun.1
  have hr : Reaches options (([] ++ [⟨.new, start, run [start]⟩] ++
      [⟨run [start], .exit first (some 0), run [start, .exit first (some 0)]⟩]) ++
      [⟨run [start, .exit first (some 0)], .stop first true, run stoppedLate⟩]) (run stoppedLate) :=
    .snoc (.snoc (.snoc .nil rfl) rfl) rfl
  have hexit : ((run [start, .exit first (some 0)]).child first).all (fun st => !st.2.child.running) = true := by
    decide
  refine ⟨s, t, hc, hrun.2, (children_covered_iff hr).2 (fun st hst ha => ?_) _
    (List.mem_append_right _ (List.mem_singleton_self _)) first s t hc hrun.2⟩
  simp only [List.nil_append, List.cons_append, List.mem_cons, List.not_mem_nil, or_false] at hst
  rcases hst with rfl | rfl | rfl
  · obtain ⟨-, -, -, -, -, -, ⟨⟩⟩ := ha
  · obtain ⟨-, -, -, -, -, -, ⟨⟩⟩ := ha
  · obtain ⟨id', -, s', t', hc', hrunning, ⟨hid, -⟩⟩ := ha
    subst hid
    rw [hc'] at hexit
    simp [hrunning] at hexit

open Sample in
/-- The timer of a child that was sent `SIGTERM` never sends `SIGKILL`. -/
theorem child_ignores_sigterm : ¬ ∀ l h, Reaches options l h → h.Covered := by
  intro hall
  have hr : Reaches options ([] ++ [⟨.new, start, run [start]⟩] ++ [⟨run [start], .stop first true, run stopped⟩])
      (run stopped) := .snoc (.snoc .nil rfl) rfl
  have hrun : ((run stopped).child first).any (fun st => st.2.child.running && !st.2.child.sigkill &&
      st.2.child.killed) = true ∧ first ∉ (run stopped).sessions := by decide
  cases hc : (run stopped).child first with
  | none => simp [hc] at hrun
  | some st =>
    simp only [hc, Option.any_some, Bool.and_eq_true, Bool.not_eq_true'] at hrun
    exact not_covered hrun.1.1.1 hrun.1.1.2 (Or.inl hrun.1.2) (hall _ _ hr first st.1 st.2 hc hrun.2)

end PaPlatform.Hub
