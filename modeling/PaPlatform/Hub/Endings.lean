/-
  The endings that the clients of a session hear.

  A session that ends by itself sends one terminal event and then forgets its
  sinks.  A session that is terminated sends its terminal event at once if its
  child has an exit code; otherwise it leaves the event to `handleClose`, which
  sends none.  Leftover output is sent when the child closes, even after the end.
-/
import PaPlatform.Hub.Children

namespace PaPlatform.Hub

open Js Units SessionManager

variable {o : SessionManagerOptions} {h h' : SessionManager} {e : Event} {id : SessionId} {v : View}
  {l : List (Run.Step SessionManager Event)} {sent : Bool} {reason : TerminateReason} {k : Sink}
  {x : SessionStreamEvent}

/-- One terminal event, and nothing after it. -/
def OneEnding (events : List SessionStreamEvent) : Prop :=
  ∃ pre e, events = pre ++ [e] ∧ e.Terminal ∧ ∀ x ∈ pre, ¬ x.Terminal

/-- Every sink that was attached when a session ended heard one ending of it. -/
def SessionManager.HeardOnce (h : SessionManager) : Prop :=
  ∀ id s t sinks, h.child id = some (s, t) → t.ended = some sinks → ∀ k ∈ sinks, OneEnding (h.received id k)

/-- The event terminates the session `id`, if it is in the map. -/
def Event.Terminates (id : SessionId) : Event → Prop
  | .stop id' _ | .disconnect id' _ => id' = id
  | .cleanup _ => True
  | _ => False

/-- The event terminates a session that a client listens to, and whose child has no
    exit code or left output that is not a whole line. -/
def Event.Cuts (h : SessionManager) (e : Event) : Prop :=
  ∃ id ∈ h.sessions, ∃ s t, h.child id = some (s, t) ∧ t.sinks ≠ [] ∧ e.Terminates id ∧
    (t.child.exitCode = none ∨ blank t.carry.stdoutBuffer = false ∨ blank t.carry.stderrBuffer = false)

/-! ## What a sink received -/

/-- The events that a sink received. -/
def View.received (v : View) (k : Sink) : List SessionStreamEvent :=
  v.sent.filterMap fun d => if d.1 = k then some d.2 else none

theorem received_eq (hv : h.view id = some v) : h.received id k = v.received k := by
  unfold SessionManager.received View.received
  rw [(view_eq_some.1 hv).2.2, deliveries, List.filterMap_filterMap]
  congr 1
  funext d
  by_cases hd : d.session = id
  · simp [hd]
  · simp [hd]

theorem received_emit (hn : v.stream.sinks.Nodup) :
    (v.emit x).received k = v.received k ++ if k ∈ v.stream.sinks then [x] else [] := by
  unfold View.received View.emit
  rw [List.filterMap_append]
  congr 1
  rw [List.filterMap_map]
  generalize v.stream.sinks = sinks at hn ⊢
  induction sinks with
  | nil => rfl
  | cons a sinks ih =>
    rw [List.nodup_cons] at hn
    rw [List.filterMap_cons]
    by_cases ha : a = k
    · subst ha
      have hrest := ih hn.2
      rw [if_neg hn.1] at hrest
      rw [Function.comp_apply, if_pos rfl, hrest, if_pos (List.mem_cons_self ..)]
    · rw [Function.comp_apply, if_neg ha, ih hn.2]
      simp [Ne.symm ha]

theorem emit_nil (hs : v.stream.sinks = []) : v.emit x = v := by
  unfold View.emit
  rw [hs, List.map_nil, List.append_nil]

theorem emitData_nil {data : List Value} (hs : v.stream.sinks = []) : v.emitData data = v := by
  induction data with
  | nil => rfl
  | cons d data ih =>
    show (v.emit (.event d)).emitData data = v
    rw [emit_nil hs, ih]

/-- Data are no endings. -/
theorem data_not_terminal {data : List Value} (hno : ∀ d ∈ v.sent, ¬ d.2.Terminal) :
    ∀ d ∈ (v.emitData data).sent, ¬ d.2.Terminal := by
  rw [View.emitData_eq]
  intro d hd
  rcases List.mem_append.1 hd with hd | hd
  · exact hno d hd
  · obtain ⟨a, -, hd⟩ := List.mem_flatMap.1 hd
    obtain ⟨sink, -, rfl⟩ := List.mem_map.1 hd
    exact not_false

/-- A terminal event after others. -/
theorem oneEnding_emit (hn : v.stream.sinks.Nodup) (hno : ∀ d ∈ v.sent, ¬ d.2.Terminal) (hx : x.Terminal)
    (hk : k ∈ v.stream.sinks) : OneEnding ((v.emit x).received k) := by
  rw [received_emit hn, if_pos hk]
  refine ⟨_, x, rfl, hx, fun y hy => ?_⟩
  obtain ⟨d, hd, he⟩ := List.mem_filterMap.1 hy
  split_ifs at he
  cases he
  exact hno d hd

/-- The leftover output of blank buffers. -/
theorem closeOutput_blank {r : LineReader} {c : Carry} {double : Units → Number}
    (h1 : blank c.stdoutBuffer = true) (h2 : blank c.stderrBuffer = true) : (closeOutput double r c).1 = [] := by
  unfold closeOutput processLine
  rw [if_pos h1]
  dsimp only
  rw [if_pos h2]
  rfl

/-! ## The invariant of a session -/

/-- What holds of every session: a session in the map has sent no ending, a
    terminated one has sent one ending and has nothing left, and the others have
    forgotten their sinks. -/
structure View.Proper (v : View) : Prop where
  nodup : v.stream.sinks.Nodup
  listed : v.listed = true → v.terminated = false ∧ v.stream.ended = none ∧
    ∀ d ∈ v.sent, ¬ d.2.Terminal
  gone : v.listed = false → v.terminated = false → v.stream.sinks = []
  terminated : v.terminated = true → v.listed = false ∧
    (v.stream.sinks = [] ∨ blank v.stream.carry.stdoutBuffer = true ∧ blank v.stream.carry.stderrBuffer = true) ∧
    ∀ k ∈ v.stream.sinks, OneEnding (v.received k)
  ended : ∀ sinks, v.stream.ended = some sinks → ∀ k ∈ sinks, OneEnding (v.received k)

theorem View.Fresh.proper (hf : v.Fresh) : v.Proper := by
  refine ⟨hf.sinks, fun _ => ⟨hf.open_, hf.ended, by simp [hf.sent]⟩, fun hl => ?_, fun ht => ?_,
    fun sinks he => ?_⟩
  · rw [hf.listed] at hl
    cases hl
  · rw [hf.open_] at ht
    cases ht
  · rw [hf.ended] at he
    cases he

/-- A session in the map that ends by itself. -/
theorem View.Proper.finalize (hl : v.listed = true) (hn : v.stream.sinks.Nodup) (ht : v.terminated = false)
    (hno : ∀ d ∈ v.sent, ¬ d.2.Terminal) (hx : x.Terminal) : (v.emit x).finalize.Proper := by
  unfold View.finalize
  rw [if_pos (show (v.emit x).listed = true from hl)]
  refine ⟨List.nodup_nil, by simp, fun _ _ => rfl, fun h => ?_, ?_⟩
  · rw [show (v.emit x).terminated = v.terminated from rfl, ht] at h
    cases h
  · rintro sinks ⟨⟩ k hk
    exact oneEnding_emit hn hno hx hk

/-- A session that is gone, and was not terminated. -/
theorem finalize_quiet (hl : v.listed = false) : v.finalize = v := by
  unfold View.finalize
  rw [if_neg (by simp [hl])]

theorem View.Proper.stop (hp : v.Proper) (hc : v.listed = true → v.stream.sinks ≠ [] →
      v.stream.child.exitCode ≠ none ∧ blank v.stream.carry.stdoutBuffer = true ∧
        blank v.stream.carry.stderrBuffer = true) : (v.stop reason sent).Proper := by
  by_cases hl : v.listed = true
  · obtain ⟨ht, he, hno⟩ := hp.listed hl
    unfold View.stop View.terminate
    rw [if_pos hl, if_neg (by simp [ht])]
    by_cases hs : v.stream.sinks = []
    · split_ifs
      · exact ⟨hp.nodup, by simp, by simp [View.emit], fun _ => ⟨rfl, Or.inl hs, by simp [View.emit, hs]⟩,
          by simp [View.emit, he]⟩
      · exact ⟨hp.nodup, by simp, by simp [View.withChild], fun _ => ⟨rfl, Or.inl hs, by simp [View.withChild, hs]⟩,
          by simp [View.withChild, he]⟩
    · obtain ⟨hx, h1, h2⟩ := hc hl hs
      rw [if_pos (Or.inl hx)]
      refine ⟨hp.nodup, by simp, by simp [View.emit], fun _ => ⟨rfl, Or.inr ⟨h1, h2⟩, fun k hk => ?_⟩,
        by simp [View.emit, he]⟩
      exact oneEnding_emit (v := { v with terminated := true
                                          terminateReason := some reason
                                          record := { v.record with stopping := true } })
        hp.nodup hno (by trivial) hk
  · unfold View.stop
    rwa [if_neg hl]

theorem View.Proper.output {handle : LineReader → Carry → Bytes → List Value × Carry} {chunk : Bytes}
    (hp : v.Proper) : (v.handleOutput o handle chunk).Proper := by
  unfold View.handleOutput
  split_ifs with ht
  · exact hp
  · rw [Bool.not_eq_true] at ht
    dsimp only
    generalize handle (reader o v.session v.stream) v.stream.carry chunk = out
    by_cases hl : v.listed = true
    · obtain ⟨-, he, hno⟩ := hp.listed hl
      have hdata := @data_not_terminal { v with stream := { v.stream with carry := out.2 } } out.1 hno
      rw [View.emitData_eq] at hdata ⊢
      exact ⟨hp.nodup, fun _ => ⟨ht, he, hdata⟩, fun h => absurd hl (by simp [show v.listed = false from h]),
        fun h => absurd (show v.terminated = true from h) (by simp [ht]), by simp [he]⟩
    · rw [Bool.not_eq_true] at hl
      have hs := hp.gone hl ht
      rw [emitData_nil (v := { v with stream := { v.stream with carry := out.2 } }) hs]
      exact ⟨hp.nodup, fun h => absurd (show v.listed = true from h) (by simp [hl]), fun _ _ => hs,
        fun h => absurd (show v.terminated = true from h) (by simp [ht]), hp.ended⟩

theorem View.Proper.error {message : Units} (hp : v.Proper) : (v.handleError message).Proper := by
  unfold View.handleError
  split_ifs with ht
  · exact hp
  · rw [Bool.not_eq_true] at ht
    by_cases hl : v.listed = true
    · exact View.Proper.finalize hl hp.nodup ht (hp.listed hl).2.2 trivial
    · rw [Bool.not_eq_true] at hl
      rw [emit_nil (hp.gone hl ht), finalize_quiet hl]
      exact hp

theorem View.Proper.close {code : Option ℤ} (hp : v.Proper) : (v.handleClose o code).Proper := by
  unfold View.handleClose
  dsimp only
  generalize hout : closeOutput o.double (reader o v.session v.stream) v.stream.carry = out
  split_ifs with ht
  · obtain ⟨hl, hleft, hone⟩ := hp.terminated ht
    -- nothing is left, or nobody listens
    have hsent : (View.emitData { v with stream := { v.stream with
        carry := out.2, child := { v.stream.child with closed := true } } } out.1).sent = v.sent := by
      rcases hleft with hs | ⟨h1, h2⟩
      · rw [emitData_nil (v := { v with stream := { v.stream with
          carry := out.2, child := { v.stream.child with closed := true } } }) hs]
      · have hnil := @closeOutput_blank (reader o v.session v.stream) _ o.double h1 h2
        rw [hout] at hnil
        rw [hnil]
        rfl
    have hcarry : out.2.stdoutBuffer = [] ∧ out.2.stderrBuffer = [] := by
      rw [← hout]
      exact ⟨rfl, rfl⟩
    rw [View.emitData_eq] at hsent ⊢
    refine ⟨hp.nodup, fun h => absurd (show v.listed = true from h) (by simp [hl]), fun _ h => ?_, fun _ => ?_, ?_⟩
    · exact absurd ht (by simp [show v.terminated = false from h])
    · refine ⟨hl, Or.inr ?_, fun k hk => ?_⟩
      · show blank out.2.stdoutBuffer = true ∧ blank out.2.stderrBuffer = true
        rw [hcarry.1, hcarry.2]
        exact ⟨rfl, rfl⟩
      · unfold View.received
        rw [hsent]
        exact hone k hk
    · intro sinks he k hk
      unfold View.received
      rw [hsent]
      cases hend : v.stream.ended with
      | none =>
        rw [hend] at he
        cases he
        exact hone k hk
      | some sinks' =>
        rw [hend] at he
        cases he
        exact hp.ended sinks hend k hk
  · rw [Bool.not_eq_true] at ht
    by_cases hl : v.listed = true
    · obtain ⟨-, -, hno⟩ := hp.listed hl
      have hdata := @data_not_terminal { v with stream := { v.stream with
        carry := out.2, child := { v.stream.child with closed := true } } } out.1 hno
      rw [View.emitData_eq] at hdata ⊢
      exact View.Proper.finalize hl hp.nodup ht hdata trivial
    · rw [Bool.not_eq_true] at hl
      have hs := hp.gone hl ht
      obtain ⟨w, hw⟩ : ∃ w : View, w = { v with stream := { v.stream with
        carry := out.2, child := { v.stream.child with closed := true } } } := ⟨_, rfl⟩
      have hws : w.stream.sinks = [] := by rw [hw]; exact hs
      rw [← hw, emitData_nil hws, emit_nil hws, finalize_quiet (by rw [hw]; exact hl), hw]
      exact ⟨hp.nodup, fun h => absurd (show v.listed = true from h) (by simp [hl]), fun _ _ => hs,
        fun h => absurd (show v.terminated = true from h) (by simp [ht]), hp.ended⟩

/-- **A step keeps a session proper**, unless it cuts it. -/
theorem View.Proper.step (hp : v.Proper) (hc : v.listed = true → v.stream.sinks ≠ [] → e.Terminates id →
      v.stream.child.exitCode ≠ none ∧ blank v.stream.carry.stdoutBuffer = true ∧
        blank v.stream.carry.stderrBuffer = true) : (v.step o id e).Proper := by
  cases e with
  | start time opts sink spawned => exact hp
  | resume time sessionId opts sink spawned => exact hp
  | register time deploymentId model runtime => exact hp
  | subscribe id' sink =>
    simp only [View.step, View.subscribe]
    split_ifs with hid hl hmem
    · exact hp
    · refine ⟨?_, hp.listed, fun h => absurd hl (by simp [show v.listed = false from h]), fun h => ?_, hp.ended⟩
      · show (v.stream.sinks ++ [sink]).Nodup
        rw [List.nodup_append_comm]
        exact List.nodup_cons.2 ⟨hmem, hp.nodup⟩
      · rw [(hp.terminated h).1] at hl
        cases hl
    · exact hp
    · exact hp
  | unsubscribe id' sink =>
    simp only [View.step]
    split_ifs
    · refine ⟨hp.nodup.filter _, hp.listed, fun h1 h2 => ?_, fun h => ?_, hp.ended⟩
      · show v.stream.sinks.filter _ = []
        rw [hp.gone h1 h2]
        rfl
      · obtain ⟨hl, hleft, hone⟩ := hp.terminated h
        refine ⟨hl, hleft.imp_left fun hs => ?_, fun k hk => hone k (List.mem_of_mem_filter hk)⟩
        show v.stream.sinks.filter _ = []
        rw [hs]
        rfl
    · exact hp
  | stop id' sent | disconnect id' sent =>
    simp only [View.step]
    split_ifs with hid
    · exact hp.stop fun hl hs => hc hl hs hid
    · exact hp
  | cleanup sent => exact hp.stop fun hl hs => hc hl hs trivial
  | stdout id' chunk | stderr id' chunk =>
    simp only [View.step]
    split_ifs
    · exact hp.output
    · exact hp
  | exit id' code | timer id' sent =>
    simp only [View.step]
    split_ifs
    · exact ⟨hp.nodup, hp.listed, hp.gone, hp.terminated, hp.ended⟩
    · exact hp
  | error id' message =>
    simp only [View.step]
    split_ifs
    · exact hp.error
    · exact hp
  | close id' code =>
    simp only [View.step]
    split_ifs
    · exact hp.close
    · exact hp

/-! ## Runs -/

/-- A step that makes no session lists no more of them. -/
theorem sessions_step (hs : step o h e = .ok h') :
    h'.sessions.length ≤ h.sessions.length ∨ Grows o h h' := by
  have hfinalize : ∀ {h₁ : SessionManager} {id s t}, h₁.sessions = h.sessions →
      (h₁.finalize id s t).sessions.length ≤ h.sessions.length := by
    intro h₁ id s t hl
    unfold finalize
    split_ifs
    · rw [← hl]
      exact List.length_filter_le _ _
    · exact (congrArg List.length hl).le
  cases e with
  | start time opts sink spawned =>
    cases hs
    exact Or.inr grows_start
  | resume time sessionId opts sink spawned =>
    cases hs
    exact Or.inr grows_resume
  | register time deploymentId model runtime =>
    cases hs
    exact Or.inr grows_register
  | subscribe id sink =>
    cases hs
    left
    unfold subscribe
    split
    · split <;> exact le_refl _
    · exact le_refl _
  | unsubscribe id sink =>
    cases hs
    left
    unfold unsubscribe
    split
    · split <;> exact le_refl _
    · exact le_refl _
  | stop id sent | disconnect id sent =>
    cases hs
    left
    unfold SessionManager.stop
    split_ifs
    · refine (List.length_filter_le _ _).trans ?_
      rw [sessions_terminate]
    · exact le_refl _
  | cleanup sent =>
    cases hs
    exact Or.inl (Nat.zero_le _)
  | stdout id chunk | stderr id chunk =>
    simp only [step] at hs
    obtain ⟨v, -, -, rfl⟩ := onChild_eq_ok.1 hs
    left
    unfold handleOutput
    split_ifs
    · exact le_refl _
    · exact (congrArg List.length emitData_keeps.2.1).le
  | exit id code | timer id sent =>
    simp only [step] at hs
    obtain ⟨v, -, -, rfl⟩ := onChild_eq_ok.1 hs
    exact Or.inl (le_refl _)
  | error id message =>
    simp only [step] at hs
    obtain ⟨v, -, -, rfl⟩ := onChild_eq_ok.1 hs
    left
    unfold handleError
    split_ifs
    · exact le_refl _
    · exact hfinalize rfl
  | close id code =>
    simp only [step] at hs
    obtain ⟨v, -, -, rfl⟩ := onChild_eq_ok.1 hs
    left
    unfold handleClose
    dsimp only
    have hsame := fun data native runtime => (same_setNative (h := h.emitData id v.stream.sinks data) native runtime).2.1
    split_ifs
    · rw [sessions_put, hsame, emitData_keeps.2.1]
    · exact hfinalize ((hsame _ _ _).trans emitData_keeps.2.1)

theorem sessions_bounded (hr : Reaches o l h) : h.sessions.length ≤ o.maxSessions := by
  refine Run.Reaches.invariant (P := fun _ h => h.sessions.length ≤ o.maxSessions) (Nat.zero_le _) ?_ hr
  intro _ h e h' _ hb hs
  rcases sessions_step hs with hle | ⟨-, hl, -⟩ | ⟨id, s, hm⟩
  · exact hle.trans hb
  · rwa [hl]
  · rw [hm.sessions, List.length_append]
    exact hm.room

/-- **The hub stays within its limit, and every client hears one ending**, in runs
    whose steps cut no session. -/
theorem one_ending (hr : Reaches o l h) :
    h.sessions.length ≤ o.maxSessions ∧ ((∀ st ∈ l, ¬ st.event.Cuts st.before) → h.HeardOnce) := by
  refine ⟨sessions_bounded hr, fun hc id s t sinks hchild he k hk => ?_⟩
  have hall := (views_invariant (C := fun h e => ¬ Event.Cuts h e) (fun _ v hf => hf.proper) (fun h e h' id v hs
    hno hv hp => hp.step fun hl hsinks hterm => ?_) hr hc).2
  · obtain ⟨v, hv, rfl, rfl⟩ := child_eq_some.1 hchild
    rw [received_eq hv]
    exact (hall id v hv).ended sinks he k hk
  · have hid : id ∈ h.sessions := by
      rw [(view_eq_some.1 hv).2.1] at hl
      exact of_decide_eq_true hl
    by_contra hcut
    refine hno ⟨id, hid, v.session, v.stream, child_eq_some.2 ⟨v, hv, rfl, rfl⟩, hsinks, hterm, ?_⟩
    by_contra hnot
    push Not at hnot
    exact hcut ⟨hnot.1, by simpa using hnot.2.1, by simpa using hnot.2.2⟩

namespace Sample

/-- The child exits and closes. -/
def closed : List Event := [start, .exit first (some 0), .close first (some 0)]

/-- The session of a running child is stopped, then the child exits and closes. -/
def stoppedEarly : List Event := [start, .stop first true, .exit first none, .close first none]

end Sample

open Sample in
theorem one_ending_closed : ∃ s t, (run closed).child first = some (s, t) ∧ t.ended = some [7] ∧
    OneEnding ((run closed).received first 7) := by
  have hrun : ((run closed).child first).any (fun st => st.2.ended == some [7]) = true := by decide
  cases hc : (run closed).child first with
  | none => simp [hc] at hrun
  | some st =>
    rw [hc, Option.any_some, beq_iff_eq] at hrun
    have hr : Reaches options (([] ++ [⟨.new, start, run [start]⟩] ++
        [⟨run [start], .exit first (some 0), run [start, .exit first (some 0)]⟩]) ++
        [⟨run [start, .exit first (some 0)], .close first (some 0), run closed⟩]) (run closed) :=
      .snoc (.snoc (.snoc .nil rfl) rfl) rfl
    refine ⟨st.1, st.2, rfl, hrun, (one_ending hr).2 (fun st' hst' hcut => ?_) first st.1 st.2 [7] hc hrun 7
      (List.mem_singleton_self 7)⟩
    simp only [List.nil_append, List.cons_append, List.mem_cons, List.not_mem_nil, or_false] at hst'
    rcases hst' with rfl | rfl | rfl <;> obtain ⟨-, -, -, -, -, -, ⟨⟩, -⟩ := hcut

open Sample in
/-- A client of a session that is stopped hears no ending. -/
theorem stopped_unheard : ¬ ∀ l h, Reaches options l h → h.HeardOnce := by
  intro hall
  have hrun : ((run stoppedEarly).child first).any (fun st => st.2.ended == some [7]) = true ∧
      (run stoppedEarly).received first 7 = [] := by
    refine ⟨by decide, List.eq_nil_of_length_eq_zero ?_⟩
    decide
  have hr : Reaches options (([] ++ [⟨.new, start, run [start]⟩] ++
      [⟨run [start], .stop first true, run [start, .stop first true]⟩] ++
      [⟨run [start, .stop first true], .exit first none, run [start, .stop first true, .exit first none]⟩]) ++
      [⟨run [start, .stop first true, .exit first none], .close first none, run stoppedEarly⟩])
      (run stoppedEarly) := .snoc (.snoc (.snoc (.snoc .nil rfl) rfl) rfl) rfl
  cases hc : (run stoppedEarly).child first with
  | none => simp [hc] at hrun
  | some st =>
    obtain ⟨hended, hnone⟩ := hrun
    rw [hc, Option.any_some, beq_iff_eq] at hended
    obtain ⟨pre, e, he, -⟩ := hall _ _ hr first st.1 st.2 [7] hc hended 7 (List.mem_singleton_self 7)
    rw [hnone] at he
    exact absurd he.symm (by simp)

end PaPlatform.Hub
