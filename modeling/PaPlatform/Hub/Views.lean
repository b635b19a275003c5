/-
  One spawned session by itself.

  `view h id` is what the hub `h` holds of the session `id`.  A step of the hub is
  a step of each view (`view_step`): the sessions of a hub do not disturb one
  another, and what holds of every step of a view holds of the hub.
-/
import PaPlatform.Hub.Sessions

namespace PaPlatform.Hub

open Js Guard

/-- A spawned session: whether it is in the map of sessions, its object, and what
    was sent to its sinks. -/
structure View where
  listed : Bool
  record : SessionRecord
  stream : Stream
  terminated : Bool
  terminateReason : Option TerminateReason
  sent : List (Sink × SessionStreamEvent)

namespace View

variable (o : SessionManagerOptions) (v : View)

/-- The session object. -/
def session : ActiveSession := ⟨v.record, some v.stream, v.terminated, v.terminateReason⟩

def emit (e : SessionStreamEvent) : View := { v with sent := v.sent ++ v.stream.sinks.map fun sink => (sink, e) }

def emitData (data : List Value) : View := data.foldl (fun v d => v.emit (.event d)) v

def withChild (c : ChildProcess) : View := { v with stream := { v.stream with child := c } }

def withSinks (sinks : List Sink) : View := { v with stream := { v.stream with sinks := sinks } }

def finalize : View :=
  if v.listed then
    { v with listed := false, stream := { v.stream with sinks := [], ended := some v.stream.sinks } }
  else v

def terminate (reason : TerminateReason) (sent : Bool) : View :=
  if v.terminated then v
  else
    let v' : View := { v with terminated := true
                              terminateReason := some reason
                              record := { v.record with stopping := true } }
    if v.stream.child.exitCode ≠ none ∨ v.stream.child.killed = true then v'.emit (.end_ none (some reason))
    else v'.withChild { v.stream.child.kill sent with timer := true }

def stop (reason : TerminateReason) (sent : Bool) : View :=
  if v.listed then { v.terminate reason sent with listed := false } else v

def handleOutput (handle : LineReader → Carry → Bytes → List Value × Carry) (chunk : Bytes) : View :=
  if v.terminated then v
  else
    let (data, carry) := handle (SessionManager.reader o v.session v.stream) v.stream.carry chunk
    View.emitData { v with stream := { v.stream with carry := carry } } data

def handleError (message : Units) : View := if v.terminated then v else (v.emit (.error message)).finalize

def handleClose (code : Option ℤ) : View :=
  let (data, carry) := closeOutput o.double (SessionManager.reader o v.session v.stream) v.stream.carry
  let v' : View := View.emitData { v with stream :=
    { v.stream with carry := carry, child := { v.stream.child with closed := true } } } data
  if v.terminated then
    { v' with stream := { v'.stream with ended := v.stream.ended <|> some v.stream.sinks } }
  else (v'.emit (.end_ (some (code.getD 0)) v.terminateReason)).finalize

def subscribe (sink : Sink) : View :=
  if v.listed = true then
    v.withSinks (if sink ∈ v.stream.sinks then v.stream.sinks else v.stream.sinks ++ [sink])
  else v

/-- The step of the session `id`. -/
def step (id : SessionId) : Event → View
  | .start .. | .resume .. | .register .. => v
  | .subscribe id' sink => if id' = id then v.subscribe sink else v
  | .unsubscribe id' sink => if id' = id then v.withSinks (v.stream.sinks.filter (· ≠ sink)) else v
  | .stop id' sent => if id' = id then v.stop .stopped sent else v
  | .disconnect id' sent => if id' = id then v.stop .disconnect sent else v
  | .cleanup sent => v.stop .cleanup (sent id)
  | .stdout id' chunk => if id' = id then v.handleOutput o (handleStdout o.double) chunk else v
  | .stderr id' chunk => if id' = id then v.handleOutput o (handleStderr o.double) chunk else v
  | .exit id' code => if id' = id then
      v.withChild { v.stream.child with running := false, exitCode := code } else v
  | .error id' message => if id' = id then v.handleError message else v
  | .close id' code => if id' = id then v.handleClose o code else v
  | .timer id' sent => if id' = id then v.withChild (v.stream.child.escalate sent) else v

/-- A session that was just spawned. -/
structure Fresh : Prop where
  listed : v.listed = true
  open_ : v.terminated = false
  child : ∃ launched, v.stream.child = .spawned launched
  sinks : v.stream.sinks.Nodup
  ended : v.stream.ended = none
  sent : v.sent = []

end View

namespace SessionManager

variable {o : SessionManagerOptions} {h h' : SessionManager} {id id' : SessionId} {s : ActiveSession}
  {sinks : List Sink} {e : SessionStreamEvent}

/-- What was sent to the sinks of a session. -/
def deliveries (h : SessionManager) (id : SessionId) : List (Sink × SessionStreamEvent) :=
  h.sent.filterMap fun d => if d.session = id then some (d.sink, d.event) else none

/-- The view of a session object. -/
def viewOf (h : SessionManager) (id : SessionId) (s : ActiveSession) : Option View :=
  s.stream.map fun t => ⟨decide (id ∈ h.sessions), s.record, t, s.terminated, s.terminateReason, h.deliveries id⟩

/-- The view of a spawned session. -/
def view (h : SessionManager) (id : SessionId) : Option View := (h.objects id).bind (h.viewOf id)

/-! ## Updates -/

theorem view_congr (ho : h'.objects id = h.objects id) (hs : id ∈ h'.sessions ↔ id ∈ h.sessions)
    (hd : h'.deliveries id = h.deliveries id) : h'.view id = h.view id := by
  unfold view viewOf
  rw [ho, hd, decide_eq_decide.2 hs]

@[simp] theorem sessions_put : (h.put id s).sessions = h.sessions := rfl

@[simp] theorem deliveries_put : (h.put id s).deliveries id' = h.deliveries id' := rfl

theorem objects_put_self : (h.put id s).objects id = some s := Function.update_self _ _ _

theorem view_put_self : (h.put id s).view id = h.viewOf id s := by
  unfold view
  rw [objects_put_self]
  rfl

theorem view_eq_some {v : View} : h.view id = some v ↔
    h.objects id = some v.session ∧ v.listed = decide (id ∈ h.sessions) ∧ v.sent = h.deliveries id := by
  unfold view viewOf
  constructor
  · intro hv
    obtain ⟨⟨record, stream, terminated, reason⟩, ho, hv⟩ := Option.bind_eq_some_iff.1 hv
    obtain ⟨t, rfl, rfl⟩ := Option.map_eq_some_iff.1 hv
    exact ⟨ho, rfl, rfl⟩
  · rintro ⟨ho, hl, hd⟩
    rw [ho, ← hl, ← hd]
    rfl

/-- A session object with a stream is seen. -/
theorem view_of_objects {t : Stream} (ho : h.objects id = some s) (ht : s.stream = some t) :
    ∃ v, h.view id = some v ∧ v.session = s ∧ v.stream = t := by
  obtain ⟨record, stream, terminated, reason⟩ := s
  obtain rfl : stream = some t := ht
  exact ⟨⟨decide (id ∈ h.sessions), record, t, terminated, reason, h.deliveries id⟩,
    view_eq_some.2 ⟨ho, rfl, rfl⟩, rfl, rfl⟩

theorem view_put_ne (hne : id' ≠ id) : (h.put id s).view id' = h.view id' :=
  view_congr (Function.update_of_ne hne _ _) Iff.rfl rfl

theorem deliveries_emit : (h.emit id sinks e).deliveries id' =
    h.deliveries id' ++ if id' = id then sinks.map fun sink => (sink, e) else [] := by
  unfold deliveries emit
  rw [List.filterMap_append, List.filterMap_map]
  congr 1
  by_cases hid : id' = id
  · subst hid
    simp [Function.comp_def]
  · simp [Function.comp_def, hid, Ne.symm hid]

theorem view_emit_ne (hne : id' ≠ id) : (h.emit id sinks e).view id' = h.view id' := by
  refine view_congr rfl Iff.rfl ?_
  rw [deliveries_emit, if_neg hne, List.append_nil]

/-- An event to the sinks of a session. -/
theorem view_emit {v : View} (hv : h.view id = some v) (hs : v.stream.sinks = sinks) :
    (h.emit id sinks e).view id = some (v.emit e) := by
  unfold view at hv ⊢
  obtain ⟨s, ho, hv⟩ := Option.bind_eq_some_iff.1 hv
  obtain ⟨t, ht, rfl⟩ := Option.map_eq_some_iff.1 hv
  show (h.objects id).bind _ = _
  rw [ho, Option.bind_some, viewOf, ht, deliveries_emit, if_pos rfl, ← hs]
  rfl

theorem emitData_cons {d : Value} {data : List Value} :
    h.emitData id sinks (d :: data) = (h.emit id sinks (.event d)).emitData id sinks data := rfl

theorem view_emitData_ne {data : List Value} (hne : id' ≠ id) :
    (h.emitData id sinks data).view id' = h.view id' := by
  induction data generalizing h with
  | nil => rfl
  | cons d data ih => rw [emitData_cons, ih, view_emit_ne hne]

theorem view_emitData {data : List Value} {v : View} (hv : h.view id = some v) (hs : v.stream.sinks = sinks) :
    (h.emitData id sinks data).view id = some (v.emitData data) := by
  induction data generalizing h v with
  | nil => exact hv
  | cons d data ih =>
    rw [emitData_cons]
    exact ih (view_emit hv hs) hs

/-- The views, the map of sessions and the next id are the same. -/
def Same (h h' : SessionManager) : Prop :=
  h'.objects = h.objects ∧ h'.sessions = h.sessions ∧ h'.sent = h.sent ∧ h'.nextId = h.nextId

theorem Same.view (hs : Same h h') : h'.view = h.view := by
  obtain ⟨ho, hl, hd, -⟩ := hs
  funext id
  exact view_congr (by rw [ho]) (by rw [hl]) (by unfold deliveries; rw [hd])

theorem same_setNative (native : Option Units) (runtime : RuntimeName) :
    Same h (h.setNative native runtime) := by
  unfold setNative
  split
  · split_ifs <;> exact ⟨rfl, rfl, rfl, rfl⟩
  · exact ⟨rfl, rfl, rfl, rfl⟩

theorem same_deleteNative (native : Option Units) : Same h (h.deleteNative native) := by
  unfold deleteNative
  split
  · split_ifs <;> exact ⟨rfl, rfl, rfl, rfl⟩
  · exact ⟨rfl, rfl, rfl, rfl⟩

theorem view_delete_ne (hne : id' ≠ id) : (h.delete id).view id' = h.view id' := by
  refine view_congr rfl ?_ rfl
  simp [delete, hne]

theorem view_delete {v : View} (hv : h.view id = some v) :
    (h.delete id).view id = some { v with listed := false } := by
  obtain ⟨ho, -, hd⟩ := view_eq_some.1 hv
  refine view_eq_some.2 ⟨ho, ?_, hd⟩
  simp [delete]

/-! ## Operations -/

theorem view_finalize {t : Stream} : (h.finalize id s t).view id = some (View.finalize
    ⟨decide (id ∈ h.sessions), s.record, t, s.terminated, s.terminateReason, h.deliveries id⟩) := by
  unfold finalize View.finalize
  by_cases hid : id ∈ h.sessions
  · rw [if_pos hid, if_pos (decide_eq_true hid)]
    refine view_eq_some.2 ⟨objects_put_self, ?_, rfl⟩
    simp [put, delete]
  · rw [if_neg hid, if_neg (by simp [hid])]
    exact view_eq_some.2 ⟨objects_put_self, rfl, rfl⟩

theorem view_finalize_ne {t : Stream} (hne : id' ≠ id) : (h.finalize id s t).view id' = h.view id' := by
  unfold finalize
  split_ifs
  · show ((h.delete id).put id _).view id' = _
    exact (view_put_ne hne).trans (view_delete_ne hne)
  · exact view_put_ne hne

theorem sessions_terminate {reason : TerminateReason} {sent : Bool} :
    (h.terminate id reason sent).sessions = h.sessions := by
  unfold terminate
  split
  · rfl
  · split_ifs
    · rfl
    · dsimp only
      split
      · rfl
      · split_ifs <;> rfl

theorem view_terminate_ne {reason : TerminateReason} {sent : Bool} (hne : id' ≠ id) :
    (h.terminate id reason sent).view id' = h.view id' := by
  unfold terminate
  split
  · rfl
  · split_ifs
    · rfl
    · dsimp only
      split
      · exact view_put_ne hne
      · split_ifs
        · rw [view_emit_ne hne, view_put_ne hne]
        · exact view_put_ne hne

theorem view_terminate {reason : TerminateReason} {sent : Bool} {v : View} (hv : h.view id = some v) :
    (h.terminate id reason sent).view id = some (v.terminate reason sent) := by
  obtain ⟨ho, hl, hd⟩ := view_eq_some.1 hv
  unfold terminate View.terminate
  rw [ho]
  by_cases ht : v.terminated
  · simp only [View.session, ht, if_true]
    exact hv
  · simp only [View.session, ht]
    by_cases hc : v.stream.child.exitCode ≠ none ∨ v.stream.child.killed = true
    · simp only [hc, if_true]
      exact view_emit (view_eq_some.2 ⟨objects_put_self, hl, hd⟩) rfl
    · simp only [hc, if_false]
      exact view_eq_some.2 ⟨objects_put_self, hl, hd⟩

theorem View.terminate_terminate {reason : TerminateReason} {sent : Bool} (v : View) :
    (v.terminate reason sent).terminate reason sent = v.terminate reason sent := by
  have ht : (v.terminate reason sent).terminated = true := by
    unfold View.terminate
    split_ifs with h1 h2
    · exact h1
    · rfl
    · rfl
  exact if_pos ht

theorem view_stop {reason : TerminateReason} {sent : Bool} {v : View} (hv : h.view id = some v) :
    (h.stop id reason sent).view id = some (v.stop reason sent) := by
  have hl := (view_eq_some.1 hv).2.1
  unfold stop View.stop
  by_cases hid : id ∈ h.sessions
  · rw [if_pos hid, if_pos (by simp [hl, hid]), view_delete (view_terminate hv)]
  · rw [if_neg hid, if_neg (by simp [hl, hid])]
    exact hv

theorem view_stop_ne {reason : TerminateReason} {sent : Bool} (hne : id' ≠ id) :
    (h.stop id reason sent).view id' = h.view id' := by
  unfold stop
  split_ifs
  · rw [view_delete_ne hne, view_terminate_ne hne]
  · rfl

/-- The sessions of a list are terminated. -/
theorem view_foldl_terminate {sent : SessionId → Bool} {v : View} (l : List SessionId) (hv : h.view id = some v) :
    (l.foldl (fun h id => h.terminate id .cleanup (sent id)) h).view id =
      some (if id ∈ l then v.terminate .cleanup (sent id) else v) := by
  induction l generalizing h v with
  | nil => exact hv
  | cons a l ih =>
    rw [List.foldl_cons]
    by_cases ha : id = a
    · subst ha
      rw [ih (view_terminate hv), if_pos (List.mem_cons_self ..)]
      split_ifs
      · rw [View.terminate_terminate]
      · rfl
    · rw [ih ((view_terminate_ne ha).trans hv)]
      simp [ha]

theorem sessions_foldl_terminate {sent : SessionId → Bool} (l : List SessionId) :
    (l.foldl (fun h id => h.terminate id .cleanup (sent id)) h).sessions = h.sessions := by
  induction l generalizing h with
  | nil => rfl
  | cons a l ih => rw [List.foldl_cons, ih, sessions_terminate]

theorem view_cleanup {sent : SessionId → Bool} {v : View} (hv : h.view id = some v) :
    (h.cleanup sent).view id = some (v.stop .cleanup (sent id)) := by
  have hl := (view_eq_some.1 hv).2.1
  obtain ⟨ho, hl', hd⟩ := view_eq_some.1 (view_foldl_terminate h.sessions hv)
  unfold cleanup View.stop
  by_cases hid : id ∈ h.sessions
  · rw [if_pos (by simp [hl, hid])]
    rw [if_pos hid] at ho hd
    exact view_eq_some.2 ⟨ho, by simp, hd⟩
  · rw [if_neg (by simp [hl, hid])]
    rw [if_neg hid] at ho hd
    exact view_eq_some.2 ⟨ho, by simp [hl, hid], hd⟩

theorem view_handleOutput {handle : LineReader → Carry → Bytes → List Value × Carry} {chunk : Bytes} {v : View}
    (hv : h.view id = some v) :
    (h.handleOutput o handle id v.session v.stream chunk).view id = some (v.handleOutput o handle chunk) := by
  obtain ⟨-, hl, hd⟩ := view_eq_some.1 hv
  unfold handleOutput View.handleOutput
  by_cases ht : v.terminated
  · rw [if_pos (show v.session.terminated = true from ht), if_pos ht]
    exact hv
  · rw [if_neg (show ¬ v.session.terminated = true from ht), if_neg ht]
    exact view_emitData (view_eq_some.2 ⟨objects_put_self, hl, hd⟩) rfl

theorem view_handleOutput_ne {handle : LineReader → Carry → Bytes → List Value × Carry} {chunk : Bytes}
    {t : Stream} (hne : id' ≠ id) : (h.handleOutput o handle id s t chunk).view id' = h.view id' := by
  unfold handleOutput
  split_ifs
  · rfl
  · exact (view_emitData_ne hne).trans (view_put_ne hne)

theorem view_handleError {message : Units} {v : View} (hv : h.view id = some v) :
    (h.handleError id v.session v.stream message).view id = some (v.handleError message) := by
  unfold handleError View.handleError
  by_cases ht : v.terminated
  · rw [if_pos (show v.session.terminated = true from ht), if_pos ht]
    exact hv
  · rw [if_neg (show ¬ v.session.terminated = true from ht), if_neg ht, view_finalize]
    obtain ⟨-, hl, hd⟩ := view_eq_some.1 (view_emit (e := .error message) hv rfl)
    rw [← hl, ← hd]
    rfl

theorem view_handleError_ne {message : Units} {t : Stream} (hne : id' ≠ id) :
    (h.handleError id s t message).view id' = h.view id' := by
  unfold handleError
  split_ifs
  · rfl
  · rw [view_finalize_ne hne, view_emit_ne hne]

theorem emitData_keeps {data : List Value} : (h.emitData id sinks data).objects = h.objects ∧
    (h.emitData id sinks data).sessions = h.sessions ∧
    (h.emitData id sinks data).deliveries id =
      h.deliveries id ++ data.flatMap fun d => sinks.map fun sink => (sink, .event d) := by
  induction data generalizing h with
  | nil => exact ⟨rfl, rfl, (List.append_nil _).symm⟩
  | cons d data ih =>
    obtain ⟨ho, hs, hd⟩ := ih (h := h.emit id sinks (.event d))
    refine ⟨ho, hs, hd.trans ?_⟩
    rw [deliveries_emit, if_pos rfl, List.flatMap_cons, List.append_assoc]

theorem View.emitData_eq (v : View) (data : List Value) : v.emitData data =
    { v with sent := v.sent ++ data.flatMap fun d => v.stream.sinks.map fun sink => (sink, .event d) } := by
  induction data generalizing v with
  | nil =>
    rw [List.flatMap_nil, List.append_nil]
    rfl
  | cons d data ih =>
    refine (ih (v.emit (.event d))).trans ?_
    rw [View.emit, List.flatMap_cons, List.append_assoc]

theorem view_handleClose {code : Option ℤ} {v : View} (hv : h.view id = some v) :
    (h.handleClose o id v.session v.stream code).view id = some (v.handleClose o code) := by
  obtain ⟨-, hl, hd⟩ := view_eq_some.1 hv
  unfold handleClose View.handleClose
  dsimp only
  generalize closeOutput o.double (reader o v.session v.stream) v.stream.carry = out
  obtain ⟨data, carry⟩ := out
  dsimp only
  obtain ⟨-, hs, hdel⟩ := @emitData_keeps h id v.stream.sinks data
  generalize h.emitData id v.stream.sinks data = h₁ at hs hdel
  obtain ⟨-, hs', hsent, -⟩ := same_setNative (h := h₁) carry.sessionIdParser.captured v.session.record.runtime
  have hdel' : (h₁.setNative carry.sessionIdParser.captured v.session.record.runtime).deliveries id =
      v.sent ++ data.flatMap fun d => v.stream.sinks.map fun sink => (sink, .event d) := by
    unfold deliveries at hdel ⊢
    rw [hsent, hdel, hd]
    rfl
  generalize h₁.setNative carry.sessionIdParser.captured v.session.record.runtime = h₂ at hs' hdel'
  rw [View.emitData_eq]
  by_cases ht : v.terminated
  · rw [if_pos (show v.session.terminated = true from ht), if_pos ht]
    exact view_eq_some.2 ⟨objects_put_self, by rw [hl, sessions_put, hs', hs], hdel'.symm⟩
  · rw [if_neg (show ¬ v.session.terminated = true from ht), if_neg ht, view_finalize, deliveries_emit,
      if_pos rfl, hdel']
    have hlisted : decide (id ∈ (h₂.emit id v.stream.sinks
        (.end_ (some (code.getD 0)) v.session.terminateReason)).sessions) = v.listed := by
      rw [hl, ← hs, ← hs']
      rfl
    rw [hlisted]
    rfl

theorem view_emitData_setNative_ne {data : List Value} {native : Option Units} {runtime : RuntimeName}
    (hne : id' ≠ id) : ((h.emitData id sinks data).setNative native runtime).view id' = h.view id' := by
  rw [(same_setNative native runtime).view, view_emitData_ne hne]

theorem view_handleClose_ne {code : Option ℤ} {t : Stream} (hne : id' ≠ id) :
    (h.handleClose o id s t code).view id' = h.view id' := by
  unfold handleClose
  dsimp only
  split_ifs
  · rw [view_put_ne hne, view_emitData_setNative_ne hne]
  · rw [view_finalize_ne hne, view_emit_ne hne, view_emitData_setNative_ne hne]

theorem view_subscribe {sink : Sink} {v : View} (hv : h.view id = some v) :
    (h.subscribe id sink).view id = some (v.subscribe sink) := by
  obtain ⟨ho, hl, hd⟩ := view_eq_some.1 hv
  unfold subscribe get View.subscribe
  by_cases hid : id ∈ h.sessions
  · rw [if_pos hid, ho, if_pos (by simp [hl, hid])]
    exact view_eq_some.2 ⟨objects_put_self, hl, hd⟩
  · rw [if_neg hid, if_neg (by simp [hl, hid])]
    exact hv

theorem view_subscribe_ne {sink : Sink} (hne : id' ≠ id) : (h.subscribe id sink).view id' = h.view id' := by
  unfold subscribe
  split
  · split
    · exact view_put_ne hne
    · rfl
  · rfl

theorem view_unsubscribe {sink : Sink} {v : View} (hv : h.view id = some v) :
    (h.unsubscribe id sink).view id = some (v.withSinks (v.stream.sinks.filter (· ≠ sink))) := by
  obtain ⟨ho, hl, hd⟩ := view_eq_some.1 hv
  unfold unsubscribe
  rw [ho]
  exact view_eq_some.2 ⟨objects_put_self, hl, hd⟩

theorem view_unsubscribe_ne {sink : Sink} (hne : id' ≠ id) : (h.unsubscribe id sink).view id' = h.view id' := by
  unfold unsubscribe
  split
  · split
    · exact view_put_ne hne
    · rfl
  · rfl

theorem child_eq_some {t : Stream} : h.child id = some (s, t) ↔
    ∃ v, h.view id = some v ∧ v.session = s ∧ v.stream = t := by
  unfold child
  constructor
  · intro hc
    obtain ⟨s', ho, hc⟩ := Option.bind_eq_some_iff.1 hc
    obtain ⟨t', ht, he⟩ := Option.map_eq_some_iff.1 hc
    cases he
    exact view_of_objects ho ht
  · rintro ⟨v, hv, rfl, rfl⟩
    rw [(view_eq_some.1 hv).1]
    rfl

/-- An event of a child. -/
theorem onChild_eq_ok {p : ChildProcess → Bool} {f : ActiveSession → Stream → SessionManager} :
    h.onChild id p f = .ok h' ↔ ∃ v, h.view id = some v ∧ p v.stream.child = true ∧ h' = f v.session v.stream := by
  unfold onChild
  constructor
  · intro hs
    cases hc : h.child id with
    | none => simp [hc] at hs
    | some st =>
      obtain ⟨s, t⟩ := st
      obtain ⟨v, hv, rfl, rfl⟩ := child_eq_some.1 hc
      simp only [hc] at hs
      split_ifs at hs with hp
      cases hs
      exact ⟨v, hv, hp, rfl⟩
  · rintro ⟨v, hv, hp, rfl⟩
    rw [child_eq_some.2 ⟨v, hv, rfl, rfl⟩]
    exact if_pos hp

/-! ## Sessions without a stream -/

theorem stream_of_view_none (hv : h.view id = none) (ho : h.objects id = some s) : s.stream = none := by
  cases ht : s.stream with
  | none => rfl
  | some t =>
    obtain ⟨v, hv', -⟩ := view_of_objects ho ht
    rw [hv] at hv'
    cases hv'

theorem view_none_iff : h.view id = none ↔ ∀ s, h.objects id = some s → s.stream = none := by
  constructor
  · exact fun hv s => stream_of_view_none hv
  · intro hall
    rw [view, Option.bind_eq_none_iff]
    intro s hs
    rw [viewOf, hall s hs]
    rfl

theorem view_put_none (hs : s.stream = none) : (h.put id s).view id = none := by
  rw [view_put_self, viewOf, hs]
  rfl

theorem view_terminate_none {reason : TerminateReason} {sent : Bool} (hv : h.view id = none) :
    (h.terminate id reason sent).view id = none := by
  unfold terminate
  split
  · exact hv
  · next s ho =>
    have hst := stream_of_view_none hv ho
    split_ifs
    · exact hv
    · simp only [hst]
      exact view_put_none rfl

theorem view_stop_none {reason : TerminateReason} {sent : Bool} (hv : h.view id = none) :
    (h.stop id reason sent).view id = none := by
  unfold stop
  split_ifs
  · exact view_none_iff.2 fun s hs => stream_of_view_none (view_terminate_none hv) hs
  · exact hv

theorem view_cleanup_none {sent : SessionId → Bool} (hv : h.view id = none) :
    (h.cleanup sent).view id = none := by
  have hfold : ∀ (l : List SessionId) (h : SessionManager), h.view id = none →
      (l.foldl (fun h id => h.terminate id .cleanup (sent id)) h).view id = none := by
    intro l
    induction l with
    | nil => exact fun _ hv => hv
    | cons a l ih =>
      intro h hv
      rw [List.foldl_cons]
      refine ih _ ?_
      by_cases ha : id = a
      · subst ha
        exact view_terminate_none hv
      · rwa [view_terminate_ne ha]
  exact view_none_iff.2 fun s hs => stream_of_view_none (hfold h.sessions h hv) hs

theorem view_subscribe_none {sink : Sink} (hv : h.view id = none) : (h.subscribe id sink).view id = none := by
  unfold subscribe
  split
  · next s hg =>
    have ho : h.objects id = some s := by
      unfold get at hg
      split_ifs at hg
      exact hg
    rw [stream_of_view_none hv ho]
    exact hv
  · exact hv

theorem view_unsubscribe_none {sink : Sink} (hv : h.view id = none) :
    (h.unsubscribe id sink).view id = none := by
  unfold unsubscribe
  split
  · next s ho =>
    rw [stream_of_view_none hv ho]
    exact hv
  · exact hv

/-! ## New sessions -/

/-- No session is made. -/
def Idle (h h' : SessionManager) : Prop :=
  h'.objects = h.objects ∧ h'.sessions = h.sessions ∧ h'.sent = h.sent ∧ h.nextId ≤ h'.nextId

/-- A session is made, within the limit. -/
structure Makes (o : SessionManagerOptions) (h h' : SessionManager) (id : SessionId) (s : ActiveSession) : Prop where
  number : id.number = h.nextId
  nextId : h'.nextId = h.nextId + 1
  objects : h'.objects = Function.update h.objects id (some s)
  sessions : h'.sessions = h.sessions ++ [id]
  sent : h'.sent = h.sent
  open_ : s.terminated = false
  fresh : ∀ t, s.stream = some t →
    (∃ launched, t.child = .spawned launched) ∧ t.sinks.Nodup ∧ t.ended = none
  room : h.sessions.length < o.maxSessions

/-- What `start`, `resume` and `register` do. -/
def Grows (o : SessionManagerOptions) (h h' : SessionManager) : Prop := Idle h h' ∨ ∃ id s, Makes o h h' id s

theorem idle_refl : Idle h h := ⟨rfl, rfl, rfl, le_refl _⟩

theorem grows_createSession {time : ℕ} {opts : SessionSpawnOptions} {sink : Sink} {spawned : Spawned}
    (hroom : h.sessions.length < o.maxSessions) : Grows o h (h.createSession o time opts sink spawned).2 := by
  unfold createSession
  split
  · exact Or.inl idle_refl
  · next runtime hruntime =>
    by_cases hadapter : runtime ≠ .opencode ∧ o.runtimes runtime = false
    · rw [if_pos hadapter]
      exact Or.inl idle_refl
    · rw [if_neg hadapter]
      dsimp only
      generalize hb : ({ h with nextId := h.nextId + 1 } : SessionManager) = h₁
      have hbo : h₁.objects = h.objects ∧ h₁.sessions = h.sessions ∧ h₁.sent = h.sent ∧
          h₁.nextId = h.nextId + 1 := by
        subst hb
        exact ⟨rfl, rfl, rfl, rfl⟩
      generalize (opts.sessionId <|> if runtime = .pi then some (SessionId.text ⟨time, h.nextId⟩) else none) = native
      obtain ⟨ho, hl, hd, hn⟩ := same_setNative (h := h₁) native runtime
      generalize h₁.setNative native runtime = h₂ at ho hl hd hn
      have hsame : h₂.objects = h.objects ∧ h₂.sessions = h.sessions ∧ h₂.sent = h.sent ∧
          h₂.nextId = h.nextId + 1 :=
        ⟨ho.trans hbo.1, hl.trans hbo.2.1, hd.trans hbo.2.2.1, hn.trans hbo.2.2.2⟩
      obtain ⟨ho', hl', hd', hn'⟩ := same_deleteNative (h := h₂) native
      have hidle : Idle h (h₂.deleteNative native) := by
        refine ⟨ho'.trans hsame.1, hl'.trans hsame.2.1, hd'.trans hsame.2.2.1, ?_⟩
        rw [hn', hsame.2.2.2]
        exact Nat.le_succ _
      split
      · exact Or.inl hidle
      · exact Or.inl hidle
      · next launched =>
        refine Or.inr ⟨⟨time, h.nextId⟩, ?session, rfl, hsame.2.2.2, ?objects, ?sessions, hsame.2.2.1,
          ?running, ?fresh, hroom⟩
        case objects =>
          show Function.update h₂.objects _ _ = _
          rw [hsame.1]
        case sessions =>
          show h₂.sessions ++ _ = _
          rw [hsame.2.1]
        case running => rfl
        case fresh =>
          rintro t ⟨⟩
          exact ⟨⟨launched, rfl⟩, List.nodup_singleton _, rfl⟩

theorem lt_of_not_atCapacity (hc : ¬ h.atCapacity o = true) : h.sessions.length < o.maxSessions := by
  unfold atCapacity at hc
  rw [decide_eq_true_eq] at hc
  omega

theorem grows_start {time : ℕ} {opts : SessionSpawnOptions} {sink : Sink} {spawned : Spawned} :
    Grows o h (h.start o time opts sink spawned).2 := by
  unfold start
  split_ifs with hc
  · exact Or.inl idle_refl
  · exact Or.inl idle_refl
  · exact grows_createSession (lt_of_not_atCapacity hc)

theorem grows_resume {time : ℕ} {sessionId : Units} {opts : SessionSpawnOptions} {sink : Sink}
    {spawned : Spawned} : Grows o h (h.resume o time sessionId opts sink spawned).2 := by
  unfold resume
  split_ifs with hc
  · exact Or.inl idle_refl
  · exact Or.inl idle_refl
  · split
    · split_ifs
      · exact grows_createSession (lt_of_not_atCapacity hc)
      · exact Or.inl idle_refl
    · exact grows_createSession (lt_of_not_atCapacity hc)

theorem grows_register {time : ℕ} {deploymentId : Units} {model runtime : Option Units} :
    Grows o h (h.register o time deploymentId model runtime).2 := by
  unfold register
  split
  · exact Or.inl idle_refl
  · split_ifs with hc
    · exact Or.inl idle_refl
    · exact Or.inr ⟨⟨time, h.nextId⟩, _, rfl, rfl, rfl, rfl, rfl, rfl, by rintro t ⟨⟩, lt_of_not_atCapacity hc⟩

/-! ## Ids -/

/-- The id is in use. -/
def Known (h : SessionManager) (id : SessionId) : Prop :=
  (∃ s, h.objects id = some s) ∨ id ∈ h.sessions ∨ ∃ d ∈ h.sent, d.session = id

/-- No id in use is as large as the next one. -/
def Numbered (h : SessionManager) : Prop := ∀ id, h.Known id → id.number < h.nextId

/-- Nothing is known that was not known before. -/
def Within (h h' : SessionManager) : Prop := h'.nextId = h.nextId ∧ ∀ id, h'.Known id → h.Known id

theorem Within.refl (h : SessionManager) : Within h h := ⟨rfl, fun _ hk => hk⟩

theorem Within.trans {h'' : SessionManager} (h₁ : Within h h') (h₂ : Within h' h'') : Within h h'' :=
  ⟨h₂.1.trans h₁.1, fun id hk => h₁.2 id (h₂.2 id hk)⟩

theorem Within.numbered (hw : Within h h') (hn : h.Numbered) : h'.Numbered := fun id hk => by
  rw [hw.1]
  exact hn id (hw.2 id hk)

theorem known_of_objects (ho : h.objects id = some s) : h.Known id := Or.inl ⟨s, ho⟩

theorem Same.within (hs : Same h h') : Within h h' := by
  obtain ⟨ho, hl, hd, hn⟩ := hs
  refine ⟨hn, fun id hk => ?_⟩
  unfold Known at hk ⊢
  rwa [ho, hl, hd] at hk

theorem within_put (hk : h.Known id) : Within h (h.put id s) := by
  refine ⟨rfl, fun id' hk' => ?_⟩
  by_cases hid : id' = id
  · exact hid ▸ hk
  · rcases hk' with ⟨s', hs'⟩ | hl | hd
    · exact Or.inl ⟨s', (Function.update_of_ne hid _ _).symm.trans hs'⟩
    · exact Or.inr (Or.inl hl)
    · exact Or.inr (Or.inr hd)

theorem within_emit (hk : h.Known id) : Within h (h.emit id sinks e) := by
  refine ⟨rfl, fun id' hk' => ?_⟩
  rcases hk' with hs | hl | ⟨d, hd, rfl⟩
  · exact Or.inl hs
  · exact Or.inr (Or.inl hl)
  · rcases List.mem_append.1 hd with hd | hd
    · exact Or.inr (Or.inr ⟨d, hd, rfl⟩)
    · obtain ⟨sink, -, rfl⟩ := List.mem_map.1 hd
      exact hk

theorem Known.emit (hk : h.Known id') : (h.emit id sinks e).Known id' := by
  rcases hk with hs | hl | ⟨d, hd, rfl⟩
  · exact Or.inl hs
  · exact Or.inr (Or.inl hl)
  · exact Or.inr (Or.inr ⟨d, List.mem_append_left _ hd, rfl⟩)

theorem within_emitData {data : List Value} (hk : h.Known id) : Within h (h.emitData id sinks data) := by
  induction data generalizing h with
  | nil => exact .refl h
  | cons d data ih => exact (within_emit hk).trans (ih hk.emit)

theorem within_sessions {l : List SessionId} {ended : List SessionId} (hl : ∀ id ∈ l, id ∈ h.sessions) :
    Within h { h with sessions := l, notified := ended } := by
  refine ⟨rfl, fun id hk => ?_⟩
  rcases hk with hs | hs | hd
  · exact Or.inl hs
  · exact Or.inr (Or.inl (hl id hs))
  · exact Or.inr (Or.inr hd)

theorem within_delete : Within h (h.delete id) :=
  within_sessions fun _ hs => List.mem_of_mem_filter hs

theorem known_put : (h.put id s).Known id := Or.inl ⟨s, objects_put_self⟩

theorem within_finalize {t : Stream} (hk : (∃ s, h.objects id = some s)) : Within h (h.finalize id s t) := by
  unfold finalize
  split_ifs
  · exact (within_delete.trans (within_put (Or.inl hk))).trans (within_sessions fun _ hs => hs)
  · exact within_put (Or.inl hk)

theorem within_terminate {reason : TerminateReason} {sent : Bool} : Within h (h.terminate id reason sent) := by
  unfold terminate
  split
  · exact .refl h
  · next s ho =>
    have hk : h.Known id := known_of_objects ho
    split_ifs
    · exact .refl h
    · dsimp only
      split
      · exact within_put hk
      · split_ifs
        · exact (within_put hk).trans (within_emit known_put)
        · exact within_put hk

theorem within_cleanup {sent : SessionId → Bool} : Within h (h.cleanup sent) := by
  have hfold : ∀ (l : List SessionId) (h : SessionManager),
      Within h (l.foldl (fun h id => h.terminate id .cleanup (sent id)) h) := by
    intro l
    induction l with
    | nil => exact fun h => .refl h
    | cons a l ih => exact fun h => within_terminate.trans (ih _)
  exact (hfold h.sessions h).trans (within_sessions (by simp))

theorem within_handleClose {code : Option ℤ} {v : View} (hv : h.view id = some v) :
    Within h (h.handleClose o id v.session v.stream code) := by
  obtain ⟨ho, -, -⟩ := view_eq_some.1 hv
  unfold handleClose
  dsimp only
  generalize closeOutput o.double (reader o v.session v.stream) v.stream.carry = out
  have hdata := @within_emitData h id v.stream.sinks out.1 (known_of_objects ho)
  have hobjects := (@emitData_keeps h id v.stream.sinks out.1).1
  generalize h.emitData id v.stream.sinks out.1 = h₁ at hdata hobjects
  have hsame := same_setNative (h := h₁) out.2.sessionIdParser.captured v.session.record.runtime
  generalize h₁.setNative out.2.sessionIdParser.captured v.session.record.runtime = h₂ at hsame
  have ho₂ : h₂.objects id = some v.session := by rw [hsame.1, hobjects, ho]
  refine (hdata.trans hsame.within).trans ?_
  split_ifs
  · exact within_put (known_of_objects ho₂)
  · exact (within_emit (known_of_objects ho₂)).trans (within_finalize ⟨_, ho₂⟩)

theorem Grows.numbered (hg : Grows o h h') (hn : h.Numbered) : h'.Numbered := by
  rcases hg with ⟨ho, hl, hd, hnext⟩ | ⟨id, s, hm⟩
  · intro id hk
    unfold Known at hk
    rw [ho, hl, hd] at hk
    exact (hn id hk).trans_le hnext
  · intro id' hk
    rw [hm.nextId]
    by_cases hid : id' = id
    · rw [hid, hm.number]
      exact Nat.lt_succ_self _
    · refine (hn id' ?_).trans (Nat.lt_succ_self _)
      unfold Known at hk
      rw [hm.objects, hm.sessions, hm.sent, Function.update_of_ne hid] at hk
      rcases hk with hs | hl | hd
      · exact Or.inl hs
      · rcases List.mem_append.1 hl with hl | hl
        · exact Or.inr (Or.inl hl)
        · exact absurd (List.mem_singleton.1 hl) hid
      · exact Or.inr (Or.inr hd)

/-- A session that is made is new, and the others stay. -/
theorem Grows.view (hg : Grows o h h') (hn : h.Numbered) (id : SessionId) :
    (∀ v, h.view id = some v → h'.view id = some v) ∧
      (h.view id = none → ∀ v, h'.view id = some v → v.Fresh) := by
  rcases hg with ⟨ho, hl, hd, -⟩ | ⟨new, s, hm⟩
  · have hsame : h'.view id = h.view id :=
      view_congr (by rw [ho]) (by rw [hl]) (by unfold deliveries; rw [hd])
    exact ⟨fun v hv => hsame.trans hv, fun hv v hv' => by rw [hsame, hv] at hv'; cases hv'⟩
  · have hdel : h'.deliveries id = h.deliveries id := by
      unfold deliveries
      rw [hm.sent]
    have hunknown : ¬ h.Known new := fun hk => (hn new hk).ne hm.number
    by_cases hid : id = new
    · subst hid
      refine ⟨fun v hv => absurd (known_of_objects (view_eq_some.1 hv).1) hunknown, fun _ v hv' => ?_⟩
      obtain ⟨ho, hl, hd⟩ := view_eq_some.1 hv'
      rw [hm.objects, Function.update_self, Option.some.injEq] at ho
      obtain ⟨hchild, hsinks, hended⟩ := hm.fresh v.stream (by rw [ho]; rfl)
      refine ⟨by rw [hl, hm.sessions]; simp, ?_, hchild, hsinks, hended, ?_⟩
      · have hopen := hm.open_
        rw [ho] at hopen
        exact hopen
      · rw [hd, hdel]
        unfold deliveries
        rw [List.filterMap_eq_nil_iff]
        intro d hd
        exact if_neg fun hds => hunknown (Or.inr (Or.inr ⟨d, hd, hds⟩))
    · have hsame : h'.view id = h.view id := by
        refine view_congr (by rw [hm.objects, Function.update_of_ne hid]) ?_ hdel
        rw [hm.sessions, List.mem_append, List.mem_singleton]
        exact ⟨fun hs => hs.resolve_right hid, Or.inl⟩
      exact ⟨fun v hv => hsame.trans hv, fun hv v hv' => by rw [hsame, hv] at hv'; cases hv'⟩

end SessionManager

open SessionManager

variable {o : SessionManagerOptions} {h h' : SessionManager} {e : Event}

/-- A change of the session `id'` alone. -/
theorem view_local {id id' : SessionId} {g : View → View}
    (hself : ∀ v, h.view id' = some v → h'.view id' = some (g v))
    (hnone : h.view id' = none → h'.view id' = none) (hne : id ≠ id' → h'.view id = h.view id) :
    (∀ v, h.view id = some v → h'.view id = some (if id' = id then g v else v)) ∧
      (h.view id = none → h'.view id = none) := by
  by_cases hid : id = id'
  · subst hid
    refine ⟨fun v hv => ?_, hnone⟩
    rw [if_pos rfl]
    exact hself v hv
  · rw [hne hid]
    refine ⟨fun v hv => ?_, fun hv => hv⟩
    rw [if_neg (Ne.symm hid)]
    exact hv

/-- An event of the child of `id'`. -/
theorem view_child {id id' : SessionId} {g : View → View} {p : ChildProcess → Bool}
    {f : ActiveSession → Stream → SessionManager} (hs : h.onChild id' p f = .ok h')
    (hself : ∀ v, h.view id' = some v → (f v.session v.stream).view id' = some (g v))
    (hne : ∀ s t, id ≠ id' → (f s t).view id = h.view id) :
    (∀ v, h.view id = some v → h'.view id = some (if id' = id then g v else v)) ∧
      (h.view id = none → h'.view id = none) := by
  obtain ⟨v', hv', -, rfl⟩ := onChild_eq_ok.1 hs
  refine view_local (fun v hv => ?_) (fun hv => absurd (hv'.symm.trans hv) (Option.some_ne_none _)) (hne _ _)
  obtain rfl := Option.some.inj (hv'.symm.trans hv)
  exact hself v' hv'

/-- **A step of the hub is a step of each session by itself.** -/
theorem view_step (hn : h.Numbered) (hs : step o h e = .ok h') (id : SessionId) :
    (∀ v, h.view id = some v → h'.view id = some (v.step o id e)) ∧
      (h.view id = none → ∀ v, h'.view id = some v → v.Fresh) := by
  -- a step that does not make a session gives none of the others a view
  have hother : ∀ {g : View → View} {h' : SessionManager},
      (∀ v, h.view id = some v → h'.view id = some (g v)) ∧ (h.view id = none → h'.view id = none) →
      (∀ v, h.view id = some v → h'.view id = some (g v)) ∧
        (h.view id = none → ∀ v, h'.view id = some v → v.Fresh) := by
    rintro g h' ⟨hsome, hnone⟩
    refine ⟨hsome, fun hv v hv' => ?_⟩
    rw [hnone hv] at hv'
    cases hv'
  cases e with
  | start time opts sink spawned =>
    cases hs
    exact grows_start.view hn id
  | resume time sessionId opts sink spawned =>
    cases hs
    exact grows_resume.view hn id
  | register time deploymentId model runtime =>
    cases hs
    exact grows_register.view hn id
  | subscribe id' sink =>
    cases hs
    exact hother (view_local (fun v => view_subscribe) view_subscribe_none view_subscribe_ne)
  | unsubscribe id' sink =>
    cases hs
    exact hother (view_local (fun v => view_unsubscribe) view_unsubscribe_none view_unsubscribe_ne)
  | stop id' sent =>
    cases hs
    exact hother (view_local (fun v => view_stop) view_stop_none view_stop_ne)
  | disconnect id' sent =>
    cases hs
    exact hother (view_local (fun v => view_stop) view_stop_none view_stop_ne)
  | cleanup sent =>
    cases hs
    exact hother ⟨fun v => view_cleanup, view_cleanup_none⟩
  | stdout id' chunk =>
    simp only [step] at hs
    exact hother (view_child hs (fun v => view_handleOutput) fun _ _ => view_handleOutput_ne)
  | stderr id' chunk =>
    simp only [step] at hs
    exact hother (view_child hs (fun v => view_handleOutput) fun _ _ => view_handleOutput_ne)
  | exit id' code =>
    simp only [step] at hs
    refine hother (view_child hs (fun v hv => ?_) fun _ _ => view_put_ne)
    obtain ⟨-, hl, hd⟩ := view_eq_some.1 hv
    exact view_eq_some.2 ⟨objects_put_self, hl, hd⟩
  | error id' message =>
    simp only [step] at hs
    exact hother (view_child hs (fun v => view_handleError) fun _ _ => view_handleError_ne)
  | close id' code =>
    simp only [step] at hs
    exact hother (view_child hs (fun v => view_handleClose) fun _ _ => view_handleClose_ne)
  | timer id' sent =>
    simp only [step] at hs
    refine hother (view_child hs (fun v hv => ?_) fun _ _ => view_put_ne)
    obtain ⟨-, hl, hd⟩ := view_eq_some.1 hv
    exact view_eq_some.2 ⟨objects_put_self, hl, hd⟩

/-- Ids in use stay below the next one. -/
theorem numbered_step (hn : h.Numbered) (hs : step o h e = .ok h') : h'.Numbered := by
  cases e with
  | start time opts sink spawned =>
    cases hs
    exact grows_start.numbered hn
  | resume time sessionId opts sink spawned =>
    cases hs
    exact grows_resume.numbered hn
  | register time deploymentId model runtime =>
    cases hs
    exact grows_register.numbered hn
  | subscribe id' sink =>
    cases hs
    refine Within.numbered ?_ hn
    unfold subscribe
    split
    · next s hg =>
      split
      · refine within_put (known_of_objects (s := s) ?_)
        unfold SessionManager.get at hg
        split_ifs at hg
        exact hg
      · exact .refl h
    · exact .refl h
  | unsubscribe id' sink =>
    cases hs
    refine Within.numbered ?_ hn
    unfold unsubscribe
    split
    · next s ho =>
      split
      · exact within_put (known_of_objects ho)
      · exact .refl h
    · exact .refl h
  | stop id' sent | disconnect id' sent =>
    cases hs
    refine Within.numbered ?_ hn
    unfold SessionManager.stop
    split_ifs
    · exact within_terminate.trans within_delete
    · exact .refl h
  | cleanup sent =>
    cases hs
    exact within_cleanup.numbered hn
  | stdout id' chunk | stderr id' chunk =>
    simp only [step] at hs
    obtain ⟨v, hv, -, rfl⟩ := onChild_eq_ok.1 hs
    have hk : h.Known id' := known_of_objects (view_eq_some.1 hv).1
    refine Within.numbered ?_ hn
    unfold handleOutput
    split_ifs
    · exact .refl h
    · exact (within_put hk).trans (within_emitData known_put)
  | exit id' code | timer id' sent =>
    simp only [step] at hs
    obtain ⟨v, hv, -, rfl⟩ := onChild_eq_ok.1 hs
    exact (within_put (known_of_objects (view_eq_some.1 hv).1)).numbered hn
  | error id' message =>
    simp only [step] at hs
    obtain ⟨v, hv, -, rfl⟩ := onChild_eq_ok.1 hs
    have ho := (view_eq_some.1 hv).1
    refine Within.numbered ?_ hn
    unfold handleError
    split_ifs
    · exact .refl h
    · exact (within_emit (known_of_objects ho)).trans (within_finalize ⟨_, ho⟩)
  | close id' code =>
    simp only [step] at hs
    obtain ⟨v, hv, -, rfl⟩ := onChild_eq_ok.1 hs
    exact (within_handleClose hv).numbered hn

theorem numbered_new : SessionManager.new.Numbered := by
  rintro id (⟨s, hs⟩ | hl | ⟨d, hd, -⟩)
  · cases hs
  · cases hl
  · cases hd

/-- **What a step of a session keeps holds of every session of a hub**, in runs
    whose steps meet the condition `C`. -/
theorem views_invariant {C : SessionManager → Event → Prop} {P : SessionId → View → Prop}
    (hfresh : ∀ id v, v.Fresh → P id v)
    (hstep : ∀ h e h' id v, step o h e = .ok h' → C h e → h.view id = some v → P id v → P id (v.step o id e))
    {l : List (Run.Step SessionManager Event)} (hr : Reaches o l h) (hc : ∀ st ∈ l, C st.before st.event) :
    h.Numbered ∧ ∀ id v, h.view id = some v → P id v := by
  refine (Run.Reaches.throughout (C := C)
    (I := fun h => h.Numbered ∧ ∀ id v, h.view id = some v → P id v) ⟨numbered_new, ?_⟩ ?_ hr hc).1
  · intro id v hv
    cases hv
  · rintro h e h' ⟨hn, hall⟩ hce hs
    refine ⟨numbered_step hn hs, fun id v' hv' => ?_⟩
    obtain ⟨hsome, hnone⟩ := view_step hn hs id
    cases hv : h.view id with
    | none => exact hfresh id v' (hnone hv v' hv')
    | some v =>
      rw [hsome v hv, Option.some.injEq] at hv'
      exact hv' ▸ hstep h e h' id v hs hce hv (hall id v hv)

end PaPlatform.Hub
