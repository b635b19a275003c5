/-
  The output of a child and the chunks it arrives in.

  Each chunk is decoded by itself, and the carried text is cut to its last 8192
  units together with the new chunk.  Where the chunks are decoded like the whole
  output and no carried text is cut, the lines that are processed are the lines of
  the whole output, and the chunks make no difference.
-/
import PaPlatform.Hub.Endings

namespace PaPlatform.Hub

open Js Units SessionManager

/-! ## Lines -/

/-- The last line of a text. -/
def lastLine (s : Units) : Units := (split s '\n').getLastD []

/-- The lines of a text before the last one. -/
def wholeLines (s : Units) : List Units := (split s '\n').dropLast

theorem split_eq (s : Units) : split s '\n' = wholeLines s ++ [lastLine s] := by
  have hne : split s '\n' ≠ [] := List.splitOn_ne_nil _ _
  unfold wholeLines lastLine
  rw [List.getLastD_eq_getLast?, List.getLast?_eq_some_getLast hne, Option.getD_some,
    List.dropLast_append_getLast hne]

theorem lines_of_split {s w : Units} {lines : List Units} (h : split s '\n' = lines ++ [w]) :
    wholeLines s = lines ∧ lastLine s = w := by
  unfold wholeLines lastLine
  rw [h, List.dropLast_concat, List.getLastD_concat]
  exact ⟨rfl, rfl⟩

theorem split_cons (u : UInt16) (s : Units) : split (u :: s) '\n' =
    if u == unit '\n' then [] :: split s '\n' else (split s '\n').modifyHead (u :: ·) :=
  List.splitOn_cons_eq_if_modifyHead u s

/-- **The lines of a text that is carried on.** -/
theorem split_append (s t : Units) : split (s ++ t) '\n' = wholeLines s ++ split (lastLine s ++ t) '\n' := by
  induction s with
  | nil => rfl
  | cons u s ih =>
    rw [List.cons_append, split_cons, ih]
    by_cases hu : (u == unit '\n') = true
    · obtain ⟨hwhole, hlast⟩ := @lines_of_split (u :: s) (lastLine s) ([] :: wholeLines s) (by
        rw [split_cons, if_pos hu, split_eq s]
        rfl)
      rw [if_pos hu, hwhole, hlast]
      rfl
    · rw [if_neg hu]
      cases hw : wholeLines s with
      | nil =>
        -- the text is one line so far
        obtain ⟨hwhole, hlast⟩ := @lines_of_split (u :: s) (u :: lastLine s) [] (by
          rw [split_cons, if_neg hu, split_eq s, hw]
          rfl)
        rw [hwhole, hlast, List.nil_append, List.nil_append, List.cons_append, split_cons, if_neg hu]
      | cons a lines =>
        obtain ⟨hwhole, hlast⟩ := @lines_of_split (u :: s) (lastLine s) ((u :: a) :: lines) (by
          rw [split_cons, if_neg hu, split_eq s, hw]
          rfl)
        rw [hwhole, hlast]
        rfl

theorem lines_append (s t : Units) : wholeLines (s ++ t) = wholeLines s ++ wholeLines (lastLine s ++ t) ∧
    lastLine (s ++ t) = lastLine (lastLine s ++ t) := by
  refine lines_of_split ?_
  rw [split_append, split_eq (lastLine s ++ t), List.append_assoc]

/-! ## Chunks -/

variable {double : Units → Number} {r : LineReader} {c : Carry} {p : SessionIdParser}

/-- `handleStdout`, of one chunk after another. -/
def readChunks (double : Units → Number) (r : LineReader) (c : Carry) : List Bytes → List Value × Carry
  | [] => ([], c)
  | chunk :: chunks =>
    let (data, c) := handleStdout double r c chunk
    let (later, c) := readChunks double r c chunks
    (data ++ later, c)

/-- No carried text is cut: the line so far fits with the next chunk. -/
def Fits (carried : Units) : List Units → Prop
  | [] => True
  | text :: texts => (carried ++ text).length ≤ maxStreamCarry ∧ Fits (lastLine (carried ++ text)) texts

/-- The chunks are decoded like the whole output, and no carried text is cut. -/
def Whole (chunks : List Bytes) : Prop :=
  (chunks.map Units.decodeUtf8).flatten = Units.decodeUtf8 chunks.flatten ∧ Fits [] (chunks.map Units.decodeUtf8)

theorem processLines_append (lines lines' : List Units) : processLines double r p (lines ++ lines') =
    ((processLines double r p lines).1 ++ (processLines double r (processLines double r p lines).2 lines').1,
      (processLines double r (processLines double r p lines).2 lines').2) := by
  induction lines generalizing p with
  | nil => rfl
  | cons line lines ih =>
    simp only [List.cons_append, processLines, ih, List.append_assoc]

/-- A chunk that fits. -/
theorem handleStdout_fits {chunk : Bytes} (hf : (c.stdoutBuffer ++ Units.decodeUtf8 chunk).length ≤ maxStreamCarry) :
    handleStdout double r c chunk =
      ((processLines double r c.sessionIdParser (wholeLines (c.stdoutBuffer ++ Units.decodeUtf8 chunk))).1,
        { c with
          sessionIdParser :=
            (processLines double r c.sessionIdParser (wholeLines (c.stdoutBuffer ++ Units.decodeUtf8 chunk))).2
          stdoutBuffer := lastLine (c.stdoutBuffer ++ Units.decodeUtf8 chunk) }) := by
  have ht : tail (c.stdoutBuffer ++ Units.decodeUtf8 chunk) maxStreamCarry = c.stdoutBuffer ++ Units.decodeUtf8 chunk :=
    if_neg (Nat.not_lt.2 hf)
  unfold handleStdout
  rw [ht]
  rfl

/-- **Chunks that fit are read like their text.** -/
theorem readChunks_fits {chunks : List Bytes} (hf : Fits c.stdoutBuffer (chunks.map Units.decodeUtf8))
    (hlast : lastLine c.stdoutBuffer = c.stdoutBuffer) (hwhole : wholeLines c.stdoutBuffer = []) :
    readChunks double r c chunks =
      ((processLines double r c.sessionIdParser
          (wholeLines (c.stdoutBuffer ++ (chunks.map Units.decodeUtf8).flatten))).1,
        { c with
          sessionIdParser := (processLines double r c.sessionIdParser
            (wholeLines (c.stdoutBuffer ++ (chunks.map Units.decodeUtf8).flatten))).2
          stdoutBuffer := lastLine (c.stdoutBuffer ++ (chunks.map Units.decodeUtf8).flatten) }) := by
  induction chunks generalizing c with
  | nil =>
    simp only [readChunks, List.map_nil, List.flatten_nil, List.append_nil, hwhole, hlast]
    rfl
  | cons chunk chunks ih =>
    rw [List.map_cons] at hf
    obtain ⟨hfit, hrest⟩ := hf
    rw [readChunks, handleStdout_fits hfit]
    dsimp only
    -- the line that is carried on has no line break
    have hcarried := lines_append (c.stdoutBuffer ++ Units.decodeUtf8 chunk) []
    rw [List.append_nil, List.append_nil] at hcarried
    have hnone : wholeLines (lastLine (c.stdoutBuffer ++ Units.decodeUtf8 chunk)) = [] := by
      have h := hcarried.1
      exact List.self_eq_append_right.1 h
    rw [ih hrest hcarried.2.symm hnone]
    rw [List.map_cons, List.flatten_cons, ← List.append_assoc]
    obtain ⟨hw, hl⟩ := lines_append (c.stdoutBuffer ++ Units.decodeUtf8 chunk) (chunks.map Units.decodeUtf8).flatten
    rw [hw, hl, processLines_append]

/-- **Two ways of splitting an output are read alike**, if neither splits a
    character and neither exceeds the carry. -/
theorem readChunks_eq {chunks chunks' : List Bytes} (h : Whole chunks) (h' : Whole chunks')
    (he : chunks.flatten = chunks'.flatten) :
    readChunks double r .empty chunks = readChunks double r .empty chunks' := by
  rw [readChunks_fits h.2 rfl rfl, readChunks_fits h'.2 rfl rfl, h.1, h'.1, he]

/-! ## Sessions -/

variable {o : SessionManagerOptions} {h h' : SessionManager} {id : SessionId} {v : View}
  {chunks chunks' : List Bytes} {code : ℤ}

/-- A session that was started, and whose child has not written, exited or closed. -/
def SessionManager.Started (h : SessionManager) (id : SessionId) : Prop :=
  ∃ s t, h.child id = some (s, t) ∧ s.terminated = false ∧ t.carry = .empty ∧ t.child.exitCode = none ∧
    t.child.closed = false

/-- The child writes these chunks, exits and closes. -/
def outputEvents (id : SessionId) (chunks : List Bytes) (code : ℤ) : List Event :=
  chunks.map (.stdout id) ++ [.exit id (some code), .close id (some code)]

/-- The sinks of the session get the same events for both ways of splitting its
    output, and the same native session is recorded. -/
def ReadAlike (o : SessionManagerOptions) (h : SessionManager) (id : SessionId) (chunks chunks' : List Bytes)
    (code : ℤ) : Prop :=
  ∃ h₁ h₂, Run.exec (step o) h (outputEvents id chunks code) = .ok h₁ ∧
    Run.exec (step o) h (outputEvents id chunks' code) = .ok h₂ ∧
    (∀ k, h₁.received id k = h₂.received id k) ∧ h₁.nativeSessionRuntimes = h₂.nativeSessionRuntimes

/-- The session after some output. -/
def View.wrote (v : View) (out : List Value × Carry) : View :=
  View.emitData { v with stream := { v.stream with carry := out.2 } } out.1

theorem wrote_wrote {data data' : List Value} {c c' : Carry} :
    (v.wrote (data, c)).wrote (data', c') = v.wrote (data ++ data', c') := by
  unfold View.wrote
  rw [View.emitData_eq, View.emitData_eq, View.emitData_eq, List.flatMap_append, List.append_assoc]

theorem native_emitData {id : SessionId} {sinks : List Sink} {data : List Value} :
    (h.emitData id sinks data).nativeSessionRuntimes = h.nativeSessionRuntimes := by
  induction data generalizing h with
  | nil => rfl
  | cons d data ih => exact ih

theorem native_setNative {native : Option Units} {runtime : RuntimeName}
    (hn : h.nativeSessionRuntimes = h'.nativeSessionRuntimes) :
    (h.setNative native runtime).nativeSessionRuntimes = (h'.setNative native runtime).nativeSessionRuntimes := by
  unfold setNative
  split
  · split_ifs
    · dsimp only
      rw [hn]
    · exact hn
  · exact hn

/-- A chunk of a session that runs. -/
theorem step_stdout {chunk : Bytes} (hv : h.view id = some v) (ht : v.terminated = false)
    (hc : v.stream.child.closed = false) : ∃ h', step o h (.stdout id chunk) = .ok h' ∧
      h'.nativeSessionRuntimes = h.nativeSessionRuntimes ∧ h'.view id =
        some (v.wrote (handleStdout o.double (reader o v.session v.stream) v.stream.carry chunk)) := by
  refine ⟨h.handleOutput o (handleStdout o.double) id v.session v.stream chunk, ?_, ?_, ?_⟩
  · simp only [step]
    exact onChild_eq_ok.2 ⟨v, hv, by simp [hc], rfl⟩
  · unfold handleOutput
    rw [if_neg (show ¬ v.session.terminated = true by simp [View.session, ht])]
    exact native_emitData
  · rw [view_handleOutput hv, View.handleOutput, if_neg (by simp [ht])]
    rfl

theorem exec_chunks (hv : h.view id = some v) (ht : v.terminated = false)
    (hc : v.stream.child.closed = false) : ∃ h', Run.exec (step o) h (chunks.map (.stdout id)) = .ok h' ∧
      h'.nativeSessionRuntimes = h.nativeSessionRuntimes ∧
      h'.view id = some (v.wrote (readChunks o.double (reader o v.session v.stream) v.stream.carry chunks)) := by
  induction chunks generalizing h v with
  | nil => exact ⟨h, rfl, rfl, hv⟩
  | cons chunk chunks ih =>
    obtain ⟨h₁, hs, hn, hv₁⟩ := step_stdout (o := o) hv ht hc
    generalize hout : handleStdout o.double (reader o v.session v.stream) v.stream.carry chunk = out at hv₁
    have hkeep : (v.wrote out).terminated = v.terminated ∧ (v.wrote out).stream.child = v.stream.child ∧
        (v.wrote out).stream.carry = out.2 ∧
        reader o (v.wrote out).session (v.wrote out).stream = reader o v.session v.stream := by
      unfold View.wrote
      rw [View.emitData_eq]
      exact ⟨rfl, rfl, rfl, rfl⟩
    obtain ⟨h₂, he, hn', hv₂⟩ := ih hv₁ (hkeep.1.trans ht) (by rw [hkeep.2.1]; exact hc)
    refine ⟨h₂, ?_, hn'.trans hn, ?_⟩
    · rw [List.map_cons, Run.exec, hs]
      exact he
    · rw [hv₂, hkeep.2.2.1, hkeep.2.2.2, readChunks, hout]
      exact congrArg some wrote_wrote

theorem native_handleClose {s : ActiveSession} {t : Stream} {code : Option ℤ}
    (hn : h.nativeSessionRuntimes = h'.nativeSessionRuntimes) :
    (h.handleClose o id s t code).nativeSessionRuntimes = (h'.handleClose o id s t code).nativeSessionRuntimes := by
  have hset : ∀ g : SessionManager, (g.handleClose o id s t code).nativeSessionRuntimes =
      (g.setNative (closeOutput o.double (reader o s t) t.carry).2.sessionIdParser.captured
        s.record.runtime).nativeSessionRuntimes := by
    intro g
    unfold handleClose
    dsimp only
    split_ifs
    · exact native_setNative native_emitData
    · unfold finalize
      split_ifs <;> exact native_setNative native_emitData
  rw [hset, hset]
  exact native_setNative hn

/-- The end of a session that runs: its sinks and the recorded native session depend
    on the session and the runtimes recorded before. -/
theorem exec_close {h₁ h₂ : SessionManager} (hv₁ : h₁.view id = some v) (hv₂ : h₂.view id = some v)
    (hn : h₁.nativeSessionRuntimes = h₂.nativeSessionRuntimes) (hx : v.stream.child.exitCode = none)
    (hc : v.stream.child.closed = false) : ∃ h₁' h₂' w,
      Run.exec (step o) h₁ [.exit id (some code), .close id (some code)] = .ok h₁' ∧
      Run.exec (step o) h₂ [.exit id (some code), .close id (some code)] = .ok h₂' ∧
      h₁'.view id = some w ∧ h₂'.view id = some w ∧
      h₁'.nativeSessionRuntimes = h₂'.nativeSessionRuntimes := by
  generalize hw : v.withChild { v.stream.child with running := false, exitCode := some code } = w
  have hend : ∀ {h : SessionManager}, h.view id = some v →
      ∃ h' : SessionManager, h'.nativeSessionRuntimes = h.nativeSessionRuntimes ∧
        Run.exec (step o) h [.exit id (some code), .close id (some code)] =
          .ok (h'.handleClose o id w.session w.stream (some code)) ∧ h'.view id = some w := by
    intro h hv
    obtain ⟨-, hl, hd⟩ := view_eq_some.1 hv
    have hvw : (h.put id w.session).view id = some w := by
      rw [← hw]
      exact view_eq_some.2 ⟨objects_put_self, hl, hd⟩
    have hexit : step o h (.exit id (some code)) = .ok (h.put id w.session) := by
      simp only [step]
      refine onChild_eq_ok.2 ⟨v, hv, by simp [hx, hc], ?_⟩
      rw [← hw]
      rfl
    have hclose : step o (h.put id w.session) (.close id (some code)) =
        .ok ((h.put id w.session).handleClose o id w.session w.stream (some code)) := by
      simp only [step]
      exact onChild_eq_ok.2 ⟨w, hvw, by rw [← hw]; simp [View.withChild, hc], rfl⟩
    refine ⟨h.put id w.session, rfl, ?_, hvw⟩
    rw [Run.exec, hexit, Guard.ok_bind, Run.exec, hclose]
    rfl
  obtain ⟨g₁, hn₁, he₁, hw₁⟩ := hend hv₁
  obtain ⟨g₂, hn₂, he₂, hw₂⟩ := hend hv₂
  exact ⟨_, _, _, he₁, he₂, view_handleClose hw₁, view_handleClose hw₂,
    native_handleClose (hn₁.trans (hn.trans hn₂.symm))⟩

/-- **The output of a session does not depend on its chunks**, where these are decoded
    like the whole and fit the carry. -/
theorem read_alike (hs : h.Started id) (h₁ : Whole chunks) (h₂ : Whole chunks')
    (he : chunks.flatten = chunks'.flatten) : ReadAlike o h id chunks chunks' code := by
  obtain ⟨s, t, hchild, ht, hcarry, hx, hc⟩ := hs
  obtain ⟨v, hv, rfl, rfl⟩ := child_eq_some.1 hchild
  obtain ⟨g₁, he₁, hn₁, hv₁⟩ := exec_chunks (o := o) hv ht hc
  obtain ⟨g₂, he₂, hn₂, hv₂⟩ := exec_chunks (o := o) hv ht hc
  rw [hcarry] at hv₁ hv₂
  rw [← readChunks_eq h₁ h₂ he] at hv₂
  have hkeep : ∀ out, (v.wrote out).stream.child = v.stream.child := by
    intro out
    unfold View.wrote
    rw [View.emitData_eq]
  obtain ⟨k₁, k₂, w, hk₁, hk₂, hw₁, hw₂, hnative⟩ := exec_close (o := o) hv₁ hv₂ (hn₁.trans hn₂.symm)
    (by rw [hkeep]; exact hx) (by rw [hkeep]; exact hc)
  refine ⟨k₁, k₂, ?_, ?_, fun k => ?_, hnative⟩
  · rw [outputEvents, Run.exec_append, he₁]
    exact hk₁
  · rw [outputEvents, Run.exec_append, he₂]
    exact hk₂
  · rw [received_eq hw₁, received_eq hw₂]

/-! ## A character in two chunks -/

namespace Sample

/-- The hub after the session was started. -/
def started : SessionManager := run [start]

/-- An output of one character and a line break. -/
def euro : List Bytes := [[0xe2, 0x82, 0xac, 0x0a]]

/-- The same output, whose line break comes by itself. -/
def euroLine : List Bytes := [[0xe2, 0x82, 0xac], [0x0a]]

/-- The same output, whose character is split. -/
def euroSplit : List Bytes := [[0xe2], [0x82, 0xac, 0x0a]]

/-- The lengths of some events. -/
def sizes (es : List SessionStreamEvent) : List ℕ :=
  es.map fun
    | .event data => data.stringify.length
    | _ => 0

/-- The lengths of the events that the sink got. -/
def size (r : Except Unit SessionManager) : List ℕ :=
  match r with
  | .ok h => sizes (h.received first 7)
  | .error _ => []

theorem started_first : started.Started first := by
  have hrun : (started.child first).any (fun st => !st.1.terminated && st.2.child.exitCode.isNone &&
      !st.2.child.closed && decide (st.2.carry = .empty)) = true := by decide
  cases hc : started.child first with
  | none => simp [hc] at hrun
  | some st =>
    simp only [hc, Option.any_some, Bool.and_eq_true, Bool.not_eq_true', Option.isNone_iff_eq_none] at hrun
    exact ⟨st.1, st.2, hc, hrun.1.1.1, of_decide_eq_true hrun.2, hrun.1.1.2, hrun.1.2⟩

end Sample

open Sample in
theorem read_alike_euro : ReadAlike options started first euro euroLine 0 :=
  read_alike started_first ⟨by decide, by decide, trivial⟩
    ⟨by decide, by decide, by decide, trivial⟩ rfl

open Sample in
/-- A character that is split over two chunks is read as three other characters. -/
theorem read_split : ¬ ∀ chunks chunks' : List Bytes, (∀ chunk ∈ chunks, chunk ≠ []) →
    (∀ chunk ∈ chunks', chunk ≠ []) → chunks.flatten = chunks'.flatten →
    ReadAlike options started first chunks chunks' 0 := by
  intro hall
  obtain ⟨h₁, h₂, he₁, he₂, hr, -⟩ := hall euro euroSplit (by decide) (by decide) rfl
  have hsize : size (Run.exec (step options) started (outputEvents first euro 0)) ≠
      size (Run.exec (step options) started (outputEvents first euroSplit 0)) := by decide
  rw [he₁, he₂] at hsize
  exact hsize (congrArg sizes (hr 7))

end PaPlatform.Hub
