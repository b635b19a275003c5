/-
  Crash safety of the prepared workflow engine.

  * `Good d tr`: what every trace `tr` satisfies, together with the files of the
    directory `d` that it relies on;
  * `Open c live w`: the journal in memory is the journal of the directory, and
    all of it is durable;
  * one rule for each function of the engine says that it keeps `Good`, and
    what a result says about the open journal;
  * `crash_safe_ordered_effects` follows for every sequence of calls, crashes
    and losses of power.
-/
import PaPlatform.Prepared.Service

namespace PaPlatform.Prepared

open Js Guard Effect

/-! ## Readings of a directory and of a trace -/

/-- The event `e` of `c` is durable. -/
def Durable (sha256 : Bytes → Sha256) (d : Directory) (c : PreparationContract)
    (e : PreparationEvent) : Prop :=
  ∃ value, d.Settled (eventName sha256 c e.sequence) value ∧
    parsePreparationEvent sha256 value = some e

/-- The directory holds a start of `action` and no later event of the action. -/
def OpenStart (sha256 : Bytes → Sha256) (d : Directory) (c : PreparationContract)
    (action : PreparationAction) : Prop :=
  ∃ e, (d.read (eventName sha256 c e.sequence)).bind (parsePreparationEvent sha256) = some e ∧
    e.starts = some action ∧ ∀ e', e.sequence < e'.sequence →
      (d.read (eventName sha256 c e'.sequence)).bind (parsePreparationEvent sha256) = some e' →
        e'.action ≠ some action

/-- The directory holds a durable start of `action` and no later record at all. -/
def DurableStart (sha256 : Bytes → Sha256) (d : Directory) (c : PreparationContract)
    (action : PreparationAction) : Prop :=
  ∃ e, Durable sha256 d c e ∧ e.starts = some action ∧
    ∀ n, e.sequence < n → eventName sha256 c n ∉ d.names

/-- The action whose observed result an entry appends to the journal of `c`. -/
def Entry.observes (c : PreparationContract) : Entry → Option PreparationAction
  | .appended c' e _ _ => if c' = c then e.observes else none
  | _ => none

/-- The observed results of `c`, in the order of the trace. -/
def observedIn (c : PreparationContract) (tr : List Entry) : List PreparationAction :=
  tr.filterMap (Entry.observes c)

/-- A call of `consume` that was accepted with the consumer `x`. -/
def Entry.consumedBy (c : PreparationContract) (x : SourceVersion) (entry : Entry) : Prop :=
  ∃ status d, entry = .returned .consume c (some x) status d ∧ status.state = .consumed

variable {sha256 : Bytes → Sha256} {d d' : Directory} {c : PreparationContract}
  {intent : WorkflowIntent} {es : List PreparationEvent} {e : PreparationEvent}
  {r r' : PreparationReplay} {tr : List Entry} {entry : Entry} {w : World} {live : Live}
  {action : PreparationAction} {operation : Operation} {evidence : Option SourceVersion}

/-! ## Journals and their events -/

theorem Journal.coherent (h : Journal sha256 d c intent es r) : Coherent es r :=
  Prepared.coherent h.replay

/-- The readable events of a directory are those of its journal. -/
theorem Journal.mem_iff (h : Journal sha256 d c intent es r) :
    (d.read (eventName sha256 c e.sequence)).bind (parsePreparationEvent sha256) = some e ↔ e ∈ es := by
  refine ⟨fun hr => ?_, fun he => h.reads e he⟩
  obtain ⟨value, hv, -⟩ := Option.bind_eq_some_iff.1 hr
  have hmem : eventName sha256 c e.sequence ∈ eventNames sha256 d c :=
    List.mem_filter.2 ⟨List.mem_filter.2 ⟨Directory.mem_names_of_read hv, by simp [eventName]⟩, rfl⟩
  obtain ⟨e', he', heq⟩ := List.mem_map.1 (h.names.mem_iff.1 hmem)
  have hr' := h.reads e' he'
  rw [heq, hr] at hr'
  obtain rfl := Option.some.inj hr'
  exact he'

theorem Durable.mem (hd : Durable sha256 d c e) (h : Journal sha256 d c intent es r) : e ∈ es := by
  obtain ⟨value, hs, hp⟩ := hd
  exact h.mem_iff.1 (by rw [hs.read, Option.bind_some, hp])

theorem Journal.durable (h : Journal sha256 d c intent es r) (hd : d.AllDurable) (he : e ∈ es) :
    Durable sha256 d c e := by
  obtain ⟨value, hv, hp⟩ := Option.bind_eq_some_iff.1 (h.reads e he)
  exact ⟨value, hd.settled hv, hp⟩

theorem Durable.keep (hd : Durable sha256 d c e) (hk : d.Keeps d') : Durable sha256 d' c e := by
  obtain ⟨value, hs, hp⟩ := hd
  exact ⟨value, hk _ _ hs, hp⟩

theorem OpenStart.pending (ho : OpenStart sha256 d c action) (h : Journal sha256 d c intent es r) :
    r.pending = some action := by
  obtain ⟨e, hr, hs, hlater⟩ := ho
  obtain ⟨pre, post, rfl⟩ := List.append_of_mem (h.mem_iff.1 hr)
  refine h.coherent.opened action ⟨pre, e, post, rfl, hs, fun e' he' => ?_⟩
  have hlt : e.sequence < e'.sequence := by
    have hpw := replayEvents_pairwise h.replay
    rw [List.pairwise_append, List.pairwise_cons] at hpw
    exact hpw.2.1.1 e' he'
  exact hlater e' hlt (h.reads e' (by simp [he']))

/-- **While a start has no later result, the status is uncertain.** -/
theorem statusOf_openStart (ho : OpenStart sha256 d c action) (h : Journal sha256 d c intent es r) :
    (statusOf sha256 c r).state = .uncertainBlocked := by
  simp [statusOf, ho.pending h]

theorem status_openStart {st : PreparationStatus} (ho : OpenStart sha256 d c action)
    (h : status sha256 c d = .ok st) : st.state = .uncertainBlocked := by
  simp only [status, bind_eq_ok, pure_eq_ok] at h
  obtain ⟨⟨intent, es, r⟩, hload, rfl⟩ := h
  cases intent with
  | some intent => exact statusOf_openStart ho (journal_of_load hload)
  | none =>
    exfalso
    obtain ⟨-, -, -, hnil, -⟩ := eventNames_of_load hload
    obtain ⟨e, hr, -⟩ := ho
    obtain ⟨value, hv, -⟩ := Option.bind_eq_some_iff.1 hr
    have hmem : eventName sha256 c e.sequence ∈ eventNames sha256 d c :=
      List.mem_filter.2 ⟨List.mem_filter.2 ⟨Directory.mem_names_of_read hv, by simp [eventName]⟩, rfl⟩
    simp [hnil] at hmem

/-! ## The invariant of a trace -/

/-- What holds of an entry of the trace, given the entries before it and the
    directory that came of it. -/
def Entry.Good (sha256 : Bytes → Sha256) (d : Directory) (before : List Entry) : Entry → Prop
  | .called _ _ => True
  | .inspected _ _ _ => True
  | .performed c action d₀ =>
    (∃ pre answer, before = pre ++ [.inspected c action answer] ∧ answer.isAbsent) ∧
      DurableStart sha256 d₀ c action
  | .appended c e live d₀ =>
    Durable sha256 d c e ∧ Journal sha256 d₀ c live.intent live.events live.replay ∧
      ∀ a, e.observes = some a → ∀ b ∈ observedIn c before, b.rank < a.rank
  | .returned operation c evidence status d₀ =>
    (∀ action, OpenStart sha256 d₀ c action → status.state = .uncertainBlocked) ∧
      (operation = .consume → status.state = .consumed →
        (∃ e, Durable sha256 d c e ∧ e.starts = some .consume ∧ e.consumer = evidence) ∧
          ∀ entry ∈ before, ∀ y, entry.consumedBy c y → evidence = some y)

/-- The invariant of the traces. -/
def Good (sha256 : Bytes → Sha256) (d : Directory) (tr : List Entry) : Prop :=
  ∀ pre entry post, tr = pre ++ entry :: post → entry.Good sha256 d pre

theorem Entry.Good.keep {before : List Entry} (h : entry.Good sha256 d before) (hk : d.Keeps d') :
    entry.Good sha256 d' before := by
  cases entry with
  | called => exact h
  | inspected => exact h
  | performed => exact h
  | appended => exact ⟨h.1.keep hk, h.2⟩
  | returned =>
    refine ⟨h.1, fun ho hs => ?_⟩
    obtain ⟨⟨e, hd, hrest⟩, hsame⟩ := h.2 ho hs
    exact ⟨⟨e, hd.keep hk, hrest⟩, hsame⟩

theorem Good.keep (h : Good sha256 d tr) (hk : d.Keeps d') : Good sha256 d' tr :=
  fun pre entry post heq => (h pre entry post heq).keep hk

theorem good_nil : Good sha256 d [] := by
  intro pre entry post h
  simp at h

theorem Good.snoc (h : Good sha256 d tr) (he : entry.Good sha256 d tr) :
    Good sha256 d (tr ++ [entry]) := by
  intro pre entry' post heq
  rcases post.eq_nil_or_concat with rfl | ⟨post, last, rfl⟩
  · obtain ⟨rfl, hl⟩ := List.append_inj' heq rfl
    cases hl
    exact he
  · rw [List.concat_eq_append, ← List.cons_append, ← List.append_assoc] at heq
    obtain ⟨rfl, -⟩ := List.append_inj' heq rfl
    exact h pre entry' post rfl

/-- An accepted consumption has a durable start. -/
theorem Good.consumer (h : Good sha256 d tr) (hentry : entry ∈ tr) {x : SourceVersion}
    (hx : entry.consumedBy c x) :
    ∃ e, Durable sha256 d c e ∧ e.starts = some .consume ∧ e.consumer = some x := by
  obtain ⟨pre, post, rfl⟩ := List.append_of_mem hentry
  obtain ⟨status, d₀, rfl, hs⟩ := hx
  exact ((h pre _ post rfl).2 rfl hs).1

/-- All accepted consumptions of `c` have one consumer. -/
theorem Good.consumers (h : Good sha256 d tr) {entry' : Entry} {x y : SourceVersion}
    (hx : entry ∈ tr) (hxc : entry.consumedBy c x) (hy : entry' ∈ tr) (hyc : entry'.consumedBy c y) :
    x = y := by
  have hbefore : ∀ pre entry post entry' x y, tr = pre ++ entry :: post → entry.consumedBy c x →
      entry' ∈ pre → entry'.consumedBy c y → x = y := by
    rintro pre entry post entry' x y htr ⟨status, d₀, rfl, hs⟩ hmem hyc
    exact Option.some.inj (((h pre _ post htr).2 rfl hs).2 entry' hmem y hyc)
  obtain ⟨pre, post, rfl⟩ := List.append_of_mem hx
  rcases List.mem_append.1 hy with hmem | hmem
  · exact hbefore pre entry post entry' x y rfl hxc hmem hyc
  · rcases List.mem_cons.1 hmem with rfl | hmem
    · obtain ⟨_, _, rfl, -⟩ := hxc
      obtain ⟨_, _, heq, -⟩ := hyc
      cases heq
      rfl
    · obtain ⟨mid, post', rfl⟩ := List.append_of_mem hmem
      exact (hbefore (pre ++ entry :: mid) entry' post' entry y x (by simp) hyc (by simp) hxc).symm

/-- The observed results of `c` are in order. -/
theorem Good.pairwise (h : Good sha256 d tr) :
    (observedIn c tr).Pairwise fun a b => a.rank < b.rank := by
  induction tr using List.reverseRecOn with
  | nil => exact .nil
  | append_singleton tr entry ih =>
    have hpre : Good sha256 d tr := fun pre entry' post heq =>
      h pre entry' (post ++ [entry]) (by simp [heq])
    have hentry := h tr entry [] rfl
    unfold observedIn
    rw [List.filterMap_append, List.pairwise_append]
    refine ⟨ih hpre, ?_, fun b hb a ha => ?_⟩
    · cases hobs : entry.observes c <;> simp [hobs]
    · cases entry with
      | appended c' e r d₀ =>
        obtain ⟨entry', hmem, hobs⟩ := List.mem_filterMap.1 ha
        rw [List.mem_singleton.1 hmem] at hobs
        simp only [Entry.observes] at hobs
        split_ifs at hobs with hc
        subst hc
        exact hentry.2.2 a hobs b hb
      | _ => simp [Entry.observes] at ha

/-! ## The callbacks and the directory -/

theorem wp_ask {Q : Answer → World → Prop} {E : WorkflowFailure → World → Prop}
    (hQ : ∀ a, Q a { w with asked := w.asked + 1 }) (hE : ∀ e, E e { w with asked := w.asked + 1 }) :
    wp ask Q E w := by
  unfold ask
  simp only [wp_bind, wp_get, wp_set, wp_failIf, wp_pure]
  exact ⟨fun _ => hE _, fun _ => hQ _⟩

theorem wp_change {g : Directory → Directory} {Q : PUnit → World → Prop}
    {E : WorkflowFailure → World → Prop} :
    wp (change g) Q E w ↔ Q ⟨⟩ { w with directory := g w.directory } := by
  unfold change
  exact wp_modify

theorem wp_remember {Q : PUnit → World → Prop} {E : WorkflowFailure → World → Prop} :
    wp (remember entry) Q E w ↔ Q ⟨⟩ { w with trace := w.trace ++ [entry] } := by
  unfold remember
  exact wp_modify

theorem wp_now {Q : Timestamp → World → Prop} {E : WorkflowFailure → World → Prop}
    (hQ : ∀ t, Q t { w with asked := w.asked + 1 }) (hE : ∀ e, E e { w with asked := w.asked + 1 }) :
    wp now Q E w := by
  unfold now
  rw [wp_bind]
  exact wp_ask (fun a => wp_demand.2 ⟨fun _ => hE _, fun t _ => hQ t⟩) hE

/-- The publication of a new name: wherever it stops, nothing settled is
    lost. -/
theorem wp_publish {name : RecordName} {value : Json} {Q : PUnit → World → Prop}
    {E : WorkflowFailure → World → Prop} (hn : name ∉ w.directory.names)
    (hQ : ∀ n, Q ⟨⟩ ⟨w.directory.published name value, w.answers, n, w.trace⟩)
    (hE : ∀ e d' n, w.directory.Keeps d' → E e ⟨d', w.answers, n, w.trace⟩) :
    wp (publish name value) Q E w := by
  have hnone : w.directory.file? name = none := Directory.file?_eq_none.2 hn
  have h₁ : w.directory.Keeps w.directory.addTemporary := Directory.keeps_addTemporary
  have h₂ : w.directory.Keeps (w.directory.addTemporary.link name value) :=
    h₁.trans (Directory.keeps_link hn)
  have h₃ : w.directory.Keeps ((w.directory.addTemporary.link name value).unlink name) :=
    h₂.trans Directory.keeps_unlink
  have h₄ : w.directory.Keeps (w.directory.published name value) := h₃.trans Directory.keeps_sync
  unfold publish
  simp only [wp_bind, wp_failIf, wp_get, hnone, wp_change]
  refine ⟨fun _ => hE _ _ _ .refl, fun _ => ⟨fun _ => hE _ _ _ .refl, fun _ => ?_⟩⟩
  refine wp_ask (fun _ => ?_) fun _ => hE _ _ _ h₁
  refine wp_ask (fun _ => ?_) fun _ => hE _ _ _ h₂
  refine wp_ask (fun _ => ?_) fun _ => hE _ _ _ h₃
  exact wp_ask (fun _ => wp_pure.2 (hQ _)) fun _ => hE _ _ _ h₄

theorem wp_reaffirm {Q : PUnit → World → Prop} {E : WorkflowFailure → World → Prop}
    (hQ : ∀ n, Q ⟨⟩ ⟨w.directory.sync, w.answers, n, w.trace⟩)
    (hE : ∀ e n, E e ⟨w.directory, w.answers, n, w.trace⟩) : wp reaffirm Q E w := by
  unfold reaffirm
  simp only [wp_bind, wp_change]
  exact wp_ask (fun _ => hQ _) fun _ => hE _ _

/-! ## The journal in memory -/

/-- The journal in memory is the one of the directory, and durable. -/
structure Synced (sha256 : Bytes → Sha256) (c : PreparationContract) (live : Live) (d : Directory)
    (tr : List Entry) : Prop where
  good : Good sha256 d tr
  journal : Journal sha256 d c live.intent live.events live.replay
  durable : d.AllDurable

/-- What a failed call leaves behind. -/
abbrev Spared (sha256 : Bytes → Sha256) (_ : WorkflowFailure) (w : World) : Prop :=
  Good sha256 w.directory w.trace

/-- The consumption that is pending or done is the one of `evidence`. -/
def ConsumedBy (evidence : Option SourceVersion) (r : PreparationReplay) : Prop :=
  r.pending = some .consume ∨ r.state = .consumed → r.consumer = evidence

theorem Synced.durableStart (h : Synced sha256 c live d tr) (hp : live.replay.pending = some action) :
    DurableStart sha256 d c action := by
  obtain ⟨-, pre, e, hes, hs⟩ := h.journal.coherent.pending action hp
  have hpw := replayEvents_pairwise h.journal.replay
  rw [hes, List.pairwise_append] at hpw
  refine ⟨e, h.journal.durable h.durable (by simp [hes]), hs, fun n hn hin => ?_⟩
  have hmem : eventName sha256 c n ∈ eventNames sha256 d c :=
    List.mem_filter.2 ⟨List.mem_filter.2 ⟨hin, by simp [eventName]⟩, rfl⟩
  obtain ⟨e', he', heq⟩ := List.mem_map.1 (h.journal.names.mem_iff.1 hmem)
  have hseq : e'.sequence = n := by simpa [eventName] using heq
  rw [hes, List.mem_append, List.mem_singleton] at he'
  rcases he' with he' | rfl
  · have := hpw.2.2 e' he' e (by simp)
    omega
  · omega

/-- An `append` adds one event with the given fields, which the replay
    accepts. -/
def Appends (c : PreparationContract) (live : Live) (kind : EventKind)
    (action : Option PreparationAction) (consumer : Option SourceVersion) (live' : Live) : Prop :=
  ∃ e, live' = ⟨live.intent, live.events ++ [e], live'.replay⟩ ∧ e.kind = kind ∧ e.action = action ∧
    e.consumer = consumer ∧ applyPreparationEvent c live.replay e = .ok live'.replay

/-- The results that a trace observed are in the journal. -/
theorem Good.mem_observedActions (h : Good sha256 d tr) (hj : Journal sha256 d c intent es r)
    {a : PreparationAction} (ha : a ∈ observedIn c tr) : a ∈ observedActions es := by
  obtain ⟨entry, hentry, hobs⟩ := List.mem_filterMap.1 ha
  obtain ⟨pre, post, rfl⟩ := List.append_of_mem hentry
  have hgood := h pre entry post rfl
  cases entry with
  | appended c' e r' d' =>
    simp only [Entry.observes] at hobs
    split_ifs at hobs with hc
    subst hc
    exact List.mem_filterMap.2 ⟨e, hgood.1.mem hj, hobs⟩
  | _ => cases hobs

/-- The entry of an event that extends the journal. -/
theorem Synced.appended (h : Synced sha256 c live d tr)
    (hf : Follows sha256 c (lastLink sha256 (live.intent.link sha256) live.events)
      live.events.length e)
    (ha : applyPreparationEvent c live.replay e = .ok r')
    (hp : parsePreparationEvent sha256 (e.toJson sha256) = some e) :
    let d' := d.published (eventName sha256 c e.sequence) (e.toJson sha256)
    let live' : Live := ⟨live.intent, live.events ++ [e], r'⟩
    Synced sha256 c live' d' (tr ++ [.appended c e live' d']) := by
  intro d' live'
  have hname : eventName sha256 c e.sequence = eventName sha256 c (live.events.length + 1) := by
    rw [hf.sequence]
  have hnew : eventName sha256 c e.sequence ∉ d.names := by
    rw [hname]
    exact h.journal.next_not_mem
  have hj : Journal sha256 d' c live.intent (live.events ++ [e]) r' := by
    have := h.journal.published hf ha hp
    rwa [← hname] at this
  have hd : d'.AllDurable := Directory.allDurable_sync
  refine ⟨(h.good.keep (Directory.keeps_published hnew)).snoc ?_, hj, hd⟩
  refine ⟨hj.durable hd (by simp), hj, fun a hobs b hb => ?_⟩
  have hpw := hj.coherent.pairwise
  rw [observedActions_snoc, hobs, List.pairwise_append] at hpw
  exact hpw.2.2 b (h.good.mem_observedActions h.journal hb) a (by simp)

/-- **An append that returns extends the journal in memory and in the
    directory alike.** -/
theorem wp_append (h : Synced sha256 c live w.directory w.trace) (kind : EventKind)
    (action : Option PreparationAction) (evidence : Option SourceVersion)
    (receipt : Option PreparedReceipt) (consumer : Option SourceVersion) :
    wp (append sha256 c live kind action evidence receipt consumer)
      (fun live' w' => Synced sha256 c live' w'.directory w'.trace ∧
        Appends c live kind action consumer live') (Spared sha256) w := by
  unfold append
  rw [wp_bind]
  refine wp_now (fun t => ?_) fun _ => h.good
  simp only [wp_bind, wp_demand, wp_failIf, wp_liftM, wp_get, wp_remember, wp_pure]
  refine ⟨fun _ => h.good, fun e he => ⟨fun _ => h.good, fun hbefore => ⟨fun r hr => ?_,
    fun _ _ => h.good⟩⟩⟩
  rw [parsePreparationEvent_toJson] at he
  split_ifs at he with hrange
  obtain rfl := Option.some.inj he
  have hf : Follows sha256 c (lastLink sha256 (live.intent.link sha256) live.events)
      live.events.length
      (nextEvent sha256 live kind action evidence receipt consumer t) :=
    ⟨rfl, by rw [← h.journal.contract_eq]; rfl, rfl, by simpa using hbefore⟩
  have hp : parsePreparationEvent sha256
      ((nextEvent sha256 live kind action evidence receipt consumer t).toJson sha256) =
        some (nextEvent sha256 live kind action evidence receipt consumer t) := by
    rw [parsePreparationEvent_toJson, if_pos hrange]
  have hname : (⟨(nextEvent sha256 live kind action evidence receipt consumer t).operationId,
      .transaction (nextEvent sha256 live kind action evidence receipt consumer t).sequence⟩ :
        RecordName) =
      eventName sha256 c (nextEvent sha256 live kind action evidence receipt consumer t).sequence := by
    rw [hf.operationId]; rfl
  rw [hname]
  refine wp_publish ?_ (fun n => ?_) fun _ d' _ hk => h.good.keep hk
  · rw [hf.sequence]
    exact h.journal.next_not_mem
  · exact ⟨h.appended hf hr hp, _, rfl, rfl, rfl, rfl, hr⟩

/-! ## The rounds of the loop -/

variable {live' : Live}

/-- A start makes its action pending, for the given consumer. -/
theorem Appends.started (h : Appends c live .started (some action)
    (if action = .consume then evidence else none) live') :
    live'.replay.pending = some action ∧ live'.replay.results = live.replay.results ∧
      ConsumedBy evidence live'.replay := by
  obtain ⟨e, -, hk, hact, hcons, ha⟩ := h
  generalize live'.replay = r at ha ⊢
  cases applyPreparationEvent_accepts ha with
  | started hk' hact' hn hp hstate hc =>
    obtain rfl := Option.some.inj (hact.symm.trans hact')
    refine ⟨rfl, rfl, fun hpc => ?_⟩
    change e.consumer = evidence
    rcases hpc with hpc | hpc
    · obtain rfl := Option.some.inj hpc
      simpa using hcons
    · change live.replay.state = .consumed at hpc
      rcases hstate with h | h <;> simp [hpc] at h
  | retry hk' => simp [hk] at hk'
  | observed hk' => simp [hk] at hk'
  | unobserved hk' => simp [hk] at hk'

/-- A result keeps the consumer of its start. -/
theorem Appends.resulted {result : EffectResult} {consumer : Option SourceVersion}
    (h : Appends c live (.result result) (some action) consumer live')
    (hc : ConsumedBy evidence live.replay) : ConsumedBy evidence live'.replay := by
  obtain ⟨e, -, hk, hact, -, ha⟩ := h
  generalize live'.replay = r at ha ⊢
  cases applyPreparationEvent_accepts ha with
  | observed hk' hact' hn hp =>
    obtain rfl := Option.some.inj (hact.symm.trans hact')
    rintro (hpc | hpc)
    · cases hpc
    · refine hc (Or.inl ?_)
      rw [hp]
      cases action <;> first | rfl | cases hpc
  | unobserved hk' hne hact' =>
    rintro (hpc | hpc)
    · cases hpc
    · exact absurd hpc (unobservedState_ne _ _).2
  | retry hk' => simp [hk] at hk'
  | started hk' => simp [hk] at hk'

/-- An observed result is the one of its action. -/
theorem Appends.observed {consumer : Option SourceVersion}
    (h : Appends c live (.result .observed) (some action) consumer live') :
    ∃ s, live'.replay.results = Function.update live.replay.results action (some s) := by
  obtain ⟨e, -, hk, hact, -, ha⟩ := h
  generalize live'.replay = r at ha ⊢
  cases applyPreparationEvent_accepts ha with
  | observed hk' hact' =>
    obtain rfl := Option.some.inj (hact.symm.trans hact')
    exact ⟨_, rfl⟩
  | unobserved hk' hne =>
    rw [hk] at hk'
    exact absurd (EventKind.result.inj hk').symm hne
  | retry hk' => simp [hk] at hk'
  | started hk' => simp [hk] at hk'

theorem wp_start (h : Synced sha256 c live w.directory w.trace)
    (hn : nextPreparationAction live.replay = some action)
    (hc : operation = .consume → ConsumedBy evidence live.replay) :
    wp (start sha256 c live action evidence)
      (fun live' w' => Synced sha256 c live' w'.directory w'.trace ∧
        live'.replay.pending = some action ∧ live'.replay.results = live.replay.results ∧
        (operation = .consume → ConsumedBy evidence live'.replay)) (Spared sha256) w := by
  unfold start
  have happend : ∀ (receipt : Option PreparedReceipt) (w : World),
      Synced sha256 c live w.directory w.trace →
      wp (append sha256 c live .started (some action) none receipt
          (if action = .consume then evidence else none))
        (fun live' w' => Synced sha256 c live' w'.directory w'.trace ∧
          live'.replay.pending = some action ∧ live'.replay.results = live.replay.results ∧
          (operation = .consume → ConsumedBy evidence live'.replay)) (Spared sha256) w := by
    intro receipt w h
    refine wp_mono (wp_append h _ _ _ _ _) (fun live' w' hl => ?_) fun _ _ he => he
    exact ⟨hl.1, hl.2.started.1, hl.2.started.2.1, fun _ => hl.2.started.2.2⟩
  by_cases hp : live.replay.pending.isSome = true
  · rw [if_pos hp]
    obtain ⟨a, ha⟩ := Option.isSome_iff_exists.1 hp
    obtain rfl : action = a := by
      have := (h.journal.coherent.pending a ha).1
      rw [hn] at this
      exact Option.some.inj this
    exact wp_pure.2 ⟨h, ha, rfl, hc⟩
  · rw [if_neg hp]
    extract_lets consumer
    by_cases hready : action = .ready
    · rw [if_pos hready, wp_bind]
      refine wp_ask (fun answer => ?_) fun _ => h.good
      rw [wp_bind, wp_demand]
      exact ⟨fun _ => h.good, fun receipt _ => happend (some receipt) _ h⟩
    · rw [if_neg hready]
      exact happend none w h

theorem Synced.remember (h : Synced sha256 c live d tr) (he : entry.Good sha256 d tr) :
    Synced sha256 c live d (tr ++ [entry]) :=
  ⟨h.good.snoc he, h.journal, h.durable⟩

/-- **An effect is performed only while its durable start is the last record,
    and right after `inspect` found it absent.** -/
theorem wp_observe (h : Synced sha256 c live w.directory w.trace)
    (hp : live.replay.pending = some action) :
    wp (observe c action) (fun _ w' => Synced sha256 c live w'.directory w'.trace) (Spared sha256) w := by
  unfold observe
  rw [wp_bind]
  refine wp_ask (fun answer => ?_) fun _ => h.good
  have h₁ : Synced sha256 c live w.directory (w.trace ++ [.inspected c action answer]) :=
    h.remember trivial
  simp only [wp_bind, wp_remember, wp_demand]
  refine ⟨fun _ => h₁.good, fun outcome habsent => ?_⟩
  cases outcome with
  | some result => exact wp_pure.2 h₁
  | none =>
    have h₂ : Synced sha256 c live w.directory
        (w.trace ++ [.inspected c action answer] ++ [.performed c action w.directory]) :=
      h₁.remember ⟨⟨_, _, rfl, habsent⟩, h.durableStart hp⟩
    simp only [wp_bind, wp_get, wp_remember]
    refine wp_ask (fun _ => ?_) fun _ => h₂.good
    simp only [wp_demand]
    exact ⟨fun _ => h₂.good, fun outcome _ => ⟨fun _ => h₂.good, fun _ _ => h₂⟩⟩

theorem wp_round (h : Synced sha256 c live w.directory w.trace)
    (hn : nextPreparationAction live.replay = some action)
    (hc : operation = .consume → ConsumedBy evidence live.replay) :
    wp (round sha256 c live action evidence)
      (fun p w' => Synced sha256 c p.1 w'.directory w'.trace ∧
        (operation = .consume → ConsumedBy evidence p.1.replay) ∧
        (p.2 = .observed →
          ∃ s, p.1.replay.results = Function.update live.replay.results action (some s)))
      (Spared sha256) w := by
  unfold round
  rw [wp_bind]
  refine wp_mono (wp_start h hn hc) (fun live₁ w₁ h₁ => ?_) fun _ _ he => he
  rw [wp_bind]
  refine wp_mono (wp_observe h₁.1 h₁.2.1) (fun outcome w₂ h₂ => ?_) fun _ _ he => he
  rw [wp_bind]
  refine wp_mono (wp_append h₂ _ _ _ _ _) (fun live₃ w₃ h₃ => ?_) fun _ _ he => he
  refine wp_pure.2 ⟨h₃.1, fun ho => h₃.2.resulted (h₁.2.2.2 ho), fun hobs => ?_⟩
  rw [← h₁.2.2.1]
  have happ := h₃.2
  rw [show outcome.1 = .observed from hobs] at happ
  exact happ.observed

/-! ## Calls -/

/-- What holds of the journal in memory after each part of `#run`. -/
def Kept (sha256 : Bytes → Sha256) (c : PreparationContract) (operation : Operation)
    (evidence : Option SourceVersion) (live : Live) (w : World) : Prop :=
  Synced sha256 c live w.directory w.trace ∧
    (operation = .consume → ConsumedBy evidence live.replay)

theorem wp_loop {fuel : ℕ} (h : Kept sha256 c operation evidence live w) :
    wp (loop sha256 c operation evidence fuel live) (Kept sha256 c operation evidence)
      (Spared sha256) w := by
  induction fuel generalizing live w with
  | zero =>
    unfold loop
    split
    · exact wp_pure.2 h
    · split_ifs
      · exact wp_pure.2 h
      · exact wp_throw.2 h.1.good
  | succ fuel ih =>
    unfold loop
    split
    · exact wp_pure.2 h
    · next action hn =>
      split_ifs
      · exact wp_pure.2 h
      · rw [wp_bind]
        refine wp_mono (wp_round h.1 hn h.2) (fun p w' hp => ?_) fun _ _ he => he
        obtain ⟨live', result⟩ := p
        simp only
        split_ifs
        · exact ih ⟨hp.1, hp.2.1⟩
        · exact wp_pure.2 ⟨hp.1, hp.2.1⟩

/-- **The loop ends**: it makes at most one round for each action that has no
    result, so more fuel than that changes nothing. -/
theorem loop_fuel {n fuel : ℕ} (h : Kept sha256 c operation evidence live w)
    (hn : Done live.replay n) (hfuel : preparationActions.length ≤ n + fuel) (k : ℕ) :
    outcome (loop sha256 c operation evidence (fuel + k) live) w =
      outcome (loop sha256 c operation evidence fuel live) w := by
  induction fuel generalizing n live w with
  | zero =>
    have hnone : nextPreparationAction live.replay = none := by
      rw [hn.next, List.getElem?_eq_none (by omega)]
    rw [loop, loop]
    simp only [hnone]
  | succ fuel ih =>
    rw [show fuel + 1 + k = fuel + k + 1 by omega, loop, loop]
    cases hnext : nextPreparationAction live.replay with
    | none => rfl
    | some action =>
      simp only
      split_ifs
      · rfl
      · have hround := wp_round h.1 hnext h.2
        rw [outcome_bind, outcome_bind]
        rcases hm : outcome (round sha256 c live action evidence) w with ⟨e | ⟨live', result⟩, w'⟩
        · rfl
        · obtain ⟨hs, hc, hobs⟩ := (wp_of_ok hm).1 hround
          simp only
          split_ifs with hresult
          · obtain ⟨s, hs'⟩ := hobs hresult
            exact ih ⟨hs, hc⟩ (hn.update hnext s hs') (by omega)
          · rfl

theorem wp_retry (h : Synced sha256 c live w.directory w.trace) :
    wp (retry sha256 c live evidence)
      (fun live' w' => Synced sha256 c live' w'.directory w'.trace) (Spared sha256) w := by
  have happend : ∀ (evidence : Option SourceVersion) (w : World),
      Synced sha256 c live w.directory w.trace →
      wp (append sha256 c live .retry none evidence none none)
        (fun live' w' => Synced sha256 c live' w'.directory w'.trace) (Spared sha256) w :=
    fun evidence w h => wp_mono (wp_append h _ _ _ _ _) (fun _ _ hl => hl.1) fun _ _ he => he
  unfold retry
  cases evidence with
  | none => exact happend none w h
  | some source =>
    simp only
    split_ifs
    · simp only [wp_bind, wp_get, wp_demand, wp_failIf]
      refine ⟨fun _ => h.good, fun native _ => ⟨fun _ => h.good, fun _ => ?_⟩⟩
      refine wp_now (fun t => ⟨fun _ => h.good, fun _ => happend _ _ h⟩) fun _ => h.good
    · exact happend _ w h

theorem wp_openJournal (h : Good sha256 w.directory w.trace) :
    wp (openJournal sha256 c operation)
      (fun live' w' => Synced sha256 c live' w'.directory w'.trace) (Spared sha256) w := by
  unfold openJournal
  simp only [wp_bind, wp_get, wp_liftM]
  refine ⟨fun loaded hload => ?_, fun _ _ => h⟩
  obtain ⟨found, es, r⟩ := loaded
  cases found with
  | some intent =>
    have hj := journal_of_load hload
    simp only [wp_bind, wp_pure]
    refine wp_reaffirm (fun n => ?_) fun _ _ => h
    exact ⟨h.keep Directory.keeps_sync, hj.congr Directory.names_sync fun _ => Directory.read_sync,
      Directory.allDurable_sync⟩
  | none =>
    obtain ⟨rfl, rfl, hn, hnil, hentry⟩ := eventNames_of_load hload
    simp only [wp_bind, wp_failIf, wp_pure]
    refine ⟨fun _ => h, fun _ => wp_now (fun t => ?_) fun _ => h⟩
    refine wp_publish hn (fun n => ?_) fun _ _ _ hk => h.keep hk
    exact ⟨h.keep (Directory.keeps_published hn), Journal.of_intent hn hnil hentry t,
      Directory.allDurable_sync⟩

theorem wp_advance (h : Synced sha256 c live w.directory w.trace) :
    wp (advance sha256 c operation evidence live) (Kept sha256 c operation evidence)
      (Spared sha256) w := by
  unfold advance
  cases operation with
  | request =>
    have hk : Kept sha256 c .request evidence live w := ⟨h, by simp⟩
    simp only
    split_ifs
    · exact wp_pure.2 hk
    · exact wp_loop hk
  | retry =>
    rw [wp_bind]
    refine wp_mono (wp_retry h) (fun live' w' h' => ?_) fun _ _ he => he
    have hk : Kept sha256 c .retry evidence live' w' := ⟨h', by simp⟩
    split_ifs
    · exact wp_pure.2 hk
    · exact wp_loop hk
  | consume =>
    simp only
    split_ifs with hs
    · simp only [wp_bind, wp_failIf, wp_pure, not_not]
      exact ⟨fun _ => h.good, fun hc => ⟨h, fun _ _ => hc⟩⟩
    · simp only [wp_bind, wp_failIf, not_or, not_and, not_not]
      refine ⟨fun _ => h.good, fun hc => wp_loop ⟨h, fun _ => ?_⟩⟩
      rintro (hp | hp)
      · exact hc.2 hp
      · exact absurd hp hs

theorem wp_locked {action : Engine Live} {P : Live → World → Prop}
    (hP : ∀ live n (w : World), P live w → P live { w with asked := n })
    (hgood : ∀ live (w : World), P live w → Good sha256 w.directory w.trace)
    (hw : Good sha256 w.directory w.trace)
    (h : ∀ n, wp action P (Spared sha256) { w with asked := n }) :
    wp (locked action) P (Spared sha256) w := by
  unfold locked
  simp only [wp_bind, wp_pure]
  refine wp_ask (fun _ => wp_ask (fun _ => ?_) fun _ => hw) fun _ => hw
  refine wp_mono (h _) (fun live w' hl => ?_) fun _ _ he => he
  exact wp_ask (fun _ => wp_ask (fun _ => hP live _ w' hl) fun _ => hgood live w' hl)
    fun _ => hgood live w' hl

/-- **Every call keeps the invariant.** -/
theorem wp_run (h : Good sha256 w.directory w.trace) :
    wp (run sha256 c operation evidence) (fun _ w' => Good sha256 w'.directory w'.trace)
      (Spared sha256) w := by
  unfold run
  simp only [wp_bind, wp_remember]
  have h : Good sha256 w.directory (w.trace ++ [.called operation c]) := h.snoc trivial
  refine wp_ask (fun answer => ?_) fun _ => h
  simp only [wp_failIf, wp_get, wp_pure]
  refine ⟨fun _ => h, fun _ => ?_⟩
  refine wp_mono (wp_locked (P := Kept sha256 c operation evidence) (fun _ _ _ hk => hk)
    (fun _ _ hk => hk.1.good) h fun n => ?_) (fun live w' hk => ?_) fun _ _ he => he
  · rw [wp_bind]
    exact wp_mono (wp_openJournal h) (fun live w' h' => wp_advance h') fun _ _ he => he
  · refine hk.1.good.snoc ⟨fun action ho => statusOf_openStart ho hk.1.journal, ?_⟩
    intro ho hs
    have hnone : live.replay.pending = none := by
      by_contra hne
      simp [statusOf, Option.isSome_iff_ne_none.2 hne] at hs
    have hconsumed : live.replay.state = .consumed := by simpa [statusOf, hnone] using hs
    obtain ⟨x, hx⟩ := Option.isSome_iff_exists.1 (hk.1.journal.coherent.consumed hconsumed).2
    obtain ⟨e, he, hstarts, hcons⟩ := hk.1.journal.coherent.source x hx
    have hevidence := hk.2 ho (Or.inr hconsumed)
    refine ⟨⟨e, hk.1.journal.durable hk.1.durable he, hstarts,
      hcons.trans (hx.symm.trans hevidence)⟩, fun entry hentry y hy => ?_⟩
    obtain ⟨e', hd, hstarts', hcons'⟩ := hk.1.good.consumer hentry hy
    have hmem := hd.mem hk.1.journal
    rw [← hevidence, ← hk.1.journal.coherent.consumer e' hmem hstarts', hcons']

/-- A publication by another owner keeps the invariant. -/
theorem wp_publish_other {name : RecordName} {value : Json} (h : Good sha256 w.directory w.trace) :
    wp (publish name value) (fun _ w' => Good sha256 w'.directory w'.trace) (Spared sha256) w := by
  by_cases hn : name ∈ w.directory.names
  · obtain ⟨f, hf⟩ := Option.isSome_iff_exists.1 (Directory.file?_isSome.2 hn)
    unfold publish
    simp only [wp_bind, wp_failIf, wp_get, hf]
    refine ⟨fun _ => h, fun _ => ⟨fun _ => h, fun _ => ⟨fun _ => h, fun _ => ?_⟩⟩⟩
    exact wp_reaffirm (fun n => h.keep Directory.keeps_sync) fun _ _ => h
  · exact wp_publish hn (fun n => h.keep (Directory.keeps_published hn)) fun _ _ _ hk => h.keep hk

theorem good_outcome {α : Type} {m : Engine α}
    (h : wp m (fun _ w' => Good sha256 w'.directory w'.trace) (Spared sha256) w) :
    Good sha256 (outcome m w).2.directory (outcome m w).2.trace := by
  rcases hm : outcome m w with ⟨_ | _, w'⟩
  · exact (wp_of_error hm).1 h
  · exact (wp_of_ok hm).1 h

theorem Good.apply (h : Good sha256 w.directory w.trace) (step : Step) :
    Good sha256 (step.apply sha256 w).directory (step.apply sha256 w).trace := by
  cases step with
  | call request =>
    refine good_outcome ?_
    cases request with
    | request contract =>
      simp only [Request.perform, wp_bind, wp_demand]
      exact ⟨fun _ => h, fun c _ => wp_run h⟩
    | retry contract nativeRequest =>
      simp only [Request.perform, wp_bind, wp_demand]
      exact ⟨fun _ => h, fun evidence _ => ⟨fun _ => h, fun c _ => wp_run h⟩⟩
    | consume contract authenticatedLineage =>
      simp only [Request.perform, wp_bind, wp_demand]
      exact ⟨fun _ => h, fun evidence _ => ⟨fun _ => h, fun c _ => wp_run h⟩⟩
  | other name value => exact good_outcome (wp_publish_other h)
  | losePower kept => exact h.keep Directory.keeps_losePower

theorem good_after (h : Good sha256 w.directory w.trace) (steps : List Step) :
    Good sha256 (w.after sha256 steps).directory (w.after sha256 steps).trace := by
  induction steps generalizing w with
  | nil => exact h
  | cons step steps ih => exact ih (h.apply step)

/-- **Crash-safe, exactly ordered effects**, after any sequence of calls, with any
    host, whatever crashed:
    - an effect is performed only after `inspect` found it absent, in the same
      call, and while its durable start is the last record of the operation;
    - the results of an operation are observed in the order of the actions, each
      at most once, in every journal that can be read and over the whole run;
    - while a start has no later result, every status is uncertain;
    - all accepted consumptions of an operation have the same consumer. -/
theorem crash_safe_ordered_effects (sha256 : Bytes → Sha256) (d : Directory) (answers : ℕ → Answer)
    (steps : List Step) :
    let w := (World.start d answers).after sha256 steps
    (∀ pre c action d₀ post, w.trace = pre ++ .performed c action d₀ :: post →
      (∃ pre' answer, pre = pre' ++ [.inspected c action answer] ∧ answer.isAbsent) ∧
        DurableStart sha256 d₀ c action) ∧
      (∀ c, (observedIn c w.trace).Pairwise (fun a b => a.rank < b.rank) ∧
        ∀ loaded, load sha256 w.directory c = .ok loaded →
          observedActions loaded.events <+: preparationActions) ∧
      (∀ c action, (OpenStart sha256 w.directory c action →
          ∀ st, status sha256 c w.directory = .ok st → st.state = .uncertainBlocked) ∧
        ∀ operation evidence st d₀, .returned operation c evidence st d₀ ∈ w.trace →
          OpenStart sha256 d₀ c action → st.state = .uncertainBlocked) ∧
      ∀ c x y entry entry', entry ∈ w.trace → entry' ∈ w.trace → entry.consumedBy c x →
        entry'.consumedBy c y → x = y := by
  intro w
  have hgood : Good sha256 w.directory w.trace := good_after good_nil steps
  refine ⟨fun pre c action d₀ post h => hgood _ _ _ h, fun c => ⟨hgood.pairwise, ?_⟩,
    fun c action => ⟨fun ho st => status_openStart ho, ?_⟩,
    fun c x y entry entry' hx hy hxc hyc => hgood.consumers hx hxc hy hyc⟩
  · rintro ⟨intent, es, r⟩ hload
    cases intent with
    | none =>
      obtain ⟨rfl, -⟩ := eventNames_of_load hload
      exact List.nil_prefix
    | some intent =>
      change observedActions es <+: preparationActions
      rw [(journal_of_load hload).coherent.order]
      exact List.take_prefix _ _
  · intro operation evidence st d₀ hmem ho
    obtain ⟨pre, post, heq⟩ := List.append_of_mem hmem
    exact (hgood _ _ _ heq).1 action ho

/-- The trace of a request that ended in its first `perform`, in a directory that
    can still be listed. -/
def cutShort : List Entry → Bool
  | [.called .., .appended _ _ _ d, .inspected .., .performed ..] => d.count ≤ maxNames
  | _ => false

theorem cutShort_iff {trace : List Entry} : cutShort trace = true ↔
    ∃ operation c c₁ e live d c₂ a answer c₃ a₃ d₃, trace =
      [.called operation c, .appended c₁ e live d, .inspected c₂ a answer, .performed c₃ a₃ d₃] ∧
        d.count ≤ maxNames := by
  constructor
  · intro h
    unfold cutShort at h
    split at h
    · exact ⟨_, _, _, _, _, _, _, _, _, _, _, _, rfl, by simpa using h⟩
    · cases h
  · rintro ⟨_, _, _, _, _, _, _, _, _, _, _, _, rfl, h⟩
    simpa [cutShort] using h

theorem Sample.requested_cutShort : cutShort (Sample.requested 0).trace = true := by
  decide +kernel

theorem crash_safe_ordered_effects_requested :
    ∃ c action d₀, .performed c action d₀ ∈ (Sample.requested 0).trace ∧
      DurableStart (fun _ => Sample.sha) d₀ c action := by
  obtain ⟨operation, c, c₁, e, live, d, c₂, a, answer, c₃, a₃, d₃, htrace, -⟩ :=
    cutShort_iff.1 Sample.requested_cutShort
  refine ⟨c₃, a₃, d₃, by simp [htrace], ?_⟩
  exact ((crash_safe_ordered_effects _ ⟨[], 0⟩ (Sample.host Sample.reserving) _).1
    [.called operation c, .appended c₁ e live d, .inspected c₂ a answer] c₃ a₃ d₃ [] htrace).2

end PaPlatform.Prepared
