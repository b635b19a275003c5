/-
  Sessions of a task list: actions, and restores of what the store returned.
-/
import PaPlatform.Lib.Run
import PaPlatform.Todo.Actions

namespace PaPlatform.Todo

open Guard
open Registry (trim)

variable {s s' : TodoStore} {tasks : List DeploymentTask} {n : ℕ} {i : TodoInput} {d : TodoDetails}

/-- What holds of the store of a session. -/
structure Sound (s : TodoStore) : Prop where
  next : 1 ≤ s.nextId
  order : s.tasks.map (·.order) = List.range' 1 s.tasks.length
  consistent : Consistent s.tasks s.nextId

theorem sound_empty : Sound .empty :=
  ⟨le_refl 1, rfl, ⟨List.nodup_nil, by simp [TodoStore.empty], by simp [TodoStore.empty], Nat.zero_le 1,
    by simp [TodoStore.empty], by simp [TodoStore.empty], by simp [TodoStore.empty, Done]⟩⟩

/-! ## Snapshots of sound stores -/

theorem forM_eq_ok {α κ : Type} {f : α → Except κ Unit} {l : List α} (h : ∀ x ∈ l, f x = .ok ()) :
    l.forM f = .ok () := by
  induction l with
  | nil => rfl
  | cons x l ih =>
    show (f x >>= fun _ => l.forM f) = .ok ()
    rw [h x (by simp)]
    exact ih fun y hy => h y (by simp [hy])

theorem validateOrder_eq_ok {k : ℕ} {seen : List ℕ} (hn : (tasks.map (·.id)).Nodup)
    (hseen : ∀ t ∈ tasks, t.id ∉ seen) (ho : tasks.map (·.order) = List.range' (k + 1) tasks.length) :
    validateOrder tasks k seen = .ok () := by
  induction tasks generalizing k seen with
  | nil => rfl
  | cons t tasks ih =>
    rw [List.map_cons, List.nodup_cons] at hn
    rw [List.map_cons, List.length_cons, List.range'_succ, List.cons_eq_cons] at ho
    rw [validateOrder, throwIf_neg (hseen t (by simp)), ok_bind, throwIf_neg (by simp [ho.1]), ok_bind]
    refine ih hn.2 (fun u hu h => ?_) ho.2
    rcases List.mem_cons.1 h with h | h
    · exact hn.1 (List.mem_map.2 ⟨u, hu, h⟩)
    · exact hseen u (by simp [hu]) h

theorem validateDependencies_eq_ok {ids ds seen : List ℕ} {id : ℕ} (hn : ds.Nodup)
    (hseen : ∀ d ∈ ds, d ∉ seen) (hds : ∀ d ∈ ds, d ≠ id ∧ d ∈ ids) :
    validateDependencies ids id ds seen = .ok () := by
  induction ds generalizing seen with
  | nil => rfl
  | cons d ds ih =>
    rw [List.nodup_cons] at hn
    obtain ⟨hne, hmem⟩ := hds d (by simp)
    rw [validateDependencies, throwIf_neg (hseen d (by simp)), ok_bind, throwIf_neg hne, ok_bind,
      throwIf_neg (by simp [hmem]), ok_bind]
    refine ih hn.2 (fun x hx h => ?_) fun x hx => hds x (by simp [hx])
    rcases List.mem_cons.1 h with rfl | h
    · exact hn.1 hx
    · exact hseen x (by simp [hx]) h

theorem foldl_max_lt {l : List ℕ} {m : ℕ} (hm : m < n) (h : ∀ x ∈ l, x < n) : l.foldl max m < n := by
  induction l generalizing m with
  | nil => exact hm
  | cons x l ih => exact ih (max_lt hm (h x (by simp))) fun y hy => h y (by simp [hy])

/-- **The publisher accepts every sound store.** -/
theorem Sound.accepted (hs : Sound s) {deploymentId updatedAt : String} (hid : deploymentId ≠ "")
    (htime : isIsoTimestamp updatedAt = true) :
    createDeploymentTaskSnapshot deploymentId updatedAt s.tasks s.nextId =
      .ok ⟨deploymentId, updatedAt, s.tasks, s.nextId⟩ := by
  obtain ⟨hnext, horder, hc⟩ := hs
  have hpos : ∀ t ∈ s.tasks, 1 ≤ t.order := by
    intro t ht
    have hmem : t.order ∈ List.range' 1 s.tasks.length := horder ▸ List.mem_map_of_mem ht
    exact (List.mem_range'_1.1 hmem).1
  have htasks : (s.tasks.zipIdx.forM fun task => validateTask task.1 task.2) = .ok () := by
    refine forM_eq_ok fun ⟨t, k⟩ ht => ?_
    have hmem : t ∈ s.tasks := (List.mem_zipIdx' ht).2 ▸ List.getElem_mem _
    have hdeps : ∀ d ∈ t.dependencies, 1 ≤ d := by
      intro d hd
      obtain ⟨u, hu, rfl⟩ := List.mem_map.1 ((hc.deps t hmem).2 d hd).2
      exact (hc.ids u hu).1
    simp only [validateTask, bind_eq_ok, throwIf_eq_ok, not_not]
    exact ⟨⟨⟩, (hc.ids t hmem).1, ⟨⟩, hc.text t hmem, ⟨⟩, hpos t hmem, hdeps⟩
  have hdeps : (s.tasks.forM fun task =>
      validateDependencies (s.tasks.map (·.id)) task.id task.dependencies []) = .ok () :=
    forM_eq_ok fun t ht => validateDependencies_eq_ok (hc.deps t ht).1 (by simp) (hc.deps t ht).2
  have hmax : (s.tasks.map (·.id)).foldl max 0 < s.nextId := by
    refine foldl_max_lt hnext fun x hx => ?_
    obtain ⟨t, ht, rfl⟩ := List.mem_map.1 hx
    exact (hc.ids t ht).2
  have hone : (s.tasks.filter (·.status == .inProgress)).length ≤ 1 := by
    rw [← List.countP_eq_length_filter]
    exact hc.one
  have hcycle := (hasDeploymentTaskDependencyCycle_eq_false hc.nodup).2 hc.acyclic
  have hvalid := @validateOrder_eq_ok _ 0 [] hc.nodup (by simp) horder
  rw [createDeploymentTaskSnapshot, validateDeploymentTaskSnapshot, throwIf_neg hid, ok_bind,
    throwIf_neg (not_not.2 rfl), ok_bind, throwIf_neg (by simp [htime]), ok_bind, throwIf_neg (not_not.2 hnext),
    ok_bind, htasks, ok_bind, hvalid, ok_bind, hdeps, ok_bind, throwIf_neg (not_le.2 hmax), ok_bind,
    throwIf_neg (not_lt.2 hone), ok_bind, throwIf_neg (by simp [hcycle]), ok_bind]
  rfl

/-- A task does not depend on itself, not even through others. -/
theorem Sound.no_cycle (hs : Sound s) (x : ℕ) : ¬ Relation.TransGen (DependsOn s.tasks) x x := by
  intro h
  have hmem : ∃ t ∈ s.tasks, t.id = x := by
    rcases h with ⟨t, ht, he, -⟩ | ⟨-, t, ht, he, -⟩ <;> exact ⟨t, ht, he⟩
  obtain ⟨t, ht, rfl⟩ := hmem
  exact Dfs.not_loop (hs.consistent.acyclic t ht).transGen h

/-! ## Actions -/

/-- `update` of the task in progress, with dependencies that are not completed. -/
def TodoStore.Blocks (s : TodoStore) (i : TodoInput) : Prop :=
  i.action = .update ∧ ∃ t ∈ s.tasks, i.id = some t.id ∧ Todo.Blocks s.tasks t i

theorem candidate_ok (hs : Sound s) (h : candidate s i = .ok s') :
    s.nextId ≤ s'.nextId ∧ Moves (s.Blocks i) s.tasks s'.tasks s'.nextId := by
  unfold candidate at h
  by_cases ha : i.action = .add
  · rw [if_pos ha] at h
    obtain ⟨hnext, hm⟩ := add_ok hs.consistent hs.next h
    exact ⟨hnext ▸ Nat.le_succ _, hm.weaken False.elim⟩
  · rw [if_neg ha] at h
    simp only [bind_eq_ok, require_eq_ok] at h
    obtain ⟨id, hid, t, ht, h⟩ := h
    obtain ⟨hmem, rfl⟩ := find_some ht
    have hc := hs.consistent
    cases hact : i.action with
    | update =>
      simp only [hact, bind_eq_ok, pure_eq_ok] at h
      obtain ⟨tasks, h, rfl⟩ := h
      exact ⟨le_refl _, (update_ok hc hmem h).weaken fun hb => ⟨hact, t, hmem, hid, hb⟩⟩
    | start =>
      simp only [hact, bind_eq_ok, pure_eq_ok] at h
      obtain ⟨tasks, h, rfl⟩ := h
      exact ⟨le_refl _, (start_ok hc hmem h).weaken False.elim⟩
    | complete =>
      simp only [hact, bind_eq_ok, pure_eq_ok] at h
      obtain ⟨tasks, h, rfl⟩ := h
      exact ⟨le_refl _, (complete_ok hc hmem h).weaken False.elim⟩
    | cancel =>
      simp only [hact, bind_eq_ok, pure_eq_ok] at h
      obtain ⟨tasks, h, rfl⟩ := h
      exact ⟨le_refl _, (cancel_ok hc hmem h).weaken False.elim⟩
    | list | add | reorder =>
      simp only [hact, bind_eq_ok, pure_eq_ok] at h
      obtain ⟨tasks, h, rfl⟩ := h
      exact ⟨le_refl _, (reorder_ok hc hmem h).weaken False.elim⟩

/-- With the orders of the list. -/
def TodoStore.normalized (s : TodoStore) : TodoStore := ⟨normalizeOrder s.tasks, s.nextId⟩

/-- An action leaves the store, or makes a candidate that is accepted. -/
theorem apply_cases (s : TodoStore) (i : TodoInput) :
    (∃ e, s.apply i = (s.snapshot i.action e, s)) ∨ ∃ s', candidate s i = .ok s' ∧
      s.apply i = (s'.normalized.snapshot i.action none, s'.normalized) := by
  unfold TodoStore.apply
  by_cases hl : i.action = .list
  · rw [if_pos hl, hl]
    exact Or.inl ⟨none, rfl⟩
  · rw [if_neg hl]
    cases hc : candidate s i with
    | error e => exact Or.inl ⟨some e, rfl⟩
    | ok s' => exact Or.inr ⟨s', rfl, rfl⟩

theorem order_normalizeOrder (tasks : List DeploymentTask) :
    (normalizeOrder tasks).map (·.order) = List.range' 1 (normalizeOrder tasks).length := by
  unfold normalizeOrder
  rw [List.map_map, List.length_map, List.length_zipIdx]
  have hsnd : (tasks.zipIdx.map Prod.snd).map (1 + ·) = List.range' 1 tasks.length := by
    rw [List.zipIdx_map_snd, List.map_add_range']
  rw [← hsnd, List.map_map]
  exact List.map_congr_left fun t _ => Nat.add_comm _ _

/-- From a store to a later one, before the next restore. -/
def Advances (s s' : TodoStore) : Prop := s.nextId ≤ s'.nextId ∧ Kept s.tasks s'.tasks

theorem Advances.refl (s : TodoStore) : Advances s s := ⟨le_refl _, fun t ht _ => ⟨t, ht, rfl⟩⟩

theorem Advances.trans {s'' : TodoStore} (h : Advances s s') (h' : Advances s' s'') : Advances s s'' :=
  ⟨h.1.trans h'.1, h.2.trans h'.2⟩

/-- What an action does to a sound store. -/
theorem Sound.apply (hs : Sound s) (i : TodoInput) : Sound (s.apply i).2 ∧ Advances s (s.apply i).2 ∧
    (¬ s.Blocks i → Done s.tasks .inProgress → Done (s.apply i).2.tasks .inProgress) := by
  rcases apply_cases s i with ⟨e, he⟩ | ⟨s', hc, he⟩
  · rw [he]
    exact ⟨hs, .refl s, fun _ h => h⟩
  · rw [he]
    obtain ⟨hnext, hm⟩ := candidate_ok hs hc
    have hn := @sameTasks_normalizeOrder s'.tasks
    exact ⟨⟨hs.next.trans hnext, order_normalizeOrder _, hm.consistent.perm hn⟩,
      ⟨hnext, hm.kept.trans hn.kept⟩, fun hb hold => hn.done (hm.started hb hold)⟩

/-- An update that blocks the task in progress is accepted. -/
theorem Sound.blocks (hs : Sound s) (hb : s.Blocks i) : ¬ Done (s.apply i).2.tasks .inProgress := by
  obtain ⟨ha, t, ht, hid, hb⟩ := hb
  obtain ⟨tasks, hu, hdone⟩ := blocks_update hs.consistent ht hb
  have hc : candidate s i = .ok ⟨tasks, s.nextId⟩ := by
    unfold candidate
    rw [if_neg (by simp [ha]), hid]
    simp only [ha, require_some, find_of_mem hs.consistent.nodup ht, ok_bind]
    rw [hu]
    rfl
  unfold TodoStore.apply
  rw [if_neg (by simp [ha]), hc]
  intro h
  exact hdone (sameTasks_normalizeOrder.symm.done h)

/-- What an action returns is the store after it. -/
theorem apply_returned (s : TodoStore) (i : TodoInput) :
    (⟨(s.apply i).1.tasks, (s.apply i).1.nextId⟩ : TodoStore) = (s.apply i).2 := by
  rcases apply_cases s i with ⟨e, he⟩ | ⟨s', -, he⟩ <;> rw [he] <;> rfl

/-- An error leaves the store unchanged. -/
theorem apply_error (s : TodoStore) (i : TodoInput) (h : (s.apply i).1.error ≠ none) : (s.apply i).2 = s := by
  rcases apply_cases s i with ⟨e, he⟩ | ⟨s', -, he⟩
  · rw [he]
  · rw [he] at h
    exact absurd rfl h

/-- A sound store is restored from what it returned. -/
theorem restore_eq (hs : Sound ⟨d.tasks, d.nextId⟩) : TodoStore.restore (some d) = ⟨d.tasks, d.nextId⟩ := by
  have hsorted : d.tasks.Pairwise fun a b => TodoStore.taskLe a b = true := by
    have hlt : (d.tasks.map (·.order)).Pairwise (· < ·) := by
      rw [hs.order]
      exact List.pairwise_lt_range'
    refine (List.pairwise_map.1 hlt).imp fun h => ?_
    simp [TodoStore.taskLe, h]
  have hfilter : (some d).filter (fun d => decide (1 ≤ d.nextId)) = some d :=
    Option.filter_eq_some_iff.2 ⟨rfl, decide_eq_true hs.next⟩
  unfold TodoStore.restore
  rw [hfilter]
  show (⟨d.tasks.mergeSort TodoStore.taskLe, d.nextId⟩ : TodoStore) = _
  rw [List.mergeSort_of_pairwise hsorted]

/-! ## Sessions -/

/-- A store, and what it returned so far. -/
structure Session where
  store : TodoStore
  returned : List TodoDetails

inductive Event where
  | apply (input : TodoInput) (valid : input.Valid)
  | restore (details : Option TodoDetails)

/-- A restore is of something that the store returned, or of nothing. -/
def step (s : Session) : Event → Except Unit Session
  | .apply input _ => .ok ⟨(s.store.apply input).2, s.returned ++ [(s.store.apply input).1]⟩
  | .restore details =>
    if ∀ d ∈ details, d ∈ s.returned then .ok ⟨.restore details, s.returned⟩ else .error ()

abbrev Reaches : List (Run.Step Session Event) → Session → Prop := Run.Reaches step ⟨.empty, []⟩

/-- What holds of a session: its store is sound, and so is all it returned. -/
def Session.All (P : TodoStore → Prop) (s : Session) : Prop :=
  P s.store ∧ ∀ d ∈ s.returned, P ⟨d.tasks, d.nextId⟩

variable {x x' : Session} {e : Event} {h : List (Run.Step Session Event)} {P : TodoStore → Prop}

/-- A property of sound stores that an action keeps is kept by a step. -/
theorem step_all (hP : P .empty) (hsound : x.All Sound) (hall : x.All P)
    (happly : ∀ i v, e = .apply i v → P (x.store.apply i).2) (hs : step x e = .ok x') : x'.All P := by
  cases e with
  | apply i v =>
    cases hs
    have hafter := happly i v rfl
    refine ⟨hafter, fun d hd => ?_⟩
    rcases List.mem_append.1 hd with hd | hd
    · exact hall.2 d hd
    · rw [List.mem_singleton.1 hd, apply_returned]
      exact hafter
  | restore details =>
    simp only [step] at hs
    split_ifs at hs with hmem
    cases hs
    refine ⟨?_, hall.2⟩
    cases details with
    | none => exact hP
    | some d =>
      have hd : d ∈ x.returned := hmem d rfl
      show P (TodoStore.restore (some d))
      rw [restore_eq (hsound.2 d hd)]
      exact hall.2 d hd

theorem reaches_sound (hr : Reaches h x) : x.All Sound := by
  refine Run.Reaches.invariant (P := fun _ x => x.All Sound) ⟨sound_empty, by simp⟩ ?_ hr
  intro h x e x' _ hx hs
  exact step_all sound_empty hx hx (fun i _ _ => (hx.1.apply i).1) hs

/-- Actions only advance a store. -/
theorem applies_advance {h' : List (Run.Step Session Event)} (hx : x.All Sound)
    (hr : Run.Reaches step x h' x') (happ : ∀ st ∈ h', ∃ i v, st.event = .apply i v) :
    Advances x.store x'.store := by
  have hall : x'.All Sound ∧ Advances x.store x'.store := by
    induction hr with
    | nil => exact ⟨hx, .refl _⟩
    | @snoc h s s' e _ hs ih =>
      obtain ⟨hsound, hadv⟩ := ih fun st hst => happ st (by simp [hst])
      obtain ⟨i, v, he⟩ := happ ⟨s, e, s'⟩ (by simp)
      obtain rfl : e = .apply i v := he
      refine ⟨step_all sound_empty hsound hsound (fun i _ _ => (hsound.1.apply i).1) hs, ?_⟩
      cases hs
      exact hadv.trans (hsound.1.apply i).2.1
  exact hall.2

/-- **The task list keeps its invariants**, whatever is done to it. -/
theorem todo_invariants (hr : Reaches h x) :
    Sound x.store ∧ (∀ id, ¬ Relation.TransGen (DependsOn x.store.tasks) id id) ∧
      (∀ deploymentId updatedAt, deploymentId ≠ "" → isIsoTimestamp updatedAt = true →
        createDeploymentTaskSnapshot deploymentId updatedAt x.store.tasks x.store.nextId =
          .ok ⟨deploymentId, updatedAt, x.store.tasks, x.store.nextId⟩) ∧
      (∀ h' x', Run.Reaches step x h' x' → (∀ st ∈ h', ∃ i v, st.event = .apply i v) →
        x.store.nextId ≤ x'.store.nextId ∧ ∀ t ∈ x.store.tasks, isTerminal t.status = true →
          ∃ order, { t with order := order } ∈ x'.store.tasks) ∧
      ∀ i, (x.store.apply i).1.error ≠ none → (x.store.apply i).2 = x.store := by
  have hx := reaches_sound hr
  refine ⟨hx.1, hx.1.no_cycle, fun _ _ hid htime => hx.1.accepted hid htime, fun h' x' hr' happ => ?_,
    apply_error x.store⟩
  obtain ⟨hnext, hkept⟩ := applies_advance hx hr' happ
  refine ⟨hnext, fun t ht hs => ?_⟩
  obtain ⟨t', ht', he⟩ := hkept t ht hs
  obtain ⟨hid, htext, hst, hdeps⟩ := core_eq he
  refine ⟨t'.order, ?_⟩
  rw [← hid, ← htext, ← hst, ← hdeps]
  exact ht'

/-! ## Sessions of two tasks -/

/-- The session after an action. -/
def Session.after (x : Session) (i : TodoInput) : Session :=
  ⟨(x.store.apply i).2, x.returned ++ [(x.store.apply i).1]⟩

theorem reaches_after (hr : Reaches h x) (hv : i.Valid) :
    Reaches (h ++ [⟨x, .apply i hv, x.after i⟩]) (x.after i) := .snoc hr rfl

namespace Sample

def addTask (text : String) (dependencies : List ℕ) : TodoInput := ⟨.add, none, some text, some dependencies, none⟩

def startTask (id : ℕ) : TodoInput := ⟨.start, some id, none, none, none⟩

def updateTask (id : ℕ) (dependencies : List ℕ) : TodoInput := ⟨.update, some id, none, some dependencies, none⟩

/-- Two tasks, the second one started. -/
def started (dependencies : List ℕ) : Session :=
  ((Session.after ⟨.empty, []⟩ (addTask "read" [])).after (addTask "write" dependencies)).after (startTask 2)

theorem valid_addTask (text : String) : (addTask text []).Valid :=
  ⟨nofun, by rintro _ ⟨⟩ d ⟨⟩, nofun⟩

theorem valid_startTask : (startTask 2).Valid := ⟨by rintro _ ⟨⟩; decide, nofun, nofun⟩

theorem valid_updateTask : (updateTask 2 [1]).Valid :=
  ⟨by rintro _ ⟨⟩; decide, by rintro _ ⟨⟩; decide, nofun⟩

end Sample

open Sample in
theorem todo_invariants_started : (started []).store.tasks.length = 2 ∧
    createDeploymentTaskSnapshot "d-000001" "2026-03-02T00:00:00.000Z" (started []).store.tasks
      (started []).store.nextId = .ok ⟨"d-000001", "2026-03-02T00:00:00.000Z", (started []).store.tasks,
        (started []).store.nextId⟩ := by
  have hr := reaches_after (reaches_after (reaches_after .nil (valid_addTask "read"))
    (valid_addTask "write")) valid_startTask
  exact ⟨by decide, (todo_invariants hr).2.2.1 _ _ (by decide) (by decide)⟩

/-! ## The task in progress -/

/-- The event blocks the task in progress. -/
def Event.Blocks (s : TodoStore) : Event → Prop
  | .apply input _ => s.Blocks input
  | .restore _ => False

/-- **A started task is unblocked**, throughout a run exactly if no update blocks it. -/
theorem started_unblocked_iff (hr : Reaches h x) :
    (∀ st ∈ h, Done st.after.store.tasks .inProgress) ↔ ∀ st ∈ h, ¬ st.event.Blocks st.before.store := by
  constructor
  · intro hdone st hst hb
    obtain ⟨pre, post, rfl⟩ := List.append_of_mem hst
    obtain ⟨hpre, hs, -⟩ := hr.split
    obtain ⟨before, e, after⟩ := st
    cases e with
    | restore details => exact hb
    | apply i v =>
      have he : (before.store.apply i).2 = after.store := congrArg Session.store (Except.ok.inj hs)
      have hafter := hdone _ hst
      rw [← he] at hafter
      exact (reaches_sound hpre).1.blocks hb hafter
  · intro hno
    have hI := Run.Reaches.throughout (C := fun x e => ¬ Event.Blocks x.store e)
      (I := fun x => x.All Sound ∧ x.All fun s => Done s.tasks .inProgress)
      ⟨⟨sound_empty, by simp⟩, by simp [Done, TodoStore.empty], by simp⟩
      (fun x e x' hx hc hs => ⟨step_all sound_empty hx.1 hx.1 (fun i _ _ => (hx.1.1.apply i).1) hs,
        step_all (by simp [Done, TodoStore.empty]) hx.1 hx.2 (fun i v he => by
          subst he
          exact (hx.1.1.apply i).2.2 hc hx.2.1) hs⟩) hr hno
    exact fun st hst => (hI.2 st hst).2.2.1

instance (tasks : List DeploymentTask) (status : DeploymentTaskStatus) : Decidable (Done tasks status) :=
  inferInstanceAs (Decidable (∀ t ∈ tasks, t.status = status → ∀ d ∈ t.dependencies,
    ∃ u ∈ tasks, u.id = d ∧ u.status = .completed))

open Sample in
theorem started_unblocked_second : (started []).store.tasks.countP (·.status == .inProgress) = 1 ∧
    Done (started []).store.tasks .inProgress := by
  have hr := reaches_after (reaches_after (reaches_after .nil (valid_addTask "read"))
    (valid_addTask "write")) valid_startTask
  refine ⟨by decide, (started_unblocked_iff hr).2 (fun st hst hb => ?_) _
    (List.mem_append_right _ (List.mem_singleton_self _))⟩
  simp only [List.nil_append, List.cons_append, List.mem_cons, List.not_mem_nil, or_false] at hst
  rcases hst with rfl | rfl | rfl <;> cases hb.1

open Sample in
/-- The task in progress gets a dependency that is not completed. -/
theorem blocked_by_update : ¬ ∀ h x, Reaches h x → Done x.store.tasks .inProgress := by
  intro hall
  have hr := reaches_after (reaches_after (reaches_after (reaches_after .nil (valid_addTask "read"))
    (valid_addTask "write")) valid_startTask) valid_updateTask
  have hblocked : ¬ Done ((started []).after (updateTask 2 [1])).store.tasks .inProgress := by decide
  exact hblocked (hall _ _ hr)

end PaPlatform.Todo
