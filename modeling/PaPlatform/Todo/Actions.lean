/-
  Each action of the task list keeps the tasks consistent.

  `Moves` is what all actions share.  Its last field, that started tasks stay
  unblocked, fails for one of them: an update may give the task in progress
  dependencies that are not completed.
-/
import PaPlatform.Todo.Tasks

namespace PaPlatform.Todo

open Guard
open Registry (trim trim_trim)

variable {s s' : TodoStore} {tasks tasks' : List DeploymentTask} {t u : DeploymentTask} {n d id : ℕ}
  {status : DeploymentTaskStatus} {i : TodoInput} {g : DeploymentTask → DeploymentTask} {blocked : Prop}

/-- From `tasks` to `tasks'`, unless `blocked` with the started tasks unblocked. -/
structure Moves (blocked : Prop) (tasks tasks' : List DeploymentTask) (n : ℕ) : Prop where
  consistent : Consistent tasks' n
  kept : Kept tasks tasks'
  started : ¬ blocked → Done tasks .inProgress → Done tasks' .inProgress

theorem countP_map_le {p : DeploymentTask → Bool} (h : ∀ t ∈ tasks, p (g t) = true → p t = true) :
    (tasks.map g).countP p ≤ tasks.countP p := by
  rw [List.countP_map]
  exact List.countP_mono_left h

/-- The change of one task adds no task in progress. -/
theorem countP_put (hc : Consistent tasks n) (ht : t ∈ tasks)
    (h : (g t).status = .inProgress → t.status = .inProgress) :
    (tasks.map (put t.id g)).countP (·.status == .inProgress) ≤ 1 := by
  refine (countP_map_le fun u hu hus => ?_).trans hc.one
  rcases put_cases (g := g) hc.nodup ht hu with ⟨rfl, he⟩ | ⟨-, he⟩
  · rw [he, beq_iff_eq] at hus
    rw [beq_iff_eq]
    exact h hus
  · rwa [he] at hus

theorem open_status (hs : t.status ≠ .completed ∧ t.status ≠ .cancelled) : isTerminal t.status = false := by
  cases h : t.status with
  | pending => rfl
  | inProgress => rfl
  | completed => exact absurd h hs.1
  | cancelled => exact absurd h hs.2

/-! ## `add` -/

theorem Consistent.snoc {text : String} {order : ℕ} {ds : List ℕ} (hc : Consistent tasks n) (hn : 1 ≤ n)
    (htext : trim text ≠ "") (hds : ds.Nodup ∧ ∀ d ∈ ds, d ≠ n ∧ d ∈ tasks.map (·.id)) :
    Consistent (tasks ++ [⟨n, text, .pending, order, ds⟩]) (n + 1) := by
  have hnew : n ∉ tasks.map (·.id) := by
    intro h
    obtain ⟨t, ht, he⟩ := List.mem_map.1 h
    exact absurd (hc.ids t ht).2 (by omega)
  -- nothing depends on the new task, and the tasks it depends on are accessible
  have hold : ∀ t ∈ tasks, Acc (DependsOn (tasks ++ [⟨n, text, .pending, order, ds⟩])) t.id := by
    intro t ht
    have hacc := hc.acyclic t ht
    have hmem : t.id ∈ tasks.map (·.id) := List.mem_map_of_mem ht
    generalize t.id = x at hacc hmem ⊢
    revert hmem
    induction hacc with
    | intro x _ ih =>
      intro hmem
      refine Acc.intro x ?_
      rintro y ⟨u, hu, rfl, hy⟩
      rcases List.mem_append.1 hu with hu | hu
      · exact ih y ⟨u, hu, rfl, hy⟩ ((hc.deps u hu).2 y hy).2
      · rw [List.mem_singleton.1 hu] at hmem
        exact absurd hmem hnew
  refine ⟨?_, ?_, ?_, ?_, ?_, ?_, ?_⟩
  · rw [List.map_append, List.map_singleton, List.nodup_append_comm]
    exact List.nodup_cons.2 ⟨hnew, hc.nodup⟩
  · intro t ht
    rcases List.mem_append.1 ht with ht | ht
    · exact ⟨(hc.ids t ht).1, (hc.ids t ht).2.trans (Nat.lt_succ_self n)⟩
    · rw [List.mem_singleton.1 ht]
      exact ⟨hn, Nat.lt_succ_self n⟩
  · intro t ht
    rcases List.mem_append.1 ht with ht | ht
    · exact hc.text t ht
    · rw [List.mem_singleton.1 ht]
      exact htext
  · rw [List.countP_append]
    exact hc.one
  · intro t ht
    rw [List.map_append]
    rcases List.mem_append.1 ht with ht | ht
    · exact ⟨(hc.deps t ht).1, fun d hd =>
        ⟨((hc.deps t ht).2 d hd).1, List.mem_append_left _ ((hc.deps t ht).2 d hd).2⟩⟩
    · rw [List.mem_singleton.1 ht]
      exact ⟨hds.1, fun d hd => ⟨(hds.2 d hd).1, List.mem_append_left _ (hds.2 d hd).2⟩⟩
  · intro t ht
    rcases List.mem_append.1 ht with ht | ht
    · exact hold t ht
    · rw [List.mem_singleton.1 ht]
      refine Acc.intro n ?_
      rintro y ⟨u, hu, hun, hy⟩
      rcases List.mem_append.1 hu with hu | hu
      · exact absurd (hc.ids u hu).2 (by omega)
      · rw [List.mem_singleton.1 hu] at hy
        obtain ⟨v, hv, rfl⟩ := List.mem_map.1 (hds.2 y hy).2
        exact hold v hv
  · intro t ht hs d hd
    rcases List.mem_append.1 ht with ht | ht
    · obtain ⟨u, hu, hus⟩ := hc.completed t ht hs d hd
      exact ⟨u, List.mem_append_left _ hu, hus⟩
    · rw [List.mem_singleton.1 ht] at hs
      cases hs

theorem normalizedText_some {value : Option String} {text : String} (h : normalizedText value = some text) :
    trim text ≠ "" := by
  unfold normalizedText at h
  obtain ⟨hv, hne⟩ := Option.filter_eq_some_iff.1 h
  obtain ⟨v, -, rfl⟩ := Option.map_eq_some_iff.1 hv
  rw [trim_trim]
  exact bne_iff_ne.1 hne

theorem add_ok (hc : Consistent s.tasks s.nextId) (hn : 1 ≤ s.nextId) (h : add s i = .ok s') :
    s'.nextId = s.nextId + 1 ∧ Moves False s.tasks s'.tasks s'.nextId := by
  simp only [add, bind_eq_ok, require_eq_ok, pure_eq_ok] at h
  obtain ⟨text, htext, ds, hds, rfl⟩ := h
  obtain ⟨rfl, hother⟩ := checkDependencies_eq_ok.1 hds
  refine ⟨rfl, hc.snoc hn (normalizedText_some htext)
    ⟨nodup_uniqueIds _, fun d hd => hother d (mem_uniqueIds.1 hd)⟩, ?_, ?_⟩
  · exact fun t ht _ => ⟨t, List.mem_append_left _ ht, rfl⟩
  · intro _ hold t ht hs d hd
    rcases List.mem_append.1 ht with ht | ht
    · obtain ⟨u, hu, hus⟩ := hold t ht hs d hd
      exact ⟨u, List.mem_append_left _ hu, hus⟩
    · rw [List.mem_singleton.1 ht] at hs
      cases hs

/-! ## `start`, `complete`, `cancel` and `reorder` -/

/-- Suspend the task in progress. -/
def pause (item : DeploymentTask) : DeploymentTask :=
  if item.status = .inProgress then { item with status := .pending } else item

theorem pause_cases (t : DeploymentTask) :
    t.status = .inProgress ∧ pause t = { t with status := .pending } ∨ t.status ≠ .inProgress ∧ pause t = t := by
  unfold pause
  by_cases h : t.status = .inProgress
  · exact Or.inl ⟨h, if_pos h⟩
  · exact Or.inr ⟨h, if_neg h⟩

theorem pause_keeps (t : DeploymentTask) :
    (pause t).id = t.id ∧ (pause t).text = t.text ∧ (pause t).dependencies = t.dependencies := by
  rcases pause_cases t with ⟨-, he⟩ | ⟨-, he⟩ <;> rw [he] <;> exact ⟨rfl, rfl, rfl⟩

theorem pause_status : (pause t).status ≠ .inProgress := by
  rcases pause_cases t with ⟨-, he⟩ | ⟨h, he⟩
  · rw [he]
    simp
  · rwa [he]

theorem pause_eq (h : t.status ≠ .inProgress) : pause t = t := if_neg h

theorem pause_completed : (pause t).status = .completed ↔ t.status = .completed := by
  rcases pause_cases t with ⟨h, he⟩ | ⟨-, he⟩
  · rw [he, h]
    simp
  · rw [he]

/-- Completed tasks stay completed when the task in progress is suspended. -/
theorem Done.pause (h : Done tasks status) (hs : status ≠ .pending) : Done (tasks.map pause) status := by
  refine Done.map (fun t ht hts d hd => ?_) (fun t => (pause_keeps t).1) fun t _ => pause_completed.2
  rcases pause_cases t with ⟨-, he⟩ | ⟨-, he⟩
  · rw [he] at hts
    exact absurd hts.symm hs
  · rw [he] at hts hd
    exact h t ht hts d hd

theorem Consistent.pause (hc : Consistent tasks n) :
    Consistent (tasks.map pause) n ∧ (tasks.map pause).countP (·.status == .inProgress) = 0 := by
  have hcount : (tasks.map Todo.pause).countP (·.status == .inProgress) = 0 := by
    rw [List.countP_eq_zero, List.forall_mem_map]
    intro t _ h
    exact pause_status (beq_iff_eq.1 h)
  refine ⟨hc.map (fun t => (pause_keeps t).1) (fun t => (pause_keeps t).2.2) (fun t ht => ?_)
    (hcount.trans_le (Nat.zero_le 1)) (hc.completed.pause (by simp)), hcount⟩
  rw [(pause_keeps t).2.1]
  exact hc.text t ht

theorem kept_pause : Kept tasks (tasks.map pause) := by
  refine kept_map fun t _ hs => pause_eq fun h => ?_
  rw [h] at hs
  cases hs

theorem start_ok (hc : Consistent tasks n) (ht : t ∈ tasks) (h : start tasks t = .ok tasks') :
    Moves False tasks tasks' n := by
  simp only [start, bind_eq_ok, pure_eq_ok] at h
  obtain ⟨_, hopen, _, hun, rfl⟩ := h
  have hs := checkOpen_ok hopen
  show Moves False tasks (assign (tasks.map pause) t.id fun t => { t with status := .inProgress }) n
  obtain ⟨hcp, hcount⟩ := hc.pause
  obtain ⟨hid, -, hdeps⟩ := pause_keeps t
  have hmem : pause t ∈ tasks.map pause := List.mem_map_of_mem ht
  have hsp : (pause t).status ≠ .completed := fun h => hs.1 (pause_completed.1 h)
  have hspc : (pause t).status ≠ .cancelled := by
    rcases pause_cases t with ⟨-, he⟩ | ⟨-, he⟩
    · rw [he]
      simp
    · rw [he]
      exact hs.2
  -- the dependencies of the task are completed before and after the pause
  have hdone : ∀ d ∈ (pause t).dependencies, ∃ u ∈ tasks.map pause, u.id = d ∧ u.status = .completed := by
    intro d hd
    rw [hdeps] at hd
    obtain ⟨u, hu, he, hus⟩ := checkUnblocked_ok hun hd
    exact ⟨pause u, List.mem_map_of_mem hu, (pause_keeps u).1.trans he, pause_completed.2 hus⟩
  rw [← hid]
  refine ⟨hcp.put hmem hsp (fun _ => rfl) (fun _ => rfl) (hcp.text (pause t) hmem) ?_ (fun h => by cases h),
    kept_pause.trans (kept_assign hcp.nodup hmem (open_status ⟨hsp, hspc⟩)), fun _ hold => ?_⟩
  · have hle := @countP_put_le _ (pause t).id (fun t => { t with status := .inProgress })
      hcp.nodup (fun _ => rfl) (·.status == .inProgress)
    omega
  · rw [assign_eq_map hcp.nodup]
    exact (hold.pause (by simp)).put hcp.nodup hmem hsp (fun _ => rfl) fun _ => hdone

/-- An open task gets another status than in progress. -/
theorem moves_status (hc : Consistent tasks n) (ht : t ∈ tasks)
    (hs : t.status ≠ .completed ∧ t.status ≠ .cancelled) (hst : status ≠ .inProgress)
    (hdone : status = .completed → ∀ d ∈ t.dependencies, ∃ u ∈ tasks, u.id = d ∧ u.status = .completed) :
    Moves False tasks (assign tasks t.id fun t => { t with status := status }) n := by
  refine ⟨hc.put ht hs.1 (fun _ => rfl) (fun _ => rfl) (hc.text t ht) (countP_put hc ht fun h => absurd h hst)
    hdone, kept_assign hc.nodup ht (open_status hs), fun _ hold => ?_⟩
  rw [assign_eq_map hc.nodup]
  exact hold.put hc.nodup ht hs.1 (fun _ => rfl) fun h => absurd h hst

theorem complete_ok (hc : Consistent tasks n) (ht : t ∈ tasks) (h : complete tasks t = .ok tasks') :
    Moves False tasks tasks' n := by
  simp only [complete, bind_eq_ok, pure_eq_ok] at h
  obtain ⟨_, hopen, _, hun, rfl⟩ := h
  exact moves_status hc ht (checkOpen_ok hopen) (by simp) fun _ d hd => checkUnblocked_ok hun hd

theorem cancel_ok (hc : Consistent tasks n) (ht : t ∈ tasks) (h : cancel tasks t = .ok tasks') :
    Moves False tasks tasks' n := by
  simp only [cancel, bind_eq_ok, pure_eq_ok] at h
  obtain ⟨_, hopen, rfl⟩ := h
  exact moves_status hc ht (checkOpen_ok hopen) (by simp) fun h => by cases h

theorem SameTasks.moves (h : SameTasks tasks tasks') (hc : Consistent tasks n) : Moves False tasks tasks' n :=
  ⟨hc.perm h, h.kept, fun _ hold => h.done hold⟩

theorem reorder_ok (hc : Consistent tasks n) (ht : t ∈ tasks) (h : reorder tasks t i = .ok tasks') :
    Moves False tasks tasks' n := by
  simp only [reorder, bind_eq_ok, pure_eq_ok] at h
  obtain ⟨_, -, _, -, _, -, rfl⟩ := h
  have hk : tasks.findIdx (·.id == t.id) < tasks.length := List.findIdx_lt_length_of_exists ⟨t, ht, by simp⟩
  have hmoved := List.getElem_cons_eraseIdx_perm hk
  refine SameTasks.moves (List.Perm.map core ?_) hc
  rw [List.getElem?_eq_getElem hk, Option.getD_some]
  refine (List.perm_insertIdx _ _ ?_).trans hmoved
  cases i.beforeId with
  | none => exact le_refl _
  | some before => exact List.findIdx_le_length

/-! ## `update` -/

/-- The change of the text. -/
def retext (i : TodoInput) (t : DeploymentTask) : DeploymentTask :=
  i.text.elim t fun text => { t with text := trim text }

theorem retext_keeps (t : DeploymentTask) : (retext i t).id = t.id ∧ (retext i t).status = t.status ∧
    (retext i t).dependencies = t.dependencies := by
  unfold retext
  cases i.text with
  | none => exact ⟨rfl, rfl, rfl⟩
  | some text => exact ⟨rfl, rfl, rfl⟩

/-- The change of the dependencies. -/
def redepend (ds : List ℕ) (t : DeploymentTask) : DeploymentTask := { t with dependencies := uniqueIds ds }

theorem update_eq_ok : update tasks t i = .ok tasks' ↔ isTerminal t.status = false ∧
    ¬ (i.text.isNone = true ∧ i.dependencies.isNone = true) ∧ (∀ text ∈ i.text, trim text ≠ "") ∧
    i.dependencies.elim (.ok (assign tasks t.id (retext i)))
      (updateDependencies t (assign tasks t.id (retext i))) = .ok tasks' := by
  simp only [update, checkOpen, bind_eq_ok, throwIf_eq_ok, Bool.not_eq_true]
  cases ht : i.text with
  | none =>
    have he : assign tasks t.id (retext i) = tasks := by
      have hid : retext i = id := funext fun u => by rw [retext, ht]; rfl
      rw [hid, assign, List.modify_id]
    simp [he]
  | some text =>
    have he : retext i = fun t => { t with text := trim text } := funext fun u => by rw [retext, ht]; rfl
    by_cases hb : trim text = ""
    · have hn : normalizedText (some text) = none := by simp [normalizedText, hb]
      simp [hn, hb, require]
    · have hn : normalizedText (some text) = some (trim text) := by simp [normalizedText, hb]
      simp [hn, hb, require, he]

theorem updateDependencies_eq_ok {ids : List ℕ} : updateDependencies t tasks ids = .ok tasks' ↔
    (∀ d ∈ ids, d ≠ t.id ∧ d ∈ tasks.map (·.id)) ∧
    hasDeploymentTaskDependencyCycle (assign tasks t.id (redepend ids)) = false ∧
    assign tasks t.id (redepend ids) = tasks' := by
  simp only [updateDependencies, bind_eq_ok, throwIf_eq_ok, pure_eq_ok, checkDependencies_eq_ok,
    Bool.not_eq_true]
  constructor
  · rintro ⟨_, ⟨rfl, hids⟩, _, hcycle, rfl⟩
    exact ⟨hids, hcycle, rfl⟩
  · rintro ⟨hids, hcycle, rfl⟩
    exact ⟨_, ⟨rfl, hids⟩, ⟨⟩, hcycle, rfl⟩

/-- The text does not matter to the cycle check. -/
theorem cycle_retext {ids : List ℕ} (hn : (tasks.map (·.id)).Nodup) :
    hasDeploymentTaskDependencyCycle (assign (assign tasks t.id (retext i)) t.id (redepend ids)) =
      hasDeploymentTaskDependencyCycle (assign tasks t.id (redepend ids)) := by
  have hf : KeepsIds (put t.id (retext i)) := keepsIds_put fun u => (retext_keeps u).1
  have hg : KeepsIds (put t.id (redepend ids)) := keepsIds_put fun _ => rfl
  have hcomm : ∀ u, put t.id (redepend ids) (put t.id (retext i) u) = put t.id (retext i) (put t.id (redepend ids) u) := by
    intro u
    by_cases he : u.id = t.id
    · rw [put_of_eq ((hf u).trans he), put_of_eq he, put_of_eq he, put_of_eq (t := redepend ids u) he]
      unfold retext redepend
      cases i.text <;> rfl
    · rw [put_of_ne he, put_of_ne he, put_of_ne he]
  have hdeps : ∀ u, (put t.id (retext i) u).dependencies = u.dependencies := by
    intro u
    by_cases he : u.id = t.id
    · rw [put_of_eq he]
      exact (retext_keeps u).2.2
    · rw [put_of_ne he]
  have hn' : ((tasks.map (put t.id (redepend ids))).map (·.id)).Nodup := by rwa [map_ids hg]
  rw [assign_eq_map hn, assign_eq_map (by rwa [map_ids hf]), assign_eq_map hn, List.map_map,
    show put t.id (redepend ids) ∘ put t.id (retext i) = put t.id (retext i) ∘ put t.id (redepend ids) from
      funext hcomm, ← List.map_map]
  generalize hl : tasks.map (put t.id (redepend ids)) = l at hn' ⊢
  rw [Bool.eq_iff_iff, ← not_iff_not, Bool.not_eq_true, Bool.not_eq_true,
    hasDeploymentTaskDependencyCycle_eq_false (by rwa [map_ids hf]),
    hasDeploymentTaskDependencyCycle_eq_false hn', dependsOn_map hf hdeps, List.forall_mem_map]
  exact forall₂_congr fun u _ => by rw [hf]

/-- A dependency that no task with its id completes. -/
def Incomplete (tasks : List DeploymentTask) (d : ℕ) : Prop := ∀ u ∈ tasks, u.id = d → u.status ≠ .completed

/-- `update` gives the task in progress other tasks to depend on, one of them not completed. -/
def Blocks (tasks : List DeploymentTask) (t : DeploymentTask) (i : TodoInput) : Prop :=
  t.status = .inProgress ∧ (∀ text ∈ i.text, trim text ≠ "") ∧ ∃ ids ∈ i.dependencies,
    (∀ d ∈ ids, d ≠ t.id ∧ d ∈ tasks.map (·.id)) ∧
    hasDeploymentTaskDependencyCycle (assign tasks t.id (redepend ids)) = false ∧ ∃ d ∈ ids, Incomplete tasks d

/-- The text of an open task. -/
theorem moves_retext (hc : Consistent tasks n) (ht : t ∈ tasks)
    (hs : t.status ≠ .completed ∧ t.status ≠ .cancelled) (htext : ∀ text ∈ i.text, trim text ≠ "") :
    Moves False tasks (assign tasks t.id (retext i)) n := by
  have hg : KeepsIds (retext i) := fun u => (retext_keeps u).1
  obtain ⟨-, hst, hdeps⟩ := retext_keeps (i := i) t
  have hnew : trim (retext i t).text ≠ "" := by
    unfold retext
    cases h : i.text with
    | none => exact hc.text t ht
    | some text =>
      show trim (trim text) ≠ ""
      rw [trim_trim]
      exact htext text h
  refine ⟨hc.put ht hs.1 hg (fun u => (retext_keeps u).2.2) hnew (countP_put hc ht fun h => hst ▸ h)
    (fun h => absurd (hst ▸ h) hs.1), kept_assign hc.nodup ht (open_status hs), fun _ hold => ?_⟩
  rw [assign_eq_map hc.nodup]
  exact hold.put hc.nodup ht hs.1 hg fun h => by rw [hdeps]; exact hold t ht (hst ▸ h)

/-- The dependencies of an open task. -/
theorem moves_redepend {ids : List ℕ} (hc : Consistent tasks n) (ht : t ∈ tasks) (hid : t.id = id)
    (hs : t.status ≠ .completed ∧ t.status ≠ .cancelled) (hids : ∀ d ∈ ids, d ≠ id ∧ d ∈ tasks.map (·.id))
    (hcycle : hasDeploymentTaskDependencyCycle (assign tasks id (redepend ids)) = false) :
    Moves (t.status = .inProgress ∧ ∃ d ∈ ids, Incomplete tasks d) tasks
      (assign tasks id (redepend ids)) n := by
  subst hid
  have hg : KeepsIds (redepend ids) := fun _ => rfl
  have hput : KeepsIds (put t.id (redepend ids)) := keepsIds_put hg
  have hmap : (tasks.map (put t.id (redepend ids))).map (·.id) = tasks.map (·.id) := map_ids hput
  have hcases := fun {v} => put_cases (u := v) (g := redepend ids) hc.nodup ht
  refine ⟨?_, kept_assign hc.nodup ht (open_status hs), fun hb hold => ?_⟩
  · rw [assign_eq_map hc.nodup] at hcycle ⊢
    refine ⟨by rw [hmap]; exact hc.nodup, ?_, ?_, countP_put hc ht fun h => h, ?_,
      (hasDeploymentTaskDependencyCycle_eq_false (by rw [hmap]; exact hc.nodup)).1 hcycle,
      hc.completed.put hc.nodup ht hs.1 hg fun h => absurd h hs.1⟩
    · rw [List.forall_mem_map]
      exact fun v hv => by rw [keepsIds_put hg]; exact hc.ids v hv
    · rw [List.forall_mem_map]
      intro v hv
      rcases hcases hv with ⟨rfl, he⟩ | ⟨-, he⟩ <;> rw [he] <;> exact hc.text v hv
    · rw [List.forall_mem_map, hmap]
      intro v hv
      rcases hcases hv with ⟨rfl, he⟩ | ⟨-, he⟩
      · rw [he]
        exact ⟨nodup_uniqueIds ids, fun d hd => hids d (mem_uniqueIds.1 hd)⟩
      · rw [he]
        exact hc.deps v hv
  · rw [assign_eq_map hc.nodup]
    refine hold.put hc.nodup ht hs.1 hg fun hst d hd => ?_
    by_contra hno
    exact hb ⟨hst, d, mem_uniqueIds.1 hd, fun v hv he hvs => hno ⟨v, hv, he, hvs⟩⟩

theorem Moves.trans {tasks'' : List DeploymentTask} (h : Moves False tasks tasks' n)
    (h' : Moves blocked tasks' tasks'' n) : Moves blocked tasks tasks'' n :=
  ⟨h'.consistent, h.kept.trans h'.kept, fun hb hold => h'.started hb (h.started not_false hold)⟩

theorem Moves.weaken {blocked' : Prop} (h : Moves blocked tasks tasks' n) (hb : blocked → blocked') :
    Moves blocked' tasks tasks' n := ⟨h.consistent, h.kept, fun hn => h.started fun h => hn (hb h)⟩

/-- After a change of the text, the same tasks are completed. -/
theorem incomplete_retext (hn : (tasks.map (·.id)).Nodup) (ht : t ∈ tasks) :
    Incomplete (assign tasks t.id (retext i)) d ↔ Incomplete tasks d := by
  unfold Incomplete
  rw [assign_eq_map hn, List.forall_mem_map]
  refine forall₂_congr fun u hu => ?_
  rcases put_cases (g := retext i) hn ht hu with ⟨rfl, he⟩ | ⟨-, he⟩
  · rw [he, (retext_keeps u).1, (retext_keeps u).2.1]
  · rw [he]

theorem mem_assign (hn : (tasks.map (·.id)).Nodup) (ht : t ∈ tasks) (hid : t.id = id) :
    g t ∈ assign tasks id g := by
  rw [assign_eq_map hn]
  exact List.mem_map.2 ⟨t, ht, put_of_eq hid⟩

theorem assign_ids (hn : (tasks.map (·.id)).Nodup) (hg : KeepsIds g) :
    (assign tasks id g).map (·.id) = tasks.map (·.id) := by
  rw [assign_eq_map hn]
  exact map_ids (keepsIds_put hg)

theorem update_ok (hc : Consistent tasks n) (ht : t ∈ tasks) (h : update tasks t i = .ok tasks') :
    Moves (Blocks tasks t i) tasks tasks' n := by
  obtain ⟨hopen, -, htext, h⟩ := update_eq_ok.1 h
  have hs : t.status ≠ .completed ∧ t.status ≠ .cancelled := by
    constructor <;> intro he <;> rw [he] at hopen <;> cases hopen
  have hm := moves_retext hc ht hs htext
  obtain ⟨hid, hst, -⟩ := retext_keeps (i := i) t
  have hg : KeepsIds (retext i) := fun u => (retext_keeps u).1
  cases hd : i.dependencies with
  | none =>
    rw [hd] at h
    cases h
    exact hm.weaken False.elim
  | some ids =>
    rw [hd] at h
    obtain ⟨hids, hcycle, rfl⟩ := updateDependencies_eq_ok.1 h
    have hmem : retext i t ∈ assign tasks t.id (retext i) := mem_assign hc.nodup ht rfl
    refine hm.trans ((moves_redepend hm.consistent hmem hid (by rwa [hst]) hids hcycle).weaken ?_)
    rintro ⟨hp, d, hdep, hinc⟩
    rw [assign_ids hc.nodup hg] at hids
    rw [cycle_retext hc.nodup] at hcycle
    exact ⟨hst ▸ hp, htext, ids, hd, hids, hcycle, d, hdep, (incomplete_retext hc.nodup ht).1 hinc⟩

/-- **The condition is exact**: an update that blocks the task in progress is accepted. -/
theorem blocks_update (hc : Consistent tasks n) (ht : t ∈ tasks) (hb : Blocks tasks t i) :
    ∃ tasks', update tasks t i = .ok tasks' ∧ ¬ Done tasks' .inProgress := by
  obtain ⟨hp, htext, ids, hd, hids, hcycle, d, hdep, hinc⟩ := hb
  have hg : KeepsIds (retext i) := fun u => (retext_keeps u).1
  obtain ⟨hid, hst, -⟩ := retext_keeps (i := i) t
  have hnodup : ((assign tasks t.id (retext i)).map (·.id)).Nodup := by
    rw [assign_ids hc.nodup hg]
    exact hc.nodup
  have hmem : retext i t ∈ assign tasks t.id (retext i) := mem_assign hc.nodup ht rfl
  refine ⟨assign (assign tasks t.id (retext i)) t.id (redepend ids), update_eq_ok.2 ⟨by rw [hp]; rfl,
    fun h => ?_, htext, ?_⟩, fun hdone => ?_⟩
  · rw [hd] at h
    cases h.2
  · rw [hd]
    refine updateDependencies_eq_ok.2 ⟨by rwa [assign_ids hc.nodup hg], ?_, rfl⟩
    rwa [cycle_retext hc.nodup]
  · have hmem' : redepend ids (retext i t) ∈ assign (assign tasks t.id (retext i)) t.id (redepend ids) :=
      mem_assign hnodup hmem hid
    obtain ⟨u, hu, hud, hus⟩ := hdone _ hmem' (hst.trans hp) d (mem_uniqueIds.2 hdep)
    rw [assign_eq_map hnodup] at hu
    obtain ⟨v, hv, rfl⟩ := List.mem_map.1 hu
    have hkeep : (put t.id (redepend ids) v).id = v.id ∧ (put t.id (redepend ids) v).status = v.status := by
      by_cases he : v.id = t.id
      · rw [put_of_eq he]
        exact ⟨rfl, rfl⟩
      · rw [put_of_ne he]
        exact ⟨rfl, rfl⟩
    rw [hkeep.1] at hud
    rw [hkeep.2] at hus
    exact (incomplete_retext hc.nodup ht).2 hinc v hv hud hus

end PaPlatform.Todo
