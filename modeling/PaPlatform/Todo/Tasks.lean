/-
  What every action of the task list keeps.

  `Consistent` speaks of the tasks as a set: a change of the order of the list, or
  of the stored order, keeps it (`Consistent.perm`).
-/
import PaPlatform.Todo.Store

namespace PaPlatform.Todo

open Guard
open Registry (trim trim_trim)

variable {tasks tasks' : List DeploymentTask} {t u : DeploymentTask} {n d id : ℕ}
  {status : DeploymentTaskStatus} {i : TodoInput} {g : DeploymentTask → DeploymentTask}

/-- `DependsOn tasks y x`: a task with the id `x` depends on `y`. -/
def DependsOn (tasks : List DeploymentTask) (y x : ℕ) : Prop := ∃ t ∈ tasks, t.id = x ∧ y ∈ t.dependencies

/-- The dependencies of the tasks with this status are completed. -/
def Done (tasks : List DeploymentTask) (status : DeploymentTaskStatus) : Prop :=
  ∀ t ∈ tasks, t.status = status → ∀ d ∈ t.dependencies, ∃ u ∈ tasks, u.id = d ∧ u.status = .completed

/-- What holds of the tasks of a store with the next id `n`. -/
structure Consistent (tasks : List DeploymentTask) (n : ℕ) : Prop where
  nodup : (tasks.map (·.id)).Nodup
  ids : ∀ t ∈ tasks, 1 ≤ t.id ∧ t.id < n
  text : ∀ t ∈ tasks, trim t.text ≠ ""
  one : tasks.countP (·.status == .inProgress) ≤ 1
  deps : ∀ t ∈ tasks, t.dependencies.Nodup ∧ ∀ d ∈ t.dependencies, d ≠ t.id ∧ d ∈ tasks.map (·.id)
  acyclic : ∀ t ∈ tasks, Acc (DependsOn tasks) t.id
  completed : Done tasks .completed

/-! ## Tasks without their order -/

/-- A task without its order. -/
def core (t : DeploymentTask) : DeploymentTask := { t with order := 0 }

theorem core_eq (h : core t = core u) : t.id = u.id ∧ t.text = u.text ∧ t.status = u.status ∧
    t.dependencies = u.dependencies := by
  simp only [core, DeploymentTask.mk.injEq] at h
  exact ⟨h.1, h.2.1, h.2.2.1, h.2.2.2.2⟩

/-- The same tasks, but for their order. -/
def SameTasks (tasks tasks' : List DeploymentTask) : Prop := (tasks'.map core).Perm (tasks.map core)

theorem SameTasks.symm (h : SameTasks tasks tasks') : SameTasks tasks' tasks := List.Perm.symm h

theorem SameTasks.mem (h : SameTasks tasks tasks') (ht : t ∈ tasks') : ∃ u ∈ tasks, core u = core t := by
  have hmem : core t ∈ tasks.map core := h.mem_iff.1 (List.mem_map_of_mem ht)
  exact List.mem_map.1 hmem

theorem SameTasks.ids (h : SameTasks tasks tasks') : (tasks'.map (·.id)).Perm (tasks.map (·.id)) := by
  have hp := h.map (·.id)
  rwa [List.map_map, List.map_map] at hp

theorem SameTasks.dependsOn (h : SameTasks tasks tasks') : DependsOn tasks' = DependsOn tasks := by
  have hsub : ∀ {l l'}, SameTasks l l' → ∀ y x, DependsOn l' y x → DependsOn l y x := by
    rintro l l' h y x ⟨t, ht, rfl, hy⟩
    obtain ⟨u, hu, hc⟩ := h.mem ht
    obtain ⟨hid, -, -, hd⟩ := core_eq hc
    exact ⟨u, hu, hid, hd ▸ hy⟩
  ext y x
  exact ⟨hsub h y x, hsub h.symm y x⟩

theorem SameTasks.done (h : SameTasks tasks tasks') (hd : Done tasks status) : Done tasks' status := by
  intro t ht hs d hdep
  obtain ⟨u, hu, hc⟩ := h.mem ht
  obtain ⟨-, -, hst, hdeps⟩ := core_eq hc
  obtain ⟨v, hv, hid, hvs⟩ := hd u hu (hst.trans hs) d (hdeps ▸ hdep)
  obtain ⟨w, hw, hcw⟩ := h.symm.mem hv
  obtain ⟨hid', -, hst', -⟩ := core_eq hcw
  exact ⟨w, hw, hid'.trans hid, hst'.trans hvs⟩

theorem Consistent.perm (hc : Consistent tasks n) (h : SameTasks tasks tasks') : Consistent tasks' n := by
  refine ⟨h.ids.nodup_iff.2 hc.nodup, fun t ht => ?_, fun t ht => ?_, ?_, fun t ht => ?_, fun t ht => ?_,
    h.done hc.completed⟩
  · obtain ⟨u, hu, he⟩ := h.mem ht
    rw [← (core_eq he).1]
    exact hc.ids u hu
  · obtain ⟨u, hu, he⟩ := h.mem ht
    rw [← (core_eq he).2.1]
    exact hc.text u hu
  · have hcount : ∀ l : List DeploymentTask, l.countP (·.status == .inProgress) =
        (l.map core).countP (·.status == .inProgress) := by
      intro l
      rw [List.countP_map]
      rfl
    rw [hcount, h.countP_eq, ← hcount]
    exact hc.one
  · obtain ⟨u, hu, he⟩ := h.mem ht
    obtain ⟨hid, -, -, hd⟩ := core_eq he
    rw [← hid, ← hd]
    exact ⟨(hc.deps u hu).1, fun d hdep =>
      ⟨((hc.deps u hu).2 d hdep).1, h.ids.mem_iff.2 ((hc.deps u hu).2 d hdep).2⟩⟩
  · obtain ⟨u, hu, he⟩ := h.mem ht
    rw [← (core_eq he).1, h.dependsOn]
    exact hc.acyclic u hu

theorem sameTasks_normalizeOrder : SameTasks tasks (normalizeOrder tasks) := by
  have hcore : (normalizeOrder tasks).map core = tasks.map core := by
    unfold normalizeOrder
    rw [List.map_map]
    conv_rhs => rw [← List.zipIdx_map_fst 0 tasks, List.map_map]
    rfl
  unfold SameTasks
  rw [hcore]

/-! ## Tasks and their ids -/

theorem find_some (h : find tasks id = some t) : t ∈ tasks ∧ t.id = id := by
  unfold find at h
  exact ⟨List.mem_of_find?_eq_some h, by simpa using List.find?_some h⟩

theorem eq_of_id (hn : (tasks.map (·.id)).Nodup) (ht : t ∈ tasks) (hu : u ∈ tasks) (he : t.id = u.id) :
    t = u := List.inj_on_of_nodup_map hn ht hu he

theorem find_of_mem (hn : (tasks.map (·.id)).Nodup) (ht : t ∈ tasks) : find tasks t.id = some t := by
  have hsome : (find tasks t.id).isSome = true := by
    unfold find
    rw [List.find?_isSome]
    exact ⟨t, ht, by simp⟩
  obtain ⟨u, hu⟩ := Option.isSome_iff_exists.1 hsome
  obtain ⟨hmem, hid⟩ := find_some hu
  rw [hu, eq_of_id hn hmem ht hid]

theorem dependenciesOf_of_mem (hn : (tasks.map (·.id)).Nodup) (ht : t ∈ tasks) :
    dependenciesOf tasks t.id = t.dependencies := by
  have hrev : ((tasks.reverse).map (·.id)).Nodup := by
    rw [List.map_reverse, List.nodup_reverse]
    exact hn
  rw [dependenciesOf, find_of_mem hrev (List.mem_reverse.2 ht)]
  rfl

theorem dep_iff (hn : (tasks.map (·.id)).Nodup) {x y : ℕ} :
    Dfs.Dep (dependenciesOf tasks) y x ↔ DependsOn tasks y x := by
  constructor
  · intro h
    unfold Dfs.Dep dependenciesOf at h
    cases hf : find tasks.reverse x with
    | none => simp [hf] at h
    | some t =>
      rw [hf] at h
      obtain ⟨hmem, hid⟩ := find_some hf
      exact ⟨t, List.mem_reverse.1 hmem, hid, h⟩
  · rintro ⟨t, ht, rfl, hy⟩
    rw [Dfs.Dep, dependenciesOf_of_mem hn ht]
    exact hy

theorem dep_eq (hn : (tasks.map (·.id)).Nodup) : Dfs.Dep (dependenciesOf tasks) = DependsOn tasks := by
  ext y x
  exact dep_iff hn

theorem mentioned_dependency (hn : (tasks.map (·.id)).Nodup) : ∀ x ∈ (mentioned tasks).toFinset,
    ∀ d ∈ dependenciesOf tasks x, d ∈ (mentioned tasks).toFinset := by
  intro x _ d hd
  obtain ⟨t, ht, -, hdep⟩ := (dep_iff hn).1 hd
  rw [List.mem_toFinset, mentioned, List.mem_append]
  exact Or.inr (List.mem_flatMap.2 ⟨t, ht, hdep⟩)

theorem mentioned_id : ∀ r ∈ tasks.map (·.id), r ∈ (mentioned tasks).toFinset := by
  intro r hr
  rw [List.mem_toFinset, mentioned, List.mem_append]
  exact Or.inl hr

theorem weight_mentioned : ∑ x ∈ (mentioned tasks).toFinset, Dfs.weight (dependenciesOf tasks) x =
    ((mentioned tasks).dedup.map fun id => (dependenciesOf tasks id).length + 2).sum := by
  have hdedup : (mentioned tasks).toFinset = (mentioned tasks).dedup.toFinset := by
    ext x
    simp
  rw [hdedup, List.sum_toFinset _ (List.nodup_dedup _)]
  rfl

/-- **The cycle check is exact.** -/
theorem hasDeploymentTaskDependencyCycle_eq_false (hn : (tasks.map (·.id)).Nodup) :
    hasDeploymentTaskDependencyCycle tasks = false ↔ ∀ t ∈ tasks, Acc (DependsOn tasks) t.id := by
  unfold hasDeploymentTaskDependencyCycle
  rw [Dfs.hasCycle_eq_false_iff (mentioned_dependency hn) weight_mentioned.le mentioned_id, dep_eq hn,
    List.forall_mem_map]

/-- Without a cycle every chain of dependencies ends: it stays among the ids that are mentioned. -/
theorem wellFounded_dependsOn (h : ∀ x, ¬ Relation.TransGen (DependsOn tasks) x x) : WellFounded (DependsOn tasks) := by
  have horder : IsStrictOrder ℕ (Relation.TransGen (DependsOn tasks)) :=
    { irrefl := h, trans := fun _ _ _ => Relation.TransGen.trans }
  have hwf := (mentioned tasks).toFinset.finite_toSet.wellFoundedOn (r := Relation.TransGen (DependsOn tasks))
  refine Subrelation.wf (fun {y x} hd => ?_) (Set.wellFoundedOn_iff.1 hwf)
  obtain ⟨t, ht, rfl, hy⟩ := hd
  have hid : t.id ∈ mentioned tasks := List.mem_append_left _ (List.mem_map_of_mem ht)
  have hdep : y ∈ mentioned tasks := List.mem_append_right _ (List.mem_flatMap.2 ⟨t, ht, hy⟩)
  exact ⟨.single ⟨t, ht, rfl, hy⟩, by simpa using hdep, by simpa using hid⟩

theorem acyclic_iff : (∀ t ∈ tasks, Acc (DependsOn tasks) t.id) ↔
    ∀ x, ¬ Relation.TransGen (DependsOn tasks) x x := by
  constructor
  · intro h x hx
    obtain ⟨y, -, t, ht, rfl, -⟩ := Relation.TransGen.tail'_iff.1 hx
    exact Dfs.not_loop (h t ht).transGen hx
  · intro h t _
    exact (wellFounded_dependsOn h).apply t.id

/-- **The search for a cycle ends**, with an answer that more looks do not change, and it says that
    there is a cycle exactly when an id depends on itself through some dependencies. -/
theorem cycle_search_exact (hn : (tasks.map (·.id)).Nodup) :
    (∃ looks, ∀ fuel, looks ≤ fuel →
      Dfs.search (dependenciesOf tasks) fuel (tasks.map (·.id)) (fun _ => none) ≠ .unfinished ∧
        Dfs.hasCycle (dependenciesOf tasks) fuel (tasks.map (·.id)) = hasDeploymentTaskDependencyCycle tasks) ∧
      (hasDeploymentTaskDependencyCycle tasks = true ↔ ∃ x, Relation.TransGen (DependsOn tasks) x x) := by
  have hexact := hasDeploymentTaskDependencyCycle_eq_false hn
  refine ⟨⟨∑ x ∈ (mentioned tasks).toFinset, Dfs.weight (dependenciesOf tasks) x,
    fun fuel hf => ⟨fun hu => ?_, ?_⟩⟩, ?_⟩
  · have hclean : Dfs.Clean (dependenciesOf tasks) fun _ => none := ⟨nofun, nofun⟩
    have h := Dfs.search_tells (mentioned_dependency hn) hf mentioned_id hclean
    rw [hu] at h
    exact h
  · have h := Dfs.hasCycle_eq_false_iff (mentioned_dependency hn) hf mentioned_id
    rw [dep_eq hn, List.forall_mem_map, ← hexact] at h
    exact Bool.eq_iff_iff.2 (by simpa only [← Bool.not_eq_false] using not_congr h)
  · rw [← Bool.not_eq_false, hexact, acyclic_iff, not_forall_not]

theorem cycle_search_exact_sample :
    (hasDeploymentTaskDependencyCycle [⟨1, "a", .pending, 1, [2, 7]⟩, ⟨2, "b", .pending, 2, [1, 1]⟩] = true ↔
      ∃ x, Relation.TransGen
        (DependsOn [⟨1, "a", .pending, 1, [2, 7]⟩, ⟨2, "b", .pending, 2, [1, 1]⟩]) x x) :=
  (cycle_search_exact (by decide)).2

/-- Change a task with the id. -/
def put (id : ℕ) (g : DeploymentTask → DeploymentTask) (t : DeploymentTask) : DeploymentTask :=
  if t.id = id then g t else t

theorem put_of_eq (h : t.id = id) : put id g t = g t := if_pos h

theorem put_of_ne (h : t.id ≠ id) : put id g t = t := if_neg h

/-- With distinct ids, `assign` changes the task with the id. -/
theorem assign_eq_map (hn : (tasks.map (·.id)).Nodup) : assign tasks id g = tasks.map (put id g) := by
  unfold assign
  induction tasks with
  | nil => rfl
  | cons t tasks ih =>
    rw [List.map_cons, List.nodup_cons] at hn
    rw [List.findIdx_cons, List.map_cons]
    by_cases he : t.id = id
    · have hrest : tasks.map (put id g) = tasks := by
        refine (List.map_congr_left fun u hu => ?_).trans (List.map_id tasks)
        exact put_of_ne fun h => hn.1 (List.mem_map.2 ⟨u, hu, h.trans he.symm⟩)
      rw [hrest, put_of_eq he, beq_iff_eq.2 he]
      rfl
    · rw [put_of_ne he, ← ih hn.2, beq_eq_false_iff_ne.2 he]
      rfl

/-! ## Dependencies -/

theorem mem_uniqueIds {ids : List ℕ} : d ∈ uniqueIds ids ↔ d ∈ ids := by
  induction ids with
  | nil => simp [uniqueIds]
  | cons x ids ih =>
    by_cases he : d = x
    · simp [uniqueIds, he]
    · simp [uniqueIds, ih, he]

theorem nodup_uniqueIds (ids : List ℕ) : (uniqueIds ids).Nodup := by
  induction ids with
  | nil => simp [uniqueIds]
  | cons x ids ih =>
    rw [uniqueIds, List.nodup_cons]
    exact ⟨by simp, ih.filter _⟩

theorem unknownDependency_eq_none {ids : List ℕ} :
    unknownDependency ids tasks = none ↔ ∀ d ∈ ids, d ∈ tasks.map (·.id) := by
  unfold unknownDependency
  rw [List.find?_eq_none]
  refine forall₂_congr fun d _ => ?_
  rw [Bool.not_eq_true', Bool.not_eq_false, List.any_eq_true, List.mem_map]
  simp only [beq_iff_eq]

/-- The dependencies that are accepted: other tasks. -/
theorem checkDependencies_eq_ok {ids ids' : List ℕ} : checkDependencies id ids tasks = .ok ids' ↔
    ids' = uniqueIds ids ∧ ∀ d ∈ ids, d ≠ id ∧ d ∈ tasks.map (·.id) := by
  simp only [checkDependencies, bind_eq_ok, throwIf_eq_ok, mem_uniqueIds]
  constructor
  · rintro ⟨_, hself, h⟩
    cases hu : unknownDependency (uniqueIds ids) tasks with
    | some x =>
      rw [hu] at h
      cases h
    | none =>
      rw [hu] at h
      cases h
      exact ⟨rfl, fun d hd => ⟨fun he => hself (he ▸ hd),
        unknownDependency_eq_none.1 hu d (mem_uniqueIds.2 hd)⟩⟩
  · rintro ⟨rfl, h⟩
    have hu : unknownDependency (uniqueIds ids) tasks = none :=
      unknownDependency_eq_none.2 fun d hd => (h d (mem_uniqueIds.1 hd)).2
    rw [hu]
    exact ⟨⟨⟩, fun hid => (h id hid).1 rfl, rfl⟩

/-- A task with no incomplete dependency depends on completed tasks. -/
theorem checkUnblocked_ok (h : checkUnblocked t tasks = .ok ()) (hd : d ∈ t.dependencies) :
    ∃ u ∈ tasks, u.id = d ∧ u.status = .completed := by
  unfold checkUnblocked at h
  cases hb : incompleteDependency t tasks with
  | some x =>
    rw [hb] at h
    cases h
  | none =>
    have hall := List.find?_eq_none.1 hb d hd
    simp only [bne_iff_ne, ne_eq, not_not, Option.map_eq_some_iff] at hall
    obtain ⟨u, hu, hs⟩ := hall
    exact ⟨u, (find_some hu).1, (find_some hu).2, hs⟩

theorem checkOpen_ok {changed : String} (h : checkOpen t changed = .ok ()) :
    t.status ≠ .completed ∧ t.status ≠ .cancelled := by
  have hn : ¬ isTerminal t.status = true := throwIf_eq_ok.1 h
  constructor <;> intro hs <;> exact hn (by rw [hs]; rfl)

/-! ## Changes of tasks in their places -/

/-- A change keeps ids. -/
def KeepsIds (g : DeploymentTask → DeploymentTask) : Prop := ∀ t, (g t).id = t.id

theorem map_ids (hg : KeepsIds g) : (tasks.map g).map (·.id) = tasks.map (·.id) := by
  rw [List.map_map]
  exact List.map_congr_left fun t _ => hg t

theorem dependsOn_map (hg : KeepsIds g) (hd : ∀ t, (g t).dependencies = t.dependencies) :
    DependsOn (tasks.map g) = DependsOn tasks := by
  ext y x
  constructor
  · rintro ⟨t, ht, rfl, hy⟩
    obtain ⟨u, hu, rfl⟩ := List.mem_map.1 ht
    exact ⟨u, hu, (hg u).symm, hd u ▸ hy⟩
  · rintro ⟨t, ht, rfl, hy⟩
    exact ⟨g t, List.mem_map_of_mem ht, hg t, (hd t).symm ▸ hy⟩

/-- A change that keeps dependencies. -/
theorem Consistent.map (hc : Consistent tasks n) (hg : KeepsIds g)
    (hd : ∀ t, (g t).dependencies = t.dependencies) (htext : ∀ t ∈ tasks, trim (g t).text ≠ "")
    (hone : (tasks.map g).countP (·.status == .inProgress) ≤ 1) (hdone : Done (tasks.map g) .completed) :
    Consistent (tasks.map g) n := by
  refine ⟨by rw [map_ids hg]; exact hc.nodup, ?_, ?_, hone, ?_, ?_, hdone⟩
  · rw [List.forall_mem_map]
    exact fun t ht => by rw [hg]; exact hc.ids t ht
  · rw [List.forall_mem_map]
    exact htext
  · rw [List.forall_mem_map, map_ids hg]
    exact fun t ht => by rw [hg, hd]; exact hc.deps t ht
  · rw [List.forall_mem_map, dependsOn_map hg hd]
    exact fun t ht => by rw [hg]; exact hc.acyclic t ht

/-- Completed dependencies stay completed under a change that keeps dependencies
    and completed tasks. -/
theorem Done.map (hd : ∀ t ∈ tasks, (g t).status = status → ∀ d ∈ (g t).dependencies,
      ∃ u ∈ tasks, u.id = d ∧ u.status = .completed)
    (hg : KeepsIds g) (hkeep : ∀ t ∈ tasks, t.status = .completed → (g t).status = .completed) :
    Done (tasks.map g) status := by
  intro t ht hs d hdep
  obtain ⟨u, hu, rfl⟩ := List.mem_map.1 ht
  obtain ⟨v, hv, hid, hvs⟩ := hd u hu hs d hdep
  exact ⟨g v, List.mem_map_of_mem hv, (hg v).trans hid, hkeep v hv hvs⟩

theorem keepsIds_put (hg : KeepsIds g) : KeepsIds (put id g) := by
  intro t
  by_cases he : t.id = id
  · rw [put_of_eq he, hg]
  · rw [put_of_ne he]

/-- Only the task itself is changed. -/
theorem put_cases (hn : (tasks.map (·.id)).Nodup) (ht : t ∈ tasks) (hu : u ∈ tasks) :
    u = t ∧ put t.id g u = g t ∨ u ≠ t ∧ put t.id g u = u := by
  by_cases he : u.id = t.id
  · obtain rfl := eq_of_id hn hu ht he
    exact Or.inl ⟨rfl, put_of_eq rfl⟩
  · exact Or.inr ⟨fun h => he (h ▸ rfl), put_of_ne he⟩

/-- A task that was not completed is changed. -/
theorem Done.put (hold : Done tasks status) (hn : (tasks.map (·.id)).Nodup) (ht : t ∈ tasks)
    (hs : t.status ≠ .completed) (hg : KeepsIds g) (hnew : (g t).status = status →
      ∀ d ∈ (g t).dependencies, ∃ u ∈ tasks, u.id = d ∧ u.status = .completed) :
    Done (tasks.map (put t.id g)) status := by
  refine Done.map (fun u hu hus => ?_) (keepsIds_put hg) fun u hu hus => ?_
  · rcases put_cases (g := g) hn ht hu with ⟨-, he⟩ | ⟨-, he⟩
    · rw [he] at hus ⊢
      exact hnew hus
    · rw [he] at hus ⊢
      exact hold u hu hus
  · rcases put_cases (g := g) hn ht hu with ⟨rfl, -⟩ | ⟨-, he⟩
    · exact absurd hus hs
    · rw [he, hus]

/-- A change of one task adds at most one task in progress. -/
theorem countP_put_le (hn : (tasks.map (·.id)).Nodup) (hg : KeepsIds g) {p : DeploymentTask → Bool} :
    (tasks.map (put id g)).countP p ≤ tasks.countP p + 1 := by
  induction tasks with
  | nil => simp
  | cons t tasks ih =>
    rw [List.map_cons, List.nodup_cons] at hn
    rw [List.map_cons, List.countP_cons, List.countP_cons]
    by_cases he : t.id = id
    · have hrest : tasks.map (put id g) = tasks := by
        refine (List.map_congr_left fun u hu => ?_).trans (List.map_id tasks)
        exact put_of_ne fun h => hn.1 (List.mem_map.2 ⟨u, hu, h.trans he.symm⟩)
      rw [hrest]
      split_ifs <;> omega
    · have hle := ih hn.2
      rw [put_of_ne he]
      omega

/-- A change of a task that is not completed and keeps its dependencies. -/
theorem Consistent.put (hc : Consistent tasks n) (ht : t ∈ tasks) (hs : t.status ≠ .completed)
    (hg : KeepsIds g) (hd : ∀ u, (g u).dependencies = u.dependencies) (htext : trim (g t).text ≠ "")
    (hone : (tasks.map (put t.id g)).countP (·.status == .inProgress) ≤ 1)
    (hnew : (g t).status = .completed →
      ∀ d ∈ t.dependencies, ∃ u ∈ tasks, u.id = d ∧ u.status = .completed) :
    Consistent (assign tasks t.id g) n := by
  rw [assign_eq_map hc.nodup]
  refine hc.map (keepsIds_put hg) (fun u => ?_) (fun u hu => ?_) hone
    (hc.completed.put hc.nodup ht hs hg fun h => by rw [hd]; exact hnew h)
  · by_cases he : u.id = t.id
    · rw [put_of_eq he, hd]
    · rw [put_of_ne he]
  · rcases put_cases (g := g) hc.nodup ht hu with ⟨-, he⟩ | ⟨-, he⟩
    · rw [he]
      exact htext
    · rw [he]
      exact hc.text u hu

/-- Terminal tasks are kept. -/
def Kept (tasks tasks' : List DeploymentTask) : Prop :=
  ∀ t ∈ tasks, isTerminal t.status = true → ∃ t' ∈ tasks', core t' = core t

theorem kept_map (hg : ∀ t ∈ tasks, isTerminal t.status = true → g t = t) : Kept tasks (tasks.map g) :=
  fun t ht hs => ⟨t, List.mem_map.2 ⟨t, ht, hg t ht hs⟩, rfl⟩

theorem kept_assign (hn : (tasks.map (·.id)).Nodup) (ht : t ∈ tasks) (hs : isTerminal t.status = false) :
    Kept tasks (assign tasks t.id g) := by
  rw [assign_eq_map hn]
  refine kept_map fun u hu hus => ?_
  rcases put_cases (g := g) hn ht hu with ⟨rfl, -⟩ | ⟨-, he⟩
  · rw [hs] at hus
    cases hus
  · exact he

theorem Kept.trans {tasks'' : List DeploymentTask} (h : Kept tasks tasks') (h' : Kept tasks' tasks'') :
    Kept tasks tasks'' := by
  intro t ht hs
  obtain ⟨u, hu, hcu⟩ := h t ht hs
  obtain ⟨v, hv, hcv⟩ := h' u hu (by rw [(core_eq hcu).2.2.1]; exact hs)
  exact ⟨v, hv, hcv.trans hcu⟩

theorem SameTasks.kept (h : SameTasks tasks tasks') : Kept tasks tasks' := by
  intro t ht _
  obtain ⟨u, hu, hc⟩ := h.symm.mem ht
  exact ⟨u, hu, hc⟩

end PaPlatform.Todo
