/-
  The bounds of a lineage.

  `Counted` says which events each counter has counted.  It is kept by every
  command together with the check of `parseExecutionBounds`, so no run resets
  or exceeds a bound.
-/
import PaPlatform.Custody.Replay
import PaPlatform.Custody.Parse

namespace PaPlatform.Custody

open Js Guard Run

variable {s s' : ExecutionState} {actor : ExecutionHolder} {now : Timestamp}
  {c : ExecutionCommand} {e : ExecutionInput} {h : History} {b : ExecutionBinding} {t : Timestamp}
  {st : Step ExecutionState ExecutionInput}

/-! ## The counted events -/

/-- The command selects an implementing child. -/
def ExecutionCommand.selectsChild : ExecutionCommand → Bool
  | .select .implementChild _ _ => true
  | _ => false

/-- The command selects a reviewer. -/
def ExecutionCommand.selectsReview : ExecutionCommand → Bool
  | .select .reviewReserved _ _ => true
  | _ => false

/-- The number of steps of `h` whose command satisfies `p`. -/
def count (p : ExecutionCommand → Bool) (h : History) : ℕ := h.countP fun st => p st.event.command

theorem count_snoc {p : ExecutionCommand → Bool} :
    count p (h ++ [st]) = count p h + if p st.event.command then 1 else 0 := by
  simp [count, List.countP_cons]

/-! ## The children in `usedOperationIds` -/

theorem priorChildren_append {ids : List String} {id : String} :
    priorChildren (ids ++ [id]) = priorChildren ids + if startsWith id childPrefix then 1 else 0 := by
  unfold priorChildren
  rw [List.filter_append, List.length_append]
  cases hs : startsWith id childPrefix <;> simp [hs]

/-- The marker of a phase is not the marker of a child. -/
theorem phaseMarker_not_child (plan : PhaseExecutionPlan) :
    startsWith (phaseMarker plan) childPrefix = false := by
  simp [startsWith, phaseMarker, childPrefix, List.isPrefixOf]

theorem priorChildren_phase {ids : List String} (plan : PhaseExecutionPlan) :
    priorChildren (ids ++ [phaseMarker plan]) = priorChildren ids := by
  simp [priorChildren_append, phaseMarker_not_child]

theorem priorChildren_child {ids : List String} (n : ℕ) :
    priorChildren (ids ++ [childPrefix ++ toString n]) = priorChildren ids + 1 := by
  simp [priorChildren_append, startsWith_append]

theorem priorChildren_operation {ids : List String} {id : String}
    (hid : startsWith id childPrefix = false) : priorChildren (ids ++ [id]) = priorChildren ids := by
  simp [priorChildren_append, hid]

/-! ## The invariant -/

/-- The bounds of `s` after the history `h` of the lineage of `b`. -/
structure Counted (b : ExecutionBinding) (h : History) (s : ExecutionState) : Prop where
  startedAt : s.bounds.startedAt = b.bounds.startedAt
  deadlineAt : s.bounds.deadlineAt = b.bounds.deadlineAt
  runtimeMinutes : s.bounds.runtimeMinutes = b.bounds.runtimeMinutes
  reviewCap : s.bounds.reviewCap = b.bounds.reviewCap
  children : priorChildren s.usedOperationIds = count ExecutionCommand.selectsChild h
  replacements : s.bounds.replacementsUsed = b.bounds.replacementsUsed +
    count ExecutionCommand.isRestart h + (count ExecutionCommand.selectsChild h - 1)
  reviews : s.bounds.reviewsUsed = b.bounds.reviewsUsed + count ExecutionCommand.selectsReview h
  failure : s.originalFailure.isSome → s.bounds.unresolvedFailureRef.isSome
  replacements_le : s.bounds.replacementsUsed ≤ 3
  reviews_le : s.bounds.reviewsUsed ≤ s.bounds.reviewCap
  noProgress_le : s.bounds.consecutiveNoProgress ≤ 3
  noProgress_ref : 0 < s.bounds.consecutiveNoProgress → s.bounds.unresolvedFailureRef.isSome

theorem counted_initial (hb : b.Accepted) : Counted b [] (initialState b t) where
  startedAt := rfl
  deadlineAt := rfl
  runtimeMinutes := rfl
  reviewCap := rfl
  children := rfl
  replacements := by simp [initialState, count]
  reviews := by simp [initialState, count]
  failure := by simp [initialState]
  replacements_le := hb.bounds.replacements_le
  reviews_le := hb.bounds.reviews_le
  noProgress_le := hb.bounds.noProgress_le
  noProgress_ref := hb.bounds.failure_ref

theorem Counted.accepted (hc : Counted b h s) (hb : b.Accepted) : s.bounds.Accepted where
  runtime_pos := hc.runtimeMinutes ▸ hb.bounds.runtime_pos
  runtime_le := hc.runtimeMinutes ▸ hb.bounds.runtime_le
  noProgress_le := hc.noProgress_le
  deadline := by rw [hc.deadlineAt, hc.startedAt, hc.runtimeMinutes]; exact hb.bounds.deadline
  failure_ref := hc.noProgress_ref
  cap_pos := hc.reviewCap ▸ hb.bounds.cap_pos
  cap_le := hc.reviewCap ▸ hb.bounds.cap_le
  replacements_le := hc.replacements_le
  reviews_le := hc.reviews_le

/-- The step counts nothing: of the bounds it changes at most the progress and
    the failure reference. -/
structure Uncounted (s s' : ExecutionState) (c : ExecutionCommand) : Prop where
  bounds : ∃ n ref, s'.bounds =
    { s.bounds with consecutiveNoProgress := n, unresolvedFailureRef := ref }
  children : priorChildren s'.usedOperationIds = priorChildren s.usedOperationIds
  quiet : c.isRestart = false ∧ c.selectsChild = false ∧ c.selectsReview = false

theorem Counted.uncounted (hc : Counted b h s) (hs : Uncounted s s' c)
    (hf : s'.originalFailure.isSome → s'.bounds.unresolvedFailureRef.isSome)
    (hle : s'.bounds.consecutiveNoProgress ≤ 3)
    (href : 0 < s'.bounds.consecutiveNoProgress → s'.bounds.unresolvedFailureRef.isSome) :
    Counted b (h ++ [⟨s, ⟨actor, c, now⟩, s'⟩]) s' := by
  obtain ⟨q1, q2, q3⟩ := hs.quiet
  obtain ⟨n, ref, hb⟩ := hs.bounds
  obtain ⟨h1, h2, h3, h4, h5, h6, h7, -, h9, h10, -, -⟩ := hc
  refine ⟨?_, ?_, ?_, ?_, ?_, ?_, ?_, hf, ?_, ?_, hle, href⟩ <;>
    simpa [count_snoc, hb, hs.children, q1, q2, q3]

/-- A step that leaves the bounds and the failure alone. -/
theorem Counted.same (hc : Counted b h s) (hb : s'.bounds = s.bounds)
    (hids : priorChildren s'.usedOperationIds = priorChildren s.usedOperationIds)
    (hf : s'.originalFailure = s.originalFailure)
    (hq : c.isRestart = false ∧ c.selectsChild = false ∧ c.selectsReview = false) :
    Counted b (h ++ [⟨s, ⟨actor, c, now⟩, s'⟩]) s' :=
  hc.uncounted ⟨⟨_, _, hb⟩, hids, hq⟩ (by rw [hf, hb]; exact hc.failure)
    (by rw [hb]; exact hc.noProgress_le) (by rw [hb]; exact hc.noProgress_ref)

/-- A failing finish names its failure in the bounds; nothing else of them
    changes. -/
theorem finished_bounds {o : ExecutionOperation} {ev : SourceVersion}
    {failure : Option ExecutionFailure} {candidate : Option GitSha} :
    (finished s o ev failure candidate now).bounds = s.bounds ∨
      ∃ ref, (finished s o ev failure candidate now).bounds =
        { s.bounds with unresolvedFailureRef := some ref } := by
  unfold finished
  cases failure <;> cases s.originalFailure <;> simp

theorem finished_failure_ref {o : ExecutionOperation} {ev : SourceVersion}
    {failure : Option ExecutionFailure} {candidate : Option GitSha}
    (hf : s.originalFailure.isSome → s.bounds.unresolvedFailureRef.isSome)
    (hs : (finished s o ev failure candidate now).originalFailure.isSome) :
    (finished s o ev failure candidate now).bounds.unresolvedFailureRef.isSome := by
  unfold finished at hs ⊢
  cases hfail : failure <;> cases ho : s.originalFailure <;> simp_all

/-- **Every command keeps the count.** -/
theorem Counted.step (hc : Counted b h s) (ha : Applied s actor now c s') :
    Counted b (h ++ [⟨s, ⟨actor, c, now⟩, s'⟩]) s' := by
  have hcopy := hc
  obtain ⟨h1, h2, h3, h4, h5, h6, h7, h8, h9, h10, h11, h12⟩ := hcopy
  cases ha with
  | restartLaunch => exact hc.same rfl rfl rfl ⟨rfl, rfl, rfl⟩
  | restartIntent => exact hc.same rfl rfl rfl ⟨rfl, rfl, rfl⟩
  | plan => exact hc.same rfl rfl rfl ⟨rfl, rfl, rfl⟩
  | advance => exact hc.same rfl (priorChildren_phase _) rfl ⟨rfl, rfl, rfl⟩
  | selectDirect => exact hc.same rfl rfl rfl ⟨rfl, rfl, rfl⟩
  | begin _ _ _ _ _ _ hid =>
    exact hc.same begun_bounds (priorChildren_operation hid) begun_originalFailure ⟨rfl, rfl, rfl⟩
  | settle => exact hc.same rfl rfl rfl ⟨rfl, rfl, rfl⟩
  | candidate => exact hc.same rfl rfl rfl ⟨rfl, rfl, rfl⟩
  | accept => exact hc.same rfl rfl rfl ⟨rfl, rfl, rfl⟩
  | restart ht =>
    have hlt := ht.replacements
    simp only [replacementLimit] at hlt
    constructor <;> simp only [count_snoc, ExecutionCommand.isRestart, ExecutionCommand.selectsChild,
      ExecutionCommand.selectsReview, ExecutionState.tick, Bool.false_eq_true, if_false, if_true] <;>
      first | assumption | omega
  | selectChild _ _ _ _ _ _ hzero =>
    rw [h5] at hzero
    constructor <;> simp only [count_snoc, ExecutionCommand.isRestart, ExecutionCommand.selectsChild,
      ExecutionCommand.selectsReview, ExecutionState.tick, priorChildren_child, Bool.false_eq_true,
      if_false, if_true] <;>
      first | assumption | omega
  | replaceChild _ _ _ _ _ _ hpos hlt =>
    rw [h5] at hpos
    simp only [replacementLimit] at hlt
    constructor <;> simp only [count_snoc, ExecutionCommand.isRestart, ExecutionCommand.selectsChild,
      ExecutionCommand.selectsReview, ExecutionState.tick, priorChildren_child, Bool.false_eq_true,
      if_false, if_true] <;>
      first | assumption | omega
  | selectReview _ _ _ _ _ _ hlt =>
    constructor <;> simp only [count_snoc, ExecutionCommand.isRestart, ExecutionCommand.selectsChild,
      ExecutionCommand.selectsReview, ExecutionState.tick, Bool.false_eq_true, if_false, if_true] <;>
      first | assumption | omega
  | finish =>
    rcases finished_bounds with hb | ⟨ref, hb⟩
    · exact hc.uncounted ⟨⟨_, _, hb⟩, rfl, rfl, rfl, rfl⟩ (finished_failure_ref h8) (by rwa [hb])
        (by rwa [hb])
    · exact hc.uncounted ⟨⟨_, _, hb⟩, rfl, rfl, rfl, rfl⟩ (finished_failure_ref h8)
        (by rw [hb]; exact h11) (by rw [hb]; simp)
  | attempt _ hr hf =>
    have hlt := hr.progress
    have href := h8 (by simp [hf])
    refine hc.uncounted ⟨⟨_, _, rfl⟩, rfl, rfl, rfl, rfl⟩ (fun _ => href) ?_ fun _ => href
    simp only
    split_ifs <;> omega
  | resolve =>
    exact hc.uncounted ⟨⟨_, _, rfl⟩, rfl, rfl, rfl, rfl⟩ (by simp) (by simp) (by simp)

theorem counted (hb : b.Accepted) (hr : Lineage b t h s) : Counted b h s :=
  hr.invariant (P := fun h s => Counted b h s) (counted_initial hb) fun _ _ _ _ _ hc hs =>
    hc.step (step_applied hs)

/-! ## One step -/

/-- No counter goes back. -/
theorem Applied.counters_le (ha : Applied s actor now c s') :
    s.bounds.replacementsUsed ≤ s'.bounds.replacementsUsed ∧
      s.bounds.reviewsUsed ≤ s'.bounds.reviewsUsed := by
  cases ha with
  | restart => exact ⟨Nat.le_succ _, le_rfl⟩
  | replaceChild => exact ⟨Nat.le_succ _, le_rfl⟩
  | selectReview => exact ⟨le_rfl, Nat.le_succ _⟩
  | begin => simp
  | finish =>
    rcases finished_bounds with hb | ⟨ref, hb⟩ <;> rw [hb]
    · exact ⟨le_rfl, le_rfl⟩
    · exact ⟨le_rfl, le_rfl⟩
  | _ => exact ⟨le_rfl, le_rfl⟩

/-- The commands that need a runnable state. -/
def ExecutionCommand.needsRuntime : ExecutionCommand → Bool
  | .finish .. => false
  | .settle .. => false
  | .resolve .. => false
  | .restart .restart .. => false
  | _ => true

theorem Applied.runnable (ha : Applied s actor now c s') (hc : c.needsRuntime = true) :
    Runnable s now := by
  cases ha with
  | restartLaunch _ _ hr => exact hr
  | restartIntent _ _ hr => exact hr
  | begin _ hr => exact hr
  | plan _ hr => exact hr
  | advance _ hr => exact hr
  | selectDirect _ hr => exact hr
  | selectChild _ hr => exact hr
  | replaceChild _ hr => exact hr
  | selectReview _ hr => exact hr
  | attempt _ hr => exact hr
  | candidate _ hr => exact hr
  | accept _ hr => exact hr
  | restart => cases hc
  | finish => cases hc
  | settle => cases hc
  | resolve => cases hc

/-! ## The result -/

/-- **Bounds are never reset or exceeded.**  In every state of a lineage whose
    binding `parseExecutionBinding` accepts, `parseExecutionBounds` accepts the
    bounds, the fixed ones are the binding's, the counters have counted exactly
    their events and never go back, and no command that needs runtime is
    accepted at or after the deadline or without progress left. -/
theorem bounds_never_reset {value : Json} (hb : parseExecutionBinding value = some b)
    (hr : Lineage b t h s) :
    parseExecutionBounds s.bounds.toJson = some s.bounds ∧
    (s.bounds.startedAt = b.bounds.startedAt ∧ s.bounds.deadlineAt = b.bounds.deadlineAt ∧
      s.bounds.runtimeMinutes = b.bounds.runtimeMinutes ∧
      s.bounds.reviewCap = b.bounds.reviewCap) ∧
    (∀ st ∈ h, st.before.bounds.replacementsUsed ≤ st.after.bounds.replacementsUsed ∧
      st.before.bounds.reviewsUsed ≤ st.after.bounds.reviewsUsed) ∧
    s.bounds.replacementsUsed = b.bounds.replacementsUsed +
      (count ExecutionCommand.isRestart h + (count ExecutionCommand.selectsChild h - 1)) ∧
    s.bounds.reviewsUsed = b.bounds.reviewsUsed + count ExecutionCommand.selectsReview h ∧
    s.bounds.consecutiveNoProgress ≤ 3 ∧
    (0 < s.bounds.consecutiveNoProgress → s.bounds.unresolvedFailureRef.isSome) ∧
    ∀ st ∈ h, st.event.command.needsRuntime = true →
      st.event.recordedAt.ms < st.before.bounds.deadlineAt.ms ∧
      st.before.bounds.deadlineAt = b.bounds.deadlineAt ∧
      st.before.bounds.consecutiveNoProgress ≠ 3 := by
  have hacc := parseExecutionBinding_accepted hb
  have hc := counted hacc hr
  refine ⟨parseExecutionBounds_toJson (hc.accepted hacc),
    ⟨hc.startedAt, hc.deadlineAt, hc.runtimeMinutes, hc.reviewCap⟩, ?_, ?_, hc.reviews,
    hc.noProgress_le, hc.noProgress_ref, ?_⟩
  · intro st hst
    obtain ⟨pre, post, rfl⟩ := List.append_of_mem hst
    exact (step_applied hr.split.2.1).counters_le
  · rw [hc.replacements]; omega
  · intro st hst hneeds
    obtain ⟨pre, post, rfl⟩ := List.append_of_mem hst
    obtain ⟨hpre, hs, -⟩ := hr.split
    have hrun := (step_applied hs).runnable hneeds
    exact ⟨hrun.deadline, (counted hacc hpre).deadlineAt, by have := hrun.progress; omega⟩

theorem bounds_never_reset_opened :
    ∃ h s, Lineage Sample.binding Sample.start h s ∧ h.map (·.event) = Sample.opened ∧
      parseExecutionBounds s.bounds.toJson = some s.bounds := by
  obtain ⟨h, s, hr, hm⟩ := lineage_of_isOk Sample.binding Sample.start Sample.opened (by decide)
  exact ⟨h, s, hr, hm,
    (bounds_never_reset (parseExecutionBinding_toJson Sample.binding_accepted) hr).1⟩

end PaPlatform.Custody
