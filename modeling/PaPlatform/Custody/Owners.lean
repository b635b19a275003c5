/-
  Active and retired owners.

  `Retired` keeps the processes of all owners distinct and the retired ones out
  of every writing custody.  A restart over an operation in flight leaves a
  state that is `Orphaned`, in which no event is accepted.
-/
import PaPlatform.Custody.InFlight

namespace PaPlatform.Custody

open Js Guard Run

variable {s s' : ExecutionState} {actor : ExecutionHolder} {now : Timestamp}
  {c : ExecutionCommand} {e : ExecutionInput} {h : History} {b : ExecutionBinding} {t : Timestamp}

/-- The owners of a lineage so far, the active one first. -/
def owners (s : ExecutionState) : List ExecutionHolder := s.activeOwner :: s.retiredOwners

/-- What excludes the retired owners. -/
structure Retired (b : ExecutionBinding) (s : ExecutionState) : Prop where
  distinct : ((owners s).map (·.process)).Nodup
  bound : b.owner.process ∈ (owners s).map (·.process)
  child : ∀ holder o, s.custody = .held .implementChild holder o → holder ∉ s.retiredOwners

theorem Retired.active (hr : Retired b s) : s.activeOwner ∉ s.retiredOwners := by
  intro hin
  have hd := hr.distinct
  rw [owners, List.map_cons, List.nodup_cons] at hd
  exact hd.1 (List.mem_map.2 ⟨_, hin, rfl⟩)

/-! ## One step -/

/-- No command of a retired owner is accepted. -/
theorem Applied.actor_not_retired (ha : Applied s actor now c s') (hr : Retired b s) :
    actor ∉ s.retiredOwners := by
  have hfresh : (∀ holder ∈ s.activeOwner :: s.retiredOwners, holder.process ≠ actor.process) →
      actor ∉ s.retiredOwners := fun hf hin => hf actor (List.mem_cons_of_mem _ hin) rfl
  have howner : s.activeOwner = actor → actor ∉ s.retiredOwners := by
    rintro rfl
    exact hr.active
  have hwrites : ∀ {o}, Writes s actor o → actor ∉ s.retiredOwners := by
    intro o hw
    obtain ⟨executor, hcust, hne, hdirect⟩ := hw.holder
    cases executor with
    | orchestratorDirect => exact howner (hdirect rfl)
    | implementChild => exact hr.child _ _ hcust
    | reviewReserved => exact absurd rfl hne
  cases ha with
  | restartLaunch ht => exact hfresh ht.fresh
  | restartIntent ht => exact hfresh ht.fresh
  | restart ht => exact hfresh ht.fresh
  | begin hw => exact hwrites hw
  | finish hw => exact hwrites hw
  | settle _ ho => exact howner ho
  | plan hi => exact howner hi.owner
  | advance hi => exact howner hi.owner
  | selectDirect hi => exact howner hi.owner
  | selectChild hi => exact howner hi.owner
  | replaceChild hi => exact howner hi.owner
  | selectReview hi => exact howner hi.owner
  | attempt hi => exact howner hi.owner
  | resolve hi => exact howner hi.owner
  | candidate hi => exact howner hi.owner
  | accept hi => exact howner hi.owner

/-- Only a restart changes the owners: it retires the active one. -/
theorem Applied.owners (ha : Applied s actor now c s') :
    (s'.activeOwner = s.activeOwner ∧ s'.retiredOwners = s.retiredOwners) ∨
      (s'.activeOwner = actor ∧ s'.retiredOwners = s.retiredOwners ++ [s.activeOwner] ∧
        (∀ holder ∈ s.activeOwner :: s.retiredOwners, holder.process ≠ actor.process) ∧
        ∀ holder o, s'.custody ≠ .held .implementChild holder o) := by
  cases ha with
  | restart ht =>
    refine Or.inr ⟨rfl, rfl, ht.fresh, ?_⟩
    intro holder o hcust
    simp only [custodyAfterRestart] at hcust
    rcases ht.custody with hc | ⟨o', hc⟩ <;> rw [hc] at hcust
    · simp at hcust
    · split at hcust <;> simp_all
  | begin => exact Or.inl ⟨begun_activeOwner, begun_retiredOwners⟩
  | _ => exact Or.inl ⟨rfl, rfl⟩

/-- The custody of a child comes from a selection that excludes the retired. -/
theorem Applied.child_not_retired (ha : Applied s actor now c s') (hr : Retired b s) {holder o}
    (hcust : s'.custody = .held .implementChild holder o) : holder ∉ s.retiredOwners := by
  cases ha with
  | restart ht =>
    simp only [custodyAfterRestart] at hcust
    rcases ht.custody with hc | ⟨o', hc⟩ <;> rw [hc] at hcust
    · simp at hcust
    · split at hcust <;> simp_all
  | selectDirect => simp at hcust
  | selectReview => simp at hcust
  | settle => simp at hcust
  | selectChild _ _ _ _ _ hn =>
    simp only [ExecutionCustody.held.injEq] at hcust
    exact hcust.2.1 ▸ hn
  | replaceChild _ _ _ _ _ hn =>
    simp only [ExecutionCustody.held.injEq] at hcust
    exact hcust.2.1 ▸ hn
  | begin hw =>
    obtain ⟨executor, hc, -⟩ := hw.holder
    simp only [begun, hc, ExecutionCustody.withOperation_held, ExecutionCustody.held.injEq] at hcust
    obtain ⟨rfl, rfl, -⟩ := hcust
    exact hr.child _ _ hc
  | finish hw =>
    obtain ⟨executor, hc, -⟩ := hw.holder
    simp only [finished, hc, ExecutionCustody.withOperation_held, ExecutionCustody.held.injEq]
      at hcust
    obtain ⟨rfl, rfl, -⟩ := hcust
    exact hr.child _ _ hc
  | _ => exact hr.child _ _ hcust

theorem Retired.step (hr : Retired b s) (ha : Applied s actor now c s') : Retired b s' := by
  rcases ha.owners with ⟨h1, h2⟩ | ⟨h1, h2, h3, h4⟩
  · have hsame : Custody.owners s' = Custody.owners s := by simp [Custody.owners, h1, h2]
    exact ⟨hsame ▸ hr.distinct, hsame ▸ hr.bound, fun holder o hc =>
      h2 ▸ ha.child_not_retired hr hc⟩
  · have hperm : (Custody.owners s').Perm (actor :: Custody.owners s) := by
      simp only [Custody.owners, h1, h2]
      exact (List.perm_append_singleton _ _).cons _
    have hnew : actor.process ∉ (Custody.owners s).map (·.process) := by
      intro hin
      obtain ⟨k, hk, heq⟩ := List.mem_map.1 hin
      exact h3 k hk heq
    refine ⟨?_, ?_, fun holder o hc => absurd hc (h4 holder o)⟩
    · rw [(hperm.map _).nodup_iff, List.map_cons, List.nodup_cons]
      exact ⟨hnew, hr.distinct⟩
    · rw [(hperm.map _).mem_iff, List.map_cons]
      exact List.mem_cons_of_mem _ hr.bound

theorem retired_initial : Retired b (initialState b t) :=
  ⟨by simp [owners, initialState], by simp [owners, initialState], by simp [initialState]⟩

theorem retired (hr : Lineage b t h s) : Retired b s :=
  hr.invariant (P := fun _ s => Retired b s) retired_initial fun _ _ _ _ _ hr hs =>
    hr.step (step_applied hs)

/-! ## A restart over an operation in flight -/

/-- An operation is in flight whose holder is not the active owner. -/
structure Orphaned (s : ExecutionState) : Prop where
  operation : s.operation.isSome
  custody : ∃ holder o, s.custody = .held .orchestratorDirect holder o ∧ holder ≠ s.activeOwner

/-- No event is accepted in an orphaned state. -/
theorem Orphaned.rejects (ho : Orphaned s) (ha : Applied s actor now c s') : False := by
  obtain ⟨hop, holder, o, hcust, hne⟩ := ho
  have hidle : ¬ IdleOwner s actor := fun hi => by simp [hi.operation] at hop
  have htransfers : ∀ {previous evidence}, ¬ Transfers s actor previous evidence := by
    intro previous evidence ht
    rcases ht.custody with hc | ⟨o', hc⟩
    · rw [hcust] at hc; cases hc
    · rw [hcust] at hc; cases hc; exact hne rfl
  have hwrites : ∀ {o'}, ¬ Writes s actor o' := by
    intro o' hw
    obtain ⟨executor, hc, -, hdirect⟩ := hw.holder
    rw [hcust] at hc
    cases hc
    exact hne (hdirect rfl).symm
  cases ha with
  | restartLaunch ht => exact htransfers ht
  | restartIntent ht => exact htransfers ht
  | restart ht => exact htransfers ht
  | begin hw => exact hwrites hw
  | finish hw => exact hwrites hw
  | settle _ _ _ hn => simp [hn] at hop
  | plan hi => exact hidle hi
  | advance hi => exact hidle hi
  | selectDirect hi => exact hidle hi
  | selectChild hi => exact hidle hi
  | replaceChild hi => exact hidle hi
  | selectReview hi => exact hidle hi
  | attempt hi => exact hidle hi
  | resolve hi => exact hidle hi
  | candidate hi => exact hidle hi
  | accept hi => exact hidle hi

/-- A restart over an operation in flight keeps the operation and its custody
    and orphans them. -/
theorem Applied.orphans {previous evidence o} (hco : Coherent s)
    (ha : Applied s actor now (.restart .restart previous evidence) s')
    (ho : s.operation = some o) :
    s'.operation = some o ∧ s'.custody = s.custody ∧ s'.custody.holder = some s.activeOwner ∧
      Orphaned s' := by
  cases ha with
  | restart ht =>
    have hcust : custodyAfterRestart s actor = s.custody := custodyAfterRestart_of_some ho
    rcases ht.custody with hc | ⟨o', hc⟩
    · simp [Coherent, hc, ho] at hco
    · refine ⟨ho, hcust, by simp [hcust, hc], ⟨by simpa [ExecutionState.tick] using congrArg Option.isSome ho,
        s.activeOwner, o', by simp [hcust, hc], ?_⟩⟩
      intro heq
      exact ht.fresh s.activeOwner (by simp) (congrArg _ heq)

/-! ## The result -/

/-- **Retired owners are excluded for ever.**  The processes of all owners are
    distinct and include the one bound at launch; no step is a retired owner's,
    and no owner leaves the retired ones; and after a restart over an operation
    in flight the history ends, with the operation still in flight under its
    original holder and every further event rejected. -/
theorem retired_owners_excluded (hr : Lineage b t h s) :
    ((s.activeOwner :: s.retiredOwners).map (·.process)).Nodup ∧
    b.owner.process ∈ (s.activeOwner :: s.retiredOwners).map (·.process) ∧
    (∀ st ∈ h, st.event.actor ∉ st.before.retiredOwners ∧
      st.before.retiredOwners <+: st.after.retiredOwners) ∧
    ∀ pre st post previous evidence o, h = pre ++ st :: post →
      st.event.command = .restart .restart previous evidence → st.before.operation = some o →
      post = [] ∧ s = st.after ∧ s.operation = some o ∧ s.custody = st.before.custody ∧
        s.custody.holder = some st.before.activeOwner ∧ ∀ e, ¬ Ok (step s e) := by
  refine ⟨(retired hr).distinct, (retired hr).bound, ?_, ?_⟩
  · intro st hst
    obtain ⟨pre, post, rfl⟩ := List.append_of_mem hst
    obtain ⟨hpre, hs, -⟩ := hr.split
    have ha := step_applied hs
    refine ⟨ha.actor_not_retired (retired hpre), ?_⟩
    rcases ha.owners with ⟨-, h2⟩ | ⟨-, h2, -⟩
    · simp only [h2, List.prefix_rfl]
    · rw [h2]; exact List.prefix_append _ _
  · rintro pre st post previous evidence o rfl hc ho
    obtain ⟨hpre, hs, hst⟩ := hr.split
    have ha := step_applied hs
    rw [hc] at ha
    obtain ⟨h1, h2, h3, horphan⟩ := ha.orphans (coherent_of_lineage hpre) ho
    have hend : post = [] := by
      cases post with
      | nil => rfl
      | cons st' post =>
        rw [List.append_cons] at hr
        obtain ⟨hmid, hs', -⟩ := hr.split
        rw [hmid.unique hst] at hs'
        exact (horphan.rejects (step_applied hs')).elim
    subst hend
    obtain ⟨-, -, rfl⟩ := hr.last
    exact ⟨rfl, rfl, h1, h2, h3, fun e ⟨s', hs'⟩ => horphan.rejects (step_applied hs')⟩

/-- `opened`, then the successor takes over with the check in flight. -/
def Sample.restarted : List ExecutionInput :=
  Sample.opened ++ [⟨Sample.successor, .restart .restart Sample.launcher Sample.source, Sample.start⟩]

theorem retired_owners_excluded_restarted :
    ∃ h s, Lineage Sample.binding Sample.start h s ∧ h.map (·.event) = Sample.restarted ∧
      ((s.activeOwner :: s.retiredOwners).map (·.process)).Nodup ∧
      Sample.launcher.process ∈ (s.activeOwner :: s.retiredOwners).map (·.process) := by
  obtain ⟨h, s, hr, hm⟩ := lineage_of_isOk Sample.binding Sample.start Sample.restarted (by decide)
  obtain ⟨h1, h2, -⟩ := retired_owners_excluded hr
  exact ⟨h, s, hr, hm, h1, h2⟩

end PaPlatform.Custody
