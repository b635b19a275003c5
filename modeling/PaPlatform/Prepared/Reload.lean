/-
  The journal in memory and the journal of the directory.

  An `append` that returns leaves a directory from which `#load` reads the
  journal in memory, unless the directory holds too many names by then:
  `records()` refuses those, `publish` does not.
-/
import PaPlatform.Prepared.Safety

namespace PaPlatform.Prepared

open Js Guard Effect

variable {sha256 : Bytes → Sha256} {c : PreparationContract} {live : Live} {w : World}

/-- **An event that the replay rejects is not published.** -/
theorem append_rejected {kind : EventKind} {action : Option PreparationAction}
    {evidence : Option SourceVersion} {receipt : Option PreparedReceipt}
    {consumer : Option SourceVersion}
    (h : ∀ t r, applyPreparationEvent c live.replay
      (nextEvent sha256 live kind action evidence receipt consumer t) ≠ .ok r) :
    wp (append sha256 c live kind action evidence receipt consumer) (fun _ _ => False)
      (fun _ w' => w'.directory = w.directory) w := by
  unfold append
  rw [wp_bind]
  refine wp_now (fun t => ?_) fun _ => rfl
  simp only [wp_bind, wp_demand, wp_failIf, wp_liftM]
  refine ⟨fun _ => trivial, fun e he =>
    ⟨fun _ => trivial, fun _ => ⟨fun r hr => ?_, fun _ _ => trivial⟩⟩⟩
  rw [parsePreparationEvent_toJson] at he
  split_ifs at he
  cases he
  exact absurd hr (h t r)

/-- **The live state is the reloaded state**: after every `append` that returned,
    in any sequence of calls, `#load` returns the journal in memory if the
    directory holds at most `maxNames` names; and an `append` whose event the
    replay rejects fails without a publication. -/
theorem live_state_reloads (sha256 : Bytes → Sha256) (d : Directory) (answers : ℕ → Answer)
    (steps : List Step) :
    (∀ c e live d', .appended c e live d' ∈ ((World.start d answers).after sha256 steps).trace →
      d'.count ≤ maxNames →
        load sha256 d' c = .ok ⟨some live.intent, live.events, live.replay⟩) ∧
      ∀ c live kind action evidence receipt consumer w,
        (∀ t r, applyPreparationEvent c live.replay
          (nextEvent sha256 live kind action evidence receipt consumer t) ≠ .ok r) →
        ∃ failure, (outcome (append sha256 c live kind action evidence receipt consumer) w).1 =
            .error failure ∧
          (outcome (append sha256 c live kind action evidence receipt consumer) w).2.directory =
            w.directory := by
  constructor
  · intro c e live d' hmem hcount
    obtain ⟨pre, post, heq⟩ := List.append_of_mem hmem
    have hgood : Good sha256 ((World.start d answers).after sha256 steps).directory
        ((World.start d answers).after sha256 steps).trace := good_after good_nil steps
    exact (hgood _ _ _ heq).2.1.load hcount
  · intro c live kind action evidence receipt consumer w h
    have hw := append_rejected (w := w) h
    rcases hm : outcome (append sha256 c live kind action evidence receipt consumer) w with
      ⟨failure | live', w'⟩
    · exact ⟨failure, rfl, (wp_of_error hm).1 hw⟩
    · exact ((wp_of_ok hm).1 hw).elim

theorem live_state_reloads_requested :
    ∃ c e live d', .appended c e live d' ∈ (Sample.requested 0).trace ∧
      load (fun _ => Sample.sha) d' c = .ok ⟨some live.intent, live.events, live.replay⟩ := by
  obtain ⟨operation, c, c₁, e, live, d, c₂, a, answer, c₃, a₃, d₃, htrace, hcount⟩ :=
    cutShort_iff.1 Sample.requested_cutShort
  have hmem : .appended c₁ e live d ∈ (Sample.requested 0).trace := by simp [htrace]
  exact ⟨c₁, e, live, d, hmem, (live_state_reloads _ ⟨[], 0⟩ (Sample.host Sample.reserving) _).1
    c₁ e live d hmem hcount⟩

/-- The entry of an `append` that left too many names. -/
def Entry.overfull : Entry → Bool
  | .appended _ _ _ d => maxNames < d.count
  | _ => false

/-- A directory that fills up during the request cannot be loaded again. -/
theorem full_directory_not_reloaded :
    ¬ ∀ c e live d', .appended c e live d' ∈ (Sample.requested 4095).trace →
      load (fun _ => Sample.sha) d' c = .ok ⟨some live.intent, live.events, live.replay⟩ := by
  intro h
  have hany : (Sample.requested 4095).trace.any Entry.overfull = true := by decide +kernel
  obtain ⟨entry, hmem, hentry⟩ := List.any_eq_true.1 hany
  cases entry with
  | appended c e live d' =>
    have hfull : maxNames < d'.count := by simpa [Entry.overfull] using hentry
    have hload := h c e live d' hmem
    rw [load, throwIf_pos hfull] at hload
    cases hload
  | _ => simp [Entry.overfull] at hentry

end PaPlatform.Prepared
