/-
  What the journal of a prepared workflow says about its replay.

  `Coherent es r` relates the events `es` to the replay `r` they lead to: the
  observed actions are an initial part of `preparationActions`, a pending
  action is one whose last event is its start, and there is one consumer.
-/
import PaPlatform.Prepared.Journal
import PaPlatform.Lib.Run

namespace PaPlatform.Prepared

open Js Run

/-! ## Readings of an event -/

/-- The action whose start an event records. -/
def PreparationEvent.starts (e : PreparationEvent) : Option PreparationAction :=
  if e.kind = .started then e.action else none

/-- The action that an event observes. -/
def PreparationEvent.observes (e : PreparationEvent) : Option PreparationAction :=
  if e.kind = .result .observed then e.action else none

/-- The observed actions, in the order of the journal. -/
def observedActions (es : List PreparationEvent) : List PreparationAction := es.filterMap (·.observes)

/-- `action` was started, and nothing happened to it since. -/
def Opened (es : List PreparationEvent) (action : PreparationAction) : Prop :=
  Since (fun e => e.starts = some action) (fun e => e.action ≠ some action) es

variable {c : PreparationContract} {r r' : PreparationReplay} {e : PreparationEvent}
  {es : List PreparationEvent} {n : ℕ} {a b : PreparationAction}

theorem observedActions_snoc : observedActions (es ++ [e]) = observedActions es ++ e.observes.toList := by
  unfold observedActions
  rw [List.filterMap_append]
  cases h : e.observes <;> simp [h]

/-! ## The next action -/

/-- Exactly the first `n` actions have results. -/
def Done (r : PreparationReplay) (n : ℕ) : Prop := ∀ a, (r.results a).isSome ↔ a.rank < n

theorem rank_lt (a : PreparationAction) : a.rank < 6 := by cases a <;> decide

theorem preparationActions_rank (a : PreparationAction) : preparationActions[a.rank]? = some a := by
  cases a <;> rfl

theorem preparationActions_getElem? : preparationActions[n]? = some a ↔ n = a.rank := by
  constructor
  · intro h
    match n with
    | 0 | 1 | 2 | 3 | 4 | 5 => cases h; rfl
    | n + 6 => simp [preparationActions] at h
  · rintro rfl
    exact preparationActions_rank a

theorem Done.next (h : Done r n) : nextPreparationAction r = preparationActions[n]? := by
  have hnone : ∀ a, (r.results a).isNone = decide (n ≤ a.rank) := by
    intro a
    have ha := h a
    cases hr : r.results a with
    | none => simp [hr] at ha; simpa using ha
    | some s => simp [hr] at ha; simpa using ha
  unfold nextPreparationAction
  rw [show (fun a => (r.results a).isNone) = fun a => decide (n ≤ a.rank) from funext hnone]
  match n with
  | 0 => rfl
  | 1 => rfl
  | 2 => rfl
  | 3 => rfl
  | 4 => rfl
  | 5 => rfl
  | n + 6 =>
    rw [List.getElem?_eq_none (by simp [preparationActions]), List.find?_eq_none]
    intro a _
    have := rank_lt a
    simpa using by omega

theorem Done.rank_of_next (h : Done r n) (hn : nextPreparationAction r = some a) : n = a.rank :=
  preparationActions_getElem?.1 (h.next ▸ hn)

theorem Done.update (h : Done r n) (hn : nextPreparationAction r = some a) (s : SourceVersion)
    (hr : r'.results = Function.update r.results a (some s)) : Done r' (n + 1) := by
  obtain rfl := h.rank_of_next hn
  intro b
  rw [hr]
  by_cases hb : b = a
  · subst hb
    simp
  · rw [Function.update_of_ne hb, h b]
    have hne : b.rank ≠ a.rank := fun heq => hb (rank_inj heq)
    omega

/-! ## Coherence -/

/-- The events `es` lead to the replay `r`. -/
structure Coherent (es : List PreparationEvent) (r : PreparationReplay) : Prop where
  done : Done r (observedActions es).length
  order : observedActions es = preparationActions.take (observedActions es).length
  opened : ∀ a, Opened es a → r.pending = some a
  pending : ∀ a, r.pending = some a → nextPreparationAction r = some a ∧
    ∃ pre e, es = pre ++ [e] ∧ e.starts = some a
  ready : r.state = .ready → nextPreparationAction r = some .consume
  consumed : r.state = .consumed → nextPreparationAction r = none ∧ r.consumer.isSome
  /-- The consumption has a single start. -/
  final : (∃ e ∈ es, e.starts = some .consume) → r.pending = some .consume ∨
    (r.pending = none ∧ (r.state = .consumed ∨ r.state = .uncertainBlocked))
  consumer : ∀ e ∈ es, e.starts = some .consume → e.consumer = r.consumer
  source : ∀ x, r.consumer = some x → ∃ e ∈ es, e.starts = some .consume ∧ e.consumer = some x

theorem coherent_initial {requested : Bool} : Coherent [] (initialReplay requested) where
  done a := by simp [initialReplay, observedActions]
  order := rfl
  opened a := by
    rintro ⟨pre, e, post, h, -⟩
    simp at h
  pending a h := by cases h
  ready h := by cases requested <;> cases h
  consumed h := by cases requested <;> cases h
  final := by simp
  consumer := by simp
  source x h := by cases h

/-- A replay that ended has no further events. -/
theorem Coherent.live (hc : Coherent es r) (ha : Accepts c r e r')
    (hs : ∃ e ∈ es, e.starts = some .consume) : r.pending = some .consume := by
  rcases hc.final hs with hp | ⟨hp, hstate⟩
  · exact hp
  · exfalso
    cases ha with
    | retry _ _ _ _ h => rcases hstate with h' | h' <;> rcases h with h | h <;> simp [h'] at h
    | started _ _ hn _ h =>
      rcases hstate with h' | h'
      · rw [(hc.consumed h').1] at hn; cases hn
      · rcases h with h | h <;> simp [h'] at h
    | observed _ _ _ h => rw [hp] at h; cases h
    | unobserved _ _ _ _ h => rw [hp] at h; cases h

theorem Coherent.step (hc : Coherent es r) (ha : Accepts c r e r') : Coherent (es ++ [e]) r' := by
  have hopened : ∀ a, Opened (es ++ [e]) a → e.starts = some a ∨ (r.pending = some a ∧ e.action ≠ some a) := by
    intro a h
    rcases since_snoc.1 h with h | ⟨h, hne⟩
    · exact Or.inl h
    · exact Or.inr ⟨hc.opened a h, hne⟩
  have hlive := fun hs => hc.live ha hs
  cases ha with
  | retry hk hact hev hp hstate =>
    have hst : e.starts = none := by simp [PreparationEvent.starts, hk]
    have hob : observedActions (es ++ [e]) = observedActions es := by
      simp [observedActions_snoc, PreparationEvent.observes, hk]
    have hnone : ∀ e ∈ es, e.starts ≠ some .consume := fun e' he' hs => by
      simp [hp] at hlive
      exact hlive e' he' hs
    refine ⟨?_, ?_, ?_, ?_, ?_, ?_, ?_, ?_, ?_⟩
    · rw [hob]; exact hc.done
    · rw [hob]; exact hc.order
    · intro a ho
      rcases hopened a ho with h | ⟨h, -⟩
      · simp [hst] at h
      · simp [hp] at h
    · intro a h
      simp [hp] at h
    · intro h; cases h
    · intro h; cases h
    · rintro ⟨e', he', hs⟩
      rcases List.mem_append.1 he' with he' | he'
      · exact absurd hs (hnone e' he')
      · simp [List.mem_singleton.1 he', hst] at hs
    · intro e' he' hs
      rcases List.mem_append.1 he' with he' | he'
      · exact absurd hs (hnone e' he')
      · simp [List.mem_singleton.1 he', hst] at hs
    · intro x hx
      obtain ⟨e', he', hs⟩ := hc.source x hx
      exact ⟨e', List.mem_append_left _ he', hs⟩
  | started hk hact hn hp hstate hcons =>
    rename_i action
    have hst : e.starts = some action := by simp [PreparationEvent.starts, hk, hact]
    have hob : observedActions (es ++ [e]) = observedActions es := by
      simp [observedActions_snoc, PreparationEvent.observes, hk]
    have hnone : ∀ e ∈ es, e.starts ≠ some .consume := fun e' he' hs => by
      simp [hp] at hlive
      exact hlive e' he' hs
    refine ⟨?_, ?_, ?_, ?_, hc.ready, ?_, ?_, ?_, ?_⟩
    · rw [hob]; exact hc.done
    · rw [hob]; exact hc.order
    · intro a ho
      rcases hopened a ho with h | ⟨h, -⟩
      · rw [hst] at h; exact h
      · simp [hp] at h
    · intro a h
      cases h
      exact ⟨hn, es, e, rfl, hst⟩
    · intro h
      change r.state = .consumed at h
      rcases hstate with h' | h' <;> simp [h'] at h
    · rintro ⟨e', he', hs⟩
      rcases List.mem_append.1 he' with he' | he'
      · exact absurd hs (hnone e' he')
      · rw [List.mem_singleton.1 he', hst] at hs
        exact Or.inl hs
    · intro e' he' hs
      rcases List.mem_append.1 he' with he' | he'
      · exact absurd hs (hnone e' he')
      · rw [List.mem_singleton.1 he']
    · intro x hx
      change e.consumer = some x at hx
      split_ifs at hcons with hac
      · exact ⟨e, by simp, by rw [hst, hac], hx⟩
      · simp [hcons] at hx
  | observed hk hact hn hp hev hcons =>
    rename_i action evidence
    have hst : e.starts = none := by simp [PreparationEvent.starts, hk]
    have hob : observedActions (es ++ [e]) = observedActions es ++ [action] := by
      simp [observedActions_snoc, PreparationEvent.observes, hk, hact]
    have hlen : (observedActions es).length = action.rank := hc.done.rank_of_next hn
    have hdone : Done { r with
        pending := none
        results := Function.update r.results action (some evidence)
        state := observedState action
        receipt := observedReceipt action r.receipt } ((observedActions es).length + 1) :=
      hc.done.update hn evidence rfl
    refine ⟨?_, ?_, ?_, ?_, ?_, ?_, ?_, ?_, ?_⟩
    · rw [hob, List.length_append, List.length_singleton]
      exact hdone
    · rw [hob, List.length_append, List.length_singleton, List.take_add_one, ← hc.order, hlen,
        preparationActions_rank]
      rfl
    · intro a ho
      rcases hopened a ho with h | ⟨h, hne⟩
      · simp [hst] at h
      · rw [hp] at h
        exact absurd (hact.trans h) hne
    · intro a h; cases h
    · intro h
      rw [hdone.next, hlen]
      cases action <;> first | rfl | cases h
    · intro h
      obtain rfl : action = .consume := by cases action <;> first | rfl | cases h
      rw [hdone.next, hlen]
      exact ⟨rfl, hcons rfl⟩
    · rintro ⟨e', he', hs⟩
      rcases List.mem_append.1 he' with he' | he'
      · have hpc := hlive ⟨e', he', hs⟩
        obtain rfl : action = .consume := by simpa [hp] using hpc
        exact Or.inr ⟨rfl, Or.inl rfl⟩
      · simp [List.mem_singleton.1 he', hst] at hs
    · intro e' he' hs
      rcases List.mem_append.1 he' with he' | he'
      · exact hc.consumer e' he' hs
      · simp [List.mem_singleton.1 he', hst] at hs
    · intro x hx
      obtain ⟨e', he', hs⟩ := hc.source x hx
      exact ⟨e', List.mem_append_left _ he', hs⟩
  | unobserved hk hne hact hn hp hev =>
    rename_i action result evidence
    have hst : e.starts = none := by simp [PreparationEvent.starts, hk]
    have hob : observedActions (es ++ [e]) = observedActions es := by
      simp [observedActions_snoc, PreparationEvent.observes, hk, hne]
    have hstate := unobservedState_ne action result
    refine ⟨?_, ?_, ?_, ?_, ?_, ?_, ?_, ?_, ?_⟩
    · rw [hob]; exact hc.done
    · rw [hob]; exact hc.order
    · intro a ho
      rcases hopened a ho with h | ⟨h, hne⟩
      · simp [hst] at h
      · rw [hp] at h
        exact absurd (hact.trans h) hne
    · intro a h; cases h
    · exact fun h => absurd h hstate.1
    · exact fun h => absurd h hstate.2
    · rintro ⟨e', he', hs⟩
      rcases List.mem_append.1 he' with he' | he'
      · have hpc := hlive ⟨e', he', hs⟩
        obtain rfl : action = .consume := by simpa [hp] using hpc
        exact Or.inr ⟨rfl, Or.inr rfl⟩
      · simp [List.mem_singleton.1 he', hst] at hs
    · intro e' he' hs
      rcases List.mem_append.1 he' with he' | he'
      · exact hc.consumer e' he' hs
      · simp [List.mem_singleton.1 he', hst] at hs
    · intro x hx
      obtain ⟨e', he', hs⟩ := hc.source x hx
      exact ⟨e', List.mem_append_left _ he', hs⟩

variable {sha256 : Bytes → Sha256} {link : Link} {index : ℕ} {requested : Bool}

/-- **The events of a replay are coherent with it.** -/
theorem coherent (h : replayEvents sha256 c link index (initialReplay requested) es = .ok r) :
    Coherent es r :=
  replayEvents_induction coherent_initial (fun _ _ _ _ hc ha => hc.step ha) h

/-- The observed actions of a coherent journal are in order, without
    repetition. -/
theorem Coherent.pairwise (hc : Coherent es r) :
    (observedActions es).Pairwise fun a b => a.rank < b.rank := by
  have h : preparationActions.Pairwise fun a b => a.rank < b.rank := by decide
  rw [hc.order]
  exact h.sublist (List.take_sublist _ _)

end PaPlatform.Prepared
