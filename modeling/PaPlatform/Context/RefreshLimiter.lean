/-
  The limiter of context refreshes (`pi-extension/context-state.ts`).

  The body of a refresh runs until its call returns, and it may call the limiter
  again; what follows the return of a body is an event of its own.  A refresh
  that gives a promise runs until the promise settles, and one that throws until
  its rejection is delivered.  An event comes with the two times that it may read
  from the clock.
-/
import PaPlatform.Lib.Run
import Mathlib.Algebra.Order.Group.Basic
import Mathlib.Algebra.Order.Group.Int
import Mathlib.Data.List.Pairwise

namespace PaPlatform.Context

open Guard Run

/-- `ContextRefreshLimiter`.  A timer and a promise are known by a number. -/
structure ContextRefreshLimiter (T R : Type) where
  lastRunAt : Option T := none
  pending : Option R := none
  timer : Option ℕ := none
  inFlight : List ℕ := []
  running : Bool := false
  disposed : Bool := false

/-- A refresh that was called, when, and the number of requests made until then. -/
structure Start (T R : Type) where
  refresh : R
  time : T
  requests : ℕ

/-- A limiter and what is around it: the timers that are set, the bodies that run,
    the innermost first, and the requests and the starts so far. -/
structure World (T R : Type) where
  limiter : ContextRefreshLimiter T R := {}
  timers : List ℕ := []
  bodies : List R := []
  issued : ℕ := 0
  clock : T
  requests : List R := []
  starts : List (Start T R) := []

inductive Event (R : Type) where
  | request (refresh : R)
  | dispose
  | fire (timer : ℕ)
  /-- The body returns `undefined`. -/
  | returns
  /-- The body returns a promise. -/
  | promises
  /-- The body throws. -/
  | throws
  | settles (promise : ℕ)

/-- Why an event cannot happen. -/
inductive Impossible where
  | clock
  | timer
  | body
  | promise
  deriving DecidableEq

section
variable {T R : Type} [AddCommGroup T] [LinearOrder T] (interval : T)

namespace World

/-- `clearTimer(this.timer)` and `this.timer = undefined`. -/
def clearTimer (w : World T R) : World T R :=
  { w with
    timers := w.limiter.timer.elim w.timers w.timers.erase
    limiter := { w.limiter with timer := none } }

def setTimer (w : World T R) : World T R :=
  { w with
    timers := w.issued :: w.timers
    issued := w.issued + 1
    limiter := { w.limiter with timer := some w.issued } }

/-- `runPending`, until the body of the refresh is called. -/
def runPending (w : World T R) (now : T) : World T R :=
  if w.limiter.disposed || w.limiter.running then w
  else
    match w.limiter.pending with
    | none => w
    | some refresh =>
      { w with
        limiter := { w.limiter with pending := none, lastRunAt := some now, running := true }
        bodies := refresh :: w.bodies
        starts := w.starts ++ [⟨refresh, now, w.requests.length⟩] }

/-- `schedulePending`; `now` is read once here and once in `runPending`. -/
def schedulePending (w : World T R) (now now' : T) : World T R :=
  if w.limiter.disposed || w.limiter.pending.isNone then w
  else
    let elapsed := w.limiter.lastRunAt.elim interval (now - ·)
    if w.limiter.running = false ∧ interval ≤ elapsed then w.clearTimer.runPending now'
    else if w.limiter.timer = none ∧ elapsed < interval then w.setTimer
    else w

def request (w : World T R) (now now' : T) (refresh : R) : World T R :=
  let w := { w with requests := w.requests ++ [refresh] }
  if w.limiter.disposed then w
  else { w with limiter := { w.limiter with pending := some refresh } }.schedulePending interval now now'

def dispose (w : World T R) : World T R :=
  { w with limiter := { w.limiter with disposed := true, pending := none } }.clearTimer

/-- The callback of a timer. -/
def fire (w : World T R) (now now' : T) (timer : ℕ) : World T R :=
  { w with
    timers := w.timers.erase timer
    limiter := { w.limiter with timer := none } }.schedulePending interval now now'

/-- `runPending`, after a body that returned `undefined`. -/
def returned (w : World T R) (now now' : T) : World T R :=
  { w with
    bodies := w.bodies.tail
    limiter := { w.limiter with running := false } }.schedulePending interval now now'

/-- `runPending`, after a body with a promise. -/
def tracked (w : World T R) : World T R :=
  { w with
    bodies := w.bodies.tail
    issued := w.issued + 1
    limiter := { w.limiter with inFlight := w.issued :: w.limiter.inFlight } }

/-- The `finally` of a tracked promise. -/
def settled (w : World T R) (now now' : T) (promise : ℕ) : World T R :=
  { w with
    limiter := { w.limiter with
      inFlight := w.limiter.inFlight.erase promise
      running := false } }.schedulePending interval now now'

end World

def step (w : World T R) (e : Event R × T × T) : Except Impossible (World T R) := do
  let (event, now, now') := e
  throwIf (¬ (w.clock ≤ now ∧ now ≤ now')) .clock
  let w := { w with clock := now' }
  match event with
  | .request refresh => return w.request interval now now' refresh
  | .dispose => return w.dispose
  | .fire timer =>
    throwIf (timer ∉ w.timers) .timer
    return w.fire interval now now' timer
  | .returns =>
    throwIf (w.bodies = []) .body
    return w.returned interval now now'
  | .promises | .throws =>
    throwIf (w.bodies = []) .body
    return w.tracked
  | .settles promise =>
    throwIf (promise ∉ w.limiter.inFlight) .promise
    return w.settled interval now now' promise

end

variable {T R : Type} [AddCommGroup T] [LinearOrder T] {interval now now' : T} {w w' : World T R} {r : R}

/-! ## The invariant -/

/-- The requests that the latest start has seen. -/
def World.served (w : World T R) : ℕ := (w.starts.getLast?.map (·.requests)).getD 0

/-- What holds also between the changes of a step. -/
structure Inv (interval : T) (w : World T R) : Prop where
  flag : w.bodies.length + w.limiter.inFlight.length = if w.limiter.running then 1 else 0
  timers : w.timers = w.limiter.timer.toList
  last : ∀ s ∈ w.starts, ∃ t, w.limiter.lastRunAt = some t ∧ s.time ≤ t
  clock : ∀ t, w.limiter.lastRunAt = some t → t ≤ w.clock
  apart : w.starts.Pairwise fun s t => s.time + interval ≤ t.time
  latest : ∀ s ∈ w.starts, 1 ≤ s.requests ∧ w.requests[s.requests - 1]? = some s.refresh
  pending : ∀ r, w.limiter.pending = some r → w.requests.getLast? = some r
  disposed : w.limiter.disposed = true → w.limiter.pending = none
  kept : w.limiter.disposed = false → w.limiter.pending = none → w.served = w.requests.length

/-- A request that waits has something to wait for. -/
def World.Awaited (w : World T R) : Prop :=
  w.limiter.pending ≠ none → w.limiter.running = true ∨ w.limiter.timer ≠ none

theorem Inv.clearTimer (hi : Inv interval w) : Inv interval w.clearTimer := by
  refine { hi with timers := ?_ }
  simp only [World.clearTimer, hi.timers]
  cases w.limiter.timer <;> simp

theorem Inv.setTimer (hi : Inv interval w) (ht : w.limiter.timer = none) : Inv interval w.setTimer := by
  refine { hi with timers := ?_ }
  simp only [World.setTimer, hi.timers, ht, Option.toList_none, Option.toList_some]

theorem runPending_eq (hr : w.limiter.pending = some r) (hrun : w.limiter.running = false)
    (hd : w.limiter.disposed = false) : w.runPending now = { w with
      limiter := { w.limiter with pending := none, lastRunAt := some now, running := true }
      bodies := r :: w.bodies
      starts := w.starts ++ [⟨r, now, w.requests.length⟩] } := by
  simp only [World.runPending, hd, hrun, hr, Bool.or_self, Bool.false_eq_true, if_false]

/-- **A start keeps the invariant** when the interval is over. -/
theorem Inv.start [IsOrderedAddMonoid T] (hi : Inv interval w) (hr : w.limiter.pending = some r)
    (hrun : w.limiter.running = false) (hd : w.limiter.disposed = false) (hnow : w.clock = now)
    (hlast : ∀ t, w.limiter.lastRunAt = some t → t + interval ≤ now) : Inv interval (w.runPending now) := by
  have hflag := hi.flag
  have hlen : w.requests ≠ [] := by
    rintro he
    simpa [he] using hi.pending r hr
  rw [runPending_eq hr hrun hd]
  refine ⟨?_, hi.timers, fun s hs => ⟨now, rfl, ?_⟩, ?_, ?_, fun s hs => ?_, nofun, fun _ => rfl, fun _ _ => ?_⟩
  · rw [hrun] at hflag
    simp only [List.length_cons, Bool.false_eq_true, if_false, if_true] at hflag ⊢
    omega
  · rcases List.mem_append.1 hs with hs | hs
    · obtain ⟨t, ht, hst⟩ := hi.last s hs
      exact hst.trans (hnow ▸ hi.clock t ht)
    · rw [List.mem_singleton.1 hs]
  · rintro t ht
    obtain rfl := Option.some.inj ht
    exact hnow.ge
  · refine List.pairwise_append.2 ⟨hi.apart, List.pairwise_singleton .., fun s hs t ht => ?_⟩
    rw [List.mem_singleton.1 ht]
    obtain ⟨t, ht, hst⟩ := hi.last s hs
    exact (add_le_add_left hst interval).trans (hlast t ht)
  · rcases List.mem_append.1 hs with hs | hs
    · exact hi.latest s hs
    · rw [List.mem_singleton.1 hs, ← List.getLast?_eq_getElem?]
      exact ⟨List.length_pos_iff.2 hlen, hi.pending r hr⟩
  · simp [World.served]

/-- **What `schedulePending` leaves is awaited.** -/
theorem Inv.schedulePending [IsOrderedAddMonoid T] (hi : Inv interval w) (hclock : w.clock = now') (hle : now ≤ now') :
    Inv interval (w.schedulePending interval now now') ∧ (w.schedulePending interval now now').Awaited := by
  unfold World.schedulePending
  dsimp only
  split_ifs with hidle hrun htimer
  · refine ⟨hi, fun hp => absurd ?_ hp⟩
    simp only [Bool.or_eq_true, Option.isNone_iff_eq_none] at hidle
    exact hidle.elim hi.disposed id
  · simp only [Bool.or_eq_true, not_or, Bool.not_eq_true, Option.isNone_eq_false_iff] at hidle
    obtain ⟨r, hr⟩ := Option.isSome_iff_exists.1 hidle.2
    have hlast : ∀ t, w.clearTimer.limiter.lastRunAt = some t → t + interval ≤ now' := by
      intro t ht
      have helapsed := hrun.2
      rw [show w.limiter.lastRunAt = some t from ht, Option.elim_some, le_sub_iff_add_le] at helapsed
      rw [add_comm]
      exact helapsed.trans hle
    have hnew := hi.clearTimer.start hr hrun.1 hidle.1 hclock hlast
    refine ⟨hnew, fun hp => absurd ?_ hp⟩
    rw [runPending_eq (w := w.clearTimer) hr hrun.1 hidle.1]
  · refine ⟨hi.setTimer htimer.1, fun _ => Or.inr (by simp [World.setTimer])⟩
  · refine ⟨hi, fun _ => ?_⟩
    by_cases hr : w.limiter.running = true
    · exact Or.inl hr
    · refine Or.inr fun ht => ?_
      rw [Bool.not_eq_true] at hr
      rcases le_or_gt interval (w.limiter.lastRunAt.elim interval (now - ·)) with he | he
      · exact hrun ⟨hr, he⟩
      · exact htimer ⟨ht, he⟩

theorem Inv.request [IsOrderedAddMonoid T] (hi : Inv interval w) (ha : w.Awaited) (hclock : w.clock = now')
    (hle : now ≤ now') : Inv interval (w.request interval now now' r) ∧ (w.request interval now now' r).Awaited := by
  have hlatest : ∀ s ∈ w.starts, 1 ≤ s.requests ∧ (w.requests ++ [r])[s.requests - 1]? = some s.refresh := by
    intro s hs
    obtain ⟨hpos, hget⟩ := hi.latest s hs
    have hlt := (List.getElem?_eq_some_iff.1 hget).1
    exact ⟨hpos, by rw [List.getElem?_append_left hlt, hget]⟩
  unfold World.request
  dsimp only
  split_ifs with hd
  · refine ⟨{ hi with latest := hlatest, pending := fun r hr => ?_, kept := fun hn => ?_ }, ha⟩
    · rw [hi.disposed hd] at hr
      cases hr
    · rw [hd] at hn
      cases hn
  · refine Inv.schedulePending ?_ hclock hle
    refine { hi with latest := hlatest, pending := fun r hr => ?_, disposed := fun hn => absurd hn hd, kept := nofun }
    obtain rfl := Option.some.inj hr
    exact List.getLast?_concat

theorem Inv.dispose (hi : Inv interval w) : Inv interval w.dispose ∧ w.dispose.Awaited := by
  refine ⟨Inv.clearTimer { hi with pending := nofun, disposed := fun _ => rfl, kept := nofun }, ?_⟩
  exact fun hp => absurd rfl hp

theorem Inv.fire [IsOrderedAddMonoid T] (hi : Inv interval w) (hclock : w.clock = now') (hle : now ≤ now')
    {timer : ℕ} (ht : timer ∈ w.timers) :
    Inv interval (w.fire interval now now' timer) ∧ (w.fire interval now now' timer).Awaited := by
  refine Inv.schedulePending { hi with timers := ?_ } hclock hle
  rw [hi.timers, Option.mem_toList] at ht
  simp [hi.timers, ht]

theorem Inv.returned [IsOrderedAddMonoid T] (hi : Inv interval w) (hclock : w.clock = now') (hle : now ≤ now')
    (hb : w.bodies ≠ []) :
    Inv interval (w.returned interval now now') ∧ (w.returned interval now now').Awaited := by
  refine Inv.schedulePending { hi with flag := ?_ } hclock hle
  have hflag := hi.flag
  have hpos := List.length_pos_iff.2 hb
  simp only [List.length_tail, Bool.false_eq_true, if_false]
  split_ifs at hflag <;> omega

theorem Inv.tracked (hi : Inv interval w) (ha : w.Awaited) (hb : w.bodies ≠ []) :
    Inv interval w.tracked ∧ w.tracked.Awaited := by
  refine ⟨{ hi with flag := ?_ }, ha⟩
  have hflag := hi.flag
  have hpos := List.length_pos_iff.2 hb
  show w.bodies.tail.length + (w.limiter.inFlight.length + 1) = if w.limiter.running then 1 else 0
  rw [← hflag, List.length_tail]
  omega

theorem Inv.settled [IsOrderedAddMonoid T] (hi : Inv interval w) (hclock : w.clock = now') (hle : now ≤ now')
    {promise : ℕ} (hp : promise ∈ w.limiter.inFlight) :
    Inv interval (w.settled interval now now' promise) ∧ (w.settled interval now now' promise).Awaited := by
  refine Inv.schedulePending { hi with flag := ?_ } hclock hle
  have hflag := hi.flag
  have hlen := List.length_erase_of_mem hp
  have hpos := List.length_pos_of_mem hp
  simp only [hlen, Bool.false_eq_true, if_false]
  split_ifs at hflag <;> omega

/-- What an event does, at the two times that it may read. -/
theorem step_cases {event : Event R} (hs : step interval w (event, now, now') = .ok w') :
    w.clock ≤ now ∧ now ≤ now' ∧
      ((∃ r, event = .request r ∧ w' = { w with clock := now' }.request interval now now' r) ∨
        (event = .dispose ∧ w' = { w with clock := now' }.dispose) ∨
        (∃ t ∈ w.timers, event = .fire t ∧ w' = { w with clock := now' }.fire interval now now' t) ∨
        (event = .returns ∧ w.bodies ≠ [] ∧ w' = { w with clock := now' }.returned interval now now') ∨
        ((event = .promises ∨ event = .throws) ∧ w.bodies ≠ [] ∧ w' = { w with clock := now' }.tracked) ∨
        ∃ p ∈ w.limiter.inFlight, event = .settles p ∧
          w' = { w with clock := now' }.settled interval now now' p) := by
  simp only [Context.step, bind_eq_ok, throwIf_eq_ok, not_not] at hs
  obtain ⟨_, ⟨hclock, hle⟩, hs⟩ := hs
  refine ⟨hclock, hle, ?_⟩
  cases event with
  | request r => exact .inl ⟨r, rfl, (pure_eq_ok.1 hs).symm⟩
  | dispose => exact .inr (.inl ⟨rfl, (pure_eq_ok.1 hs).symm⟩)
  | fire t =>
    simp only [bind_eq_ok, throwIf_eq_ok, not_not, pure_eq_ok] at hs
    obtain ⟨_, ht, hs⟩ := hs
    exact .inr (.inr (.inl ⟨t, ht, rfl, hs.symm⟩))
  | returns =>
    simp only [bind_eq_ok, throwIf_eq_ok, pure_eq_ok] at hs
    obtain ⟨_, hb, hs⟩ := hs
    exact .inr (.inr (.inr (.inl ⟨rfl, hb, hs.symm⟩)))
  | promises =>
    simp only [bind_eq_ok, throwIf_eq_ok, pure_eq_ok] at hs
    obtain ⟨_, hb, hs⟩ := hs
    exact .inr (.inr (.inr (.inr (.inl ⟨.inl rfl, hb, hs.symm⟩))))
  | throws =>
    simp only [bind_eq_ok, throwIf_eq_ok, pure_eq_ok] at hs
    obtain ⟨_, hb, hs⟩ := hs
    exact .inr (.inr (.inr (.inr (.inl ⟨.inr rfl, hb, hs.symm⟩))))
  | settles p =>
    simp only [bind_eq_ok, throwIf_eq_ok, not_not, pure_eq_ok] at hs
    obtain ⟨_, hp, hs⟩ := hs
    exact .inr (.inr (.inr (.inr (.inr ⟨p, hp, rfl, hs.symm⟩))))

/-- **Every event keeps the invariant.** -/
theorem Inv.step [IsOrderedAddMonoid T] {e : Event R × T × T} (hi : Inv interval w) (ha : w.Awaited)
    (hs : step interval w e = .ok w') : Inv interval w' ∧ w'.Awaited := by
  obtain ⟨event, now, now'⟩ := e
  obtain ⟨hclock, hle, hs⟩ := step_cases hs
  have hi : Inv interval { w with clock := now' } :=
    { hi with clock := fun t ht => (hi.clock t ht).trans (hclock.trans hle) }
  obtain ⟨r, -, rfl⟩ | ⟨-, rfl⟩ | ⟨t, ht, -, rfl⟩ | ⟨-, hb, rfl⟩ | ⟨-, hb, rfl⟩ | ⟨p, hp, -, rfl⟩ := hs
  · exact hi.request ha rfl hle
  · exact hi.dispose
  · exact hi.fire rfl hle ht
  · exact hi.returned rfl hle hb
  · exact hi.tracked ha hb
  · exact hi.settled rfl hle hp

/-- **Nothing starts once the limiter is disposed.** -/
theorem starts_disposed {e : Event R × T × T} (hd : w.limiter.disposed = true)
    (hs : Context.step interval w e = .ok w') : w'.limiter.disposed = true ∧ w'.starts = w.starts := by
  obtain ⟨event, now, now'⟩ := e
  obtain ⟨-, -, hs⟩ := step_cases hs
  obtain ⟨r, -, rfl⟩ | ⟨-, rfl⟩ | ⟨t, -, -, rfl⟩ | ⟨-, -, rfl⟩ | ⟨-, -, rfl⟩ | ⟨p, -, -, rfl⟩ := hs
  · simp [World.request, hd]
  · exact ⟨rfl, rfl⟩
  · simp [World.fire, World.schedulePending, hd]
  · simp [World.returned, World.schedulePending, hd]
  · exact ⟨hd, rfl⟩
  · simp [World.settled, World.schedulePending, hd]

/-! ## Runs -/

theorem inv_start {c : T} : Inv interval ({ clock := c } : World T R) :=
  ⟨rfl, rfl, nofun, nofun, List.Pairwise.nil, nofun, nofun, fun _ => rfl, fun _ _ => rfl⟩

/-- **The invariant holds of every state between events.** -/
theorem inv_exec [IsOrderedAddMonoid T] {c : T} {es : List (Event R × T × T)}
    (he : exec (step interval) { clock := c } es = .ok w) : Inv interval w ∧ w.Awaited := by
  obtain ⟨h, hr, -⟩ := reaches_of_exec he
  exact hr.invariant (P := fun _ w => Inv interval w ∧ w.Awaited) ⟨inv_start, fun hp => absurd rfl hp⟩
    fun _ _ _ _ _ hi hs => hi.1.step hi.2 hs

theorem exec_disposed {es : List (Event R × T × T)} (hd : w.limiter.disposed = true)
    (he : exec (step interval) w es = .ok w') : w'.starts = w.starts := by
  obtain ⟨h, hr, -⟩ := reaches_of_exec he
  exact (hr.invariant (P := fun _ w' => w'.limiter.disposed = true ∧ w'.starts = w.starts) ⟨hd, rfl⟩
    fun _ _ _ _ _ hi hs =>
      have hnext := starts_disposed hi.1 hs
      ⟨hnext.1, hnext.2.trans hi.2⟩).2

/-- **The limiter**: at most one refresh runs at a time, two starts are apart by the interval, a
    request that waits is awaited by a refresh that runs or by a timer that is set, the latest
    request waits or was started, each start was of the latest request, and nothing starts after
    `dispose`. -/
theorem refreshes_limited [IsOrderedAddMonoid T] {c : T} {es : List (Event R × T × T)}
    (he : exec (step interval) { clock := c } es = .ok w) :
    w.bodies.length + w.limiter.inFlight.length ≤ 1 ∧
      (w.starts.Pairwise fun s t => s.time + interval ≤ t.time) ∧
      (w.limiter.pending ≠ none → w.bodies ≠ [] ∨ w.limiter.inFlight ≠ [] ∨
        ∃ t ∈ w.timers, w.limiter.timer = some t) ∧
      (w.limiter.disposed = false → w.limiter.pending = w.requests.getLast? ∨
        ∃ s ∈ w.starts, s.requests = w.requests.length) ∧
      (∀ s ∈ w.starts, 1 ≤ s.requests ∧ w.requests[s.requests - 1]? = some s.refresh) ∧
      ∀ before after v, es = before ++ after → exec (step interval) { clock := c } before = .ok v →
        v.limiter.disposed = true → w.starts = v.starts := by
  obtain ⟨hi, ha⟩ := inv_exec he
  have hflag := hi.flag
  refine ⟨?_, hi.apart, fun hp => ?_, fun hd => ?_, hi.latest, ?_⟩
  · split_ifs at hflag <;> omega
  · rcases ha hp with hr | ht
    · rw [if_pos hr] at hflag
      rcases hb : w.bodies with _ | ⟨b, rest⟩
      · refine Or.inr (Or.inl fun hn => ?_)
        simp [hb, hn] at hflag
      · exact Or.inl (by simp)
    · obtain ⟨t, ht⟩ := Option.ne_none_iff_exists'.1 ht
      exact Or.inr (Or.inr ⟨t, by simp [hi.timers, ht], ht⟩)
  · cases hp : w.limiter.pending with
    | some r => exact Or.inl (hi.pending r hp).symm
    | none =>
      have hk := hi.kept hd hp
      unfold World.served at hk
      cases hl : w.starts.getLast? with
      | none =>
        rw [hl] at hk
        have hnil : w.requests = [] := List.length_eq_zero_iff.1 hk.symm
        exact Or.inl (by rw [hnil]; rfl)
      | some s =>
        rw [hl] at hk
        exact Or.inr ⟨s, List.mem_of_getLast? hl, hk⟩
  · rintro before after v rfl hv hd
    rw [exec_append, hv] at he
    exact exec_disposed hd he

/-- A request from inside of a body, a timer that fires early, a refresh that outlasts the interval,
    and a request after `dispose`. -/
def sampleEvents : List (Event ℕ × ℤ × ℤ) :=
  [(.request 1, 0, 0), (.request 2, 3, 4), (.returns, 5, 5), (.fire 0, 9, 9), (.fire 1, 12, 13),
    (.promises, 14, 14), (.request 3, 30, 30), (.settles 2, 31, 31), (.dispose, 32, 32), (.request 4, 50, 50)]

theorem refreshes_limited_sample : ∃ w : World ℤ ℕ, exec (step (10 : ℤ)) { clock := 0 } sampleEvents = .ok w ∧
    w.starts.map (·.time) = [0, 13, 31] ∧ w.bodies.length + w.limiter.inFlight.length ≤ 1 :=
  ⟨_, rfl, rfl,
    (refreshes_limited (show exec (step (10 : ℤ)) { clock := 0 } sampleEvents = .ok _ from rfl)).1⟩

end PaPlatform.Context
