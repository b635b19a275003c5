/-
  The life of a prepared reservation.

  A reservation only moves forward, and a settled or uncertain one is never
  left.  An active reservation has passed `idle-ready`, so it has a receipt, and
  its release can always write the settled record.
-/
import PaPlatform.Capacity.Inventory

namespace PaPlatform.Capacity

open Js Guard Effect
open Registry (trim)
open Custody (IdlePreparationReservation ReservationOccupancy parseIdlePreparationReservation
  parseIdlePreparationReservation_toJson_iff)

variable {digest : String → String} {c : Call} {d d' : Directory} {name : String}
  {r r' : IdlePreparationReservation} {f f' : PreparedFile}

/-! ## Moves -/

/-- One move of an occupancy. -/
inductive Moves : ReservationOccupancy → ReservationOccupancy → Prop
  | prepared : Moves .preparing .idleReady
  | activated : Moves .idleReady .active
  | settled : Moves .active .settledRetained
  | uncertain {o : ReservationOccupancy} : o = .preparing ∨ o = .idleReady ∨ o = .active →
      Moves o .uncertainRetained

/-- A settled or uncertain occupancy is never left. -/
theorem Moves.not_retained {o o' : ReservationOccupancy} (h : Moves o o') :
    o ≠ .settledRetained ∧ o ≠ .uncertainRetained := by
  cases h with
  | prepared => exact ⟨by decide, by decide⟩
  | activated => exact ⟨by decide, by decide⟩
  | settled => exact ⟨by decide, by decide⟩
  | uncertain h => rcases h with rfl | rfl | rfl <;> exact ⟨by decide, by decide⟩

theorem moves_of_allowed {o o' : ReservationOccupancy} (h : o' ∈ allowed o) : Moves o o' := by
  cases o with
  | preparing =>
    rcases List.mem_cons.1 h with rfl | h
    · exact .prepared
    · rw [List.mem_singleton.1 h]
      exact .uncertain (.inl rfl)
  | idleReady =>
    rcases List.mem_cons.1 h with rfl | h
    · exact .activated
    · rw [List.mem_singleton.1 h]
      exact .uncertain (.inr (.inl rfl))
  | active =>
    rw [List.mem_singleton.1 h]
    exact .uncertain (.inr (.inr rfl))
  | uncertainRetained => cases h
  | settledRetained => cases h

/-- What a call may make of a reservation: it keeps its identity and what is
    set of its receipt and lineage, and it stays where it is or makes a move. -/
structure Forward (r r' : IdlePreparationReservation) : Prop where
  identity : SameIdentity r r'
  receipt : r.receiptId ≠ none → r'.receiptId = r.receiptId
  lineage : r.lineageId ≠ none → r'.lineageId = r.lineageId
  occupancy : r'.occupancy = r.occupancy ∨ Moves r.occupancy r'.occupancy

theorem Forward.refl (r : IdlePreparationReservation) : Forward r r :=
  ⟨⟨rfl, rfl, rfl, rfl, rfl, rfl, rfl⟩, fun _ => rfl, fun _ => rfl, .inl rfl⟩

theorem Advances.forward (h : Advances r r') : Forward r r' := by
  refine ⟨h.sameIdentity, ?_, ?_, ?_⟩
  · cases h with
    | updated _ _ _ h => exact h
    | transferred => exact fun _ => rfl
    | settled => exact fun _ => rfl
  · cases h with
    | updated _ _ _ _ h => exact h
    | transferred => exact fun _ => rfl
    | settled => exact fun _ => rfl
  · cases h with
    | updated _ _ h => exact .inr (moves_of_allowed h)
    | transferred => exact .inl rfl
    | settled hact =>
      right
      rw [hact]
      exact .settled

/-! ## What is stored -/

/-- The stored reservations are accepted by the parser and fit their file, an
    active one has a receipt, and one that cannot be read is still preparing. -/
structure Stored (f : PreparedFile) : Prop where
  consistent : f.reservation.Consistent
  bytes : reservationBytes f.reservation ≤ maxRepositoryTicketSlotBytes
  receipt : f.reservation.occupancy = .active → f.reservation.receiptId ≠ none
  linked : f.linked = true → f.reservation.occupancy = .preparing

theorem Stored.advances (h : Stored f) (hadv : Advances f.reservation r') (hc : r'.Consistent)
    (hsize : reservationBytes r' ≤ maxRepositoryTicketSlotBytes) : Stored ⟨r', false⟩ := by
  refine ⟨hc, hsize, ?_, by simp⟩
  intro hact
  have hreceipt : f.reservation.receiptId ≠ none := by
    cases hadv with
    | updated _ _ hallowed _ _ =>
      -- only an idle-ready reservation becomes active
      have hidle : f.reservation.occupancy = .idleReady := by
        have hm := moves_of_allowed hallowed
        rw [hact] at hm
        generalize f.reservation.occupancy = o at hm
        cases hm
        rfl
      have hcons := h.consistent
      rw [IdlePreparationReservation.Consistent, hidle] at hcons
      exact Option.isSome_iff_ne_none.1 hcons.2.2.1
    | transferred hact' _ => exact h.receipt hact'
    | settled hact' _ => exact h.receipt hact'
  rw [hadv.forward.receipt hreceipt]
  exact hreceipt

/-- **What one call does to a reservation.** -/
theorem Change.forward (h : Change digest c d d') (hf : d.reservations.lookup name = some f) :
    ∃ f', d'.reservations.lookup name = some f' ∧ Forward f.reservation f'.reservation := by
  cases h with
  | same => exact ⟨f, hf, .refl _⟩
  | acquired => exact ⟨f, hf, .refl _⟩
  | rewritten => exact ⟨f, hf, .refl _⟩
  | split => exact ⟨f, hf, .refl _⟩
  | removed => exact ⟨f, hf, .refl _⟩
  | reserved hnone _ _ _ _ =>
    refine ⟨f, ?_, .refl _⟩
    rw [Directory.lookup_putReservation, if_neg]
    · exact hf
    · rintro rfl
      rw [hnone] at hf
      cases hf
  | @advanced other f₀ r' hstored _ _ _ hadv _ =>
    by_cases hn : name = other
    · subst hn
      rw [hstored] at hf
      cases hf
      exact ⟨⟨r', false⟩, by rw [Directory.lookup_putReservation, if_pos rfl], hadv.forward⟩
    · exact ⟨f, by rw [Directory.lookup_putReservation, if_neg hn, hf], .refl _⟩

theorem Change.stored (h : Change digest c d d')
    (hd : ∀ n f, d.reservations.lookup n = some f → Stored f)
    (hf : d'.reservations.lookup name = some f) : Stored f := by
  cases h with
  | same => exact hd _ _ hf
  | acquired => exact hd _ _ hf
  | rewritten => exact hd _ _ hf
  | split => exact hd _ _ hf
  | removed => exact hd _ _ hf
  | reserved _ hc hsize hprep _ =>
    rw [Directory.lookup_putReservation] at hf
    split_ifs at hf with hn
    · cases hf
      refine ⟨hc, hsize, fun hact => ?_, fun _ => hprep⟩
      rw [hprep] at hact
      cases hact
    · exact hd _ _ hf
  | advanced hstored _ hc hsize hadv _ =>
    rw [Directory.lookup_putReservation] at hf
    split_ifs at hf with hn
    · cases hf
      exact (hd _ _ hstored).advances hadv hc hsize
    · exact hd _ _ hf

/-! ## Runs -/

/-- Any call. -/
def anyCall : Call → Directory → Prop := fun _ _ => True

theorem Reachable.stored (h : Reachable digest anyCall d) (hf : d.reservations.lookup name = some f) :
    Stored f := by
  induction h generalizing name f with
  | refl => cases hf
  | tail _ hstep ih =>
    obtain ⟨c, -, rfl⟩ := hstep
    exact (change_after c _).stored (fun _ _ hf => ih hf) hf

/-- A run from `d` leaves every reservation of `d`, moved forward. -/
theorem forward_of_run (h : Relation.ReflTransGen (Step digest anyCall) d d')
    (hf : d.reservations.lookup name = some f) : ∃ f', d'.reservations.lookup name = some f' ∧
      Relation.ReflTransGen Forward f.reservation f'.reservation := by
  induction h with
  | refl => exact ⟨f, hf, .refl⟩
  | tail _ hstep ih =>
    obtain ⟨f₁, hf₁, h₁⟩ := ih
    obtain ⟨c, -, rfl⟩ := hstep
    obtain ⟨f₂, hf₂, h₂⟩ := (change_after c _).forward hf₁
    exact ⟨f₂, hf₂, h₁.tail h₂⟩

/-- What a run of moves forward says. -/
theorem forward_run (h : Relation.ReflTransGen Forward r r') :
    SameIdentity r r' ∧ (r.receiptId ≠ none → r'.receiptId = r.receiptId) ∧
      (r.lineageId ≠ none → r'.lineageId = r.lineageId) ∧
      Relation.ReflTransGen Moves r.occupancy r'.occupancy := by
  induction h with
  | refl => exact ⟨⟨rfl, rfl, rfl, rfl, rfl, rfl, rfl⟩, fun _ => rfl, fun _ => rfl, .refl⟩
  | @tail r₁ r₂ _ h ih =>
    obtain ⟨⟨i1, i2, i3, i4, i5, i6, i7⟩, hreceipt, hlineage, hocc⟩ := ih
    obtain ⟨j1, j2, j3, j4, j5, j6, j7⟩ := h.identity
    refine ⟨⟨j1.trans i1, j2.trans i2, j3.trans i3, j4.trans i4, j5.trans i5, j6.trans i6,
      j7.trans i7⟩, ?_, ?_, ?_⟩
    · intro hr
      have h1 := hreceipt hr
      exact (h.receipt (by rw [h1]; exact hr)).trans h1
    · intro hl
      have h1 := hlineage hl
      exact (h.lineage (by rw [h1]; exact hl)).trans h1
    · rcases h.occupancy with heq | hm
      · rw [heq]
        exact hocc
      · exact hocc.tail hm

/-- A settled or uncertain reservation stays what it is. -/
theorem retained_of_moves {o o' : ReservationOccupancy} (h : Relation.ReflTransGen Moves o o')
    (ho : o = .settledRetained ∨ o = .uncertainRetained) : o' = o := by
  induction h with
  | refl => rfl
  | tail _ hm ih =>
    subst ih
    rcases ho with rfl | rfl
    · exact absurd rfl hm.not_retained.1
    · exact absurd rfl hm.not_retained.2

/-! ## Releases -/

theorem settled_consistent (h : Stored f) (hact : f.reservation.occupancy = .active) :
    (settledReservation f.reservation).Consistent := by
  have hc := h.consistent
  rw [IdlePreparationReservation.Consistent, hact] at hc
  exact ⟨hc.1, Option.isSome_iff_ne_none.2 (h.receipt hact), rfl⟩

/-- The text of a custody under a holder is longer than that of an idle one. -/
theorem idle_bytes (holder : Custody.ExecutionHolder) :
    (Custody.ExecutionCustody.idle.toJson.stringify).utf8ByteSize + 10 ≤
      (Custody.ExecutionCustody.held .orchestratorDirect holder none).toJson.stringify.utf8ByteSize := by
  have hholder : 4 ≤ holder.toJson.stringify.utf8ByteSize := by
    unfold Custody.ExecutionHolder.toJson Custody.ExecutionHolder.keys
    simp only [List.zip_cons_cons, List.zip_nil_left]
    rw [Json.utf8ByteSize_stringify_obj]
    simp only [List.map_cons, List.map_nil, List.sum_cons, List.sum_nil]
    omega
  have hidle : (Json.str "idle").stringify.utf8ByteSize = 6 := by decide +kernel
  have hdirect : (Json.str "orchestrator-direct").stringify.utf8ByteSize = 21 := by decide +kernel
  have hnull : Json.null.stringify.utf8ByteSize = 4 := by decide +kernel
  unfold Custody.ExecutionCustody.toJson Custody.ExecutionCustody.keys
  simp only [List.zip_cons_cons, List.zip_nil_left]
  rw [Json.utf8ByteSize_stringify_obj, Json.utf8ByteSize_stringify_obj]
  simp only [List.map_cons, List.map_nil, List.sum_cons, List.sum_nil, Json.fieldBytes,
    Custody.ExecutionCustody.state, Custody.Executor.text, Custody.ExecutionCustody.holder_idle,
    Custody.ExecutionCustody.holder_held, Json.ofOption_some, hidle, hdirect]
  have hnone : (Json.ofOption Custody.ExecutionHolder.toJson none).stringify.utf8ByteSize = 4 := hnull
  rw [hnone]
  simp only [Custody.ExecutionCustody.inFlightOperation_idle,
    Custody.ExecutionCustody.inFlightOperation_held]
  omega

/-- The settled record is not longer than the active one. -/
theorem settled_bytes {holder : Custody.ExecutionHolder} (hact : r.occupancy = .active)
    (hcust : r.custody = .held .orchestratorDirect holder none) :
    reservationBytes (settledReservation r) ≤ reservationBytes r := by
  have hsettled : (Json.str "settled-retained").stringify.utf8ByteSize = 18 := by decide +kernel
  have hactive : (Json.str "active").stringify.utf8ByteSize = 8 := by decide +kernel
  have hidle := idle_bytes holder
  obtain ⟨repoKey, repoRoot, ticket, operationId, reservationId, repositoryPermit, occupancy,
    lineageId, custody, receiptId, retainedAt, launch⟩ := r
  dsimp only at hact hcust
  subst hact
  subst hcust
  unfold reservationBytes settledReservation IdlePreparationReservation.toJson
    IdlePreparationReservation.keys
  simp only [List.cons_append, List.nil_append, List.zip_cons_cons]
  rw [Json.utf8ByteSize_stringify_obj, Json.utf8ByteSize_stringify_obj]
  simp only [List.map_cons, List.sum_cons, Json.fieldBytes, ReservationOccupancy.text, hsettled,
    hactive]
  omega

/-- **A release of an active reservation** that authenticates, and whose evidence
    is settled, writes the settled record. -/
theorem release_active {env : Environment} {h : RepositoryTicketSlotHandoff}
    {slot : RepositoryTicketSlot} (hd : Reachable digest anyCall d)
    (hroot : physicalRoot env h.canonicalRepoRoot = .ok ())
    (hname : fileName digest h.ticket = .ok name) (hnone : d.slots.lookup name = none)
    (hf : d.reservations.lookup name = some f)
    (hview : preparedSlotView f.reservation.toJson = .found slot)
    (hmatch : slotMatchesHandoff slot h = true) (htoken : slot.slotToken = h.slotToken)
    (hallowed : releaseAllowed env slot = true) :
    outcome (releaseRepositoryTicketSlot digest env h) d =
      (.ok .released, d.putReservation name ⟨settledReservation f.reservation, false⟩) := by
  obtain ⟨hc, hact, launch, holder, hcust, -⟩ := preparedSlotView_found hview
  have hst := hd.stored hf
  have hlinked : f.linked = false := by
    by_contra hl
    have hprep := hst.linked (Bool.eq_true_of_not_eq_false hl)
    rw [hact] at hprep
    cases hprep
  have hsettled := settled_consistent hst hact
  have hsize := (settled_bytes hact hcust).trans hst.bytes
  have hloc : executionSlot d name = .ok (.reservation f) := by
    unfold executionSlot
    rw [hnone, hf]
  have hread : readSlot (.reservation f) = .found slot := by rw [readSlot, hlinked, if_neg (by simp), hview]
  have hauth : authenticateHandoff (.reservation f) h = .ok slot := by
    unfold authenticateHandoff
    rw [hread]
    simp only [hmatch, htoken, Bool.true_eq_false, ne_eq, not_true_eq_false,
      throwIf_neg not_false, ok_bind]
    rfl
  rw [← wp_exact]
  simp only [releaseRepositoryTicketSlot, wp_bind, wp_liftM, wp_get, hroot, hname, hloc,
    Except.ok.injEq, reduceCtorEq, false_implies, implies_true, and_true, forall_eq']
  rw [hauth]
  simp only [writeRelease, hallowed, Bool.true_eq_false, if_false, wp_bind, wp_demand,
    parseIdlePreparationReservation_toJson_iff, wp_ite, wp_pure]
  intro _ _
  refine ⟨fun hno => ?_, ?_⟩
  · rw [Custody.parseIdlePreparationReservation_toJson, if_pos hc] at hno
    cases hno
  rintro r ⟨-, rfl⟩
  refine ⟨fun hor => ?_, fun _ => ⟨fun hno => ?_, ?_⟩⟩
  · rcases hor with h' | h'
    · exact absurd hact h'
    · rw [hcust] at h'
      exact absurd rfl h'
  · rw [Custody.parseIdlePreparationReservation_toJson, if_pos hsettled] at hno
    cases hno
  rintro r' ⟨-, rfl⟩
  simp only [publishPreparedCapacity, wp_bind, wp_demand, wp_failIf, placeReservation, if_true,
    wp_modify, wp_get, parseIdlePreparationReservation_toJson_iff]
  refine ⟨fun hno => ?_, ?_⟩
  · rw [Custody.parseIdlePreparationReservation_toJson, if_pos hsettled] at hno
    cases hno
  rintro r' ⟨-, rfl⟩
  refine ⟨fun hlt => absurd hsize (not_le.2 hlt), fun _ => ⟨by simp, fun _ => ⟨by simp, fun _ =>
    ⟨by simp, fun _ => ⟨fun hne => hne ?_, fun _ => ⟨trivial, rfl⟩⟩⟩⟩⟩⟩
  rw [Directory.lookup_putReservation, if_pos rfl]

/-! ## The lifecycle -/

/-- An update whose expected record is not a stored one leaves the directory. -/
theorem update_mismatch {env : Environment} {o : CapacityOptions} {expected next : Json}
    (h : ∀ name f, d.reservations.lookup name = some f →
      parseIdlePreparationReservation expected ≠ some f.reservation) :
    after digest (.update env o expected next) d = d := by
  have hw : wp (update digest env o expected next) (fun _ d' => d' = d) (fun _ d' => d' = d) d := by
    simp only [update, wp_bind, wp_liftM, wp_demand, wp_get, wp_ite, wp_throw]
    refine ⟨fun key _ => ⟨fun _ => trivial, fun e he => ⟨fun _ => trivial, fun n _ => ⟨fun rows hrows =>
      ⟨fun hfind => ?_, fun _ => trivial⟩, fun _ _ => trivial⟩⟩⟩, fun _ _ => trivial⟩
    obtain ⟨rfl, -, -⟩ := inventory_ok hrows
    have hmem : CapacityRow.reservation e ∈ d.rows := List.mem_of_find?_eq_some hfind
    rcases Directory.mem_rows.1 hmem with ⟨_, _, -, heq⟩ | ⟨name, f, hf, heq⟩
    · cases heq
    · cases heq
      exact absurd he (h name f hf)
  exact wp_state.1 hw

/-- **The lifecycle of a prepared reservation**, over every run from the empty
    directory. -/
theorem reservation_lifecycle {digest : String → String} {d : Directory}
    (hd : Reachable digest anyCall d) :
    (∀ d', Relation.ReflTransGen (Step digest anyCall) d d' → ∀ name f,
      d.reservations.lookup name = some f → ∃ f', d'.reservations.lookup name = some f' ∧
        SameIdentity f.reservation f'.reservation ∧
        (f.reservation.receiptId ≠ none → f'.reservation.receiptId = f.reservation.receiptId) ∧
        (f.reservation.lineageId ≠ none → f'.reservation.lineageId = f.reservation.lineageId) ∧
        Relation.ReflTransGen Moves f.reservation.occupancy f'.reservation.occupancy ∧
        (f.reservation.occupancy = .settledRetained ∨ f.reservation.occupancy = .uncertainRetained →
          f'.reservation.occupancy = f.reservation.occupancy)) ∧
    (∀ c name f, d.reservations.lookup name = some f →
      ∃ f', (after digest c d).reservations.lookup name = some f' ∧
        (f'.reservation.occupancy = f.reservation.occupancy ∨
          Moves f.reservation.occupancy f'.reservation.occupancy)) ∧
    (∀ name f, d.reservations.lookup name = some f →
      parseIdlePreparationReservation f.reservation.toJson = some f.reservation) ∧
    (∀ name f, d.reservations.lookup name = some f → f.reservation.occupancy = .active →
      parseIdlePreparationReservation (settledReservation f.reservation).toJson =
        some (settledReservation f.reservation) ∧
      ∀ env h slot, physicalRoot env h.canonicalRepoRoot = .ok () →
        fileName digest h.ticket = .ok name → d.slots.lookup name = none →
        preparedSlotView f.reservation.toJson = .found slot → slotMatchesHandoff slot h = true →
        slot.slotToken = h.slotToken → releaseAllowed env slot = true →
        outcome (releaseRepositoryTicketSlot digest env h) d =
          (.ok .released, d.putReservation name ⟨settledReservation f.reservation, false⟩)) ∧
    (∀ env o expected next, (∀ name f, d.reservations.lookup name = some f →
        parseIdlePreparationReservation expected ≠ some f.reservation) →
      after digest (.update env o expected next) d = d) := by
  refine ⟨?_, ?_, ?_, ?_, fun env o expected next h => update_mismatch h⟩
  · intro d' hrun name f hf
    obtain ⟨f', hf', hforward⟩ := forward_of_run hrun hf
    obtain ⟨h1, h2, h3, h4⟩ := forward_run hforward
    exact ⟨f', hf', h1, h2, h3, h4, retained_of_moves h4⟩
  · intro c name f hf
    obtain ⟨f', hf', hforward⟩ := (change_after c d).forward hf
    exact ⟨f', hf', hforward.occupancy⟩
  · intro name f hf
    exact parseIdlePreparationReservation_toJson_iff.2 ⟨(hd.stored hf).consistent, rfl⟩
  · intro name f hf hact
    have hsettled := settled_consistent (hd.stored hf) hact
    refine ⟨parseIdlePreparationReservation_toJson_iff.2 ⟨hsettled, rfl⟩, ?_⟩
    intro env h slot hroot hname hnone hview hmatch htoken hallowed
    exact release_active hd hroot hname hnone hf hview hmatch htoken hallowed

/-- The record that a reservation of `PA-1` stores is accepted by the parser. -/
theorem lifecycle_of_reserved :
    ∃ f, (after sampleDigest (.reserve sampleHost sampleOptions sampleInput) .empty).reservations.lookup
        (sampleDigest "PA-1") = some f ∧
      parseIdlePreparationReservation f.reservation.toJson = some f.reservation := by
  have hsome : ((after sampleDigest (.reserve sampleHost sampleOptions sampleInput)
      .empty).reservations.lookup (sampleDigest "PA-1")).isSome = true := by decide +kernel
  obtain ⟨f, hf⟩ := Option.isSome_iff_exists.1 hsome
  exact ⟨f, hf, (reservation_lifecycle
    (.tail .refl ⟨.reserve sampleHost sampleOptions sampleInput, trivial, rfl⟩)).2.2.1 _ f hf⟩

end PaPlatform.Capacity
