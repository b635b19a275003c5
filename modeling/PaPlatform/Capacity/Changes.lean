/-
  What a call does to the slot directory.

  `Change` lists the changes of all calls: nothing, one new record, one record
  rewritten in place, or one slot removed.  Among them `split` is the write of
  an intent for a reservation: it stores a slot beside the reservation.
-/
import PaPlatform.Capacity.Operations

namespace PaPlatform.Capacity

open Js Guard Effect
open Registry (trim)
open Custody (IdlePreparationReservation parseIdlePreparationReservation
  parseIdlePreparationReservation_toJson_iff parseIdlePreparationReservation_consistent)

variable {digest : String → String} {env : Environment} {d : Directory} {name : String}
  {s : RepositoryTicketSlot} {r : IdlePreparationReservation} {P : Directory → Prop}

/-! ## The writes -/

theorem wp_publishExclusive (hsame : P d) (hput : d.slots.lookup name = none → P (d.putSlot name s)) :
    wp (publishExclusive env name s) (fun _ => P) (fun _ => P) d := by
  simp only [publishExclusive, wp_bind, wp_liftM, wp_failIf, wp_get, wp_modify]
  refine ⟨fun _ _ => ⟨fun _ => hsame, fun _ => ⟨fun _ => hsame, fun hnone => ?_⟩⟩, fun _ _ => hsame⟩
  apply hput
  simpa using hnone

theorem wp_replaceAtomic {Q : PUnit → Directory → Prop} {E : CapacityFailure → Directory → Prop}
    (hE : ∀ e, E e d) (hQ : Q ⟨⟩ (d.putSlot name s)) : wp (replaceAtomic env name s) Q E d := by
  simp only [replaceAtomic, wp_bind, wp_liftM, wp_failIf, wp_modify]
  exact ⟨fun _ _ => ⟨fun _ => hE _, fun _ => hQ⟩, fun _ _ => hE _⟩

/-- A publication leaves the directory as it was, or with the new record. -/
theorem wp_publishPreparedCapacity {boundary : Option PreparedCapacityBoundary} {replace : Bool}
    (hsame : P d)
    (hput : ∀ linked, (replace = true ∧ linked = false) ∨
        (replace = false ∧ d.reservations.lookup name = none) →
      r.Consistent → reservationBytes r ≤ maxRepositoryTicketSlotBytes →
      P (d.putReservation name ⟨r, linked⟩)) :
    wp (publishPreparedCapacity boundary name r replace) (fun _ => P) (fun _ => P) d := by
  simp only [publishPreparedCapacity, wp_bind, wp_demand, wp_failIf]
  refine ⟨fun _ => hsame, fun r' hr' => ⟨fun _ => hsame, fun hbytes => ⟨fun _ => hsame,
    fun _ => ?_⟩⟩⟩
  obtain ⟨hc, rfl⟩ := parseIdlePreparationReservation_toJson_iff.1 hr'
  have hsize := not_lt.1 hbytes
  cases replace with
  | true =>
    have h := hput false (.inl ⟨rfl, rfl⟩) hc hsize
    simp only [placeReservation, if_true, wp_modify, wp_get]
    exact ⟨fun _ => h, fun _ => ⟨fun _ => h, fun _ => ⟨fun _ => h, fun _ => h⟩⟩⟩
  | false =>
    simp only [placeReservation, Bool.false_eq_true, if_false, wp_bind, wp_get, wp_failIf, wp_modify]
    refine ⟨fun _ => hsame, fun hnone => ?_⟩
    have hn : d.reservations.lookup name = none := by simpa using hnone
    have hput₂ : (d.putReservation name ⟨r', true⟩).putReservation name ⟨r', false⟩ =
        d.putReservation name ⟨r', false⟩ := by
      simp only [Directory.putReservation, AList.insert_insert]
    have h := hput false (.inr ⟨rfl, hn⟩) hc hsize
    rw [hput₂]
    exact ⟨fun _ => hput true (.inr ⟨rfl, hn⟩) hc hsize, fun _ => ⟨fun _ => h, fun _ => ⟨fun _ => h,
      fun _ => ⟨fun _ => h, fun _ => h⟩⟩⟩⟩

/-! ## The changes -/

/-- What a call makes of a reservation. -/
inductive Advances : IdlePreparationReservation → IdlePreparationReservation → Prop
  | updated {r r' : IdlePreparationReservation} : SameIdentity r r' → r'.Consistent →
      r'.occupancy ∈ allowed r.occupancy → (r.receiptId ≠ none → r'.receiptId = r.receiptId) →
      (r.lineageId ≠ none → r'.lineageId = r.lineageId) → Advances r r'
  | transferred {r : IdlePreparationReservation} {holder holder' : Custody.ExecutionHolder} :
      r.occupancy = .active → r.custody = .held .orchestratorDirect holder none →
      Advances r { r with custody := .held .orchestratorDirect holder' none }
  | settled {r : IdlePreparationReservation} : r.occupancy = .active →
      (settledReservation r).Consistent → Advances r (settledReservation r)

inductive Change (digest : String → String) (c : Call) (d : Directory) : Directory → Prop
  | same : Change digest c d d
  | acquired {env : Environment} {o : AcquireOptions} {name : String} {s : RepositoryTicketSlot} :
      c = .acquire env o → d.slots.lookup name = none → name = digest (trim o.ticket) →
      s.ticket = trim o.ticket → (∀ row ∈ d.rows, row.ticket ≠ o.ticket) →
      (∀ row ∈ d.rows, row.repositoryPermit ≠ s.repositoryPermit) →
      (∀ f ∈ d.files, f.name = digest (trim f.row.ticket)) →
      Change digest c d (d.putSlot name s)
  | rewritten {name : String} {s s' : RepositoryTicketSlot} : d.slots.lookup name = some s →
      s'.ticket = s.ticket → s'.repositoryPermit = s.repositoryPermit →
      Change digest c d (d.putSlot name s')
  | split {env : Environment} {root deploymentId : String} {owner : RepositoryTicketSlotHandoff}
      {input : IntentInput} {existingOnly : Bool} {name : String} {f : PreparedFile}
      {s : RepositoryTicketSlot} :
      c = .ordinaryIntent env root owner deploymentId input existingOnly →
      d.slots.lookup name = none → d.reservations.lookup name = some f →
      f.reservation.occupancy = .active → f.reservation.ticket.1 = owner.ticket →
      Change digest c d (d.putSlot name s)
  | removed {env : Environment} {h : RepositoryTicketSlotHandoff} {name : String}
      {s : RepositoryTicketSlot} : c = .release env h → d.slots.lookup name = some s →
      slotMatchesHandoff s h = true → s.slotToken = h.slotToken →
      Change digest c d (d.removeSlot name)
  | reserved {name : String} {r : IdlePreparationReservation} {linked : Bool} :
      d.reservations.lookup name = none → r.Consistent →
      reservationBytes r ≤ maxRepositoryTicketSlotBytes → r.occupancy = .preparing →
      (∀ row ∈ d.rows, ¬ capacityRowsConflict row (.reservation r)) →
      Change digest c d (d.putReservation name ⟨r, linked⟩)
  | advanced {name : String} {f : PreparedFile} {r' : IdlePreparationReservation} :
      d.reservations.lookup name = some f → f.linked = false → r'.Consistent →
      reservationBytes r' ≤ maxRepositoryTicketSlotBytes → Advances f.reservation r' →
      (r'.lineageId = f.reservation.lineageId ∨ ∀ row ∈ (d.removeReservation name).rows,
        ¬ capacityRowsConflict row (.reservation r')) →
      Change digest c d (d.putReservation name ⟨r', false⟩)

/-! ## Acquisition -/

theorem freePermit_spec {rows : List CapacityRow} {p : Permit} (h : freePermit rows = some p) :
    ∀ row ∈ rows, row.repositoryPermit ≠ p := by
  have hp := List.find?_some h
  simpa using hp

theorem newSlot_ok {o : AcquireOptions} {p : Permit} (h : newSlot env o p = .ok s) :
    s.ticket = trim o.ticket ∧ s.repositoryPermit = p := by
  simp only [newSlot, bind_eq_ok, require_eq_ok, throwIf_eq_ok, pure_eq_ok] at h
  obtain ⟨_, -, _, -, token, -, key, -, ticket, ht, _, -, _, -, rfl⟩ := h
  simp only [required, bind_eq_ok, throwIf_eq_ok, pure_eq_ok] at ht
  obtain ⟨_, -, rfl⟩ := ht
  exact ⟨rfl, rfl⟩

theorem acquire_change (o : AcquireOptions) :
    wp (acquireRepositoryTicketSlot digest env o)
      (fun _ => Change digest (.acquire env o) d) (fun _ => Change digest (.acquire env o) d) d := by
  simp only [acquireRepositoryTicketSlot, wp_bind, wp_liftM, wp_get]
  refine ⟨fun _ _ => ⟨fun name hname => ?_, fun _ _ => .same⟩, fun _ _ => .same⟩
  rcases hinv : readInventory digest env.getProcessFingerprint false o.canonicalRepoRoot
    o.canonicalRepoKey d with e | rows
  · have hsame : Change digest (.acquire env o) d d := .same
    cases e <;> first | exact wp_pure.2 hsame | exact wp_throw.2 hsame
  · obtain ⟨rfl, hfiled, -⟩ := readInventory_ok hinv
    simp only [takePermit, wp_ite, wp_pure, wp_bind, wp_demand, wp_liftM]
    refine ⟨fun _ => .same, fun hticket => ⟨fun _ => .same, fun _ => ⟨fun _ => .same, fun p hp =>
      ⟨fun s hs => ?_, fun _ _ => .same⟩⟩⟩⟩
    obtain ⟨h1, h2⟩ := newSlot_ok hs
    refine wp_publishExclusive .same fun hnone => ?_
    refine .acquired rfl hnone (fileName_ok digest hname) h1 ?_ ?_ fun f hf => (hfiled f hf).name
    · intro row hrow heq
      exact hticket ⟨row, hrow, heq⟩
    · intro row hrow
      rw [h2]
      exact freePermit_spec hp row hrow

/-! ## Transfer and release -/

theorem executionSlot_ok {located : Located} (h : executionSlot d name = .ok located) :
    (located = .absent ∧ d.slots.lookup name = none ∧ d.reservations.lookup name = none) ∨
    (∃ s, located = .slot s ∧ d.slots.lookup name = some s) ∨
    ∃ f, located = .reservation f ∧ d.reservations.lookup name = some f ∧
      d.slots.lookup name = none := by
  unfold executionSlot at h
  cases hs : d.slots.lookup name with
  | none =>
    cases hr : d.reservations.lookup name with
    | none =>
      simp only [hs, hr] at h
      cases h
      exact .inl ⟨rfl, rfl, rfl⟩
    | some f =>
      simp only [hs, hr] at h
      cases h
      exact .inr (.inr ⟨f, rfl, rfl, rfl⟩)
  | some s =>
    cases hr : d.reservations.lookup name with
    | none =>
      simp only [hs, hr] at h
      cases h
      exact .inr (.inl ⟨s, rfl, rfl⟩)
    | some f => simp [hs, hr] at h

/-- A reservation that can be viewed as a slot is active, under a holder. -/
theorem preparedSlotView_found (h : preparedSlotView r.toJson = .found s) :
    r.Consistent ∧ r.occupancy = .active ∧ ∃ launch holder,
      r.custody = .held .orchestratorDirect holder none ∧ s = slotView r launch holder := by
  unfold preparedSlotView at h
  cases hp : parseIdlePreparationReservation r.toJson with
  | none => simp [hp] at h
  | some r' =>
    obtain ⟨hc, rfl⟩ := parseIdlePreparationReservation_toJson_iff.1 hp
    simp only [hp] at h
    split at h
    · cases h
    · rename_i launch holder h1 h2 h3
      cases h
      exact ⟨hc, h1, launch, holder, h3, rfl⟩
    · cases h

theorem readSlot_found {located : Located} (h : readSlot located = .found s) :
    located = .slot s ∨ ∃ f, located = .reservation f ∧ f.linked = false ∧
      preparedSlotView f.reservation.toJson = .found s := by
  cases located with
  | absent => cases h
  | slot s' =>
    rw [readSlot] at h
    split_ifs at h
    cases h
    exact .inl rfl
  | reservation f =>
    rw [readSlot] at h
    split_ifs at h with hl
    exact .inr ⟨f, rfl, by simpa using hl, h⟩

theorem authenticateHandoff_ok {located : Located} {h : RepositoryTicketSlotHandoff}
    (ha : authenticateHandoff located h = .ok s) :
    readSlot located = .found s ∧ slotMatchesHandoff s h = true ∧ s.slotToken = h.slotToken := by
  unfold authenticateHandoff at ha
  cases hr : readSlot located with
  | absent => simp [hr] at ha
  | invalid => simp [hr] at ha
  | found s' =>
    simp only [hr, bind_eq_ok, throwIf_eq_ok, pure_eq_ok] at ha
    obtain ⟨_, h1, _, h2, rfl⟩ := ha
    exact ⟨rfl, by simpa using h1, not_not.1 h2⟩

theorem transfer_change (h : RepositoryTicketSlotHandoff) (next : ProcessFingerprint) {c : Call} :
    wp (transferRepositoryTicketSlot digest env h next)
      (fun _ => Change digest c d) (fun _ => Change digest c d) d := by
  simp only [transferRepositoryTicketSlot, wp_bind, wp_liftM, wp_get]
  refine ⟨fun _ _ => ⟨fun name _ => ⟨fun located hl => ?_, fun _ _ => .same⟩, fun _ _ => .same⟩,
    fun _ _ => .same⟩
  rcases ha : authenticateHandoff located h with response | slot
  · exact wp_pure.2 .same
  obtain ⟨hread, -, -⟩ := authenticateHandoff_ok ha
  simp only [wp_ite, wp_pure]
  refine ⟨fun _ => .same, fun _ => ?_⟩
  rcases executionSlot_ok hl with ⟨rfl, -, -⟩ | ⟨s', rfl, hs⟩ | ⟨f, rfl, hf, -⟩
  · cases hread
  · rcases readSlot_found hread with heq | ⟨f, hf, -⟩
    · cases heq
      simp only [writeTransfer, wp_bind, wp_pure]
      exact wp_replaceAtomic (fun _ => .same) (.rewritten hs rfl rfl)
    · cases hf
  · rcases readSlot_found hread with heq | ⟨f', hf', hlinked, hview⟩
    · cases heq
    · cases hf'
      obtain ⟨-, hact, launch, holder, hcust, rfl⟩ := preparedSlotView_found hview
      simp only [writeTransfer, wp_bind, wp_demand, wp_ite, wp_pure]
      refine ⟨fun _ => .same, fun r hr => ⟨fun _ => .same, fun _ => ⟨fun _ => .same, fun r' hr' => ?_⟩⟩⟩
      obtain ⟨-, rfl⟩ := parseIdlePreparationReservation_toJson_iff.1 hr
      refine wp_publishPreparedCapacity .same fun linked hlink hc hsize => ?_
      rcases hlink with ⟨-, rfl⟩ | ⟨h', -⟩
      · simp only [transferredReservation, hcust, Option.bind_eq_some_iff] at hr'
        obtain ⟨holder', -, hr'⟩ := hr'
        obtain ⟨-, rfl⟩ := parseIdlePreparationReservation_toJson_iff.1 hr'
        exact .advanced hf hlinked hc hsize (.transferred hact hcust) (.inl rfl)
      · cases h'

theorem release_change (h : RepositoryTicketSlotHandoff) :
    wp (releaseRepositoryTicketSlot digest env h)
      (fun _ => Change digest (.release env h) d) (fun _ => Change digest (.release env h) d) d := by
  simp only [releaseRepositoryTicketSlot, wp_bind, wp_liftM, wp_get]
  refine ⟨fun _ _ => ⟨fun name _ => ⟨fun located hl => ?_, fun _ _ => .same⟩, fun _ _ => .same⟩,
    fun _ _ => .same⟩
  rcases ha : authenticateHandoff located h with response | slot
  · exact wp_pure.2 .same
  obtain ⟨hread, hmatch, htoken⟩ := authenticateHandoff_ok ha
  simp only [wp_ite, wp_pure]
  refine ⟨fun _ => .same, fun _ => ?_⟩
  rcases executionSlot_ok hl with ⟨rfl, -, -⟩ | ⟨s', rfl, hs⟩ | ⟨f, rfl, hf, -⟩
  · cases hread
  · rcases readSlot_found hread with heq | ⟨f, hf, -⟩
    · cases heq
      simp only [writeRelease, wp_bind, wp_pure, wp_modify]
      exact .removed rfl hs hmatch htoken
    · cases hf
  · rcases readSlot_found hread with heq | ⟨f', hf', hlinked, hview⟩
    · cases heq
    · cases hf'
      obtain ⟨-, hact, -⟩ := preparedSlotView_found hview
      simp only [writeRelease, wp_bind, wp_demand, wp_ite, wp_pure]
      refine ⟨fun _ => .same, fun r hr => ⟨fun _ => .same, fun _ => ⟨fun _ => .same, fun r' hr' => ?_⟩⟩⟩
      obtain ⟨-, rfl⟩ := parseIdlePreparationReservation_toJson_iff.1 hr
      obtain ⟨hc', rfl⟩ := parseIdlePreparationReservation_toJson_iff.1 hr'
      refine wp_publishPreparedCapacity .same fun linked hlink hc hsize => ?_
      rcases hlink with ⟨-, rfl⟩ | ⟨h', -⟩
      · exact .advanced hf hlinked hc hsize (.settled hact hc') (.inl rfl)
      · cases h'

/-! ## Intents -/

theorem observe_ok {root ticket : String}
    (h : observeReadonlyRepositoryTicketSlot digest env root ticket d = .ok s) :
    ∃ located, executionSlot d (digest (trim ticket)) = .ok located ∧ readSlot located = .found s := by
  simp only [observeReadonlyRepositoryTicketSlot, bind_eq_ok] at h
  obtain ⟨_, -, name, hname, located, hl, h⟩ := h
  obtain rfl := fileName_ok digest hname
  refine ⟨located, hl, ?_⟩
  cases hr : readSlot located with
  | absent => simp [hr] at h
  | invalid => simp [hr] at h
  | found s' =>
    simp only [hr, bind_eq_ok, pure_eq_ok] at h
    obtain ⟨_, -, rfl⟩ := h
    rfl

theorem ordinaryIntent_change (root : String) (owner : RepositoryTicketSlotHandoff)
    (deploymentId : String) (input : IntentInput) (existingOnly : Bool) {c : Call}
    (hc : c = .ordinaryIntent env root owner deploymentId input existingOnly) :
    wp (ordinaryIntent digest env root owner deploymentId input existingOnly)
      (fun _ => Change digest c d) (fun _ => Change digest c d) d := by
  simp only [ordinaryIntent, wp_bind, wp_liftM, wp_failIf, wp_get]
  refine ⟨fun _ _ => ⟨fun _ => .same, fun _ => ⟨fun slot hslot => ⟨fun _ => .same, fun hauth =>
    ⟨fun _ => .same, fun _ => ?_⟩⟩, fun _ _ => .same⟩⟩, fun _ _ => .same⟩
  obtain ⟨located, hl, hread⟩ := observe_ok hslot
  have hticket : slot.ticket = owner.ticket := by
    rw [not_or, Bool.not_eq_false] at hauth
    simp only [slotMatchesHandoff, Bool.and_eq_true, beq_iff_eq] at hauth
    exact hauth.1.1.1.2
  unfold recordIntent
  rcases hi : slot.materializationIntent with _ | stored
  · simp only [wp_bind, wp_failIf, wp_liftM, wp_get, wp_pure]
    refine ⟨fun _ => .same, fun _ => ⟨fun name hname => ?_, fun _ _ => .same⟩⟩
    have hwrite : Change digest c d
        (d.putSlot name { slot with materializationIntent := some (intentFor digest slot.slotToken input) }) := by
      have hn := fileName_ok digest hname
      rw [hticket] at hn
      subst hn
      rcases executionSlot_ok hl with ⟨rfl, -, -⟩ | ⟨s', rfl, hs⟩ | ⟨f, rfl, hf, hnone⟩
      · cases hread
      · rcases readSlot_found hread with heq | ⟨f, hf, -⟩
        · cases heq
          exact .rewritten hs rfl rfl
        · cases hf
      · rcases readSlot_found hread with heq | ⟨f', hf', -, hview⟩
        · cases heq
        · cases hf'
          obtain ⟨-, hact, launch, holder, -, rfl⟩ := preparedSlotView_found hview
          exact .split hc hnone hf hact hticket
    exact wp_replaceAtomic (fun _ => .same)
      ⟨fun _ _ => ⟨fun _ => hwrite, fun _ => hwrite⟩, fun _ _ => hwrite⟩
  · simp only [wp_bind, wp_failIf, wp_pure]
    exact ⟨fun _ => .same, fun _ => .same⟩

/-! ## Prepared capacity -/

theorem inventory_ok {o : CapacityOptions} {key : String} {rows : List CapacityRow}
    (h : inventory digest env o key d = .ok rows) :
    rows = d.rows ∧ (∀ f ∈ d.files, Filed digest o.canonicalRepoRoot key f) ∧
      d.rows.Pairwise fun a b => ¬ capacityRowsConflict a b := by
  simp only [inventory, bind_eq_ok, throwIf_eq_ok, pure_eq_ok] at h
  obtain ⟨rows', hr, _, -, rfl⟩ := h
  exact readInventory_ok hr

/-- The row that `reserve` writes is `preparing`. -/
theorem preparingRow_ok {key root : String} {p : Permit} {i : ReserveInput}
    (h : parseIdlePreparationReservation (preparingRow key root p i) = some r) :
    r.Consistent ∧ r.occupancy = .preparing := by
  refine ⟨parseIdlePreparationReservation_consistent h, ?_⟩
  have hobj : Json.exactObject (Custody.reservationKeys (preparingRow key root p i))
      (preparingRow key root p i) = some [.str "prepared-reservation/v1", .str key, .str root,
        .str i.ticket, .str i.operationId, .str i.reservationId, .num p.1,
        .str Custody.ReservationOccupancy.preparing.text, .null,
        Custody.ExecutionCustody.idle.toJson, .null, .str i.retainedAt] := by
    have hn : (IdlePreparationReservation.keys ++ []).Nodup := by decide +kernel
    exact Json.exactObject_zip hn rfl
  unfold parseIdlePreparationReservation at h
  rw [hobj] at h
  dsimp only [Option.bind_eq_bind, Option.bind_some] at h
  iterate 7 obtain ⟨_, -, h⟩ := Option.bind_eq_some_iff.1 h
  obtain ⟨occupancy, ho, h⟩ := Option.bind_eq_some_iff.1 h
  iterate 6 obtain ⟨_, -, h⟩ := Option.bind_eq_some_iff.1 h
  cases h
  rw [Custody.parseOccupancy_text] at ho
  exact (Option.some.inj ho).symm

theorem reserve_change (o : CapacityOptions) (i : ReserveInput) {c : Call} :
    wp (reserve digest env o i) (fun _ => Change digest c d) (fun _ => Change digest c d) d := by
  simp only [reserve, wp_bind, wp_liftM, wp_get]
  refine ⟨fun key _ => ⟨fun rows hrows => ?_, fun _ _ => .same⟩, fun _ _ => .same⟩
  obtain ⟨rfl, -, -⟩ := inventory_ok hrows
  generalize List.find? _ d.rows = found
  rcases found with _ | (s | r)
  · unfold reserveNew
    rcases freePermit d.rows with _ | permit
    · exact wp_pure.2 .same
    · simp only [wp_bind, wp_demand, wp_failIf, wp_liftM, wp_pure]
      refine ⟨fun _ => .same, fun r hr => ⟨fun _ => .same, fun hno => ⟨fun name hname => ?_,
        fun _ _ => .same⟩⟩⟩
      obtain ⟨-, hprep⟩ := preparingRow_ok hr
      refine wp_publishPreparedCapacity .same fun linked hlink hc hsize => ?_
      rcases hlink with ⟨h', -⟩ | ⟨-, hnone⟩
      · cases h'
      · refine .reserved hnone hc hsize hprep ?_
        intro row hrow hconf
        exact hno ⟨row, hrow, hconf⟩
  · exact wp_throw.2 .same
  · simp only [wp_bind, wp_failIf, wp_pure]
    exact ⟨fun _ => .same, fun _ => .same⟩

/-- The record of a row that is in the inventory stands under the name of its
    ticket. -/
theorem lookup_of_filed {root key : String} (hfiled : ∀ f ∈ d.files, Filed digest root key f)
    (hrow : CapacityRow.reservation r ∈ d.rows) :
    d.reservations.lookup (digest (trim r.ticket.1)) = some ⟨r, false⟩ := by
  rcases Directory.mem_rows.1 hrow with ⟨n, s, -, h⟩ | ⟨n, f, hf, h⟩
  · cases h
  · cases h
    have hmem : (⟨n, .reservation f.reservation, f.linked⟩ : File) ∈ d.files :=
      List.mem_append_right _ (List.mem_map.2 ⟨⟨n, f⟩, AList.mem_lookup_iff.1 hf, rfl⟩)
    obtain ⟨hname, hread, -, -⟩ := hfiled _ hmem
    have hlinked : f.linked = false := by
      rcases hread with h | ⟨s, h⟩
      · exact h
      · cases h
    have hn : n = digest (trim f.reservation.ticket.1) := hname
    rw [← hn, hf, ← hlinked]

theorem lookup_slot_of_filed {root key : String} (hfiled : ∀ f ∈ d.files, Filed digest root key f)
    (hrow : CapacityRow.slot s ∈ d.rows) : d.slots.lookup (digest (trim s.ticket)) = some s := by
  rcases Directory.mem_rows.1 hrow with ⟨n, s, hs, h⟩ | ⟨n, f, -, h⟩
  · cases h
    have hmem : (⟨n, .slot s, false⟩ : File) ∈ d.files :=
      List.mem_append_left _ (List.mem_map.2 ⟨⟨n, s⟩, AList.mem_lookup_iff.1 hs, rfl⟩)
    have hn : n = digest (trim s.ticket) := (hfiled _ hmem).name
    rw [← hn, hs]
  · cases h

theorem update_change (o : CapacityOptions) (expectedInput nextInput : Json) {c : Call} :
    wp (update digest env o expectedInput nextInput) (fun _ => Change digest c d)
      (fun _ => Change digest c d) d := by
  simp only [update, wp_bind, wp_liftM, wp_demand, wp_get]
  refine ⟨fun key _ => ⟨fun _ => .same, fun expected _ => ⟨fun _ => .same, fun next hnext =>
    ⟨fun rows hrows => ?_, fun _ _ => .same⟩⟩⟩, fun _ _ => .same⟩
  obtain ⟨rfl, hfiled, hpair⟩ := inventory_ok hrows
  simp only [wp_ite, wp_throw]
  refine ⟨fun hfind => ?_, fun _ => .same⟩
  have hmem : CapacityRow.reservation expected ∈ d.rows := List.mem_of_find?_eq_some hfind
  have hstored := lookup_of_filed hfiled hmem
  simp only [replaceReservation, wp_bind, wp_failIf, wp_ite, wp_pure, wp_liftM]
  refine ⟨fun _ => .same, fun hid => ⟨fun _ => .same, fun hne => ⟨fun _ => .same, fun hno =>
    ⟨fun _ => .same, fun htrans => ⟨fun _ => .same, fun _ => ⟨fun name hname => ?_,
      fun _ _ => .same⟩⟩⟩⟩⟩⟩
  have hid' : SameIdentity expected next := not_not.1 hid
  rw [fileName_ok digest hname, hid'.2.2.1]
  refine wp_publishPreparedCapacity .same fun linked hlink hc hsize => ?_
  rcases hlink with ⟨-, rfl⟩ | ⟨h', -⟩
  · rw [not_or, not_or, not_not, not_and, not_and, not_not, not_not] at htrans
    refine .advanced hstored rfl hc hsize (.updated hid' hc htrans.1 htrans.2.1 htrans.2.2) (.inr ?_)
    intro row hrow hconf
    have hperm := Directory.perm_removeReservation hstored
    have hrest := (hperm.pairwise_iff fun {a b} hab hba => hab hba.symm).1 hpair
    have hout := (List.pairwise_cons.1 hrest).1 row hrow
    refine hno ⟨row, hperm.mem_iff.2 (List.mem_cons_of_mem _ hrow), ?_, hconf⟩
    intro hticket
    exact hout (.inl hticket.symm)
  · cases h'

theorem handoffExecution_change (o : CapacityOptions) (expected : RepositoryTicketSlot)
    (source : NativeRestart) {c : Call} :
    wp (handoffExecution digest env o expected source) (fun _ => Change digest c d)
      (fun _ => Change digest c d) d := by
  simp only [handoffExecution, wp_bind, wp_liftM, wp_demand, wp_failIf, wp_get]
  refine ⟨fun key _ => ⟨fun _ => .same, fun _ _ => ⟨fun _ => .same, fun _ => ⟨fun _ => .same,
    fun _ _ => ⟨fun _ => .same, fun _ => ⟨fun _ => .same, fun _ => ⟨fun _ => .same, fun _ =>
      ⟨fun _ => .same, fun _ => ⟨fun rows hrows => ?_, fun _ _ => .same⟩⟩⟩⟩⟩⟩⟩⟩, fun _ _ => .same⟩
  obtain ⟨rfl, hfiled, -⟩ := inventory_ok hrows
  generalize hfind : List.find? _ d.rows = found
  rcases found with _ | (current | r)
  · exact wp_throw.2 .same
  · have hstored := lookup_slot_of_filed hfiled (List.mem_of_find?_eq_some hfind)
    have hticket : current.ticket = source.ticket := by
      have h := List.find?_some hfind
      exact of_decide_eq_true h
    simp only [swapSlot, wp_bind, wp_failIf, wp_ite, wp_pure, wp_liftM]
    refine ⟨fun _ => .same, fun hcas => ⟨fun _ => ⟨fun _ => .same, fun _ => .same⟩, fun hne =>
      ⟨fun name hname => ?_, fun _ _ => .same⟩⟩⟩
    have heq : current = expected := by
      by_contra hcur
      exact hcas ⟨hcur, hne⟩
    subst heq
    have hwrite : Change digest c d (d.putSlot name (restartedSlot current source)) := by
      rw [fileName_ok digest hname, ← hticket]
      exact .rewritten hstored rfl rfl
    exact wp_replaceAtomic (fun _ => .same) ⟨fun _ => hwrite, fun _ => ⟨fun _ => hwrite, fun _ => hwrite⟩⟩
  · exact wp_throw.2 .same

/-! ## All calls -/

/-- **Every call makes one of the changes.** -/
theorem change_after (c : Call) (d : Directory) : Change digest c d (after digest c d) := by
  refine wp_state.1 ?_
  cases c with
  | acquire env o => exact acquire_change o
  | transfer env h next => exact transfer_change h next
  | release env h => exact release_change h
  | ordinaryIntent env root owner id input existingOnly =>
    exact ordinaryIntent_change root owner id input existingOnly rfl
  | reserve env o i => exact reserve_change o i
  | update env o expected next => exact update_change o expected next
  | handoffExecution env o expected source => exact handoffExecution_change o expected source

end PaPlatform.Capacity
