/-
  The records of a repository stay within its capacity.

  No two stored records conflict, so there are at most four of them.  Two calls
  break this: an acquisition that names the ticket of a reservation with blanks
  around it, and an intent for the ticket of an active reservation.  `separate`
  says that a call is neither.
-/
import PaPlatform.Capacity.Changes

namespace PaPlatform.Capacity

open Js Guard Effect
open Registry (trim trim_trim)
open Custody (IdlePreparationReservation)

variable {digest : String → String} {c : Call} {d d' : Directory} {name : String}
  {s s' : RepositoryTicketSlot} {r r' : IdlePreparationReservation}

/-! ## Runs -/

/-- A call that satisfies `ok` in the state before it. -/
def Step (digest : String → String) (ok : Call → Directory → Prop) (d d' : Directory) : Prop :=
  ∃ c, ok c d ∧ d' = after digest c d

/-- The directories that calls with `ok` reach from the empty one. -/
def Reachable (digest : String → String) (ok : Call → Directory → Prop) (d : Directory) : Prop :=
  Relation.ReflTransGen (Step digest ok) .empty d

/-- The call neither acquires, with blanks around it, the ticket of a stored
    reservation, nor records an intent for that of an active one. -/
def Call.separate (c : Call) (d : Directory) : Prop :=
  match c with
  | .acquire _ o => ∀ n f, d.reservations.lookup n = some f →
      f.reservation.ticket.1 = trim o.ticket → o.ticket = trim o.ticket
  | .ordinaryIntent _ _ owner _ _ _ => ∀ n f, d.reservations.lookup n = some f →
      f.reservation.ticket.1 = owner.ticket → f.reservation.occupancy ≠ .active
  | _ => True

/-! ## No two records conflict -/

def Exclusive (d : Directory) : Prop := d.rows.Pairwise fun a b => ¬ capacityRowsConflict a b

theorem exclusive_iff_of_perm {l l' : List CapacityRow} (h : l.Perm l') :
    (l.Pairwise fun a b => ¬ capacityRowsConflict a b) ↔
      l'.Pairwise fun a b => ¬ capacityRowsConflict a b :=
  h.pairwise_iff fun {_ _} hab hba => hab hba.symm

theorem exclusive_putReservation {linked : Bool} :
    Exclusive (d.putReservation name ⟨r, linked⟩) ↔
      (∀ row ∈ (d.removeReservation name).rows, ¬ capacityRowsConflict (.reservation r) row) ∧
        Exclusive (d.removeReservation name) := by
  rw [Exclusive, exclusive_iff_of_perm Directory.rows_putReservation, List.pairwise_cons]
  exact Iff.rfl

theorem exclusive_removeReservation {f : PreparedFile} (h : d.reservations.lookup name = some f) :
    Exclusive d ↔
      (∀ row ∈ (d.removeReservation name).rows,
        ¬ capacityRowsConflict (.reservation f.reservation) row) ∧
        Exclusive (d.removeReservation name) := by
  rw [Exclusive, exclusive_iff_of_perm (Directory.perm_removeReservation h), List.pairwise_cons]
  exact Iff.rfl

theorem exclusive_putSlot : Exclusive (d.putSlot name s) ↔
    (∀ row ∈ (d.removeSlot name).rows, ¬ capacityRowsConflict (.slot s) row) ∧
      Exclusive (d.removeSlot name) := by
  rw [Exclusive, Directory.rows_putSlot, List.pairwise_cons]
  exact Iff.rfl

theorem exclusive_removeSlot (h : d.slots.lookup name = some s) : Exclusive d ↔
    (∀ row ∈ (d.removeSlot name).rows, ¬ capacityRowsConflict (.slot s) row) ∧
      Exclusive (d.removeSlot name) := by
  rw [Exclusive, exclusive_iff_of_perm (Directory.perm_removeSlot h), List.pairwise_cons]
  exact Iff.rfl

/-- A slot conflicts by its ticket and its permit only. -/
theorem conflict_slot {row : CapacityRow} : capacityRowsConflict (.slot s) row ↔
    s.ticket = row.ticket ∨ s.repositoryPermit = row.repositoryPermit := by
  unfold capacityRowsConflict SameOperation
  cases row <;> simp

/-- A reservation with the same identity and lineage has the same conflicts. -/
theorem conflict_congr {row : CapacityRow} (h : SameIdentity r r')
    (hl : r'.lineageId = r.lineageId) (hc : capacityRowsConflict (.reservation r') row) :
    capacityRowsConflict (.reservation r) row := by
  obtain ⟨-, -, h1, h2, h3, h4, -⟩ := h
  unfold capacityRowsConflict SameOperation at *
  simp only [CapacityRow.ticket_reservation, CapacityRow.permit_reservation, h1, h4] at hc ⊢
  cases row with
  | slot s => exact hc
  | reservation r'' =>
    simp only [h2, h3, hl] at hc
    exact hc

theorem Advances.sameIdentity (h : Advances r r') : SameIdentity r r' := by
  cases h with
  | updated h => exact h
  | transferred => exact ⟨rfl, rfl, rfl, rfl, rfl, rfl, rfl⟩
  | settled => exact ⟨rfl, rfl, rfl, rfl, rfl, rfl, rfl⟩

/-- **Every call that keeps the two kinds of record separate keeps them
    exclusive.** -/
theorem Change.exclusive (h : Change digest c d d') (hs : c.separate d) (hd : Exclusive d) :
    Exclusive d' := by
  cases h with
  | same => exact hd
  | @acquired env o name s hc hnone hname ht hticket hpermit hfiled =>
    subst hc
    rw [exclusive_putSlot, Directory.removeSlot_of_none hnone]
    refine ⟨fun row hrow hconf => ?_, hd⟩
    rcases conflict_slot.1 hconf with heq | heq
    · rw [ht] at heq
      rcases Directory.mem_rows.1 hrow with ⟨n, s', hs', rfl⟩ | ⟨n, f, hf, rfl⟩
      · -- the slot of the trimmed ticket stands at the path that must be free
        have hmem : (⟨n, .slot s', false⟩ : File) ∈ d.files :=
          List.mem_append_left _ (List.mem_map.2 ⟨⟨n, s'⟩, AList.mem_lookup_iff.1 hs', rfl⟩)
        have hn : n = digest (trim s'.ticket) := hfiled _ hmem
        rw [CapacityRow.ticket_slot] at heq
        rw [← heq, trim_trim, ← hname] at hn
        rw [hn, hnone] at hs'
        cases hs'
      · have hblank := hs n f hf heq.symm
        exact hticket _ hrow (heq.symm.trans hblank.symm)
    · exact hpermit _ hrow heq.symm
  | @rewritten name s s' hstored ht hp =>
    rw [exclusive_removeSlot hstored] at hd
    rw [exclusive_putSlot]
    refine ⟨fun row hrow hconf => hd.1 row hrow ?_, hd.2⟩
    rw [conflict_slot, ht, hp] at hconf
    exact conflict_slot.2 hconf
  | @split env root id owner input e name f s hc hnone hf hact ht =>
    subst hc
    exact absurd hact (hs _ f hf ht)
  | removed hc hstored _ _ =>
    exact ((exclusive_removeSlot hstored).1 hd).2
  | reserved hnone _ _ _ hno =>
    rw [exclusive_putReservation, Directory.removeReservation_of_none hnone]
    exact ⟨fun row hrow hconf => hno row hrow hconf.symm, hd⟩
  | advanced hstored _ _ _ hadv hroom =>
    rw [exclusive_removeReservation hstored] at hd
    rw [exclusive_putReservation]
    refine ⟨fun row hrow hconf => ?_, hd.2⟩
    rcases hroom with hl | hroom
    · exact hd.1 row hrow (conflict_congr hadv.sameIdentity hl hconf)
    · exact hroom row hrow hconf.symm

theorem Reachable.exclusive (h : Reachable digest Call.separate d) : Exclusive d := by
  induction h with
  | refl => exact .nil
  | tail _ hstep ih =>
    obtain ⟨c, hc, rfl⟩ := hstep
    exact (change_after c _).exclusive hc ih

/-! ## Capacity -/

/-- The stored reservations. -/
def Directory.prepared (d : Directory) : List IdlePreparationReservation :=
  (Table.values d.reservations).map (·.reservation)

/-- What the capacity of a repository asks of its records. -/
structure WithinCapacity (d : Directory) : Prop where
  count : d.rows.length ≤ maxRepositoryTicketSlots
  tickets : (d.rows.map (·.ticket)).Nodup
  permits : (d.rows.map (·.repositoryPermit)).Nodup
  range : ∀ row ∈ d.rows, 1 ≤ row.repositoryPermit.1 ∧ row.repositoryPermit.1 ≤ 4
  operations : (d.prepared.map (·.operationId)).Nodup
  reservations : (d.prepared.map (·.reservationId)).Nodup
  lineages : (d.prepared.filterMap (·.lineageId)).Nodup
  formats : ∀ n m s f, d.slots.lookup n = some s → d.reservations.lookup m = some f →
    s.ticket ≠ f.reservation.ticket.1

theorem Exclusive.prepared (h : Exclusive d) : d.prepared.Pairwise fun a b =>
    ¬ capacityRowsConflict (.reservation a) (.reservation b) := by
  have h' := (List.pairwise_append.1 h).2.1
  rw [List.pairwise_map] at h'
  unfold Directory.prepared
  rw [List.pairwise_map]
  exact h'

/-- A list of distinct permits has at most four members. -/
theorem length_le_permits {l : List Permit} (h : l.Nodup) : l.length ≤ maxRepositoryTicketSlots := by
  have hsub : l ⊆ permits := by
    intro p _
    obtain ⟨n, hn⟩ := p
    have hn' : n = 1 ∨ n = 2 ∨ n = 3 ∨ n = 4 := by omega
    rcases hn' with rfl | rfl | rfl | rfl <;> simp [permits]
  exact (List.subperm_of_subset h hsub).length_le

theorem Exclusive.withinCapacity (h : Exclusive d) : WithinCapacity d := by
  have hpermits : (d.rows.map (·.repositoryPermit)).Nodup :=
    List.pairwise_map.2 (h.imp fun hno heq => hno (.inr (.inl heq)))
  have hprep := h.prepared
  constructor
  · rw [← List.length_map (f := (·.repositoryPermit))]
    exact length_le_permits hpermits
  · exact List.pairwise_map.2 (h.imp fun hno heq => hno (.inl heq))
  · exact hpermits
  · intro row _
    exact row.repositoryPermit.2
  · exact List.pairwise_map.2 (hprep.imp fun hno heq => hno (.inr (.inr (.inl heq))))
  · exact List.pairwise_map.2 (hprep.imp fun hno heq => hno (.inr (.inr (.inr (.inl heq)))))
  · refine List.pairwise_filterMap.2 (hprep.imp ?_)
    rintro a b hno l hl _ hl' rfl
    refine hno (.inr (.inr (.inr (.inr ⟨?_, hl.trans hl'.symm⟩))))
    rw [hl]
    exact Option.some_ne_none l
  · intro n m s f hs hf heq
    have hcross := (List.pairwise_append.1 h).2.2 (.slot s)
      (List.mem_map.2 ⟨s, Table.mem_values.2 ⟨n, hs⟩, rfl⟩) (.reservation f.reservation)
      (List.mem_map.2 ⟨f, Table.mem_values.2 ⟨m, hf⟩, rfl⟩)
    exact hcross (.inl heq)

/-- What a call leaves of the records: all of them, with their tickets and
    permits, but for a slot whose token a release presents. -/
structure Retains (c : Call) (d d' : Directory) : Prop where
  slot : ∀ n s, d.slots.lookup n = some s →
    (∃ s', d'.slots.lookup n = some s' ∧ s'.ticket = s.ticket ∧
      s'.repositoryPermit = s.repositoryPermit) ∨
    ∃ env h, c = .release env h ∧ slotMatchesHandoff s h = true ∧ s.slotToken = h.slotToken
  reservation : ∀ n f, d.reservations.lookup n = some f →
    ∃ f', d'.reservations.lookup n = some f' ∧ f'.reservation.ticket = f.reservation.ticket ∧
      f'.reservation.repositoryPermit = f.reservation.repositoryPermit

theorem Change.retains (h : Change digest c d d') : Retains c d d' := by
  have hslot : ∀ n s, d.slots.lookup n = some s → ∃ s', d.slots.lookup n = some s' ∧
      s'.ticket = s.ticket ∧ s'.repositoryPermit = s.repositoryPermit :=
    fun n s hs => ⟨s, hs, rfl, rfl⟩
  have hres : ∀ n f, d.reservations.lookup n = some f →
      ∃ f', d.reservations.lookup n = some f' ∧ f'.reservation.ticket = f.reservation.ticket ∧
        f'.reservation.repositoryPermit = f.reservation.repositoryPermit :=
    fun n f hf => ⟨f, hf, rfl, rfl⟩
  cases h with
  | same => exact ⟨fun n s hs => .inl (hslot n s hs), hres⟩
  | acquired _ hnone _ _ _ _ _ =>
    refine ⟨fun n s hs => .inl ⟨s, ?_, rfl, rfl⟩, hres⟩
    rw [Directory.lookup_putSlot, if_neg]
    · exact hs
    · rintro rfl
      rw [hnone] at hs
      cases hs
  | @rewritten name s₀ s₁ hstored ht hp =>
    refine ⟨fun n s hs => .inl ?_, hres⟩
    by_cases hn : n = name
    · subst hn
      rw [hstored] at hs
      cases hs
      exact ⟨s₁, by rw [Directory.lookup_putSlot, if_pos rfl], ht, hp⟩
    · exact ⟨s, by rw [Directory.lookup_putSlot, if_neg hn, hs], rfl, rfl⟩
  | split _ hnone _ _ _ =>
    refine ⟨fun n s hs => .inl ⟨s, ?_, rfl, rfl⟩, hres⟩
    rw [Directory.lookup_putSlot, if_neg]
    · exact hs
    · rintro rfl
      rw [hnone] at hs
      cases hs
  | @removed env h name s₀ hc hstored hmatch htoken =>
    refine ⟨fun n s hs => ?_, hres⟩
    by_cases hn : n = name
    · subst hn
      rw [hstored] at hs
      cases hs
      exact .inr ⟨env, h, hc, hmatch, htoken⟩
    · refine .inl ⟨s, ?_, rfl, rfl⟩
      unfold Directory.removeSlot
      rw [AList.lookup_erase_ne hn, hs]
  | reserved hnone _ _ _ _ =>
    refine ⟨fun n s hs => .inl (hslot n s hs), fun n f hf => ⟨f, ?_, rfl, rfl⟩⟩
    rw [Directory.lookup_putReservation, if_neg]
    · exact hf
    · rintro rfl
      rw [hnone] at hf
      cases hf
  | @advanced name f₀ r' hstored _ _ _ hadv _ =>
    refine ⟨fun n s hs => .inl (hslot n s hs), fun n f hf => ?_⟩
    by_cases hn : n = name
    · subst hn
      rw [hstored] at hf
      cases hf
      obtain ⟨-, -, h1, -, -, h2, -⟩ := hadv.sameIdentity
      exact ⟨⟨r', false⟩, by rw [Directory.lookup_putReservation, if_pos rfl], h1, h2⟩
    · exact ⟨f, by rw [Directory.lookup_putReservation, if_neg hn, hf], rfl, rfl⟩

/-- **The capacity of a repository** over runs whose calls are separate. -/
theorem capacity_of_separate {digest : String → String} {d : Directory}
    (h : Reachable digest Call.separate d) :
    WithinCapacity d ∧ ∀ c, Retains c d (after digest c d) :=
  ⟨h.exclusive.withinCapacity, fun c => (change_after c d).retains⟩

/-! ## A reservation and a slot of one ticket -/

/-- `sha256`, of the texts below. -/
def sampleDigest (text : String) : String :=
  if text = "PA-1" then "ab42b2598a84dd007c92a73796e8570f3a44f71609b6df34c82ade627d6142f9"
  else "5422f4759b69b272a011357d70cdbc979694ede86e92616c2c926448c5574b2a"

/-- A host with one process. -/
def sampleHost : Environment where
  physicalDirectory := fun _ => true
  getProcessFingerprint := fun pid => if pid = 100 then some ⟨100, "7", "boot"⟩ else none
  readProcessFingerprint := fun pid => if pid = 100 then some ⟨100, "7", "boot"⟩ else none
  pid := 100
  slotToken := "slot-token-2"
  publicationToken := "publication"
  now := 0
  dates := Registry.isoDates
  registry := .empty
  gitCommonDir := fun _ => none
  gitDir := fun _ => none
  authority := fun _ => none
  processDead := fun _ => false

def sampleOptions : CapacityOptions := ⟨"pa", "/repo", none⟩

/-- The digit `c`, `n` times. -/
def repeated (c : Char) (n : ℕ) : String := String.ofList (List.replicate n c)

def sampleInput : ReserveInput :=
  ⟨"PA-1", repeated 'a' 64, repeated 'b' 64, "2026-01-01T00:00:00.000Z"⟩

/-- A reservation of `PA-1` with permit 1. -/
def sampleRow (occupancy : String) (lineageId custody receiptId : Json) (launch : List Json) : Json :=
  .obj ((IdlePreparationReservation.keys ++ launch.map fun _ => "launch").zip
    ([.str "prepared-reservation/v1", .str "pa", .str "/repo", .str "PA-1", .str (repeated 'a' 64),
      .str (repeated 'b' 64), .num 1, .str occupancy, lineageId, custody, receiptId,
      .str "2026-01-01T00:00:00.000Z"] ++ launch))

def samplePreparing : Json :=
  sampleRow "preparing" .null Custody.ExecutionCustody.idle.toJson .null []

def sampleIdleReady : Json :=
  sampleRow "idle-ready" .null Custody.ExecutionCustody.idle.toJson (.str (repeated 'c' 64)) []

def sampleActive : Json :=
  sampleRow "active" (.str "lineage")
    (.obj [("state", .str "orchestrator-direct"), ("holder", .obj [("deploymentId", .str "d-000001"),
      ("process", .obj [("pid", .num 100), ("startTimeTicks", .str "7"), ("bootId", .str "boot")])]),
      ("inFlightOperation", .null)])
    (.str (repeated 'c' 64))
    [.obj [("slotToken", .str "slot-token-1"), ("deploymentDirectory", .str "/deployments/d-000001"),
      ("acquiredAt", .str "2026-01-01T00:00:00.000Z")]]

/-- The holder of the active reservation, as it calls `ordinaryIntent`. -/
def sampleOwner : RepositoryTicketSlotHandoff :=
  ⟨"pa", "/repo", "PA-1", "slot-token-1", "pa:pa:PA-1", ⟨1, first_permit⟩⟩

def sampleIntent : IntentInput :=
  ⟨repeated 'a' 64, "/repo/wt", "feature/PA-1-x", repeated 'e' 40⟩

/-- `PA-1` is reserved, prepared and active, and its holder records an intent. -/
def splitCalls : List Call :=
  [.reserve sampleHost sampleOptions sampleInput,
    .update sampleHost sampleOptions samplePreparing sampleIdleReady,
    .update sampleHost sampleOptions sampleIdleReady sampleActive,
    .ordinaryIntent sampleHost "/repo" sampleOwner "d-000001" sampleIntent false]

/-- `PA-1` is reserved, and ` PA-1` is acquired. -/
def blankCalls : List Call :=
  [.reserve sampleHost sampleOptions sampleInput,
    .acquire sampleHost ⟨"pa", "/repo", " PA-1", "d-000002", "/deployments/d-000002", none, none⟩]

/-- The directory after the calls, one after another. -/
def afterAll (digest : String → String) (calls : List Call) (d : Directory) : Directory :=
  calls.foldl (fun d c => after digest c d) d

theorem afterAll_nil (digest : String → String) (d : Directory) : afterAll digest [] d = d := rfl

theorem afterAll_cons (digest : String → String) (c : Call) (calls : List Call) (d : Directory) :
    afterAll digest (c :: calls) d = afterAll digest calls (after digest c d) := rfl

theorem reaches_afterAll (digest : String → String) (calls : List Call) (d : Directory) :
    Relation.ReflTransGen (Step digest fun _ _ => True) d (afterAll digest calls d) := by
  induction calls generalizing d with
  | nil => exact .refl
  | cons c calls ih => exact .head ⟨c, trivial, rfl⟩ (ih _)

/-- The tickets of a slot and of a reservation of `PA-1`. -/
def ticketsOf (d : Directory) : Option String × Option String :=
  ((d.slots.lookup (sampleDigest "PA-1")).map (·.ticket),
    (d.reservations.lookup (sampleDigest "PA-1")).map (·.reservation.ticket.1))

theorem not_withinCapacity (h : ticketsOf d = (some "PA-1", some "PA-1")) : ¬ WithinCapacity d := by
  intro hc
  obtain ⟨h1, h2⟩ := Prod.mk.inj h
  obtain ⟨s, hs, ht⟩ := Option.map_eq_some_iff.1 h1
  obtain ⟨f, hf, hf'⟩ := Option.map_eq_some_iff.1 h2
  exact hc.formats _ _ s f hs hf (ht.trans hf'.symm)

/-- The directory with this reservation of `PA-1` alone. -/
def holding (row : Json) : Directory :=
  ⟨∅, (Custody.parseIdlePreparationReservation row).elim ∅ fun r => (∅ : AList _).insert (sampleDigest "PA-1") ⟨r, false⟩⟩

theorem eq_holding {d : Directory} {row : Json} (h : d.slots.keys = [] ∧ d.reservations.keys = [sampleDigest "PA-1"] ∧
    d.reservations.lookup (sampleDigest "PA-1") =
      (Custody.parseIdlePreparationReservation row).map fun r => ⟨r, false⟩) : d = holding row := by
  rcases d with ⟨slots, reservations⟩
  rcases h with ⟨hslots, hkeys, hrow⟩
  have hs : slots = ∅ := AList.ext (List.map_eq_nil_iff.1 hslots)
  obtain ⟨⟨k, f⟩, hentries, hk⟩ := List.map_eq_singleton_iff.1 hkeys
  dsimp only at hk
  have hlookup : reservations.lookup k = some f := by
    rw [AList.lookup, hentries]
    exact List.dlookup_cons_eq _ _ _
  rw [← hk, hlookup] at hrow
  obtain ⟨r, hr, hf⟩ := Option.map_eq_some_iff.1 hrow.symm
  have hreservations : reservations = (∅ : AList _).insert k f := AList.ext hentries
  rw [holding, hr, Option.elim_some, hs, hreservations, hk, hf]

/-! The calls, one after another: each makes one row out of the row before it. -/

theorem after_reserve : after sampleDigest (.reserve sampleHost sampleOptions sampleInput) .empty =
    holding samplePreparing := eq_holding (by decide +kernel)

theorem after_prepare : after sampleDigest (.update sampleHost sampleOptions samplePreparing sampleIdleReady)
    (holding samplePreparing) = holding sampleIdleReady := eq_holding (by decide +kernel)

theorem after_activate : after sampleDigest (.update sampleHost sampleOptions sampleIdleReady sampleActive)
    (holding sampleIdleReady) = holding sampleActive := eq_holding (by decide +kernel)

theorem afterAll_splitCalls : afterAll sampleDigest splitCalls .empty =
    after sampleDigest (.ordinaryIntent sampleHost "/repo" sampleOwner "d-000001" sampleIntent false)
      (holding sampleActive) := by
  rw [splitCalls, afterAll_cons, afterAll_cons, afterAll_cons, afterAll_cons, afterAll_nil, after_reserve,
    after_prepare, after_activate]

theorem afterAll_blankCalls : afterAll sampleDigest blankCalls .empty =
    after sampleDigest (.acquire sampleHost ⟨"pa", "/repo", " PA-1", "d-000002", "/deployments/d-000002", none, none⟩)
      (holding samplePreparing) := by
  rw [blankCalls, afterAll_cons, afterAll_cons, afterAll_nil, after_reserve]

theorem tickets_split : ticketsOf (after sampleDigest
    (.ordinaryIntent sampleHost "/repo" sampleOwner "d-000001" sampleIntent false) (holding sampleActive)) =
      (some "PA-1", some "PA-1") := by
  decide +kernel

theorem tickets_blank : ticketsOf (after sampleDigest
    (.acquire sampleHost ⟨"pa", "/repo", " PA-1", "d-000002", "/deployments/d-000002", none, none⟩)
      (holding samplePreparing)) = (some "PA-1", some "PA-1") := by
  decide +kernel

/-- An intent of the holder of an active reservation, and an acquisition of its
    ticket with a blank, each store a slot beside the reservation. -/
theorem capacity_exceeded :
    (Reachable sampleDigest (fun _ _ => True) (afterAll sampleDigest splitCalls .empty) ∧
      ¬ WithinCapacity (afterAll sampleDigest splitCalls .empty)) ∧
    Reachable sampleDigest (fun _ _ => True) (afterAll sampleDigest blankCalls .empty) ∧
      ¬ WithinCapacity (afterAll sampleDigest blankCalls .empty) := by
  refine ⟨⟨reaches_afterAll _ _ _, ?_⟩, reaches_afterAll _ _ _, ?_⟩
  · rw [afterAll_splitCalls]
    exact not_withinCapacity tickets_split
  · rw [afterAll_blankCalls]
    exact not_withinCapacity tickets_blank

/-- The reservation alone keeps within the capacity. -/
theorem capacity_of_reserved :
    WithinCapacity (after sampleDigest (.reserve sampleHost sampleOptions sampleInput) .empty) :=
  (capacity_of_separate
    (.tail .refl ⟨.reserve sampleHost sampleOptions sampleInput, trivial, rfl⟩)).1

end PaPlatform.Capacity
