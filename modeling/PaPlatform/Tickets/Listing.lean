/-
  Listings of the ticket store.

  `list` reads every file of the directory, aliases included, and follows
  them: a ticket is listed once for its own file and once for each alias that
  leads to it.  So a listing is exact iff no alias leads to a ticket that
  matches.
-/
import PaPlatform.Tickets.SubTickets
import PaPlatform.Lib.Tally

namespace PaPlatform.Tickets

open Guard Effect

variable {clock : Clock} {host : Host clock} {s : Store}

/-! ## The code -/

/-- What a listing asks the host for. -/
structure Reader where
  validTeams : List String
  toLowerCase : String → String
  localeCompare : String → String → ℤ

def matchAssignee (reader : Reader) (ticketAssignee filterAssignee : String) : Bool :=
  if ticketAssignee = "" then false
  else if ticketAssignee = filterAssignee then true
  else if filterAssignee.toList.contains '/' then false
  else if filterAssignee ∈ reader.validTeams then
    (filterAssignee ++ "/").toList.isPrefixOf ticketAssignee.toList
  else ("/" ++ filterAssignee).toList.isSuffixOf ticketAssignee.toList

def matchesFilters (reader : Reader) (filters : TicketListFilters) (ticket : Ticket) : Bool :=
  (nonEmptyString filters.project).all (fun p => ticket.project == p) &&
    filters.status.all (fun status => ticket.status == status) &&
    (nonEmptyString filters.assignee).all (fun a => matchAssignee reader ticket.assignee a) &&
    filters.priority.all (fun p => ticket.priority == p) &&
    filters.type.all (fun type => ticket.type == type) &&
    (filters.tags.getD []).all (fun tag => ticket.tags.contains tag) &&
    (filters.excludeTags.getD []).all (fun tag => !ticket.tags.contains tag) &&
    (filters.excludeTypes.getD []).all (fun type => ticket.type != type) &&
    (nonEmptyString filters.search).all (fun search =>
      decide ((reader.toLowerCase search).toList <:+:
        (reader.toLowerCase (ticket.id ++ " " ++ ticket.title ++ " " ++ ticket.summary ++ " " ++
          ticket.description)).toList))

/-- `b.updatedAt.localeCompare(a.updatedAt)`, not positive. -/
def newerFirst (reader : Reader) (a b : Ticket) : Bool :=
  decide (reader.localeCompare b.updatedAt a.updatedAt ≤ 0)

def list (host : Host clock) (reader : Reader) (s : Store) (filters : TicketListFilters) :
    Except TicketError (List Ticket) := do
  let tickets ← s.files.keys.mapM fun id => s.get host id
  return ((tickets.filterMap id).filter (matchesFilters reader filters)).mergeSort (newerFirst reader)

/-- `{}`. -/
def TicketListFilters.empty : TicketListFilters :=
  ⟨none, none, none, none, none, none, none, none, none⟩

def countFilters : TicketListFilters :=
  { TicketListFilters.empty with excludeTags := some ["archived", "backlog"] }

def getProjectCounts (host : Host clock) (reader : Reader) (s : Store) :
    Except TicketError (List (String × ℕ)) := do
  let tickets ← list host reader s countFilters
  let counts := Tally.tally ((tickets.filter fun t => !t.status.isTerminal).map (·.project))
  return (counts.filter fun e => decide (0 < e.2)).mergeSort
    fun a b => decide (reader.localeCompare a.1 b.1 ≤ 0)

/-! ## The tickets of a store -/

def TicketFile.ticket? : TicketFile → Option Ticket
  | .ticket t => some t
  | .moved _ _ _ => none

/-- The tickets, each once. -/
def Store.live (s : Store) : List Ticket := s.files.entries.filterMap fun e => e.2.ticket?

/-- The ticket that an alias leads to. -/
def aliased (s : Store) (e : (_ : String) × TicketFile) : Option Ticket :=
  match e.2 with
  | .ticket _ => none
  | .moved _ _ _ => readTicket s e.1

/-- An alias leads to a ticket with `p`. -/
def Aliased (s : Store) (p : Ticket → Bool) : Prop :=
  ∃ id movedTo movedAt movedBy t, s.files.lookup id = some (.moved movedTo movedAt movedBy) ∧
    readTicket s id = some t ∧ p t = true

/-- A listing returns each ticket that matches once, and nothing else. -/
def ListsExactly (host : Host clock) (reader : Reader) (s : Store) (filters : TicketListFilters) : Prop :=
  ∃ l, list host reader s filters = .ok l ∧ l.Perm (s.live.filter (matchesFilters reader filters))

/-- The tickets that `getProjectCounts` is about. -/
def active (reader : Reader) (t : Ticket) : Bool :=
  matchesFilters reader countFilters t && !t.status.isTerminal

/-- Every active ticket is counted once, in its own project. -/
def CountsExactly (host : Host clock) (reader : Reader) (s : Store) : Prop :=
  ∃ counts, getProjectCounts host reader s = .ok counts ∧
    Tally.Counts counts ((s.live.filter (active reader)).map (·.project))

variable {reader : Reader} {filters : TicketListFilters} {p : Ticket → Bool}

theorem mem_live (hs : Filed clock s) {t : Ticket} : t ∈ s.live ↔ s.files.lookup t.id = some (.ticket t) := by
  rw [Store.live, List.mem_filterMap]
  constructor
  · rintro ⟨⟨id, f⟩, hmem, hf⟩
    cases f with
    | ticket t' =>
      cases hf
      have hid := AList.mem_lookup_iff.2 hmem
      rwa [← hs.named hid] at hid
    | moved movedTo movedAt movedBy => cases hf
  · intro h
    exact ⟨⟨t.id, .ticket t⟩, AList.mem_lookup_iff.1 h, rfl⟩

theorem sublist_names {l : List ((_ : String) × TicketFile)}
    (h : ∀ e ∈ l, ∀ t, e.2.ticket? = some t → t.id = e.1) :
    ((l.filterMap fun e => e.2.ticket?).map (·.id)).Sublist (l.map Sigma.fst) := by
  induction l with
  | nil => exact List.Sublist.slnil
  | cons e l ih =>
    have ih := ih fun e' he' => h e' (List.mem_cons_of_mem _ he')
    rw [List.filterMap_cons, List.map_cons]
    rcases ht : e.2.ticket? with _ | t
    · exact ih.cons _
    · rw [List.map_cons, h e (List.mem_cons_self ..) t ht]
      exact ih.cons_cons _

theorem ticket?_eq_some {f : TicketFile} {t : Ticket} : f.ticket? = some t ↔ f = .ticket t := by
  cases f with
  | ticket t' => simp [TicketFile.ticket?]
  | moved movedTo movedAt movedBy => simp [TicketFile.ticket?]

theorem lookup_of_ticket? {e : (_ : String) × TicketFile} {t : Ticket} (he : e ∈ s.files.entries)
    (ht : e.2.ticket? = some t) : s.files.lookup e.1 = some (.ticket t) := by
  obtain ⟨id, f⟩ := e
  obtain rfl := ticket?_eq_some.1 ht
  exact AList.mem_lookup_iff.2 he

/-- The tickets of a store have different ids. -/
theorem nodup_live (hs : Filed clock s) : (s.live.map (·.id)).Nodup :=
  (sublist_names fun _ he _ ht => hs.named (lookup_of_ticket? he ht)).nodup s.files.keys_nodup

/-! ## Listings -/

/-- What the files of a directory are read as, aliases followed. -/
def found (s : Store) : List Ticket := s.files.entries.filterMap fun e => readTicket s e.1

theorem list_eq (hs : Filed clock s) : list host reader s filters =
    .ok (((found s).filter (matchesFilters reader filters)).mergeSort (newerFirst reader)) := by
  have hget : (fun id => s.get host id) = fun id => pure (readTicket s id) := by
    funext id
    exact hs.get
  have hfound : (s.files.keys.map (readTicket s)).filterMap id = found s := by
    rw [List.filterMap_map]
    show (s.files.entries.map Sigma.fst).filterMap _ = _
    rw [List.filterMap_map]
    rfl
  simp only [list, hget, List.mapM_pure, pure_bind, hfound]
  rfl

theorem perm_filterMap {l : List ((_ : String) × TicketFile)}
    (h : ∀ e ∈ l, ∀ t, e.2.ticket? = some t → readTicket s e.1 = some t) :
    (l.filterMap fun e => readTicket s e.1).Perm
      ((l.filterMap fun e => e.2.ticket?) ++ l.filterMap (aliased s)) := by
  induction l with
  | nil => exact List.Perm.nil
  | cons e l ih =>
    have ih := ih fun e' he' => h e' (List.mem_cons_of_mem _ he')
    obtain ⟨id, f⟩ := e
    cases f with
    | ticket t =>
      have ht : readTicket s id = some t := h ⟨id, .ticket t⟩ (List.mem_cons_self ..) t rfl
      simp only [List.filterMap_cons, ht, TicketFile.ticket?, aliased, List.cons_append]
      exact ih.cons t
    | moved movedTo movedAt movedBy =>
      simp only [List.filterMap_cons, TicketFile.ticket?, aliased]
      rcases readTicket s id with _ | t
      · exact ih
      · exact (ih.cons t).trans List.perm_middle.symm

/-- **A listing sees the tickets, and once more what the aliases lead to.** -/
theorem perm_found (hs : Filed clock s) :
    (found s).Perm (s.live ++ s.files.entries.filterMap (aliased s)) :=
  perm_filterMap fun _ he _ ht => hs.readTicket (lookup_of_ticket? he ht)

theorem aliased_iff : Aliased s p ↔ (s.files.entries.filterMap (aliased s)).filter p ≠ [] := by
  rw [Ne, List.filter_eq_nil_iff]
  push Not
  constructor
  · rintro ⟨id, movedTo, movedAt, movedBy, t, hid, ht, hp⟩
    exact ⟨t, List.mem_filterMap.2 ⟨⟨id, .moved movedTo movedAt movedBy⟩, AList.mem_lookup_iff.1 hid, ht⟩, hp⟩
  · rintro ⟨t, hmem, hp⟩
    obtain ⟨⟨id, f⟩, he, ht⟩ := List.mem_filterMap.1 hmem
    cases f with
    | ticket t' => cases ht
    | moved movedTo movedAt movedBy =>
      exact ⟨id, movedTo, movedAt, movedBy, t, AList.mem_lookup_iff.2 he, ht, hp⟩

theorem perm_filter (hs : Filed clock s) (p : Ticket → Bool) :
    ((found s).filter p).Perm
      (s.live.filter p ++ (s.files.entries.filterMap (aliased s)).filter p) := by
  rw [← List.filter_append]
  exact (perm_found hs).filter p

theorem perm_append_iff {α : Type} {l x y : List α} (h : l.Perm (x ++ y)) : l.Perm x ↔ y = [] := by
  constructor
  · intro hx
    have hlen := (h.symm.trans hx).length_eq
    rw [List.length_append] at hlen
    exact List.length_eq_zero_iff.1 (by omega)
  · rintro rfl
    rwa [List.append_nil] at h

theorem listsExactly_iff (hs : Filed clock s) :
    ListsExactly host reader s filters ↔ ¬ Aliased s (matchesFilters reader filters) := by
  have hperm := perm_filter hs (matchesFilters reader filters)
  have hsort := List.mergeSort_perm ((found s).filter (matchesFilters reader filters)) (newerFirst reader)
  rw [aliased_iff, not_not, ← perm_append_iff (hsort.trans hperm)]
  constructor
  · rintro ⟨l, hl, hp⟩
    rw [list_eq hs] at hl
    cases hl
    exact hp
  · intro hp
    exact ⟨_, list_eq hs, hp⟩

/-- The projects that `getProjectCounts` counts, in the order of the listing. -/
theorem getProjectCounts_ok (hs : Filed clock s) : ∃ counts projects,
    getProjectCounts host reader s = .ok counts ∧ Tally.Counts counts projects ∧
      projects.Perm (((found s).filter (active reader)).map (·.project)) := by
  let listed := ((found s).filter (matchesFilters reader countFilters)).mergeSort (newerFirst reader)
  have hcounts := Tally.counts_tally ((listed.filter fun t => !t.status.isTerminal).map (·.project))
  refine ⟨_, _, ?_, hcounts.perm (List.mergeSort_perm _ fun a b =>
    decide (reader.localeCompare a.1 b.1 ≤ 0)), ?_⟩
  · simp only [getProjectCounts, list_eq hs, ok_bind]
    rw [hcounts.filter_pos]
    rfl
  · have hsort : listed.Perm _ := List.mergeSort_perm _ _
    have hactive : (found s).filter (active reader) =
        ((found s).filter (matchesFilters reader countFilters)).filter fun t => !t.status.isTerminal := by
      rw [List.filter_filter]
      exact List.filter_congr fun t _ => Bool.and_comm _ _
    rw [hactive]
    exact (hsort.filter _).map _

theorem countsExactly_iff (hs : Filed clock s) :
    CountsExactly host reader s ↔ ¬ Aliased s (active reader) := by
  obtain ⟨counts, projects, hok, hcounts, hp⟩ := @getProjectCounts_ok _ host _ reader hs
  have hperm := hp.trans ((perm_filter hs (active reader)).map _)
  rw [List.map_append] at hperm
  rw [aliased_iff, not_not, ← List.map_eq_nil_iff, ← perm_append_iff hperm, ← hcounts.iff_perm]
  constructor
  · rintro ⟨counts', hok', h'⟩
    rw [hok] at hok'
    cases hok'
    exact h'
  · intro h
    exact ⟨counts, hok, h⟩

/-- **A listing counts each ticket once iff no alias leads to a ticket that it
    is about.** -/
theorem listing_exact_iff {P : Store → Call clock → Prop} (h : Reachable P s) (host : Host clock)
    (reader : Reader) :
    (∀ filters, ListsExactly host reader s filters ↔ ¬ Aliased s (matchesFilters reader filters)) ∧
      (CountsExactly host reader s ↔ ¬ Aliased s (active reader)) :=
  ⟨fun _ => listsExactly_iff h.filed, countsExactly_iff h.filed⟩

/-! ## A run with a move -/

namespace Sample

def plainReader : Reader := ⟨[], id, fun a b => if a < b then -1 else if b < a then 1 else 0⟩

/-- `PA-001` is moved to the project `ops`. -/
def moved : Store :=
  after (after .empty (.create Sample.host (input .idea)))
    (.move Sample.host "PA-001" "ops" "pa-core")

theorem reachable_moved : Reachable (fun _ (_ : Call isoClock) => True) moved :=
  .call _ (.call _ .empty trivial) trivial

def project (key : String) : TicketListFilters := { TicketListFilters.empty with project := some key }

theorem aliased_moved : Aliased moved (matchesFilters plainReader (project "ops")) := by
  rw [aliased_iff]
  decide

theorem not_aliased_moved : ¬ Aliased moved (matchesFilters plainReader (project "pa")) := by
  rw [aliased_iff]
  decide

end Sample

open Sample in
theorem listing_exact_iff_moved :
    ¬ ListsExactly Sample.host plainReader moved (project "ops") ∧
      ListsExactly Sample.host plainReader moved (project "pa") := by
  have h := (listing_exact_iff reachable_moved Sample.host plainReader).1
  exact ⟨fun hl => (h _).1 hl aliased_moved, (h _).2 not_aliased_moved⟩

open Sample in
/-- The moved ticket is listed under both of its ids. -/
theorem moved_ticket_listed_twice :
    ¬ ∀ s, Reachable (fun _ (_ : Call isoClock) => True) s → ∀ filters,
      ListsExactly Sample.host plainReader s filters := by
  intro h
  exact (listsExactly_iff reachable_moved.filed).1 (h moved reachable_moved (project "ops")) aliased_moved

end PaPlatform.Tickets
