/-
  Tickets that are done and their sub-tickets.

  `update` refuses to mark a ticket done while a sub-ticket is open, but
  `addSubTicket` and `updateSubTicket` do not ask whether the ticket is done.
  In a run whose calls do not open a sub-ticket of a ticket that is done, the
  sub-tickets of such tickets are done.
-/
import PaPlatform.Tickets.Changes

namespace PaPlatform.Tickets

open Guard Effect

variable {clock : Clock} {s s' : Store} {c : Call clock} {r : Except TicketError Ticket}

/-- Every ticket that is done has only sub-tickets that are done. -/
def Store.Closed (s : Store) : Prop :=
  ∀ id t, s.files.lookup id = some (.ticket t) → Tickets.Closed t

/-- The call opens no sub-ticket of a ticket that is done: it adds none to it,
    and it leaves the one it updates done. -/
def KeepsClosed (s : Store) (c : Call clock) : Prop :=
  ∀ id t, c.target = some id → readTicket s id = some t → c.keepsClosed t

theorem Store.Closed.insert {id : String} {f : TicketFile} (h : s.Closed)
    (hf : ∀ t, f = .ticket t → Tickets.Closed t) :
    Store.Closed { s with files := s.files.insert id f } := by
  intro id' t h'
  rw [Table.lookup_insert_eq] at h'
  split_ifs at h'
  · cases h'
    exact hf t rfl
  · exact h id' t h'

theorem Store.Closed.put {t : Ticket} (h : s.Closed) (ht : Tickets.Closed t) : (s.put t).Closed :=
  h.insert fun t' ht' => by
    cases ht'
    exact ht

theorem Store.Closed.readTicket {id : String} {t : Ticket} (h : s.Closed)
    (ht : readTicket s id = some t) : Tickets.Closed t := h _ _ (lookup_of_readTicket ht)

theorem Change.closed (h : Change c s r s') (hs : s.Closed) (hk : KeepsClosed s c) : s'.Closed := by
  cases h with
  | failed e => exact hs
  | same t _ => exact hs
  | counted e pre => exact hs
  | @created host input pre t _ _ hsub =>
    have hc : (s.counted pre).Closed := hs
    refine hc.put fun _ sub hmem => ?_
    rw [hsub] at hmem
    cases hmem
  | rewritten _ hid ht _ _ hcl => exact hs.put (hcl (hk _ _ hid ht) (hs.readTicket ht))
  | @moved _ _ _ _ pre _ t next _ _ ht _ hstatus hsub =>
    have hnext : Tickets.Closed next := by
      intro hdone sub hmem
      rw [hstatus] at hdone
      rw [hsub] at hmem
      exact hs.readTicket ht hdone sub hmem
    have hc : (s.counted pre).Closed := hs
    refine (hc.put hnext).insert ?_
    rintro _ ⟨⟩
  | removed _ _ =>
    intro id t ht
    exact hs id t (Chase.lookup_of_erase ht)

/-- **A ticket that is done has no open sub-ticket**, in every run whose calls
    open no sub-ticket of a ticket that is done. -/
theorem done_tickets_closed (h : Reachable (@KeepsClosed clock) s) : s.Closed := by
  induction h with
  | empty =>
    intro id t ht
    cases ht
  | call c hr hk ih => exact (change_outcome hr.filed c).closed ih hk

/-! ## Runs on one ticket -/

instance : DecidablePred Tickets.Closed := fun t =>
  inferInstanceAs (Decidable (t.status = .done → ∀ sub ∈ t.subTickets, sub.status = some .done))

namespace Sample

def subTicket : AddSubTicketInput := ⟨"a part", "", "", .low, .S⟩

/-- A ticket with a sub-ticket, `PA-001-ST-1`. -/
def divided (status : TicketStatus) : Store :=
  after (after .empty (.create host (input status))) (.addSubTicket host "PA-001" subTicket)

def finishSubTicket : Call isoClock :=
  .updateSubTicket host "PA-001" "PA-001-ST-1" ⟨none, none, some (some .done), none, none, none⟩

def finishTicket : Call isoClock :=
  .update host "PA-001" { UpdateTicketInput.empty with status := some (some .done) } "pa-core" context

/-- The sub-ticket is done, then the ticket. -/
def finished : Store := after (after (divided .idea) finishSubTicket) finishTicket

theorem divided_idea : (readTicket (after .empty (.create host (input .idea))) "PA-001").any
    (fun t => t.status == .idea) = true := by decide

theorem reachable_divided : Reachable (@KeepsClosed isoClock) (divided .idea) := by
  refine .call _ (.call _ .empty fun _ _ _ _ => trivial) ?_
  rintro id t ⟨⟩ ht
  have hidea := divided_idea
  rw [ht] at hidea
  show t.status ≠ .done
  rw [eq_of_beq hidea]
  decide

theorem reachable_finished : Reachable (@KeepsClosed isoClock) finished :=
  .call _ (.call _ reachable_divided fun _ _ _ _ _ _ => Or.inr rfl) fun _ _ _ _ => trivial

end Sample

open Sample in
theorem done_tickets_closed_finished :
    (readTicket finished "PA-001").any (fun t => t.status == .done && t.subTickets.length == 1) = true ∧
      finished.Closed :=
  ⟨by decide, done_tickets_closed reachable_finished⟩

open Sample in
/-- A sub-ticket is added to a ticket that is done. -/
theorem open_sub_ticket_of_done :
    ¬ ∀ s, Reachable (fun _ (_ : Call isoClock) => True) s → s.Closed := by
  intro h
  have hr : Reachable (fun _ (_ : Call isoClock) => True) (divided .done) :=
    .call _ (.call _ .empty trivial) trivial
  have hopen : (readTicket (divided .done) "PA-001").any (fun t => !decide (Tickets.Closed t)) = true := by
    decide
  rcases ht : readTicket (divided .done) "PA-001" with _ | t
  · rw [ht] at hopen
    cases hopen
  · rw [ht] at hopen
    have hclosed := (h _ hr).readTicket ht
    simp [hclosed] at hopen

end PaPlatform.Tickets
