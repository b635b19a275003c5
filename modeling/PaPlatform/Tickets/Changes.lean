/-
  What a call can do to the store.

  A ticket that `normalizeTicket` made is normal: it is read back as it was
  written.  `Change` lists, for each call, its outcomes and the stores that it
  leaves; it holds of every call on files that are well formed
  (`change_perform`).
-/
import PaPlatform.Tickets.Operations

namespace PaPlatform.Tickets

open Guard Effect Chase

variable {clock : Clock} {host host' : Host clock} {s s' : Store} {t next : Ticket} {id : String}
  {e : TicketError}

/-! ## Normal tickets -/

/-- A text that `toISOString` wrote. -/
def Written (clock : Clock) (value : String) : Prop := clock.dates.normalize value = some value

structure NormalBranch (clock : Clock) (b : LinkedBranch) : Prop where
  baseSha : nonEmptyString b.baseSha = b.baseSha
  headSha : nonEmptyString b.headSha = b.headSha
  sha : b.sha = b.headSha
  linkedAt : Written clock b.linkedAt

/-- All its dates are written by `toISOString`. -/
structure Normal (clock : Clock) (t : Ticket) : Prop where
  doc_refs : ∀ r ∈ t.doc_refs, Written clock r.addedAt
  linkedBranches : ∀ b ∈ t.linkedBranches, NormalBranch clock b
  linkedCommits : ∀ c ∈ t.linkedCommits, Written clock c.timestamp ∧ Written clock c.linkedAt
  comments : ∀ c ∈ t.comments, Written clock c.timestamp ∧
    ∀ v, nonEmptyString c.editedAt = some v → Written clock v
  subTickets : ∀ x ∈ t.subTickets, Written clock x.createdAt ∧ Written clock x.updatedAt
  createdAt : Written clock t.createdAt
  updatedAt : Written clock t.updatedAt
  resolvedAt : ∀ v, t.resolvedAt = some v → Written clock v

theorem Host.written (host : Host clock) : Written clock host.nowUtc := host.nowUtc_normal

theorem Written.ne_empty {v : String} (h : Written clock v) : v ≠ "" := clock.normalize_ne h

theorem Written.nonEmpty {v : String} (h : Written clock v) : nonEmptyString (some v) = some v := by
  simp only [nonEmptyString, Option.filter_some, decide_eq_true h.ne_empty, if_true]

theorem Written.toISOString {v : String} (h : Written clock v) : toISOString clock v = .ok v := by
  rw [Tickets.toISOString, h]
  rfl

theorem Written.normalizeTimestamp {v : String} (h : Written clock v) :
    normalizeTimestamp host (some v) = .ok v := by
  simp only [Tickets.normalizeTimestamp, h.nonEmpty, h.toISOString]

theorem written_toISOString {v u : String} (h : toISOString clock v = .ok u) : Written clock u :=
  clock.dates.normalize_normalize (require_eq_ok.1 h)

theorem written_normalizeTimestamp {v : Option String} {u : String}
    (h : normalizeTimestamp host v = .ok u) : Written clock u := by
  unfold normalizeTimestamp at h
  split at h
  · exact written_toISOString h
  · cases h
    exact host.written

theorem nonEmptyString_nonEmptyString (v : Option String) :
    nonEmptyString (nonEmptyString v) = nonEmptyString v := by
  cases v with
  | none => rfl
  | some v => by_cases hv : v = "" <;> simp [nonEmptyString, Option.filter, hv]

theorem mapM_eq_ok {α β κ : Type} {f : α → Except κ β} {P : β → Prop} {l : List α} {l' : List β}
    (hf : ∀ a b, f a = .ok b → P b) (h : l.mapM f = .ok l') : ∀ b ∈ l', P b := by
  induction l generalizing l' with
  | nil =>
    simp only [List.mapM_nil, pure_eq_ok] at h
    subst h
    simp
  | cons a l ih =>
    simp only [List.mapM_cons, bind_eq_ok, pure_eq_ok] at h
    obtain ⟨b, hb, bs, hbs, rfl⟩ := h
    rintro x hx
    rcases List.mem_cons.1 hx with rfl | hx
    · exact hf _ _ hb
    · exact ih hbs x hx

theorem mapM_map {α β κ : Type} {f : α → Except κ β} {g : β → α} {l : List β}
    (h : ∀ b ∈ l, f (g b) = .ok b) : (l.map g).mapM f = .ok l := by
  induction l with
  | nil => rfl
  | cons b l ih =>
    rw [List.map_cons, List.mapM_cons, h b (by simp), ok_bind, ih fun x hx => h x (by simp [hx])]
    rfl

theorem mapM_self {α κ : Type} {f : α → Except κ α} {l : List α} (h : ∀ a ∈ l, f a = .ok a) :
    l.mapM f = .ok l := by
  have hid := mapM_map (g := id) h
  rwa [List.map_id] at hid

theorem normal_of_normalizeLinkedBranch {raw : RawLinkedBranch} {b : LinkedBranch}
    (h : normalizeLinkedBranch host raw = .ok b) : NormalBranch clock b := by
  simp only [normalizeLinkedBranch, bind_eq_ok, pure_eq_ok] at h
  obtain ⟨linkedAt, hl, rfl⟩ := h
  refine ⟨nonEmptyString_nonEmptyString _, ?_, rfl, written_normalizeTimestamp hl⟩
  show nonEmptyString (nonEmptyString raw.headSha <|> nonEmptyString raw.sha) = _
  rcases hh : nonEmptyString raw.headSha with _ | v
  · exact nonEmptyString_nonEmptyString _
  · show nonEmptyString (some v) = some v
    rw [← hh, nonEmptyString_nonEmptyString]

theorem normal_of_normalize {raw : RawTicket} (h : normalizeTicket host raw = .ok t) :
    Normal clock t := by
  simp only [normalizeTicket, bind_eq_ok, pure_eq_ok] at h
  obtain ⟨doc_refs, hd, linkedBranches, hb, linkedCommits, hc, comments, hcm, subTickets, hs, createdAt,
    hca, updatedAt, hu, resolvedAt, hr, rfl⟩ := h
  constructor
  · refine mapM_eq_ok (fun a b hab => ?_) hd
    simp only [normalizeDocRef, bind_eq_ok, pure_eq_ok] at hab
    obtain ⟨u, hu, rfl⟩ := hab
    exact written_normalizeTimestamp hu
  · exact mapM_eq_ok (fun a b hab => normal_of_normalizeLinkedBranch hab) hb
  · refine mapM_eq_ok (fun a b hab => ?_) hc
    simp only [normalizeLinkedCommit, bind_eq_ok, pure_eq_ok] at hab
    obtain ⟨u, hu, v, hv, rfl⟩ := hab
    exact ⟨written_normalizeTimestamp hu, written_normalizeTimestamp hv⟩
  · refine mapM_eq_ok (fun a b hab => ?_) hcm
    simp only [normalizeComment, bind_eq_ok] at hab
    obtain ⟨u, hu, hab⟩ := hab
    split at hab
    · next hn =>
      cases hab
      refine ⟨written_normalizeTimestamp hu, fun v hv => ?_⟩
      change nonEmptyString a.editedAt = some v at hv
      rw [hn] at hv
      cases hv
    · simp only [bind_eq_ok, pure_eq_ok] at hab
      obtain ⟨w, hw, rfl⟩ := hab
      refine ⟨written_normalizeTimestamp hu, fun v hv => ?_⟩
      have hww := written_normalizeTimestamp hw
      change nonEmptyString (some w) = some v at hv
      rw [hww.nonEmpty] at hv
      cases hv
      exact hww
  · refine mapM_eq_ok (fun a b hab => ?_) hs
    simp only [normalizeSubTicket, bind_eq_ok, pure_eq_ok] at hab
    obtain ⟨u, hu, v, hv, rfl⟩ := hab
    exact ⟨written_normalizeTimestamp hu, written_normalizeTimestamp hv⟩
  · exact written_normalizeTimestamp hca
  · exact written_normalizeTimestamp hu
  · rintro v rfl
    unfold normalizeOptionalTimestamp at hr
    split at hr
    · simp only [bind_eq_ok, pure_eq_ok, Option.some.injEq] at hr
      obtain ⟨w, hw, rfl⟩ := hr
      exact written_toISOString hw
    · cases hr

theorem NormalBranch.normalize {b : LinkedBranch} (h : NormalBranch clock b) :
    normalizeLinkedBranch host b.toRaw = .ok b := by
  have hhead : (nonEmptyString b.headSha <|> nonEmptyString b.sha) = b.headSha := by
    rw [h.sha, h.headSha]
    rcases b.headSha with _ | v <;> rfl
  have hb : ∀ v, b.sha = v → { b with sha := v } = b := by
    rintro v rfl
    rfl
  simp only [normalizeLinkedBranch, LinkedBranch.toRaw, h.linkedAt.normalizeTimestamp, ok_bind, hhead,
    h.baseSha, Option.getD_some, pure_eq_ok]
  exact hb _ h.sha

theorem Normal.normalizeDocRefs (h : Normal clock t) : t.doc_refs.mapM (normalizeDocRef host) = .ok t.doc_refs := by
  refine mapM_self fun r hr => ?_
  simp only [normalizeDocRef, (h.doc_refs r hr).normalizeTimestamp, ok_bind]
  rfl

theorem Normal.normalizeLinkedBranches (h : Normal clock t) :
    (t.linkedBranches.map LinkedBranch.toRaw).mapM (normalizeLinkedBranch host) = .ok t.linkedBranches :=
  mapM_map fun b hb => (h.linkedBranches b hb).normalize

theorem Normal.normalizeLinkedCommits (h : Normal clock t) :
    t.linkedCommits.mapM (normalizeLinkedCommit host) = .ok t.linkedCommits := by
  refine mapM_self fun c hc => ?_
  simp only [normalizeLinkedCommit, (h.linkedCommits c hc).1.normalizeTimestamp,
    (h.linkedCommits c hc).2.normalizeTimestamp, ok_bind]
  rfl

theorem Normal.normalizeComments (h : Normal clock t) : t.comments.mapM (normalizeComment host) = .ok t.comments := by
  refine mapM_self fun c hc => ?_
  obtain ⟨hc1, hc2⟩ := h.comments c hc
  simp only [normalizeComment, hc1.normalizeTimestamp, ok_bind]
  rcases hn : nonEmptyString c.editedAt with _ | v
  · rfl
  · have hv : c.editedAt = some v := (Option.filter_eq_some_iff.1 hn).1
    simp only [(hc2 v hn).normalizeTimestamp, ok_bind]
    rw [← hv]
    rfl

theorem Normal.normalizeSubTickets (h : Normal clock t) :
    t.subTickets.mapM (normalizeSubTicket host) = .ok t.subTickets := by
  refine mapM_self fun x hx => ?_
  simp only [normalizeSubTicket, (h.subTickets x hx).1.normalizeTimestamp,
    (h.subTickets x hx).2.normalizeTimestamp, ok_bind]
  rfl

theorem Normal.normalizeResolvedAt (h : Normal clock t) :
    normalizeOptionalTimestamp clock t.resolvedAt = .ok t.resolvedAt := by
  rcases hr : t.resolvedAt with _ | v
  · rfl
  · simp only [normalizeOptionalTimestamp, (h.resolvedAt v hr).nonEmpty, (h.resolvedAt v hr).toISOString,
      ok_bind]
    rfl

/-- **A normal ticket is read back as it was written.** -/
theorem Normal.normalize (h : Normal clock t) : normalizeTicket host t.toRaw = .ok t := by
  simp only [normalizeTicket, Ticket.toRaw, Option.getD_some, h.normalizeDocRefs, h.normalizeLinkedBranches,
    h.normalizeLinkedCommits, h.normalizeComments, h.normalizeSubTickets, h.normalizeResolvedAt,
    h.createdAt.normalizeTimestamp, h.updatedAt.normalizeTimestamp, ok_bind]
  rfl

/-! ## Files -/

/-- A ticket lies under its own id, and all paths are canonical. -/
structure Filed (clock : Clock) (s : Store) : Prop where
  canonical : ∀ {id f}, s.files.lookup id = some f → isCanonicalTicketId id = true
  named : ∀ {id t}, s.files.lookup id = some (.ticket t) → t.id = id
  normal : ∀ {id t}, s.files.lookup id = some (.ticket t) → Normal clock t

theorem Filed.empty : Filed clock .empty := by
  constructor <;> intro _ _ h <;> cases h

theorem Filed.insert {f : TicketFile} (h : Filed clock s) (hc : isCanonicalTicketId id = true)
    (hf : ∀ t, f = .ticket t → t.id = id ∧ Normal clock t) :
    Filed clock { s with files := s.files.insert id f } := by
  constructor
  · intro id' f' h'
    rw [Table.lookup_insert_eq] at h'
    split_ifs at h' with hid
    · rw [hid]
      exact hc
    · exact h.canonical h'
  · intro id' t h'
    rw [Table.lookup_insert_eq] at h'
    split_ifs at h' with hid
    · cases h'
      rw [hid]
      exact (hf t rfl).1
    · exact h.named h'
  · intro id' t h'
    rw [Table.lookup_insert_eq] at h'
    split_ifs at h' with hid
    · cases h'
      exact (hf t rfl).2
    · exact h.normal h'

theorem Filed.erase (h : Filed clock s) : Filed clock { s with files := s.files.erase id } := by
  constructor
  · intro id' f' h'
    exact h.canonical (lookup_of_erase h')
  · intro id' t h'
    exact h.named (lookup_of_erase h')
  · intro id' t h'
    exact h.normal (lookup_of_erase h')

theorem readFile_ticket {f : TicketFile} : readFile id f = some (.inr t) ↔ f = .ticket t ∧ t.id = id := by
  cases f with
  | ticket t' =>
    simp only [readFile, Option.ite_none_right_eq_some, Option.some.injEq, Sum.inr.injEq,
      TicketFile.ticket.injEq]
    constructor
    · rintro ⟨rfl, rfl⟩
      exact ⟨rfl, rfl⟩
    · rintro ⟨rfl, rfl⟩
      exact ⟨rfl, rfl⟩
  | moved to' at' by' => simp [readFile]

/-- **What is read is a ticket of the directory**, and aliases lead to it. -/
theorem readTicket_eq_some : readTicket s id = some t ↔ isCanonicalTicketId id = true ∧
    ∃ d, Leads readFile s.files d id t.id t := by
  simp only [readTicket, Option.ite_none_right_eq_some, chase_eq_some (Nat.le_refl _)]
  refine and_congr_right fun _ => ?_
  constructor
  · rintro ⟨d, x, h⟩
    obtain ⟨a, ha, hx⟩ := h.ends
    obtain ⟨-, rfl⟩ := readFile_ticket.1 hx
    exact ⟨d, h⟩
  · rintro ⟨d, h⟩
    exact ⟨d, t.id, h⟩

theorem lookup_of_readTicket (h : readTicket s id = some t) :
    s.files.lookup t.id = some (.ticket t) := by
  obtain ⟨-, d, hl⟩ := readTicket_eq_some.1 h
  obtain ⟨a, ha, hx⟩ := hl.ends
  obtain ⟨rfl, -⟩ := readFile_ticket.1 hx
  exact ha

/-- A ticket is read under its own id. -/
theorem Filed.readTicket (hs : Filed clock s) (h : s.files.lookup id = some (.ticket t)) :
    readTicket s id = some t := by
  obtain rfl := hs.named h
  exact readTicket_eq_some.2 ⟨hs.canonical h, 0, .here h (readFile_ticket.2 ⟨rfl, rfl⟩)⟩

theorem Filed.get (hs : Filed clock s) : s.get host id = .ok (Tickets.readTicket s id) := by
  unfold Store.get
  rcases hr : Tickets.readTicket s id with _ | t
  · rfl
  · dsimp only
    rw [(hs.normal (lookup_of_readTicket hr)).normalize]
    rfl

/-! ## Changes -/

/-- All sub-tickets of a ticket that is done are done. -/
def Closed (t : Ticket) : Prop := t.status = .done → ∀ sub ∈ t.subTickets, sub.status = some .done

/-- The call does not open a sub-ticket of the ticket `t` when `t` is done. -/
def Call.keepsClosed (t : Ticket) : Call clock → Prop
  | .addSubTicket _ _ _ => t.status ≠ .done
  | .updateSubTicket _ _ subTicketId input => t.status = .done →
      (∃ sub ∈ t.subTickets, sub.id = subTicketId) →
        input.status = none ∨ input.status = some (some .done)
  | _ => True

/-- The call issues an id. -/
def Call.issues : Call clock → Bool
  | .create _ _ | .move _ _ _ _ => true
  | _ => false

/-- The store with a new id. -/
def Store.counted (s : Store) (pre : String) : Store :=
  { s with counters := s.counters.insert pre (s.counter pre + 1) }

/-- The store with a ticket. -/
def Store.put (s : Store) (t : Ticket) : Store := { s with files := s.files.insert t.id (.ticket t) }

/-- The ticket has the next id with the prefix `pre`. -/
structure Issued (clock : Clock) (s : Store) (pre : String) (t : Ticket) : Prop where
  id : t.id = ticketId pre (s.counter pre + 1)
  canonical : isCanonicalTicketId t.id = true
  normal : Normal clock t

/-- The outcomes of a call `c`, and the stores it leaves. -/
inductive Change (c : Call clock) (s : Store) : Except TicketError Ticket → Store → Prop
  | failed (e : TicketError) : Change c s (.error e) s
  | same (t : Ticket) : c.issues = false → Change c s (.ok t) s
  | counted (e : TicketError) (pre : String) : Change c s (.error e) (s.counted pre)
  | created {host : Host clock} {input : CreateTicketInput} {pre : String} {t : Ticket} :
      c = .create host input → Issued clock s pre t → t.subTickets = [] →
      Change c s (.ok t) ((s.counted pre).put t)
  | rewritten {id : String} {t next : Ticket} {r : Except TicketError Ticket} :
      c.issues = false → c.target = some id → readTicket s id = some t → next.id = t.id → Normal clock next →
      (c.keepsClosed t → Closed t → Closed next) → Change c s r (s.put next)
  | moved {host : Host clock} {id project actor pre key : String} {t next : Ticket} :
      c = .move host id project actor → host.resolveProject project = some (key, pre) →
      readTicket s id = some t → Issued clock s pre next → next.status = t.status →
      next.subTickets = t.subTickets →
      Change c s (.ok next)
        { (s.counted pre).put next with
          files := ((s.counted pre).put next).files.insert id (.moved next.id host.nowUtc actor) }
  | removed {host : Host clock} {id actor : String} {context : TicketMutationContext} {t : Ticket} :
      c = .delete host id actor true context → readTicket s id = some t →
      Change c s (.ok t) { s with files := s.files.erase id }

section
variable {c : Call clock} {pre : String}

theorem wp_current (hs : Filed clock s) {Q : Ticket → Store → Prop} {E : TicketError → Store → Prop}
    (hQ : ∀ t, readTicket s id = some t → Q t s) (hE : ∀ e, E e s) : wp (current host id) Q E s := by
  simp only [current, wp_bind, wp_get, wp_liftM, wp_demand, hs.get]
  refine ⟨fun found hf => ⟨fun _ => hE _, fun t ht => ?_⟩, fun e he => by cases he⟩
  cases hf
  exact hQ t ht

theorem wp_writeTicket {Q : PUnit → Store → Prop} {E : TicketError → Store → Prop} :
    wp (writeTicket t) Q E s ↔
      (isCanonicalTicketId t.id = false → E .notCanonical s) ∧
        (¬ isCanonicalTicketId t.id = false → Q ⟨⟩ (s.put t)) := by
  simp only [writeTicket, writeFile, wp_bind, wp_failIf, wp_modify]
  rfl

theorem Filed.put (hs : Filed clock s) (hc : isCanonicalTicketId t.id = true) (hn : Normal clock t) :
    Filed clock (s.put t) :=
  hs.insert hc fun t' ht' => by
    cases ht'
    exact ⟨rfl, hn⟩

theorem Filed.counted (hs : Filed clock s) : Filed clock (s.counted pre) :=
  ⟨hs.canonical, hs.named, hs.normal⟩

theorem canonical_of_readTicket (hs : Filed clock s) (h : readTicket s id = some t) :
    isCanonicalTicketId t.id = true := hs.canonical (lookup_of_readTicket h)

/-! ## One lemma for each operation -/

theorem normalize_fields {raw : RawTicket} (h : normalizeTicket host raw = .ok t) :
    t.id = raw.id.getD "" ∧ t.status = raw.status.getD .idea ∧
      (raw.subTickets.getD []).mapM (normalizeSubTicket host) = .ok t.subTickets := by
  simp only [normalizeTicket, bind_eq_ok, pure_eq_ok] at h
  obtain ⟨_, -, _, -, _, -, _, -, subTickets, hs, _, -, _, -, _, -, rfl⟩ := h
  exact ⟨rfl, rfl, hs⟩

/-- The sub-tickets of a normal ticket survive a change of its other fields. -/
theorem Normal.subTickets_eq {raw : RawTicket} (hn : Normal clock t)
    (hraw : raw.subTickets = some t.subTickets) (h : normalizeTicket host raw = .ok next) :
    next.subTickets = t.subTickets := by
  obtain ⟨-, -, hsub⟩ := normalize_fields h
  rw [hraw, Option.getD_some, hn.normalizeSubTickets] at hsub
  exact (Except.ok.inj hsub).symm

theorem wp_allocateId {Q : String → Store → Prop} {E : TicketError → Store → Prop} :
    wp (allocateId pre) Q E s ↔ Q (ticketId pre (s.counter pre + 1)) (s.counted pre) := by
  simp only [allocateId, wp_bind, wp_get, wp_modify, wp_pure]
  rfl

theorem create_change {input : CreateTicketInput} (hc : c = .create host input) :
    wp (create host input) (fun t => Change c s (.ok t)) (fun e => Change c s (.error e)) s := by
  simp only [create, wp_bind, wp_demand, wp_allocateId, wp_liftM, wp_writeTicket, wp_pure]
  refine ⟨fun _ => .failed _, fun project _ => ⟨fun t ht => ?_, fun _ _ => .counted _ _⟩⟩
  obtain ⟨hid, -, hsub⟩ := normalize_fields ht
  refine ⟨fun _ => .counted _ _, fun hcan => ?_⟩
  have hnil : t.subTickets = [] := (Except.ok.inj hsub).symm
  exact .created hc ⟨hid, eq_true_of_ne_false hcan, normal_of_normalize ht⟩ hnil

theorem move_change {project actor : String} (hs : Filed clock s) (hc : c = .move host id project actor) :
    wp (move host id project actor) (fun t => Change c s (.ok t)) (fun e => Change c s (.error e)) s := by
  simp only [move, wp_bind, wp_demand]
  refine ⟨fun _ => .failed _, fun p hp => wp_current hs (fun t ht => ?_) fun e => .failed e⟩
  simp only [wp_allocateId, wp_liftM, wp_writeTicket, writeFile, wp_bind, wp_failIf, wp_modify, wp_pure]
  refine ⟨fun next hnext => ?_, fun _ _ => .counted _ _⟩
  obtain ⟨hid, hstatus, -⟩ := normalize_fields hnext
  have hsub := (hs.normal (lookup_of_readTicket ht)).subTickets_eq rfl hnext
  refine ⟨fun _ => .counted _ _, fun hcan => ⟨fun hno => ?_, fun _ => ?_⟩⟩
  · rw [(readTicket_eq_some.1 ht).1] at hno
    cases hno
  · have hmoved := Change.moved hc hp ht ⟨hid, eq_true_of_ne_false hcan, normal_of_normalize hnext⟩
      hstatus hsub
    rwa [hid] at hmoved

theorem wp_persist (hs : Filed clock s) (hc : isCanonicalTicketId t.id = true) (hn : Normal clock t) :
    wp (persist host id t) (fun _ s' => s' = s.put t) (fun _ s' => s' = s.put t) s := by
  simp only [persist, wp_bind, wp_writeTicket]
  refine ⟨fun h => ?_, fun _ => ?_⟩
  · rw [hc] at h
    cases h
  · refine wp_current (hs.put hc hn) (fun r hr => ?_) fun _ => rfl
    simp only [wp_failIf, wp_pure]
    exact ⟨fun _ => trivial, fun _ => trivial⟩

theorem Store.put_put (h : next.id = t.id) : (s.put next).put t = s.put t := by
  simp only [Store.put, h, AList.insert_insert]

theorem wp_assertLifecycleOwnership {status : Option TicketStatus}
    {context : TicketMutationContext} {Q : PUnit → Store → Prop} {E : TicketError → Store → Prop}
    (hQ : Q ⟨⟩ s) (hE : ∀ e, E e s) : wp (liftM (assertLifecycleOwnership status context)) Q E s :=
  wp_liftM.2 ⟨fun _ _ => hQ, fun e _ => hE e⟩

/-- The sub-tickets and the status of an update. -/
theorem candidate_ok {input : UpdateTicketInput} {actor : String} (hn : Normal clock t)
    (h : candidate host id t input actor = .ok next) :
    next.id = t.id ∧ Normal clock next ∧ next.subTickets = t.subTickets ∧
      next.status = (input.status.over (some t.status)).getD .idea := by
  simp only [candidate, bind_eq_ok] at h
  obtain ⟨docRefs, -, linkedBranches, -, linkedCommits, -, h⟩ := h
  obtain ⟨hid, hstatus, -⟩ := normalize_fields h
  exact ⟨hid, normal_of_normalize h, hn.subTickets_eq rfl h, hstatus⟩

/-- A ticket is marked done only when its sub-tickets are done. -/
theorem closed_update {p : Patch TicketStatus}
    (hopen : ¬ (p.join = some .done ∧ t.subTickets.any (fun sub => sub.status != some .done) = true))
    (hsub : next.subTickets = t.subTickets) (hstatus : next.status = (p.over (some t.status)).getD .idea)
    (ht : Closed t) : Closed next := by
  intro hdone sub hmem
  rw [hsub] at hmem
  rw [hdone] at hstatus
  rcases p with _ | _ | status
  · exact ht hstatus.symm sub hmem
  · cases hstatus
  · have hp : status = .done := hstatus.symm
    subst hp
    by_contra hne
    exact hopen ⟨rfl, List.any_eq_true.2 ⟨sub, hmem, by simpa using hne⟩⟩

theorem update_change {input : UpdateTicketInput} {actor : String} {context : TicketMutationContext}
    (hs : Filed clock s) (hc : c.issues = false) (hid : c.target = some id) :
    wp (update host id input actor context) (fun t => Change c s (.ok t))
      (fun e => Change c s (.error e)) s := by
  simp only [update, wp_bind]
  refine wp_assertLifecycleOwnership ?_ fun e => .failed e
  simp only [wp_failIf]
  refine ⟨fun _ => .failed _, fun _ => wp_current hs (fun t ht => ?_) fun e => .failed e⟩
  have hn := hs.normal (lookup_of_readTicket ht)
  have hcan := canonical_of_readTicket hs ht
  simp only [wp_liftM]
  refine ⟨fun _ => .failed _, fun hopen => ⟨fun next hnext => ?_, fun e _ => .failed e⟩⟩
  obtain ⟨hni, hnn, hsub, hstatus⟩ := candidate_ok hn hnext
  have hcl : Closed t → Closed next := closed_update hopen hsub hstatus
  have hput : ∀ r, Change c s r (s.put next) := fun r => .rewritten hc hid ht hni hnn fun _ => hcl
  have hback : ∀ r, Change c s r (s.put t) := fun r => .rewritten hc hid ht rfl hn fun _ h => h
  rw [← hni] at hcan
  simp only [wp_tryCatch, wp_bind, wp_throw, wp_pure]
  refine wp_mono (wp_persist hs hcan hnn) ?_ ?_
  · rintro r _ rfl
    exact hput _
  · rintro e _ rfl
    refine wp_mono (wp_persist (hs.put hcan hnn) (hni ▸ hcan) hn) ?_ ?_
    · rintro _ _ rfl
      rw [Store.put_put hni]
      exact hback _
    · rintro _ _ rfl
      rw [Store.put_put hni]
      exact hback _

theorem delete_change {actor : String} {hard : Bool} {context : TicketMutationContext}
    (hs : Filed clock s) (hc : c = .delete host id actor hard context) :
    wp (delete host id actor hard context) (fun t => Change c s (.ok t))
      (fun e => Change c s (.error e)) s := by
  simp only [delete, wp_bind]
  refine wp_assertLifecycleOwnership ?_ fun e => .failed e
  refine wp_current hs (fun t ht => ?_) fun e => .failed e
  simp only [wp_ite, wp_bind, wp_modify, wp_pure]
  refine ⟨fun hhard => ?_, fun _ => ?_⟩
  · subst hhard
    exact .removed hc ht
  · subst hc
    exact update_change hs rfl rfl

theorem comment_change {author content : String} (hs : Filed clock s)
    (hc : c = .comment host id author content) :
    wp (comment host id author content) (fun t => Change c s (.ok t)) (fun e => Change c s (.error e)) s := by
  simp only [comment, wp_bind]
  refine wp_current hs (fun t ht => ?_) fun e => .failed e
  subst hc
  have hn := hs.normal (lookup_of_readTicket ht)
  simp only [wp_writeTicket, wp_pure]
  refine ⟨fun _ => .failed _, fun _ => .rewritten rfl rfl ht rfl ?_ fun _ h => h⟩
  refine { hn with comments := ?_, updatedAt := host.written }
  rintro x hx
  rcases List.mem_append.1 hx with hx | hx
  · exact hn.comments x hx
  · rw [List.mem_singleton.1 hx]
    exact ⟨host.written, by rintro v ⟨⟩⟩

theorem mem_modify {α : Type} {l : List α} {i : ℕ} {f : α → α} {x : α} (h : x ∈ l.modify i f) :
    x ∈ l ∨ ∃ y, l[i]? = some y ∧ x = f y := by
  obtain ⟨j, hj⟩ := List.mem_iff_getElem?.1 h
  rw [List.getElem?_modify] at hj
  obtain ⟨y, hy, hxy⟩ := Option.map_eq_some_iff.1 hj
  split_ifs at hxy with hij
  · subst hij
    exact Or.inr ⟨y, hy, hxy.symm⟩
  · subst hxy
    exact Or.inl (List.mem_of_getElem? hy)

theorem editComment_change {commentId content : String} (hs : Filed clock s)
    (hc : c = .editComment host id commentId content) :
    wp (editComment host id commentId content) (fun t => Change c s (.ok t))
      (fun e => Change c s (.error e)) s := by
  simp only [editComment, wp_bind]
  refine wp_current hs (fun t ht => ?_) fun e => .failed e
  subst hc
  have hn := hs.normal (lookup_of_readTicket ht)
  simp only [wp_demand, wp_writeTicket, wp_pure]
  refine ⟨fun _ => .failed _, fun i _ => ⟨fun _ => .failed _, fun _ => ?_⟩⟩
  refine .rewritten rfl rfl ht rfl { hn with comments := ?_, updatedAt := host.written } fun _ h => h
  rintro x hx
  rcases mem_modify hx with hx | ⟨y, hy, rfl⟩
  · exact hn.comments x hx
  · refine ⟨(hn.comments y (List.mem_of_getElem? hy)).1, fun v hv => ?_⟩
    rw [host.written.nonEmpty] at hv
    cases hv
    exact host.written

theorem deleteComment_change {commentId : String} (hs : Filed clock s)
    (hc : c = .deleteComment host id commentId) :
    wp (deleteComment host id commentId) (fun t => Change c s (.ok t))
      (fun e => Change c s (.error e)) s := by
  simp only [deleteComment, wp_bind]
  refine wp_current hs (fun t ht => ?_) fun e => .failed e
  subst hc
  have hn := hs.normal (lookup_of_readTicket ht)
  simp only [wp_failIf, wp_writeTicket, wp_pure]
  refine ⟨fun _ => .failed _, fun _ => ⟨fun _ => .failed _, fun _ => ?_⟩⟩
  refine .rewritten rfl rfl ht rfl { hn with comments := ?_, updatedAt := host.written } fun _ h => h
  rintro x hx
  exact hn.comments x (List.mem_filter.1 hx).1

theorem archive_change (hs : Filed clock s) (hc : c = .archive host id) :
    wp (archive host id) (fun t => Change c s (.ok t)) (fun e => Change c s (.error e)) s := by
  simp only [archive, wp_bind]
  refine wp_current hs (fun t ht => ?_) fun e => .failed e
  subst hc
  have hn := hs.normal (lookup_of_readTicket ht)
  simp only [wp_failIf, wp_ite, wp_bind, wp_writeTicket, wp_pure]
  refine ⟨fun _ => .failed _, fun _ => ⟨fun _ => .same _ rfl, fun _ => ⟨fun _ => .failed _, fun _ => ?_⟩⟩⟩
  exact .rewritten rfl rfl ht rfl { hn with updatedAt := host.written } fun _ h => h

theorem unarchive_change (hs : Filed clock s) (hc : c = .unarchive host id) :
    wp (unarchive host id) (fun t => Change c s (.ok t)) (fun e => Change c s (.error e)) s := by
  simp only [unarchive, wp_bind]
  refine wp_current hs (fun t ht => ?_) fun e => .failed e
  subst hc
  have hn := hs.normal (lookup_of_readTicket ht)
  simp only [wp_ite, wp_bind, wp_writeTicket, wp_pure]
  refine ⟨fun _ => .same _ rfl, fun _ => ⟨fun _ => .failed _, fun _ => ?_⟩⟩
  exact .rewritten rfl rfl ht rfl { hn with updatedAt := host.written } fun _ h => h

theorem addSubTicket_change {input : AddSubTicketInput} (hs : Filed clock s)
    (hc : c = .addSubTicket host id input) :
    wp (addSubTicket host id input) (fun t => Change c s (.ok t)) (fun e => Change c s (.error e)) s := by
  simp only [addSubTicket, wp_bind]
  refine wp_current hs (fun t ht => ?_) fun e => .failed e
  subst hc
  have hn := hs.normal (lookup_of_readTicket ht)
  simp only [wp_writeTicket, wp_pure]
  refine ⟨fun _ => .failed _, fun _ => ?_⟩
  refine .rewritten rfl rfl ht rfl { hn with subTickets := ?_, updatedAt := host.written } ?_
  · rintro x hx
    rcases List.mem_append.1 hx with hx | hx
    · exact hn.subTickets x hx
    · rw [List.mem_singleton.1 hx]
      exact ⟨host.written, host.written⟩
  · intro hk _ hdone
    exact absurd hdone hk

theorem updateSubTicket_change {subTicketId : String} {input : UpdateSubTicketInput} (hs : Filed clock s)
    (hc : c = .updateSubTicket host id subTicketId input) :
    wp (updateSubTicket host id subTicketId input) (fun t => Change c s (.ok t))
      (fun e => Change c s (.error e)) s := by
  simp only [updateSubTicket, wp_bind]
  refine wp_current hs (fun t ht => ?_) fun e => .failed e
  subst hc
  have hn := hs.normal (lookup_of_readTicket ht)
  simp only [wp_demand, wp_writeTicket, wp_pure]
  refine ⟨fun _ => .failed _, fun i hi => ⟨fun _ => .failed _, fun _ => ?_⟩⟩
  refine .rewritten rfl rfl ht rfl { hn with subTickets := ?_, updatedAt := host.written } ?_
  · rintro x hx
    rcases mem_modify hx with hx | ⟨y, hy, rfl⟩
    · exact hn.subTickets x hx
    · exact ⟨(hn.subTickets y (List.mem_of_getElem? hy)).1, host.written⟩
  · intro hk hcl hdone x hx
    rcases mem_modify hx with hx | ⟨y, hy, rfl⟩
    · exact hcl hdone x hx
    · have hmem : y ∈ t.subTickets := List.mem_of_getElem? hy
      have hid : y.id = subTicketId := by
        obtain ⟨hlt, hp, -⟩ := List.findIdx?_eq_some_iff_getElem.1 hi
        rw [List.getElem?_eq_getElem hlt] at hy
        cases hy
        exact eq_of_beq hp
      show input.status.over y.status = some .done
      rcases hk hdone ⟨y, hmem, hid⟩ with hst | hst
      · rw [hst]
        exact hcl hdone y hmem
      · rw [hst]
        rfl

/-- **Every call is one of the changes.** -/
theorem change_perform (hs : Filed clock s) (c : Call clock) :
    wp (perform c) (fun t => Change c s (.ok t)) (fun e => Change c s (.error e)) s := by
  cases c with
  | create host input => exact create_change rfl
  | update host id input actor context => exact update_change hs rfl rfl
  | comment host id author content => exact comment_change hs rfl
  | editComment host id commentId content => exact editComment_change hs rfl
  | deleteComment host id commentId => exact deleteComment_change hs rfl
  | attach host id path actor context => exact update_change hs rfl rfl
  | move host id project actor => exact move_change hs rfl
  | delete host id actor hard context => exact delete_change hs rfl
  | archive host id => exact archive_change hs rfl
  | unarchive host id => exact unarchive_change hs rfl
  | addSubTicket host parentId input => exact addSubTicket_change hs rfl
  | updateSubTicket host parentId subTicketId input => exact updateSubTicket_change hs rfl

/-- What a call returns, and the store that it leaves. -/
theorem change_outcome (hs : Filed clock s) (c : Call clock) :
    Change c s (outcome (perform c) s).1 (after s c) := by
  have h := change_perform hs c
  unfold after
  rcases ho : outcome (perform c) s with ⟨e | t, s'⟩
  · exact (wp_of_error ho).1 h
  · exact (wp_of_ok ho).1 h

theorem Change.filed {r : Except TicketError Ticket} (h : Change c s r s') (hs : Filed clock s) :
    Filed clock s' := by
  cases h with
  | failed e => exact hs
  | same t _ => exact hs
  | counted e pre => exact hs.counted
  | created _ ht _ => exact hs.counted.put ht.canonical ht.normal
  | rewritten _ _ ht hid hn _ => exact hs.put (hid ▸ canonical_of_readTicket hs ht) hn
  | moved _ _ ht hnext _ _ =>
    refine (hs.counted.put hnext.canonical hnext.normal).insert (readTicket_eq_some.1 ht).1 ?_
    rintro _ ⟨⟩
  | removed _ _ => exact hs.erase

theorem Reachable.filed {P : Store → Call clock → Prop} (h : Reachable P s) : Filed clock s := by
  induction h with
  | empty => exact .empty
  | call c _ _ ih => exact (change_outcome ih c).filed ih

end

end PaPlatform.Tickets
