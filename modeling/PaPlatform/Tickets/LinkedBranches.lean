/-
  The linked branches of a ticket.

  A ticket that is created without linked branches and then updated holds at
  most one of them for each repository, and what is known of a materialized
  branch stays: only an update whose selector names it takes it back.
-/
import PaPlatform.Tickets.Changes

namespace PaPlatform.Tickets

open Guard Effect Chase

section
variable {clock : Clock} {host : Host clock} {s : Store} {c : Call clock} {t next : Ticket}
  {id selector : String} {bs bs' : List LinkedBranch} {b b' r : LinkedBranch}

/-- At most one branch for each repository. -/
def OnePerRepository (bs : List LinkedBranch) : Prop := (bs.map (·.repo)).Nodup

/-- The materialized record `b` is among the branches, with its base. -/
def Keeps (b : LinkedBranch) (bs : List LinkedBranch) : Prop :=
  ∃ b' ∈ bs, b'.repo = b.repo ∧ b'.branch = b.branch ∧ b'.state = .materialized ∧ b'.baseSha = b.baseSha

/-- The selector of an update names the record. -/
def UpdateTicketInput.removes (input : UpdateTicketInput) (b : LinkedBranch) : Bool :=
  (nonEmptyString input.remove_linked_branch).any fun selector => linkedBranchSelectorMatches selector b

/-- A ticket is created without linked branches, or updated. -/
def Call.linksByUpdate : Call clock → Prop
  | .create _ input => input.linkedBranches.getD [] = []
  | .update _ _ _ _ _ => True
  | _ => False

/-- An update of some ticket. -/
structure Update (clock : Clock) where
  host : Host clock
  id : String
  input : UpdateTicketInput
  actor : String
  context : TicketMutationContext

def Update.call (u : Update clock) : Call clock := .update u.host u.id u.input u.actor u.context

/-! ## Removal and addition -/

theorem OnePerRepository.eq (h : OnePerRepository bs) (hb : b ∈ bs) (hb' : b' ∈ bs) (hr : b.repo = b'.repo) :
    b = b' := List.inj_on_of_nodup_map h hb hb' hr

theorem removeLinkedBranch_ok (h : removeLinkedBranch id bs selector = .ok bs') :
    bs' = bs.filter fun b => !linkedBranchSelectorMatches selector b := by
  simp only [removeLinkedBranch, bind_eq_ok, pure_eq_ok] at h
  obtain ⟨_, -, rfl⟩ := h
  rfl

theorem upsert_of_none (h : ∀ b ∈ bs, ¬ (b.repo = r.repo ∧ b.branch = r.branch)) :
    upsertLinkedBranch bs r = bs ++ [r] := by
  have hnone : bs.findIdx? (fun b => b.repo == r.repo && b.branch == r.branch) = none := by
    rw [List.findIdx?_eq_none_iff]
    intro b hb
    rw [Bool.and_eq_false_iff, beq_eq_false_iff_ne, beq_eq_false_iff_ne]
    exact not_and_or.1 (h b hb)
  rw [upsertLinkedBranch, hnone]

/-- The record of the repository is replaced in its place. -/
theorem upsert_of_some (hn : OnePerRepository bs) (hb : b ∈ bs) (hr : b.repo = r.repo) (hbr : b.branch = r.branch) :
    (upsertLinkedBranch bs r).map (·.repo) = bs.map (·.repo) ∧
      ∀ x, x ∈ upsertLinkedBranch bs r ↔ x = r ∨ x ∈ bs ∧ x ≠ b := by
  have hsome : ∃ i, bs.findIdx? (fun b => b.repo == r.repo && b.branch == r.branch) = some i := by
    rw [← Option.isSome_iff_exists, List.findIdx?_isSome, List.any_eq_true]
    exact ⟨b, hb, by rw [hr, hbr]; simp⟩
  obtain ⟨i, hi⟩ := hsome
  obtain ⟨hlt, hmatch, -⟩ := List.findIdx?_eq_some_iff_getElem.1 hi
  rw [Bool.and_eq_true, beq_iff_eq, beq_iff_eq] at hmatch
  have hib : bs[i] = b := hn.eq (List.getElem_mem hlt) hb (hmatch.1.trans hr.symm)
  have hnodup : bs.Nodup := hn.of_map
  have hset : upsertLinkedBranch bs r = bs.set i r := by rw [upsertLinkedBranch, hi]
  rw [hset]
  constructor
  · rw [List.map_set, ← hmatch.1]
    exact List.ext_getElem (by simp) fun j h1 h2 => by
      rw [List.getElem_set]
      split_ifs with hij
      · subst hij
        rw [List.getElem_map]
      · rfl
  · intro x
    constructor
    · intro hx
      obtain ⟨j, hj, rfl⟩ := List.mem_iff_getElem.1 hx
      rw [List.getElem_set]
      split_ifs with hij
      · exact Or.inl rfl
      · rw [List.length_set] at hj
        refine Or.inr ⟨List.getElem_mem hj, fun heq => hij ?_⟩
        exact (hnodup.getElem_inj_iff.1 (heq.trans hib.symm)).symm
    · rintro (rfl | ⟨hx, hne⟩)
      · exact List.mem_iff_getElem.2 ⟨i, by rwa [List.length_set], by rw [List.getElem_set_self]⟩
      · obtain ⟨j, hj, rfl⟩ := List.mem_iff_getElem.1 hx
        refine List.mem_iff_getElem.2 ⟨j, by rwa [List.length_set], ?_⟩
        rw [List.getElem_set, if_neg]
        rintro rfl
        exact hne hib

/-- What is known of a materialized record stays: `b'` is about the same
    branch, and has its base. -/
structure Continues (b b' : LinkedBranch) : Prop where
  repo : b'.repo = b.repo
  branch : b'.branch = b.branch
  state : b'.state = .materialized
  baseSha : nonEmptyString b'.baseSha = nonEmptyString b.baseSha

theorem merge_continues (hr : b.repo = r.repo) (hbr : b.branch = r.branch) (hb : b.state = .materialized)
    (hstate : r.state ≠ .planned) : Continues b (mergeLinkedBranchEvidence (some b) r) := by
  unfold mergeLinkedBranchEvidence
  dsimp only
  split_ifs with h1
  · exact ⟨rfl, rfl, hb, rfl⟩
  · refine ⟨hr.symm, hbr.symm, ?_, nonEmptyString_nonEmptyString _⟩
    show r.state = .materialized
    cases hs : r.state with
    | planned => exact absurd hs hstate
    | materialized => rfl

theorem merge_names (hr : b.repo = r.repo) (hbr : b.branch = r.branch) :
    (mergeLinkedBranchEvidence (some b) r).repo = b.repo ∧
      (mergeLinkedBranchEvidence (some b) r).branch = b.branch := by
  unfold mergeLinkedBranchEvidence
  dsimp only
  split
  · exact ⟨rfl, rfl⟩
  · exact ⟨hr.symm, hbr.symm⟩

theorem addLinkedBranch_ok {ticketId project actor : String} {add : AddLinkedBranchInput}
    (hn : OnePerRepository bs) (h : addLinkedBranch host id ticketId project actor bs add = .ok bs') :
    OnePerRepository bs' ∧ ∀ b ∈ bs, b.state = .materialized → ∃ b' ∈ bs', Continues b b' := by
  simp only [addLinkedBranch, bind_eq_ok, throwIf_eq_ok, pure_eq_ok] at h
  obtain ⟨r, -, _, h1, _, h2, _, h3, _, h4, rfl⟩ := h
  generalize hrb : bs.filter (fun b => b.repo == r.repo) = repositoryBranches at *
  have hmem : ∀ {b}, b ∈ repositoryBranches ↔ b ∈ bs ∧ b.repo = r.repo := by
    intro b
    rw [← hrb, List.mem_filter, beq_iff_eq]
  -- all records of the repository are about the branch
  have hbranch : ∀ b ∈ repositoryBranches, b.branch = r.branch := by
    have hlen := List.length_filter_le (fun b => b.branch == r.branch) repositoryBranches
    have hall := List.length_filter_eq_length_iff.1 (Nat.le_antisymm hlen (Nat.not_lt.1 h1))
    intro b hb
    exact eq_of_beq (hall b hb)
  have hfilter : repositoryBranches.filter (fun b => b.branch == r.branch) = repositoryBranches :=
    List.filter_eq_self.2 fun b hb => by rw [hbranch b hb]; simp
  rw [hfilter] at h3 h4 ⊢
  cases hcase : repositoryBranches with
  | nil =>
    have hno : ∀ b ∈ bs, b.repo ≠ r.repo := by
      intro b hb hr
      have hin := hmem.2 ⟨hb, hr⟩
      rw [hcase] at hin
      cases hin
    show OnePerRepository (upsertLinkedBranch bs r) ∧
      ∀ b ∈ bs, b.state = .materialized → ∃ b' ∈ upsertLinkedBranch bs r, Continues b b'
    rw [upsert_of_none fun b hb hx => hno b hb hx.1]
    refine ⟨?_, fun b hb hm => ⟨b, List.mem_append_left _ hb, rfl, rfl, hm, rfl⟩⟩
    unfold OnePerRepository
    rw [List.map_append, List.nodup_append]
    refine ⟨hn, by simp, ?_⟩
    rintro x hx y hy rfl
    obtain ⟨b, hb, rfl⟩ := List.mem_map.1 hx
    exact hno b hb (List.mem_singleton.1 hy)
  | cons e rest =>
    have he : e ∈ repositoryBranches := by rw [hcase]; simp
    obtain ⟨hebs, her⟩ := hmem.1 he
    have heb := hbranch e he
    rw [hcase] at h3 h4
    show OnePerRepository (upsertLinkedBranch bs (mergeLinkedBranchEvidence (some e) r)) ∧ _
    obtain ⟨hmr, hmb⟩ := merge_names her heb
    obtain ⟨hrepos, hup⟩ := upsert_of_some hn hebs hmr.symm hmb.symm
    refine ⟨by unfold OnePerRepository; rw [hrepos]; exact hn, fun b hb hm => ?_⟩
    by_cases hbe : b = e
    · subst hbe
      refine ⟨_, (hup _).2 (Or.inl rfl), merge_continues her heb hm fun hplanned => h4 ⟨?_, hplanned⟩⟩
      simp [hm]
    · exact ⟨b, (hup _).2 (Or.inr ⟨hb, hbe⟩), rfl, rfl, hm, rfl⟩

theorem applyLinkedBranchMutation_ok {ticketId project actor : String} {add : Option AddLinkedBranchInput}
    {remove : Option String} (hn : OnePerRepository bs)
    (h : applyLinkedBranchMutation host id ticketId project actor bs add remove = .ok bs') :
    OnePerRepository bs' ∧ ∀ b ∈ bs, b.state = .materialized →
      ((nonEmptyString remove).any fun selector => linkedBranchSelectorMatches selector b) = true ∨
        ∃ b' ∈ bs', Continues b b' := by
  have hremoved : ∃ left, OnePerRepository left ∧ (∀ b ∈ bs, b ∈ left ∨
      ((nonEmptyString remove).any fun selector => linkedBranchSelectorMatches selector b) = true) ∧
      add.elim (.ok left) (addLinkedBranch host id ticketId project actor left) = .ok bs' := by
    unfold applyLinkedBranchMutation at h
    cases hs : nonEmptyString remove with
    | none =>
      rw [hs] at h
      exact ⟨bs, hn, fun b hb => Or.inl hb, by cases add <;> exact h⟩
    | some selector =>
      simp only [hs, bind_eq_ok] at h
      obtain ⟨left, hleft, h⟩ := h
      rw [removeLinkedBranch_ok hleft] at h
      refine ⟨_, hn.sublist (List.filter_sublist.map _), fun b hb => ?_, by cases add <;> exact h⟩
      cases hm : linkedBranchSelectorMatches selector b with
      | true => exact Or.inr hm
      | false => exact Or.inl (List.mem_filter.2 ⟨hb, by rw [hm]; rfl⟩)
  obtain ⟨left, hnl, hstay, h⟩ := hremoved
  cases add with
  | none =>
    cases h
    refine ⟨hnl, fun b hb hm => ?_⟩
    rcases hstay b hb with hb | hb
    · exact Or.inr ⟨b, hb, rfl, rfl, hm, rfl⟩
    · exact Or.inl hb
  | some add =>
    obtain ⟨hn', hkeep⟩ := addLinkedBranch_ok hnl h
    refine ⟨hn', fun b hb hm => ?_⟩
    rcases hstay b hb with hb | hb
    · exact Or.inr (hkeep b hb hm)
    · exact Or.inl hb

/-! ## Updates -/

theorem normalizeLinkedBranch_toRaw (h : normalizeLinkedBranch host b.toRaw = .ok b') :
    b'.repo = b.repo ∧ b'.branch = b.branch ∧ b'.state = b.state ∧ b'.baseSha = nonEmptyString b.baseSha := by
  simp only [normalizeLinkedBranch, LinkedBranch.toRaw, bind_eq_ok, pure_eq_ok] at h
  obtain ⟨linkedAt, -, rfl⟩ := h
  exact ⟨rfl, rfl, rfl, rfl⟩

theorem forall₂_of_mapM {α β κ : Type} {f : α → Except κ β} {l : List α} {l' : List β}
    (h : l.mapM f = .ok l') : List.Forall₂ (fun a b => f a = .ok b) l l' := by
  induction l generalizing l' with
  | nil =>
    simp only [List.mapM_nil, pure_eq_ok] at h
    subst h
    exact .nil
  | cons a l ih =>
    simp only [List.mapM_cons, bind_eq_ok, pure_eq_ok] at h
    obtain ⟨b, hb, bs, hbs, rfl⟩ := h
    exact .cons hb (ih hbs)

/-- The branches of the ticket that an update writes. -/
theorem candidate_branches {input : UpdateTicketInput} {actor : String} (hn : Normal clock t)
    (hone : OnePerRepository t.linkedBranches) (h : candidate host id t input actor = .ok next) :
    OnePerRepository next.linkedBranches ∧ ∀ b ∈ t.linkedBranches, b.state = .materialized →
      input.removes b = true ∨ Keeps b next.linkedBranches := by
  simp only [candidate, bind_eq_ok] at h
  obtain ⟨docRefs, -, bs, hbs, linkedCommits, -, h⟩ := h
  obtain ⟨hbsone, hcont⟩ := applyLinkedBranchMutation_ok hone hbs
  simp only [normalizeTicket, bind_eq_ok, pure_eq_ok, Option.getD_some] at h
  obtain ⟨_, -, linkedBranches, hlb, _, -, _, -, _, -, _, -, _, -, _, -, rfl⟩ := h
  have hall := List.forall₂_map_left_iff.1 (forall₂_of_mapM hlb)
  constructor
  · show (linkedBranches.map (·.repo)).Nodup
    have hrepos : linkedBranches.map (·.repo) = bs.map (·.repo) := by
      clear hbs hbsone hcont hlb
      induction hall with
      | nil => rfl
      | cons hab _ ih => rw [List.map_cons, List.map_cons, ih, (normalizeLinkedBranch_toRaw hab).1]
    rw [hrepos]
    exact hbsone
  · intro b hb hm
    rcases hcont b hb hm with hx | ⟨b', hb', hc⟩
    · exact Or.inl hx
    · obtain ⟨i, hi, rfl⟩ := List.mem_iff_getElem.1 hb'
      have hlen := hall.length_eq
      obtain ⟨h1, h2, h3, h4⟩ := normalizeLinkedBranch_toRaw (hall.get hi (hlen ▸ hi))
      refine Or.inr ⟨_, List.getElem_mem (hlen ▸ hi), h1.trans hc.repo, h2.trans hc.branch, h3.trans hc.state, ?_⟩
      refine h4.trans (hc.baseSha.trans (hn.linkedBranches b hb).baseSha)

/-- The stores that an update leaves. -/
theorem update_store (hs : Filed clock s) {input : UpdateTicketInput} {actor : String}
    {context : TicketMutationContext} {s' : Store} (he : after s (.update host id input actor context) = s') :
    s' = s ∨ ∃ t next, readTicket s id = some t ∧ candidate host id t input actor = .ok next ∧
      (s' = s.put next ∨ s' = s.put t) := by
  subst he
  refine (wp_state (P := fun s' => s' = s ∨ ∃ t next, readTicket s id = some t ∧
    candidate host id t input actor = .ok next ∧ (s' = s.put next ∨ s' = s.put t))).1 ?_
  simp only [perform, update, wp_bind]
  refine wp_assertLifecycleOwnership ?_ fun e => Or.inl rfl
  simp only [wp_failIf]
  refine ⟨fun _ => by simp, fun _ => wp_current hs (fun t ht => ?_) fun e => Or.inl rfl⟩
  have hn := hs.normal (lookup_of_readTicket ht)
  have hcan := canonical_of_readTicket hs ht
  simp only [wp_liftM]
  refine ⟨fun _ => by simp, fun hopen => ⟨fun next hnext => ?_, fun e _ => by simp⟩⟩
  obtain ⟨hni, hnn, -, -⟩ := candidate_ok hn hnext
  rw [← hni] at hcan
  simp only [wp_tryCatch, wp_bind, wp_throw, wp_pure]
  refine wp_mono (wp_persist hs hcan hnn) ?_ ?_
  · rintro r _ rfl
    exact Or.inr ⟨t, next, ht, hnext, Or.inl rfl⟩
  · rintro e _ rfl
    have hback : Or ((s.put next).put t = s) (∃ t' next', readTicket s id = some t' ∧
        candidate host id t' input actor = .ok next' ∧
          ((s.put next).put t = s.put next' ∨ (s.put next).put t = s.put t')) :=
      Or.inr ⟨t, next, ht, hnext, Or.inr (Store.put_put hni)⟩
    refine wp_mono (wp_persist (hs.put hcan hnn) (hni ▸ hcan) hn) ?_ ?_
    · rintro _ _ rfl
      exact hback
    · rintro _ _ rfl
      exact hback

/-- The stores that a creation leaves. -/
theorem create_store {input : CreateTicketInput} (hno : input.linkedBranches.getD [] = []) {s' : Store}
    (he : after s (.create host input) = s') :
    s' = s ∨ ∃ pre, s' = s.counted pre ∨ ∃ t, s' = (s.counted pre).put t ∧
      isCanonicalTicketId t.id = true ∧ Normal clock t ∧ t.linkedBranches = [] := by
  subst he
  refine (wp_state (P := fun s' => s' = s ∨ ∃ pre, s' = s.counted pre ∨ ∃ t, s' = (s.counted pre).put t ∧
      isCanonicalTicketId t.id = true ∧ Normal clock t ∧ t.linkedBranches = [])).1 ?_
  simp only [perform, create, wp_bind, wp_demand, wp_allocateId, wp_liftM, wp_writeTicket, wp_pure]
  refine ⟨fun _ => by simp, fun project _ => ⟨fun t ht => ?_, fun _ _ => Or.inr ⟨_, Or.inl rfl⟩⟩⟩
  refine ⟨fun _ => Or.inr ⟨_, Or.inl rfl⟩, fun hcan => Or.inr ⟨_, Or.inr ⟨t, rfl, ?_⟩⟩⟩
  refine ⟨eq_true_of_ne_false hcan, normal_of_normalize ht, ?_⟩
  simp only [normalizeTicket, bind_eq_ok, pure_eq_ok] at ht
  obtain ⟨_, -, linkedBranches, hlb, _, -, _, -, _, -, _, -, _, -, _, -, rfl⟩ := ht
  rw [CreateTicketInput.toRaw, Option.getD_some, hno] at hlb
  exact (Except.ok.inj hlb).symm

/-- All files are tickets, each with one branch for a repository. -/
structure Linked (clock : Clock) (s : Store) : Prop extends Filed clock s where
  tickets : ∀ {id f}, s.files.lookup id = some f → ∃ t, f = .ticket t
  one : ∀ {id t}, s.files.lookup id = some (.ticket t) → OnePerRepository t.linkedBranches

theorem Linked.put (hs : Linked clock s) (hc : isCanonicalTicketId t.id = true) (hn : Normal clock t)
    (hone : OnePerRepository t.linkedBranches) : Linked clock (s.put t) where
  toFiled := hs.toFiled.put hc hn
  tickets := by
    intro id f h
    simp only [Store.put, Table.lookup_insert_eq] at h
    split_ifs at h
    · exact ⟨t, (Option.some.inj h).symm⟩
    · exact hs.tickets h
  one := by
    intro id t' h
    simp only [Store.put, Table.lookup_insert_eq] at h
    split_ifs at h
    · cases h
      exact hone
    · exact hs.one h

theorem Linked.readTicket (hs : Linked clock s) :
    readTicket s id = some t ↔ s.files.lookup id = some (.ticket t) := by
  constructor
  · intro h
    obtain ⟨-, d, hl⟩ := readTicket_eq_some.1 h
    cases hl with
    | here ha hx =>
      obtain ⟨rfl, -⟩ := readFile_ticket.1 hx
      exact ha
    | there ha hx _ =>
      obtain ⟨t', rfl⟩ := hs.tickets ha
      simp [readFile] at hx
  · exact hs.toFiled.readTicket

theorem Linked.get (hs : Linked clock s) :
    s.get host id = .ok (some t) ↔ s.files.lookup id = some (.ticket t) := by
  rw [hs.toFiled.get, Except.ok.injEq, hs.readTicket]

theorem Linked.update (hs : Linked clock s) (u : Update clock) :
    Linked clock (after s u.call) ∧ ∀ {id t}, s.files.lookup id = some (.ticket t) → ∃ t',
      (after s u.call).files.lookup id = some (.ticket t') ∧
        ∀ b ∈ t.linkedBranches, b.state = .materialized →
          u.id = id ∧ u.input.removes b = true ∨ Keeps b t'.linkedBranches := by
  have hsame : ∀ {t : Ticket} b, b ∈ t.linkedBranches → b.state = .materialized →
      Keeps b t.linkedBranches := fun b hb hm => ⟨b, hb, rfl, rfl, hm, rfl⟩
  rcases update_store hs.toFiled (rfl : after s u.call = _) with he | ⟨t, next, ht, hnext, he⟩
  · rw [he]
    exact ⟨hs, fun {id' t} h => ⟨t, h, fun b hb hm => Or.inr (hsame b hb hm)⟩⟩
  have hlook := hs.readTicket.1 ht
  have hid := hs.named hlook
  have hn := hs.normal hlook
  have hcan := hs.canonical hlook
  obtain ⟨hni, hnn, -, -⟩ := candidate_ok hn hnext
  obtain ⟨hone, hkeep⟩ := candidate_branches hn (hs.one hlook) hnext
  rcases he with he | he
  · rw [he]
    refine ⟨hs.put (by rw [hni, hid]; exact hcan) hnn hone, fun {id' t'} h => ?_⟩
    simp only [Store.put, Table.lookup_insert_eq]
    by_cases hid' : id' = next.id
    · rw [if_pos hid']
      have hsub : u.id = id' := by rw [hid', hni, hid]
      subst hsub
      rw [hlook] at h
      cases h
      exact ⟨next, rfl, fun b hb hm => (hkeep b hb hm).imp (fun hr => ⟨rfl, hr⟩) fun hk => hk⟩
    · rw [if_neg hid']
      exact ⟨t', h, fun b hb hm => Or.inr (hsame b hb hm)⟩
  · rw [he]
    refine ⟨hs.put (by rw [hid]; exact hcan) hn (hs.one hlook), fun {id' t'} h => ⟨t', ?_, fun b hb hm =>
      Or.inr (hsame b hb hm)⟩⟩
    simp only [Store.put, Table.lookup_insert_eq]
    split_ifs with hid'
    · have hsub : u.id = id' := by rw [hid', hid]
      subst hsub
      rw [← h, hlook]
    · exact h

theorem linked (h : Reachable (fun _ (c : Call clock) => c.linksByUpdate) s) : Linked clock s := by
  induction h with
  | empty => exact ⟨.empty, by rintro _ _ ⟨⟩, by rintro _ _ ⟨⟩⟩
  | @call s c hr hc ih =>
    cases c with
    | update host id input actor context => exact (ih.update ⟨host, id, input, actor, context⟩).1
    | create host input =>
      rcases create_store hc rfl with he | ⟨pre, he | ⟨t, he, hcan, hn, hnil⟩⟩
      · rw [he]
        exact ih
      · rw [he]
        exact ⟨ih.toFiled.counted, ih.tickets, ih.one⟩
      · rw [he]
        have hcounted : Linked clock (s.counted pre) := ⟨ih.toFiled.counted, ih.tickets, ih.one⟩
        refine hcounted.put hcan hn ?_
        rw [hnil]
        exact List.nodup_nil
    | _ => exact hc.elim

/-! ## The result -/

/-- What an update names, it names by the repository and the branch. -/
theorem Keeps.removes {input : UpdateTicketInput} (hr : b'.repo = b.repo) (hb : b'.branch = b.branch) :
    input.removes b' = input.removes b := by
  unfold UpdateTicketInput.removes linkedBranchSelectorMatches
  rw [hr, hb]

/-- The store after some updates. -/
def updated (s : Store) (us : List (Update clock)) : Store := (us.map Update.call).foldl after s

theorem Linked.run (hs : Linked clock s) (us : List (Update clock)) :
    Linked clock (updated s us) ∧ ∀ {id t}, s.files.lookup id = some (.ticket t) →
      ∃ t', (updated s us).files.lookup id = some (.ticket t') := by
  induction us generalizing s with
  | nil => exact ⟨hs, fun {id t} h => ⟨t, h⟩⟩
  | cons u us ih =>
    obtain ⟨hlinked, hstep⟩ := hs.update u
    obtain ⟨hl, hstay⟩ := ih hlinked
    refine ⟨hl, fun {id t} h => ?_⟩
    obtain ⟨t₁, ht₁, -⟩ := hstep h
    exact hstay ht₁

/-- A materialized record that no update names is kept. -/
theorem Linked.keeps (hs : Linked clock s) (us : List (Update clock)) (h : s.files.lookup id = some (.ticket t))
    (hb : b ∈ t.linkedBranches) (hm : b.state = .materialized)
    (hno : ∀ u ∈ us, u.id = id → u.input.removes b = false) :
    ∃ t', (updated s us).files.lookup id = some (.ticket t') ∧ Keeps b t'.linkedBranches := by
  induction us generalizing s t b with
  | nil => exact ⟨t, h, b, hb, rfl, rfl, hm, rfl⟩
  | cons u us ih =>
    obtain ⟨hlinked, hstep⟩ := hs.update u
    obtain ⟨t₁, ht₁, hkeep⟩ := hstep h
    rcases hkeep b hb hm with ⟨hid, hrem⟩ | ⟨b₁, hb₁, hrepo, hbranch, hm₁, hbase⟩
    · rw [hno u (by simp) hid] at hrem
      cases hrem
    · have hno₁ : ∀ u ∈ us, u.id = id → u.input.removes b₁ = false := by
        intro v hv hid
        rw [Keeps.removes hrepo hbranch]
        exact hno v (List.mem_cons_of_mem _ hv) hid
      obtain ⟨t', ht', b', hb', h1, h2, h3, h4⟩ := ih hlinked ht₁ hb₁ hm₁ hno₁
      exact ⟨t', ht', b', hb', h1.trans hrepo, h2.trans hbranch, h3, h4.trans hbase⟩

/-- **The evidence of a linked branch is monotone.**  A ticket that was created
    without linked branches has at most one for each repository; and through
    any updates a materialized one keeps its state and its base, unless the
    selector of one of them names it. -/
theorem linked_branches_monotone (h : Reachable (fun _ (c : Call clock) => c.linksByUpdate) s)
    (ht : s.get host id = .ok (some t)) :
    OnePerRepository t.linkedBranches ∧
      ∀ us : List (Update clock), ∃ t', (updated s us).get host id = .ok (some t') ∧
        OnePerRepository t'.linkedBranches ∧ ∀ b ∈ t.linkedBranches, b.state = .materialized →
          (∃ u ∈ us, u.id = id ∧ u.input.removes b = true) ∨ Keeps b t'.linkedBranches := by
  have hs := linked h
  have hlook := hs.get.1 ht
  refine ⟨hs.one hlook, fun us => ?_⟩
  obtain ⟨hl, hstay⟩ := hs.run us
  obtain ⟨t', ht'⟩ := hstay hlook
  refine ⟨t', hl.get.2 ht', hl.one ht', fun b hb hm => ?_⟩
  by_cases hno : ∀ u ∈ us, u.id = id → u.input.removes b = false
  · obtain ⟨t₁, ht₁, hk⟩ := hs.keeps us hlook hb hm hno
    rw [ht'] at ht₁
    cases ht₁
    exact Or.inr hk
  · push Not at hno
    obtain ⟨u, hu, hid, hrem⟩ := hno
    exact Or.inl ⟨u, hu, hid, eq_true_of_ne_false hrem⟩

end

namespace Sample

/-- The head of a branch. -/
def head : String := String.ofList (List.replicate 40 'a')

/-- A host on which every branch exists. -/
def gitHost : Host isoClock :=
  { host with
    resolveLinkedBranch := fun add _ project actor =>
      .ok ⟨project, add.branch, .materialized, some head, some head, some head, time, add.linkedBy.getD actor⟩ }

/-- The branch `feature/PA-001-x` is linked. -/
def link : Update isoClock :=
  ⟨gitHost, "PA-001", { UpdateTicketInput.empty with
    add_linked_branch := some ⟨"pa", "feature/PA-001-x", none⟩ }, "pa-core", context⟩

def linkedStore : Store := after (after .empty (.create host (input .idea))) link.call

theorem reachable_linkedStore : Reachable (fun _ (c : Call isoClock) => c.linksByUpdate) linkedStore :=
  .call _ (.call _ .empty rfl) trivial

theorem linkedStore_get : (linkedStore.get gitHost "PA-001").toOption.join.any
    (fun t => t.linkedBranches.any fun b => b.state == .materialized) = true := by decide +kernel

end Sample

open Sample in
theorem linked_branches_monotone_link : ∃ t, linkedStore.get gitHost "PA-001" = .ok (some t) ∧
    ∃ b ∈ t.linkedBranches, ∃ t', (updated linkedStore [link]).get gitHost "PA-001" = .ok (some t') ∧
      Keeps b t'.linkedBranches := by
  have hget := linkedStore_get
  rcases ht : linkedStore.get gitHost "PA-001" with e | _ | t
  · rw [ht] at hget
    cases hget
  · rw [ht] at hget
    cases hget
  · rw [ht] at hget
    obtain ⟨b, hb, hm⟩ := List.any_eq_true.1 hget
    obtain ⟨t', ht', -, hall⟩ := (linked_branches_monotone reachable_linkedStore ht).2 [link]
    rcases hall b hb (eq_of_beq hm) with ⟨u, hu, -, hrem⟩ | hk
    · rw [List.mem_singleton.1 hu] at hrem
      cases hrem
    · exact ⟨t, rfl, b, hb, t', ht', hk⟩

end PaPlatform.Tickets
