/-
  What a publication changes, and what is primary.

  The nodes of the artifacts only grow.  A reference becomes primary when all members
  of its package are exact and referenced; what else happens keeps them so.
-/
import PaPlatform.Tickets.Publication
import PaPlatform.Tickets.Comments
import PaPlatform.Tickets.Updates
import PaPlatform.Lib.Run

namespace PaPlatform.Tickets.Publication

open Js Guard Effect Chase
open Documents (Documented DocumentErrorCode memberBytes)

variable {clock : Clock} {digest : Bytes → Sha256} {tree tree' : Tree} {s s' : State} {st st' : Store}
  {t next : Ticket} {subject : Package} {member : Member} {predecessor : Option Package} {path rest : List String}
  {part id : String} {node : Node} {bytes : Bytes} {host : Host clock} {a : Answers clock}

/-! ## Trees -/

/-- The nodes of a tree are nodes of another one. -/
def Tree.Extends (tree tree' : Tree) : Prop := ∀ path node, tree.nodes path = some node → tree'.nodes path = some node

theorem Tree.Extends.refl : tree.Extends tree := fun _ _ h => h

theorem Tree.Extends.trans {tree'' : Tree} (h : tree.Extends tree') (h' : tree'.Extends tree'') : tree.Extends tree'' :=
  fun path node hn => h' path node (h path node hn)

/-- What a created tree is. -/
theorem Tree.create_eq_some : tree.create path part node = some tree' ↔
    tree.nodes path = some .directory ∧ tree.nodes (path ++ [part]) = none ∧
      tree'.nodes = Function.update tree.nodes (path ++ [part]) (some node) := by
  unfold create
  constructor
  · intro h
    split_ifs at h with hc
    cases h
    exact ⟨hc.1, hc.2, rfl⟩
  · rintro ⟨hd, hn, htree⟩
    rw [dif_pos ⟨hd, hn⟩]
    cases tree'
    cases htree
    rfl

theorem Tree.Extends.create (h : tree.create path part node = some tree') : tree.Extends tree' := by
  obtain ⟨-, hn, htree⟩ := Tree.create_eq_some.1 h
  intro p n hp
  rw [htree, Function.update_of_ne]
  · exact hp
  · rintro rfl
    rw [hn] at hp
    cases hp

theorem Tree.Extends.mkdir : tree.Extends (tree.mkdir path part) := by
  unfold Tree.mkdir
  rcases hc : tree.create path part .directory with _ | tree'
  · exact .refl
  · exact .create hc

/-- The directories above a node. -/
theorem Tree.rooted_above (hne : rest ≠ []) (h : tree.nodes (path ++ rest) ≠ none) :
    tree.nodes path = some .directory := by
  induction rest using List.reverseRecOn with
  | nil => exact absurd rfl hne
  | append_singleton rest name ih =>
    rw [← List.append_assoc] at h
    have hd := tree.rooted h
    rcases eq_or_ne rest [] with rfl | hrest
    · rwa [List.append_nil] at hd
    · refine ih hrest ?_
      rw [hd]
      exact Option.some_ne_none _

theorem Tree.walk_opened (h : tree.nodes (path ++ rest) = some .directory) : tree.walk path rest = .opened := by
  induction rest generalizing path with
  | nil => rfl
  | cons part rest ih =>
    rw [← List.singleton_append, ← List.append_assoc] at h
    have hd : tree.nodes (path ++ [part]) = some .directory := by
      rcases eq_or_ne rest [] with rfl | hrest
      · rwa [List.append_nil] at h
      · refine tree.rooted_above hrest ?_
        rw [h]
        exact Option.some_ne_none _
    rw [Tree.walk, hd]
    exact ih h

/-- A package whose directory is there can be opened. -/
theorem Tree.directory_opened (h : tree.nodes subject.parts = some .directory) : tree.directory subject = .opened := by
  have hroot : tree.nodes [] = some .directory := by
    have hparts : tree.nodes ([] ++ subject.parts) ≠ none := by
      rw [List.nil_append, h]
      exact Option.some_ne_none _
    exact tree.rooted_above (List.cons_ne_nil _ _) hparts
  rw [Tree.directory, if_pos hroot]
  exact tree.walk_opened h

/-! ## Files -/

/-- The node of a member. -/
def Tree.memberNode (tree : Tree) (subject : Package) (member : Member) : Option Node :=
  tree.nodes (subject.parts ++ [member.name])

/-- A file is inspected whatever else there is. -/
theorem inspect_file (h : tree.memberNode subject member = some (.file bytes)) : inspect digest tree subject member =
    if memberBytes < bytes.length then .unknown else if member.matches digest bytes then .exact else .conflict := by
  have hd : tree.nodes subject.parts = some .directory := by
    refine tree.rooted (?_ : tree.nodes (subject.parts ++ [member.name]) ≠ none)
    rw [← Tree.memberNode, h]
    exact Option.some_ne_none _
  rw [Tree.memberNode] at h
  unfold inspect
  rw [Tree.directory_opened hd]
  dsimp only
  rw [h]

/-- What is exact or in conflict is a file of admissible size. -/
theorem file_of_inspect
    (h : inspect digest tree subject member = .exact ∨ inspect digest tree subject member = .conflict) :
    ∃ bytes, tree.memberNode subject member = some (.file bytes) ∧ bytes.length ≤ memberBytes := by
  unfold inspect at h
  split at h
  · simp at h
  · simp at h
  · split at h
    · simp at h
    · rename_i bytes hb
      split_ifs at h with hl
      · simp at h
      · exact ⟨bytes, hb, Nat.le_of_not_lt hl⟩
      · exact ⟨bytes, hb, Nat.le_of_not_lt hl⟩
    · simp at h

/-- **A file that was inspected is inspected as before.** -/
theorem inspect_extends (he : tree.Extends tree')
    (h : inspect digest tree subject member = .exact ∨ inspect digest tree subject member = .conflict) :
    inspect digest tree' subject member = inspect digest tree subject member := by
  obtain ⟨bytes, hb, -⟩ := file_of_inspect h
  rw [inspect_file hb, inspect_file (he _ _ hb)]

/-! ## Tickets -/

/-- The ticket with other references. -/
def withRefs (t : Ticket) (refs : List DocRef) (now : String) : Ticket := { t with doc_refs := refs, updatedAt := now }

/-- The ticket that `queue` writes. -/
def queued (t : Ticket) (now : String) : Ticket :=
  { t with
    status := .pendingImplementation, assignee := "builder/team-manager", updatedAt := now, resolvedAt := none }

/-- The reference that a publication adds. -/
def reference (subject : Package) (member : Member) (now : String) : DocRef :=
  ⟨refType member, documentDestination subject member, false, now, "documents/tickets", none⟩

/-- The references after the promotion. -/
def promoted (subject : Package) (refs : List DocRef) : List DocRef :=
  refs.map fun ref => { ref with primary := ref.path == subject.primaryPath }

theorem normal_withRefs {refs : List DocRef} (hn : Normal clock t) (hrefs : ∀ r ∈ refs, Written clock r.addedAt) :
    Normal clock (withRefs t refs host.nowUtc) :=
  { hn with doc_refs := hrefs, updatedAt := host.written }

theorem normal_queued (hn : Normal clock t) : Normal clock (queued t host.nowUtc) :=
  { hn with updatedAt := host.written, resolvedAt := by rintro v ⟨⟩ }

theorem normal_promoted (hn : Normal clock t) : ∀ r ∈ promoted subject t.doc_refs, Written clock r.addedAt := by
  intro r hr
  obtain ⟨r', hr', rfl⟩ := List.mem_map.1 hr
  exact hn.doc_refs r' hr'

theorem normal_added (hn : Normal clock t) :
    ∀ r ∈ t.doc_refs ++ [reference subject member host.nowUtc], Written clock r.addedAt := by
  intro r hr
  rcases List.mem_append.1 hr with hr | hr
  · exact hn.doc_refs r hr
  · rw [List.mem_singleton.1 hr]
    exact host.written

theorem persist_ok (hs : Filed clock st) (ht : readTicket st id = some t) (hid : next.id = t.id)
    (hn : Normal clock next) :
    outcome (persist host id next) st = (.ok next, st.put next) := by
  have hc : isCanonicalTicketId next.id = true := hid ▸ canonical_of_readTicket hs ht
  refine wp_exact.1 ?_
  simp only [persist, wp_bind, wp_writeTicket]
  refine ⟨fun h => ?_, fun _ => (wp_of_ok (current_ok (hs.put hc hn) (readTicket_put ht hid))).2 ?_⟩
  · rw [hc] at h
    cases h
  · simp

/-- What an accepted update writes. -/
theorem update_ok {input : UpdateTicketInput} {actor : String} {context : TicketMutationContext} (hs : Filed clock st)
    (ht : readTicket st id = some t) (hn : Normal clock next) (hid : next.id = t.id)
    (hcand : candidate host id t input actor = .ok next)
    (hstatus : assertLifecycleOwnership input.status.join context = .ok ()) (hbranches : input.linkedBranches = false)
    (hdone : input.status.join ≠ some .done) :
    outcome (update host id input actor context) st = (.ok next, st.put next) := by
  refine wp_exact.1 ?_
  simp only [update, wp_bind, wp_liftM, wp_failIf, hbranches]
  refine ⟨fun _ _ => ⟨by simp, fun _ => (wp_of_ok (current_ok hs ht)).2 ?_⟩, fun e he => ?_⟩
  swap
  · rw [hstatus] at he
    cases he
  refine ⟨fun h => absurd h.1 hdone, fun _ => ⟨fun next' h => ?_, fun e h => ?_⟩⟩
  · obtain rfl := Except.ok.inj (hcand.symm.trans h)
    rw [wp_tryCatch]
    exact (wp_of_ok (persist_ok hs ht hid hn)).2 ⟨rfl, rfl⟩
  · cases hcand.symm.trans h

/-- There is no reference to a member. -/
theorem addDocRef_addition (hno : refsOf t subject member = []) (now : String) :
    addDocRef t.doc_refs ⟨some (refType member), documentDestination subject member, some false, none⟩
      "documents/tickets" now = t.doc_refs ++ [reference subject member now] := by
  have hall : t.doc_refs.filter (fun ref => ref.path ≠ documentDestination subject member) = t.doc_refs := by
    refine List.filter_eq_self.2 fun r hr => ?_
    have := List.filter_eq_nil_iff.1 hno r hr
    simpa using this
  simp only [addDocRef, hall, Option.some.injEq, Bool.false_eq_true, if_false, List.map_id', reference,
    Option.getD_some, Option.getD_none]

theorem candidate_addition (hn : Normal clock t) (hno : refsOf t subject member = []) :
    candidate host id t (addition subject member) "documents/tickets" =
      .ok (withRefs t (t.doc_refs ++ [reference subject member host.nowUtc]) host.nowUtc) := by
  have hnext : Normal clock (withRefs t (t.doc_refs ++ [reference subject member host.nowUtc]) host.nowUtc) :=
    normal_withRefs hn (normal_added hn)
  have hnormal : normalizeTicket host _ = .ok _ := hnext.normalize
  refine Eq.trans ?_ hnormal
  rw [← addDocRef_addition hno]
  rfl

theorem candidate_promotion (hn : Normal clock t) :
    candidate host id t (promotion subject t) "documents/tickets" =
      .ok (withRefs t (promoted subject t.doc_refs) host.nowUtc) := by
  have hnext : Normal clock (withRefs t (promoted subject t.doc_refs) host.nowUtc) :=
    normal_withRefs hn (normal_promoted hn)
  have hnormal : normalizeTicket host _ = .ok _ := hnext.normalize
  exact Eq.trans rfl hnormal

theorem candidate_queueing (hn : Normal clock t) :
    candidate host id t queueing "documents/tickets" = .ok (queued t host.nowUtc) := by
  have hnext : Normal clock (queued t host.nowUtc) := normal_queued hn
  have hnormal : normalizeTicket host _ = .ok _ := hnext.normalize
  exact Eq.trans rfl hnormal

/-- The state with a ticket. -/
def State.put (s : State) (t : Ticket) : State := { s with store := s.store.put t }

theorem update_addition (hs : Filed clock s.store) (ht : readTicket s.store subject.ticket = some t)
    (hno : refsOf t subject member = []) : s.update a subject.ticket (addition subject member) =
      (s.put (withRefs t (t.doc_refs ++ [reference subject member a.host.nowUtc]) a.host.nowUtc), .ok ⟨⟩) := by
  have hn := hs.normal (lookup_of_readTicket ht)
  have hnext : Normal clock (withRefs t (t.doc_refs ++ [reference subject member a.host.nowUtc]) a.host.nowUtc) :=
    normal_withRefs hn (normal_added hn)
  unfold State.update
  rw [update_ok hs ht hnext rfl (candidate_addition hn hno) rfl rfl (by simp [addition, UpdateTicketInput.empty])]
  rfl

theorem update_promotion (hs : Filed clock s.store) (ht : readTicket s.store subject.ticket = some t) :
    s.update a subject.ticket (promotion subject t) =
      (s.put (withRefs t (promoted subject t.doc_refs) a.host.nowUtc), .ok ⟨⟩) := by
  have hn := hs.normal (lookup_of_readTicket ht)
  have hnext : Normal clock (withRefs t (promoted subject t.doc_refs) a.host.nowUtc) :=
    normal_withRefs hn (normal_promoted hn)
  unfold State.update
  rw [update_ok hs ht hnext rfl (candidate_promotion hn) rfl rfl (by simp [promotion, UpdateTicketInput.empty])]
  rfl

theorem update_queueing (hs : Filed clock s.store) (ht : readTicket s.store subject.ticket = some t) :
    s.update a subject.ticket queueing = (s.put (queued t a.host.nowUtc), .ok ⟨⟩) ∨
      s.update a subject.ticket queueing = (s, .error .uncertain) := by
  have hn := hs.normal (lookup_of_readTicket ht)
  have hnext : Normal clock (queued t a.host.nowUtc) := normal_queued hn
  unfold State.update
  cases howner : assertLifecycleOwnership (some .pendingImplementation) a.context with
  | ok _ =>
    refine Or.inl ?_
    rw [update_ok hs ht hnext rfl (candidate_queueing hn) howner rfl (by simp [queueing])]
    rfl
  | error e =>
    refine Or.inr ?_
    have hrefused : outcome (update a.host subject.ticket queueing "documents/tickets" a.context) s.store =
        (.error e, s.store) := by
      have hstatus : assertLifecycleOwnership queueing.status.join a.context = .error e := howner
      rw [update, outcome_bind, hstatus]
      rfl
    rw [hrefused]

/-- **What is read after a ticket was rewritten.** -/
theorem readTicket_put_iff {u : Ticket} (ht : st.files.lookup t.id = some (.ticket t)) (hid : next.id = t.id) :
    readTicket (st.put next) id = some u ↔
      (readTicket st id = some t ∧ u = next) ∨ (readTicket st id = some u ∧ u.id ≠ t.id) := by
  have hback : SameFiles st ((st.put next).put t) := Apart.put (hid ▸ apart_put) ht
  constructor
  · intro h
    by_cases hu : u.id = t.id
    · have hlook := lookup_of_readTicket h
      rw [hu, ← hid, Store.put, AList.lookup_insert] at hlook
      obtain rfl : next = u := TicketFile.ticket.inj (Option.some.inj hlook)
      refine Or.inl ⟨?_, rfl⟩
      rw [← readTicket_congr hback]
      exact readTicket_put h hid.symm
    · refine Or.inr ⟨?_, hu⟩
      obtain ⟨hc, d, hl⟩ := readTicket_eq_some.1 h
      rw [← readTicket_congr hback]
      refine readTicket_eq_some.2 ⟨hc, d, ?_⟩
      have hend : Leads readFile (st.put next).files 0 t.id t.id next := by
        refine .here (a := .ticket next) ?_ (readFile_ticket.2 ⟨rfl, hid⟩)
        rw [← hid]
        exact AList.lookup_insert _
      exact hl.insert_other hend hu
  · rintro (⟨h, rfl⟩ | ⟨h, hu⟩)
    · exact readTicket_put h hid
    · obtain ⟨hc, d, hl⟩ := readTicket_eq_some.1 h
      refine readTicket_eq_some.2 ⟨hc, d, ?_⟩
      have hend : Leads readFile st.files 0 t.id t.id t := .here ht (readFile_ticket.2 ⟨rfl, rfl⟩)
      rw [Store.put, hid]
      exact hl.insert_other hend hu

/-! ## Observations -/

def PackageObservation.clear : PackageObservation → Bool
  | absent | partially | complete => true
  | _ => false

/-- Nothing is in the way of the publication. -/
structure Clear (digest : Bytes → Sha256) (tree : Tree) (t : Ticket) (subject : Package)
    (predecessor : Option Package) : Prop where
  members : ∀ m ∈ subject.members, inspect digest tree subject m = .absent ∨ inspect digest tree subject m = .exact
  primaries : primariesOk t subject predecessor = true
  predecessor : predecessor.bind (predecessorFault digest tree t subject) = none
  refs : ∀ m ∈ subject.members, (refsOf t subject m).length ≤ 1 ∧ (refsOf t subject m).all (refOk m) = true

/-- All members are exact and referenced, and the requirements are primary. -/
def isComplete (digest : Bytes → Sha256) (tree : Tree) (t : Ticket) (subject : Package) : Bool :=
  (subject.members.map (inspect digest tree subject)).all (· == .exact) &&
    (subject.members.map fun m => (refsOf t subject m).length).sum == subject.members.length &&
    (primaries t).length == 1 && (primaries t).all (·.path == subject.primaryPath)

theorem not_clear_predecessorFault {p : Package} {fault : PackageObservation}
    (h : predecessorFault digest tree t subject p = some fault) : fault.clear = false := by
  unfold predecessorFault at h
  split_ifs at h with hc
  · cases h
    rfl
  · obtain ⟨m, -, hm⟩ := List.exists_of_findSome?_eq_some h
    unfold memberFault at hm
    split at hm
    · cases hm
      rfl
    · split_ifs at hm
      cases hm
      rfl
    · cases hm
      rfl

theorem Clear.observe (h : Clear digest tree t subject predecessor) :
    observe digest tree t subject predecessor = if isComplete digest tree t subject then .complete
      else if (subject.members.map (inspect digest tree subject)).any (· == .exact) ||
        decide (0 < (subject.members.map fun m => (refsOf t subject m).length).sum) then .partially else .absent := by
  have hvalues : ∀ v, v ≠ .absent → v ≠ .exact →
      (subject.members.map (inspect digest tree subject)).any (· == v) = false := by
    intro v ha he
    refine List.any_eq_false.2 fun x hx => ?_
    obtain ⟨m, hm, rfl⟩ := List.mem_map.1 hx
    rcases h.members m hm with hv | hv <;> rw [hv] <;> cases v <;> simp_all
  have hrefs : (subject.members.any fun m =>
      decide (1 < (refsOf t subject m).length) || !(refsOf t subject m).all (refOk m)) = false := by
    refine List.any_eq_false.2 fun m hm => ?_
    have := h.refs m hm
    simp [this.2, this.1]
  unfold Publication.observe
  dsimp only
  rw [hvalues .conflict (by decide) (by decide), hvalues .unknown (by decide) (by decide), h.primaries, h.predecessor,
    hrefs]
  rfl

theorem clear_iff :
    (observe digest tree t subject predecessor).clear = true ↔ Clear digest tree t subject predecessor := by
  constructor
  · intro h
    unfold observe at h
    dsimp only at h
    by_cases hconflict : (subject.members.map (inspect digest tree subject)).any (· == .conflict) = true
    · rw [if_pos hconflict] at h
      cases h
    by_cases hunknown : (subject.members.map (inspect digest tree subject)).any (· == .unknown) = true
    · rw [if_neg hconflict, if_pos hunknown] at h
      cases h
    by_cases hprimaries : primariesOk t subject predecessor = false
    · rw [if_neg hconflict, if_neg hunknown, if_pos hprimaries] at h
      cases h
    rw [if_neg hconflict, if_neg hunknown, if_neg hprimaries] at h
    cases hfault : predecessor.bind (predecessorFault digest tree t subject) with
    | some fault =>
      obtain ⟨p, -, hp⟩ := Option.bind_eq_some_iff.1 hfault
      rw [hfault] at h
      exact absurd h (by simp [not_clear_predecessorFault hp])
    | none =>
      rw [hfault] at h
      dsimp only at h
      refine ⟨fun m hm => ?_, by simpa using hprimaries, hfault, fun m hm => ?_⟩
      · have h1 : inspect digest tree subject m ≠ .conflict := fun hv =>
          hconflict (List.any_eq_true.2 ⟨_, List.mem_map_of_mem hm, by rw [hv]; rfl⟩)
        have h2 : inspect digest tree subject m ≠ .unknown := fun hv =>
          hunknown (List.any_eq_true.2 ⟨_, List.mem_map_of_mem hm, by rw [hv]; rfl⟩)
        cases hv : inspect digest tree subject m <;> simp_all
      · by_contra hrefs
        rw [if_pos (List.any_eq_true.2 ⟨m, hm, by simpa [Classical.or_iff_not_imp_left] using hrefs⟩)] at h
        cases h
  · intro h
    rw [h.observe]
    split_ifs <;> rfl

theorem writable_ok (h : writable digest tree t subject predecessor = .ok ⟨⟩) :
    Clear digest tree t subject predecessor ∧ observe digest tree t subject predecessor ≠ .complete ∧
      claimable t = true := by
  simp only [writable, bind_eq_ok, throwIf_eq_ok] at h
  obtain ⟨-, hobs, hclaim⟩ := h
  rw [not_and_or, not_not, not_not] at hobs
  refine ⟨clear_iff.1 ?_, ?_, by simpa using hclaim⟩
  · rcases hobs with h | h <;> rw [h] <;> rfl
  · rcases hobs with h | h <;> rw [h] <;> exact fun hc => by cases hc

theorem ticket_eq_ok (hs : Filed clock s.store) : s.ticket host subject = .ok t ↔
    readTicket s.store subject.ticket = some t ∧ t.project = subject.repository.key := by
  unfold State.ticket
  rw [hs.get]
  cases readTicket s.store subject.ticket with
  | none =>
    show (Except.error _ : Documented Ticket) = _ ↔ _
    simp
  | some t' =>
    show (throwIf (t'.project ≠ subject.repository.key) _ >>= fun _ => Except.ok t') = _ ↔ _
    simp only [bind_eq_ok, throwIf_eq_ok, Except.ok.injEq, Option.some.injEq, not_not]
    constructor
    · rintro ⟨_, h, rfl⟩
      exact ⟨rfl, h⟩
    · rintro ⟨rfl, h⟩
      exact ⟨⟨⟩, h, rfl⟩

theorem authorize_ok {p : Publishing} (hs : Filed clock s.store) (h : s.authorize digest a p = .ok t) :
    readTicket s.store p.subject.ticket = some t ∧ t.project = p.subject.repository.key ∧
      Clear digest s.tree t p.subject p.predecessor ∧ observe digest s.tree t p.subject p.predecessor ≠ .complete ∧
      claimable t = true := by
  simp only [State.authorize, bind_eq_ok, pure_eq_ok] at h
  obtain ⟨_, -, t', ht, _, hw, rfl⟩ := h
  obtain ⟨hread, hproject⟩ := (ticket_eq_ok hs).1 ht
  exact ⟨hread, hproject, writable_ok hw⟩

/-! ## Steps -/

/-- All members are exact, each with one reference of its type. -/
structure Whole (digest : Bytes → Sha256) (tree : Tree) (t : Ticket) (subject : Package) : Prop where
  exact : ∀ m ∈ subject.members, inspect digest tree subject m = .exact
  referenced : ∀ m ∈ subject.members, ∃ r, refsOf t subject m = [r] ∧ r.type = refType m

/-- What a call for a package does to the state. -/
inductive Changed (clock : Clock) (digest : Bytes → Sha256) (subject : Package) (s : State) : State → Prop
  | grown {tree : Tree} : s.tree.Extends tree → Changed clock digest subject s { s with tree }
  | added {t : Ticket} {member : Member} (host : Host clock) : readTicket s.store subject.ticket = some t →
      refsOf t subject member = [] → Changed clock digest subject s
        (s.put (withRefs t (t.doc_refs ++ [reference subject member host.nowUtc]) host.nowUtc))
  | promoted {t : Ticket} (host : Host clock) : readTicket s.store subject.ticket = some t →
      Whole digest s.tree t subject →
      Changed clock digest subject s (s.put (withRefs t (promoted subject t.doc_refs) host.nowUtc))

theorem Changed.same : Changed clock digest subject s s := .grown .refl

/-- A call goes on for the same package. -/
def Progress.Goes (subject : Package) : Progress → Prop
  | .running p => p.subject = subject
  | .ended _ => True

theorem Progress.Goes.after {next : Progress} {r : Documented Unit} (h : next.Goes subject) :
    (next.after r).Goes subject := by
  cases r with
  | ok _ => exact h
  | error _ => trivial

theorem start_changed {progress : Progress} (h : start digest a s subject predecessor = .ok (s', progress)) :
    s' = s ∧ progress.Goes subject := by
  simp only [start, bind_eq_ok] at h
  obtain ⟨_, -, t, -, h⟩ := h
  split_ifs at h
  · cases h
    exact ⟨rfl, trivial⟩
  · simp only [bind_eq_ok, pure_eq_ok] at h
    obtain ⟨_, -, h⟩ := h
    cases h
    exact ⟨rfl, rfl⟩

theorem Clear.whole (h : Clear digest tree t subject predecessor) (hready : subject.ready digest tree t = true) :
    Whole digest tree t subject := by
  rw [Package.ready, List.all_eq_true] at hready
  refine ⟨fun m hm => ?_, fun m hm => ?_⟩
  · simpa using (Bool.and_eq_true_iff.1 (hready m hm)).1
  · obtain ⟨r, hr, htype⟩ := List.any_eq_true.1 (Bool.and_eq_true_iff.1 (hready m hm)).2
    refine ⟨r, ?_, by simpa using htype⟩
    have hlen := (h.refs m hm).1
    match hl : refsOf t subject m with
    | [] => rw [hl] at hr; cases hr
    | [x] => rw [hl, List.mem_singleton] at hr; rw [hr]
    | x :: y :: l => rw [hl] at hlen; simp at hlen

theorem advance_changed {p : Publishing} {progress : Progress} (hs : Filed clock s.store)
    (h : advance digest a s p = .ok (s', progress)) :
    Changed clock digest p.subject s s' ∧ progress.Goes p.subject := by
  unfold advance at h
  split at h
  · cases h
    exact ⟨.same, rfl⟩
  · simp only [makeDirectory, bind_eq_ok, pure_eq_ok] at h
    obtain ⟨_, -, h⟩ := h
    cases h
    refine ⟨.grown .mkdir, ?_⟩
    split_ifs
    · rfl
    · trivial
  · cases h
    exact ⟨.same, rfl⟩
  · split_ifs at h
    · cases h
      exact ⟨.same, rfl⟩
    · simp only [writeMember, bind_eq_ok, pure_eq_ok, require_eq_ok] at h
      obtain ⟨_, -, _, -, _, -, tree, htree, h⟩ := h
      cases h
      refine ⟨.grown (.create htree), ?_⟩
      split_ifs
      · rfl
      · trivial
  · cases h
    exact ⟨.same, rfl⟩
  · rename_i member rest hstage
    simp only [bind_eq_ok] at h
    obtain ⟨t, ht, h⟩ := h
    split_ifs at h with href
    · cases h
      exact ⟨.same, rfl⟩
    · simp only [addReference, bind_eq_ok, pure_eq_ok] at h
      obtain ⟨_, -, h⟩ := h
      obtain ⟨hread, -⟩ := (ticket_eq_ok hs).1 ht
      have hno : refsOf t p.subject member = [] := by
        rw [List.any_eq_true, not_exists] at href
        exact List.filter_eq_nil_iff.2 fun r hr hp => href r ⟨hr, hp⟩
      rw [update_addition hs hread hno] at h
      cases h
      exact ⟨.added a.host hread hno, rfl⟩
  · simp only [promote, bind_eq_ok, pure_eq_ok, throwIf_eq_ok] at h
    obtain ⟨t, hauth, _, hready, h⟩ := h
    obtain ⟨hread, -, hclear, -⟩ := authorize_ok hs hauth
    rw [update_promotion hs hread] at h
    cases h
    exact ⟨.promoted a.host hread (hclear.whole (by simpa using hready)), trivial⟩

/-- The references that are read were there before. -/
def KeepsReferences (st st' : Store) : Prop := ∀ id t', readTicket st' id = some t' → t'.doc_refs = [] ∨
  ∃ id' t, readTicket st id' = some t ∧ t'.doc_refs = t.doc_refs

theorem KeepsReferences.refl : KeepsReferences st st := fun id t h => Or.inr ⟨id, t, h, rfl⟩

theorem KeepsReferences.put (ht : readTicket st id = some t) (hid : next.id = t.id)
    (hrefs : next.doc_refs = t.doc_refs) : KeepsReferences st (st.put next) := by
  intro id' u hu
  rcases (readTicket_put_iff (lookup_of_readTicket ht) hid).1 hu with ⟨h, rfl⟩ | ⟨h, -⟩
  · exact Or.inr ⟨id', t, h, hrefs⟩
  · exact Or.inr ⟨id', u, h, rfl⟩

theorem filed_rewrite (hs : Filed clock st) (ht : readTicket st id = some t) (hid : next.id = t.id)
    (hn : Normal clock next) : Filed clock (st.put next) :=
  hs.put (hid ▸ canonical_of_readTicket hs ht) hn

theorem queue_changed {again : Documented Unit} {progress : Progress} (hs : Filed clock s.store)
    (h : queue digest a again s subject predecessor = .ok (s', progress)) :
    s'.tree = s.tree ∧ KeepsReferences s.store s'.store ∧ Filed clock s'.store ∧ ∃ r, progress = .ended r := by
  simp only [queue, bind_eq_ok] at h
  obtain ⟨_, -, _, -, t, ht, _, -, h⟩ := h
  obtain ⟨hread, -⟩ := (ticket_eq_ok hs).1 ht
  split_ifs at h
  · cases h
    exact ⟨rfl, .refl, hs, _, rfl⟩
  · simp only [bind_eq_ok, pure_eq_ok] at h
    obtain ⟨_, -, _, -, h⟩ := h
    rcases update_queueing (a := a) hs hread with hu | hu <;> rw [hu] at h <;> cases h
    · have hn : Normal clock (queued t a.host.nowUtc) := normal_queued (hs.normal (lookup_of_readTicket hread))
      exact ⟨rfl, .put hread rfl rfl, filed_rewrite hs hread rfl hn, _, rfl⟩
    · exact ⟨rfl, .refl, hs, _, rfl⟩

/-- A step of a run: a `publish` goes on, or the references stay. -/
inductive Moved (clock : Clock) (digest : Bytes → Sha256) (w : World) (e : Event clock) (w' : World) : Prop
  | called {subject : Package} :
      ((∃ a predecessor, e = .publish a subject predecessor) ∨ ∃ p, w.call = some p ∧ p.subject = subject) →
      Changed clock digest subject w.state w'.state → (∀ p, w'.call = some p → p.subject = subject) →
      Moved clock digest w e w'
  | kept : w'.call = none → w'.state.tree = w.state.tree → Filed clock w'.state.store →
      (KeepsReferences w.state.store w'.state.store ∨ ∃ c, e = .ticket c) → Moved clock digest w e w'

variable {w w' : World} {e : Event clock}

theorem moved_after {r : Documented (State × Progress)} {digest' : Bytes → Sha256}
    (hstart : (∃ a predecessor, e = .publish a subject predecessor) ∨ ∃ p, w.call = some p ∧ p.subject = subject)
    (hr : ∀ s' progress, r = .ok (s', progress) → Changed clock digest' subject w.state s' ∧ progress.Goes subject) :
    Moved clock digest' w e (w.after r) := by
  match r with
  | .error code => exact .called hstart .same (by rintro p ⟨⟩)
  | .ok (s', .running p) =>
    obtain ⟨hc, hg⟩ := hr s' _ rfl
    exact .called hstart hc (by rintro _ ⟨⟩; exact hg)
  | .ok (s', .ended _) => exact .called hstart (hr s' _ rfl).1 (by rintro p ⟨⟩)

/-- **What a step can do.** -/
theorem step_moved (hs : Filed clock w.state.store) (h : step digest w e = .ok w') : Moved clock digest w e w' := by
  cases e with
  | publish a subject predecessor =>
    simp only [step, bind_eq_ok, pure_eq_ok] at h
    obtain ⟨_, -, rfl⟩ := h
    refine moved_after (Or.inl ⟨a, predecessor, rfl⟩) fun s' progress hr => ?_
    obtain ⟨rfl, hg⟩ := start_changed hr
    exact ⟨.same, hg⟩
  | advance a =>
    simp only [step, bind_eq_ok, pure_eq_ok, require_eq_ok] at h
    obtain ⟨p, hp, rfl⟩ := h
    exact moved_after (Or.inr ⟨p, hp, rfl⟩) fun s' progress hr => advance_changed hs hr
  | crash =>
    simp only [step, bind_eq_ok, pure_eq_ok, require_eq_ok] at h
    obtain ⟨p, -, rfl⟩ := h
    exact .kept rfl rfl hs (Or.inl .refl)
  | queue a again subject predecessor =>
    simp only [step, bind_eq_ok, pure_eq_ok] at h
    obtain ⟨_, -, rfl⟩ := h
    rcases hq : queue digest a again w.state subject predecessor with code | ⟨s', progress⟩
    · exact .kept rfl rfl hs (Or.inl .refl)
    · obtain ⟨htree, hkeep, hfiled, r, rfl⟩ := queue_changed hs hq
      exact .kept rfl htree hfiled (Or.inl hkeep)
  | ticket c =>
    simp only [step, bind_eq_ok, pure_eq_ok] at h
    obtain ⟨_, hcall, rfl⟩ := h
    refine .kept ?_ rfl ((change_outcome hs c).filed hs) (Or.inr ⟨c, rfl⟩)
    simpa using hcall

/-! ## What is primary -/

theorem Whole.extends {tree' : Tree} (h : Whole digest tree t subject) (he : tree.Extends tree') :
    Whole digest tree' t subject :=
  ⟨fun m hm => by rw [inspect_extends he (Or.inl (h.exact m hm)), h.exact m hm], h.referenced⟩

theorem Whole.congr {t' : Ticket} (h : Whole digest tree t subject) (hrefs : t'.doc_refs = t.doc_refs) :
    Whole digest tree t' subject := by
  refine ⟨h.exact, fun m hm => ?_⟩
  unfold refsOf
  rw [hrefs]
  exact h.referenced m hm

/-- A reference to another place is added. -/
theorem Whole.added {other : Package} {now : String} (h : Whole digest tree t subject)
    (hno : refsOf t other member = []) :
    Whole digest tree (withRefs t (t.doc_refs ++ [reference other member now]) now) subject := by
  refine ⟨h.exact, fun m hm => ?_⟩
  obtain ⟨r, hr, htype⟩ := h.referenced m hm
  refine ⟨r, ?_, htype⟩
  have hne : documentDestination other member ≠ documentDestination subject m := by
    intro heq
    rw [refsOf, heq, ← refsOf, hr] at hno
    cases hno
  rw [refsOf, withRefs, List.filter_append, ← refsOf, hr]
  simp [reference, hne]

theorem Whole.promoted {other : Package} {now : String} (h : Whole digest tree t subject) :
    Whole digest tree (withRefs t (promoted other t.doc_refs) now) subject := by
  refine ⟨h.exact, fun m hm => ?_⟩
  obtain ⟨r, hr, htype⟩ := h.referenced m hm
  refine ⟨{ r with primary := r.path == other.primaryPath }, ?_, htype⟩
  rw [refsOf, withRefs, Publication.promoted, List.filter_map]
  show (List.filter _ t.doc_refs).map _ = _
  have hsame : t.doc_refs.filter ((fun r => r.path == documentDestination subject m) ∘ fun ref : DocRef =>
      { ref with primary := ref.path == other.primaryPath }) = refsOf t subject m := rfl
  rw [hsame, hr]
  rfl

/-- A path that is primary in some ticket. -/
def Primary (st : Store) (path : String) : Prop :=
  ∃ id t, readTicket st id = some t ∧ ∃ r ∈ t.doc_refs, r.primary = true ∧ r.path = path

/-- What is primary was so at first, or is the reference of a whole package. -/
structure Settled (clock : Clock) (digest : Bytes → Sha256) (initial : Store) (begun : Package → Prop) (s : State) :
    Prop where
  filed : Filed clock s.store
  primary : ∀ {id t r}, readTicket s.store id = some t → r ∈ t.doc_refs → r.primary = true →
    Primary initial r.path ∨ ∃ subject, begun subject ∧ subject.primaryPath = r.path ∧ Whole digest s.tree t subject

variable {initial : Store} {begun begun' : Package → Prop}

theorem Settled.mono (h : Settled clock digest initial begun s) (hb : ∀ subject, begun subject → begun' subject) :
    Settled clock digest initial begun' s := by
  refine ⟨h.filed, fun hread hr hp => (h.primary hread hr hp).imp_right ?_⟩
  rintro ⟨subject, hbegun, hpath, hwhole⟩
  exact ⟨subject, hb subject hbegun, hpath, hwhole⟩

theorem Settled.kept (h : Settled clock digest initial begun s) (htree : s'.tree = s.tree) (hs : Filed clock s'.store)
    (hk : KeepsReferences s.store s'.store) : Settled clock digest initial begun s' := by
  refine ⟨hs, fun {id t r} hread hr hp => ?_⟩
  rcases hk id t hread with hnil | ⟨id', t', hread', hrefs⟩
  · rw [hnil] at hr
    cases hr
  · rw [hrefs] at hr
    refine (h.primary hread' hr hp).imp_right ?_
    rintro ⟨subject, hb, hpath, hwhole⟩
    rw [htree]
    exact ⟨subject, hb, hpath, hwhole.congr hrefs⟩

/-- A ticket is rewritten; what becomes primary is accounted for. -/
theorem Settled.rewrite (h : Settled clock digest initial begun s) (ht : readTicket s.store id = some t)
    (hid : next.id = t.id) (hn : Normal clock next)
    (hnext : ∀ r ∈ next.doc_refs, r.primary = true → Primary initial r.path ∨
      ∃ subject, begun subject ∧ subject.primaryPath = r.path ∧ Whole digest s.tree next subject) :
    Settled clock digest initial begun (s.put next) := by
  refine ⟨filed_rewrite h.filed ht hid hn, fun {id' u r} hread hr hp => ?_⟩
  rcases (readTicket_put_iff (lookup_of_readTicket ht) hid).1 hread with ⟨-, rfl⟩ | ⟨hread', -⟩
  · exact hnext r hr hp
  · exact h.primary hread' hr hp

theorem Settled.changed (h : Settled clock digest initial begun s) (hb : begun subject)
    (hc : Changed clock digest subject s s') : Settled clock digest initial begun s' := by
  cases hc with
  | grown he =>
    refine ⟨h.filed, fun hread hr hp => (h.primary hread hr hp).imp_right ?_⟩
    rintro ⟨other, hbegun, hpath, hwhole⟩
    exact ⟨other, hbegun, hpath, hwhole.extends he⟩
  | @added t member host hread hno =>
    have hn := h.filed.normal (lookup_of_readTicket hread)
    refine h.rewrite hread rfl (normal_withRefs hn (normal_added hn)) fun r hr hp => ?_
    rcases List.mem_append.1 hr with hr | hr
    · refine (h.primary hread hr hp).imp_right ?_
      rintro ⟨other, hbegun, hpath, hwhole⟩
      exact ⟨other, hbegun, hpath, hwhole.added hno⟩
    · rw [List.mem_singleton.1 hr] at hp
      cases hp
  | promoted host hread hwhole =>
    have hn := h.filed.normal (lookup_of_readTicket hread)
    refine h.rewrite hread rfl (normal_withRefs hn (normal_promoted hn)) fun r hr hp => Or.inr ?_
    obtain ⟨r', -, rfl⟩ := List.mem_map.1 hr
    exact ⟨subject, hb, (beq_iff_eq.1 hp).symm, hwhole.promoted⟩

/-- The packages whose `publish` was called. -/
def Begun (h : List (Run.Step World (Event clock))) (subject : Package) : Prop :=
  ∃ st ∈ h, ∃ a predecessor, st.event = .publish a subject predecessor

/-- **What is primary is published.**  However the calls of `publish` and `queue` for any packages
    and the other calls of the store are ordered, and wherever a process ends, a reference that
    has become primary is that of a package that was to be published, and all the members of this
    package are exact and referenced; as long as the other calls leave the references alone. -/
theorem primary_is_published {w₀ w : World} {h : List (Run.Step World (Event clock))} {id : String} {t : Ticket}
    {r : DocRef} (hs : Filed clock w₀.state.store) (hcall : w₀.call = none) (hr : Run.Reaches (step digest) w₀ h w)
    (hkeep : ∀ st ∈ h, (∃ c, st.event = .ticket c) → KeepsReferences st.before.state.store st.after.state.store)
    (ht : readTicket w.state.store id = some t) (hmem : r ∈ t.doc_refs) (hp : r.primary = true) :
    Primary w₀.state.store r.path ∨
      ∃ subject, Begun h subject ∧ subject.primaryPath = r.path ∧ Whole digest w.state.tree t subject := by
  have hinv : (∀ st ∈ h, (∃ c, st.event = .ticket c) → KeepsReferences st.before.state.store st.after.state.store) →
      Settled clock digest w₀.state.store (Begun h) w.state ∧ ∀ p, w.call = some p → Begun h p.subject := by
    refine Run.Reaches.invariant (P := fun h w => (∀ st ∈ h, (∃ c, st.event = .ticket c) →
      KeepsReferences st.before.state.store st.after.state.store) →
        Settled clock digest w₀.state.store (Begun h) w.state ∧ ∀ p, w.call = some p → Begun h p.subject) ?_ ?_ hr
    · intro _
      refine ⟨⟨hs, fun hread hr hp => Or.inl ⟨_, _, hread, _, hr, hp, rfl⟩⟩, ?_⟩
      rintro p hp
      rw [hcall] at hp
      cases hp
    · intro h w e w' _ ih hstep hkeep
      obtain ⟨hset, hbegun⟩ := ih fun st hst => hkeep st (List.mem_append_left _ hst)
      have hmono : ∀ subject, Begun h subject → Begun (h ++ [⟨w, e, w'⟩]) subject := by
        rintro subject ⟨st, hst, hpub⟩
        exact ⟨st, List.mem_append_left _ hst, hpub⟩
      cases step_moved hset.filed hstep with
      | @called subject hstart hc hcall' =>
        have hb : Begun (h ++ [⟨w, e, w'⟩]) subject := by
          rcases hstart with hpub | ⟨p, hp, rfl⟩
          · exact ⟨⟨w, e, w'⟩, by simp, hpub⟩
          · exact hmono _ (hbegun p hp)
        exact ⟨(hset.mono hmono).changed hb hc, fun p hp => hcall' p hp ▸ hb⟩
      | kept hnone htree hfiled hk =>
        refine ⟨(hset.mono hmono).kept htree hfiled (hk.elim (fun hk => hk) fun hc => ?_), fun p hp => ?_⟩
        · exact hkeep ⟨w, e, w'⟩ (by simp) hc
        · rw [hnone] at hp
          cases hp
  exact (hinv hkeep).1.primary ht hmem hp

namespace Sample

/-- What is true of the world after a sample run. -/
theorem ran {P : World → Bool} {w₀ : World} {es : List (Event isoClock)}
    (h : (Run.exec (step constant) w₀ es).toOption.any P = true) :
    ∃ h w, Run.Reaches (step constant) w₀ h w ∧ h.map Run.Step.event = es ∧ P w = true := by
  cases hexec : Run.exec (step constant) w₀ es with
  | error e =>
    rw [hexec] at h
    cases h
  | ok w =>
    obtain ⟨hist, hr, hes⟩ := Run.reaches_of_exec hexec
    rw [hexec] at h
    exact ⟨hist, w, hr, hes, h⟩

theorem promotes : (Run.exec (step constant) world (attempt 12)).toOption.any (fun w =>
    (readTicket w.state.store "PA-001").any fun t => t.doc_refs.any (·.primary)) = true := by
  decide +kernel

end Sample

theorem primary_is_published_sample :
    ∃ (h : List (Run.Step World (Event isoClock))) (w : World) (t : Ticket) (r : DocRef),
    Run.Reaches (step Sample.constant) Sample.world h w ∧ readTicket w.state.store "PA-001" = some t ∧ r ∈ t.doc_refs ∧
    r.primary = true ∧ (Primary Sample.store r.path ∨ ∃ subject, Begun h subject ∧ subject.primaryPath = r.path ∧
      Whole Sample.constant w.state.tree t subject) := by
  obtain ⟨h, w, hr, hes, hany⟩ := Sample.ran Sample.promotes
  cases ht : readTicket w.state.store "PA-001" with
  | none =>
    rw [ht] at hany
    cases hany
  | some t =>
    rw [ht] at hany
    obtain ⟨r, hmem, hp⟩ := List.any_eq_true.1 hany
    refine ⟨h, w, t, r, hr, ht, hmem, hp, primary_is_published Sample.filed rfl hr ?_ ht hmem hp⟩
    rintro st hst ⟨c, hc⟩
    have hevent : Event.ticket c ∈ Sample.attempt 12 := by
      rw [← hes, ← hc]
      exact List.mem_map_of_mem hst
    simp [Sample.attempt] at hevent

end PaPlatform.Tickets.Publication
