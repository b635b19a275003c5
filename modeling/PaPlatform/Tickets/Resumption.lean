/-
  A publication that was interrupted is completed by its retry.

  Until its last step a publication leaves nothing in its own way: it creates what is
  absent, and adds references where there are none.  So a retry may begin wherever the
  call before it ended, unless a file was torn.  A torn file is in the way for good.
-/
import PaPlatform.Tickets.Promotion
import PaPlatform.Lib.Separated

namespace PaPlatform.Tickets.Publication

open Js Guard Effect
open Documents (Documented DocumentErrorCode memberBytes)

variable {clock : Clock} {digest : Bytes → Sha256} {tree tree' : Tree} {s s' : State} {t t' : Ticket}
  {subject : Package} {member m m' : Member} {predecessor : Option Package} {path rest : List String} {part : String}
  {node : Node} {bytes : Bytes} {a : Answers clock} {p : Publishing} {now : String}

/-! ## Names -/

theorem dot_notMem_extension (mediaType : MediaType) : '.' ∉ mediaType.extension.toList.reverse := by
  cases mediaType <;> decide

/-- The members of a package have different names. -/
theorem name_inj (hm : m ∈ subject.members) (hm' : m' ∈ subject.members) (h : m.name = m'.name) : m = m' := by
  have hrev : m.mediaType.extension.toList.reverse ++ '.' :: m.id.toList.reverse =
      m'.mediaType.extension.toList.reverse ++ '.' :: m'.id.toList.reverse := by
    have := congrArg (fun name => name.toList.reverse) h
    simpa [Member.name] using this
  have hsplit := congrArg (List.splitOn '.') hrev
  rw [Separated.splitOn_cons (dot_notMem_extension _), Separated.splitOn_cons (dot_notMem_extension _),
    List.cons.injEq] at hsplit
  rw [hsplit.1, List.append_cancel_left_eq, List.cons.injEq] at hrev
  have hid : m.id = m'.id := by
    have := hrev.2
    rwa [List.reverse_inj, String.toList_inj] at this
  exact List.inj_on_of_nodup_map subject.distinct hm hm' hid

theorem name_of_documentDestination (h : documentDestination subject m = documentDestination subject m') :
    m.name = m'.name := by
  have hchars := congrArg String.toList h
  unfold documentDestination Package.parts at hchars
  simp only [List.cons_append, List.nil_append, String.intercalate_cons_cons, String.intercalate_singleton,
    String.toList_append, List.append_assoc, List.append_cancel_left_eq] at hchars
  exact String.toList_inj.1 hchars

theorem documentDestination_inj (hm : m ∈ subject.members) (hm' : m' ∈ subject.members)
    (h : documentDestination subject m = documentDestination subject m') : m = m' :=
  name_inj hm hm' (name_of_documentDestination h)

/-- The requirements are a member. -/
theorem primaryPath_eq (subject : Package) :
    ∃ m ∈ subject.members, m.role = .requirements ∧ subject.primaryPath = documentDestination subject m := by
  have hone : 0 < subject.members.countP (·.role == .requirements) := by
    rw [subject.required]
    exact Nat.one_pos
  obtain ⟨x, hx, hrole⟩ := List.countP_pos_iff.1 hone
  have hfound : (subject.members.find? (·.role == .requirements)).isSome := List.find?_isSome.2 ⟨x, hx, hrole⟩
  obtain ⟨m, hm⟩ := Option.isSome_iff_exists.1 hfound
  refine ⟨m, List.mem_of_find?_eq_some hm, by simpa using List.find?_some hm, ?_⟩
  rw [Package.primaryPath, hm]
  rfl

theorem refType_requirements : refType m = "requirements" ↔ m.role = .requirements := by
  unfold refType
  cases m.role <;> decide

/-! ## Directories -/

/-- A walk is refused where something else than a directory is on the way. -/
theorem Tree.walk_refused : tree.walk path rest = .refused ↔
    ∃ pre, pre <+: rest ∧ pre ≠ [] ∧ ∃ node, tree.nodes (path ++ pre) = some node ∧ node ≠ .directory := by
  induction rest generalizing path with
  | nil =>
    simp only [walk, List.prefix_nil, reduceCtorEq, false_iff]
    rintro ⟨pre, rfl, hne, -⟩
    exact hne rfl
  | cons part rest ih =>
    constructor
    · intro h
      rw [walk] at h
      have hhead : [part] <+: part :: rest := List.cons_prefix_cons.2 ⟨rfl, List.nil_prefix⟩
      rcases hn : tree.nodes (path ++ [part]) with _ | _ | bytes | _
      · rw [hn] at h
        cases h
      · rw [hn] at h
        obtain ⟨pre, hpre, -, node, hnode⟩ := ih.1 h
        refine ⟨part :: pre, List.cons_prefix_cons.2 ⟨rfl, hpre⟩, List.cons_ne_nil _ _, node, ?_⟩
        rwa [List.append_assoc] at hnode
      · exact ⟨[part], hhead, List.cons_ne_nil _ _, _, hn, fun h => by cases h⟩
      · exact ⟨[part], hhead, List.cons_ne_nil _ _, _, hn, fun h => by cases h⟩
    · rintro ⟨_ | ⟨part', pre⟩, hpre, hne, node, hn, hnode⟩
      · exact absurd rfl hne
      obtain ⟨rfl, hrest⟩ := List.cons_prefix_cons.1 hpre
      rw [← List.singleton_append, ← List.append_assoc] at hn
      rw [walk]
      rcases eq_or_ne pre [] with rfl | hpre'
      · rw [List.append_nil] at hn
        rw [hn]
        cases node with
        | directory => exact absurd rfl hnode
        | file _ => rfl
        | other => rfl
      · have hd : tree.nodes (path ++ [part']) = some .directory := by
          refine tree.rooted_above hpre' ?_
          rw [hn]
          exact Option.some_ne_none _
        rw [hd]
        exact ih.2 ⟨pre, hrest, hpre', node, hn, hnode⟩

/-- Nothing but directories is on the way to the package. -/
def Tree.Free (tree : Tree) (subject : Package) : Prop :=
  ∀ pre, pre <+: subject.parts → pre ≠ [] → ∀ node, tree.nodes pre = some node → node = .directory

theorem Tree.directory_ne_refused : tree.directory subject ≠ .refused ↔
    tree.nodes [] = some .directory ∧ tree.Free subject := by
  unfold Tree.directory
  split_ifs with hroot
  · rw [ne_eq, Tree.walk_refused]
    refine ⟨fun h => ⟨hroot, fun pre hpre hne node hn => ?_⟩, ?_⟩
    · by_contra hnode
      exact h ⟨pre, hpre, hne, node, by simpa using hn, hnode⟩
    · rintro ⟨-, hfree⟩ ⟨pre, hpre, hne, node, hn, hnode⟩
      exact hnode (hfree pre hpre hne node (by simpa using hn))
  · simp [hroot]

/-- A member is absent if nothing is in its way and it is not there. -/
theorem inspect_absent : inspect digest tree subject m = .absent ↔
    tree.nodes [] = some .directory ∧ tree.Free subject ∧ tree.memberNode subject m = none := by
  rw [← and_assoc, ← Tree.directory_ne_refused]
  unfold inspect Tree.memberNode
  cases hd : tree.directory subject with
  | missing =>
    simp only [ne_eq, reduceCtorEq, not_false_eq_true, true_and, true_iff]
    by_contra hn
    rw [Tree.directory_opened (tree.rooted hn)] at hd
    cases hd
  | refused => simp
  | opened =>
    simp only [ne_eq, reduceCtorEq, not_false_eq_true, true_and]
    cases hn : tree.nodes (subject.parts ++ [m.name]) with
    | none => simp
    | some node =>
      cases node with
      | directory => simp
      | other => simp
      | file bytes =>
        dsimp only
        split_ifs <;> simp

/-- Directories are in nobody's way. -/
theorem inspect_absent_create (h : inspect digest tree subject m = .absent)
    (hc : tree.create path part node = some tree') (hother : path ++ [part] ≠ subject.parts ++ [m.name])
    (hfree : path ++ [part] <+: subject.parts → node = .directory) : inspect digest tree' subject m = .absent := by
  obtain ⟨hroot, hf, hn⟩ := inspect_absent.1 h
  obtain ⟨-, hnew, htree⟩ := Tree.create_eq_some.1 hc
  refine inspect_absent.2 ⟨Tree.Extends.create hc _ _ hroot, fun pre hpre hne x hx => ?_, ?_⟩
  · rw [htree] at hx
    by_cases heq : pre = path ++ [part]
    · subst heq
      rw [Function.update_self] at hx
      cases hx
      exact hfree hpre
    · rw [Function.update_of_ne heq] at hx
      exact hf pre hpre hne x hx
  · rw [Tree.memberNode, htree, Function.update_of_ne hother.symm]
    exact hn

/-! ## What stays clear -/

theorem predecessorFault_eq_none {q : Package} : predecessorFault digest tree t subject q = none ↔
    (q.ticket = subject.ticket ∧ q.repository = subject.repository ∧ (primaries t).length = 1) ∧
      ∀ m ∈ q.members, inspect digest tree q m = .exact ∧ (refsOf t q m).length = 1 ∧
        (refsOf t q m).all (refOk m) = true := by
  unfold predecessorFault
  split_ifs with h
  · simp only [false_iff]
    rintro ⟨⟨h1, h2, h3⟩, -⟩
    rcases h with h | h | h
    · exact h h1
    · exact h h2
    · exact h h3
  · rw [not_or, not_or, not_not, not_not, not_not] at h
    simp only [h, and_self, true_and, List.findSome?_eq_none_iff]
    refine forall₂_congr fun m _ => ?_
    unfold memberFault
    split
    · simp_all
    · split_ifs with hrefs
      · simp_all
      · simp_all
    · simp_all

theorem bind_eq_none_iff {f : Package → Option PackageObservation} :
    predecessor.bind f = none ↔ ∀ q, predecessor = some q → f q = none := by
  cases predecessor <;> simp

/-- The tree grows, and what was absent stays so or becomes exact. -/
theorem Clear.grown (h : Clear digest tree t subject predecessor) (he : tree.Extends tree')
    (habsent : ∀ m ∈ subject.members, inspect digest tree subject m = .absent →
      inspect digest tree' subject m = .absent ∨ inspect digest tree' subject m = .exact) :
    Clear digest tree' t subject predecessor := by
  refine ⟨fun m hm => ?_, h.primaries, bind_eq_none_iff.2 fun q hq => ?_, h.refs⟩
  · rcases h.members m hm with hv | hv
    · exact habsent m hm hv
    · exact Or.inr (by rw [inspect_extends he (Or.inl hv), hv])
  · obtain ⟨hq1, hq2⟩ := predecessorFault_eq_none.1 (bind_eq_none_iff.1 h.predecessor q hq)
    refine predecessorFault_eq_none.2 ⟨hq1, fun m hm => ?_⟩
    rw [inspect_extends he (Or.inl (hq2 m hm).1)]
    exact hq2 m hm

/-- Nothing is in the way of a clear package. -/
theorem Clear.free (h : Clear digest tree t subject predecessor) :
    tree.nodes [] = some .directory ∧ tree.Free subject := by
  obtain ⟨m, hm, -⟩ := primaryPath_eq subject
  rcases h.members m hm with hv | hv
  · exact ⟨(inspect_absent.1 hv).1, (inspect_absent.1 hv).2.1⟩
  · rw [← Tree.directory_ne_refused]
    intro hd
    unfold inspect at hv
    rw [hd] at hv
    cases hv

theorem primaries_added :
    primaries (withRefs t (t.doc_refs ++ [reference subject member now]) now) = primaries t := by
  simp [primaries, withRefs, reference]

theorem refsOf_added {q : Package} : refsOf (withRefs t (t.doc_refs ++ [reference subject member now]) now) q m =
    refsOf t q m ++ if documentDestination subject member = documentDestination q m then [reference subject member now]
      else [] := by
  unfold refsOf
  rw [withRefs, List.filter_append, List.filter_singleton]
  simp [reference]

/-- A reference is added where there was none. -/
theorem Clear.added (h : Clear digest tree t subject predecessor) (hm : member ∈ subject.members)
    (hno : refsOf t subject member = []) :
    Clear digest tree (withRefs t (t.doc_refs ++ [reference subject member now]) now) subject predecessor := by
  have hprim : Publication.primaries (withRefs t (t.doc_refs ++ [reference subject member now]) now) =
      Publication.primaries t := primaries_added
  refine ⟨h.members, ?_, bind_eq_none_iff.2 fun q hq => ?_, fun m' hm' => ?_⟩
  · unfold primariesOk
    rw [hprim]
    exact h.primaries
  · obtain ⟨hq1, hq2⟩ := predecessorFault_eq_none.1 (bind_eq_none_iff.1 h.predecessor q hq)
    rw [← hprim] at hq1
    refine predecessorFault_eq_none.2 ⟨hq1, fun m' hm' => ?_⟩
    have hne : documentDestination subject member ≠ documentDestination q m' := by
      intro heq
      have hlen := (hq2 m' hm').2.1
      rw [refsOf, ← heq, ← refsOf, hno] at hlen
      cases hlen
    rw [refsOf_added, if_neg hne, List.append_nil]
    exact hq2 m' hm'
  · rw [refsOf_added]
    split_ifs with heq
    · obtain rfl := documentDestination_inj hm hm' heq
      rw [hno]
      simp [refOk, reference]
    · rw [List.append_nil]
      exact h.refs m' hm'

theorem refsOf_promoted {q : Package} : refsOf (withRefs t (promoted subject t.doc_refs) now) q m =
    promoted subject (refsOf t q m) := by
  unfold refsOf
  rw [withRefs, promoted, List.filter_map]
  rfl

theorem primaries_promoted : primaries (withRefs t (promoted subject t.doc_refs) now) =
    promoted subject (t.doc_refs.filter (·.path == subject.primaryPath)) := by
  unfold primaries
  rw [withRefs, promoted, List.filter_map]
  rfl

/-- **The last step of a publication completes it.** -/
theorem Clear.promoted (h : Clear digest tree t subject predecessor) (hw : Whole digest tree t subject) :
    Publication.observe digest tree (withRefs t (Publication.promoted subject t.doc_refs) now) subject predecessor =
      .complete := by
  obtain ⟨x, hx, hrole, hpath⟩ := primaryPath_eq subject
  obtain ⟨r, hr, htype⟩ := hw.referenced x hx
  have hrpath : r.path = subject.primaryPath := by
    have hmem : r ∈ refsOf t subject x := by rw [hr]; exact List.mem_singleton_self r
    rw [hpath]
    simpa using (List.mem_filter.1 hmem).2
  have hprim : Publication.primaries (withRefs t (Publication.promoted subject t.doc_refs) now) =
      [{ r with primary := true }] := by
    rw [primaries_promoted, hpath]
    show Publication.promoted subject (refsOf t subject x) = _
    rw [hr]
    simp [Publication.promoted, hrpath]
  have hrtype : r.type = "requirements" := htype.trans (refType_requirements.2 hrole)
  have hlen : ∀ m ∈ subject.members,
      (refsOf (withRefs t (Publication.promoted subject t.doc_refs) now) subject m).length = 1 := by
    intro m hm
    obtain ⟨r', hr', -⟩ := hw.referenced m hm
    rw [refsOf_promoted, hr']
    rfl
  have hclear : Clear digest tree (withRefs t (Publication.promoted subject t.doc_refs) now) subject predecessor := by
    refine ⟨h.members, ?_, bind_eq_none_iff.2 fun q hq => ?_, fun m hm => ⟨(hlen m hm).le, ?_⟩⟩
    · unfold primariesOk
      rw [hprim]
      simp [hrtype, hrpath]
    · obtain ⟨⟨h1, h2, -⟩, hq2⟩ := predecessorFault_eq_none.1 (bind_eq_none_iff.1 h.predecessor q hq)
      refine predecessorFault_eq_none.2 ⟨⟨h1, h2, by rw [hprim]; rfl⟩, fun m hm => ?_⟩
      obtain ⟨hexact, hone, hok⟩ := hq2 m hm
      rw [refsOf_promoted]
      refine ⟨hexact, by rw [Publication.promoted, List.length_map, hone], List.all_eq_true.2 fun r' hr' => ?_⟩
      obtain ⟨r'', hr'', rfl⟩ := List.mem_map.1 hr'
      have hok' := List.all_eq_true.1 hok r'' hr''
      unfold refOk at hok' ⊢
      rw [Bool.and_eq_true] at hok' ⊢
      refine ⟨hok'.1, ?_⟩
      by_cases hp : r''.path = subject.primaryPath
      · -- a reference at this place is one of the requirements
        have hmem : r'' ∈ refsOf t subject x := by
          refine List.mem_filter.2 ⟨(List.mem_filter.1 hr'').1, ?_⟩
          rw [hp, hpath]
          exact beq_self_eq_true _
        rw [hr, List.mem_singleton] at hmem
        subst hmem
        have hreq : m.role = .requirements := refType_requirements.1 ((beq_iff_eq.1 hok'.1).symm.trans hrtype)
        simp [hreq]
      · simp [hp]
    · obtain ⟨r', hr', htype'⟩ := hw.referenced m hm
      rw [refsOf_promoted, hr']
      have hmem : r' ∈ refsOf t subject m := by rw [hr']; exact List.mem_singleton_self r'
      have hrpath' : r'.path = documentDestination subject m := by simpa using (List.mem_filter.1 hmem).2
      by_cases hreq : m.role = .requirements
      · simp [Publication.promoted, refOk, htype', hreq]
      · have hne : documentDestination subject m ≠ subject.primaryPath := by
          intro heq
          obtain rfl := documentDestination_inj hm hx (heq.trans hpath)
          exact hreq hrole
        simp [Publication.promoted, refOk, htype', hrpath', hne]
  have hcomplete :
      isComplete digest tree (withRefs t (Publication.promoted subject t.doc_refs) now) subject = true := by
    unfold isComplete
    rw [hprim, List.map_congr_left hlen]
    simp only [List.map_const', List.sum_replicate, smul_eq_mul, mul_one, beq_self_eq_true, Bool.and_true,
      List.length_singleton, List.all_cons, List.all_nil, hrpath]
    refine List.all_eq_true.2 fun v hv => ?_
    obtain ⟨m, hm, rfl⟩ := List.mem_map.1 hv
    rw [hw.exact m hm]
    rfl
  rw [hclear.observe, if_pos hcomplete]

/-! ## Steps of a retry -/

/-- The publication may begin, and its requirements are not primary yet. -/
structure Resumable (digest : Bytes → Sha256) (subject : Package) (predecessor : Option Package) (s : State)
    (t : Ticket) : Prop where
  read : readTicket s.store subject.ticket = some t
  project : t.project = subject.repository.key
  claimable : claimable t = true
  clear : Clear digest s.tree t subject predecessor
  unpromoted : ∀ r ∈ primaries t, r.path ≠ subject.primaryPath

/-- The package is published. -/
structure Published (digest : Bytes → Sha256) (subject : Package) (predecessor : Option Package) (s : State)
    (t : Ticket) : Prop where
  read : readTicket s.store subject.ticket = some t
  project : t.project = subject.repository.key
  complete : observe digest s.tree t subject predecessor = .complete

/-- What is done before a stage. -/
def Stage.At (digest : Bytes → Sha256) (subject : Package) (tree : Tree) (t : Ticket) : Stage → Prop
  | directories path rest => path ++ rest = subject.parts ∧ tree.nodes path = some .directory
  | files rest => tree.nodes subject.parts = some .directory ∧ (∀ m ∈ rest, m ∈ subject.members) ∧
      ∀ m ∈ subject.members, m ∈ rest ∨ inspect digest tree subject m = .exact
  | references rest => (∀ m ∈ rest, m ∈ subject.members) ∧
      ∀ m ∈ subject.members, inspect digest tree subject m = .exact ∧ (m ∈ rest ∨ refsOf t subject m ≠ [])
  | promotion => ∀ m ∈ subject.members, inspect digest tree subject m = .exact ∧ refsOf t subject m ≠ []

/-- The steps that are left. -/
def Stage.left (subject : Package) : Stage → ℕ
  | directories _ rest => rest.length + (2 * subject.members.length + 4)
  | files rest => rest.length + (subject.members.length + 3)
  | references rest => rest.length + 2
  | promotion => 1

/-- The host lets the publication through. -/
structure Willing (digest : Bytes → Sha256) (subject : Package) (a : Answers clock) : Prop where
  authorize : a.authorize = .ok ⟨⟩
  read : ∀ m ∈ subject.members, ∃ bytes, a.read m.sha256 = .ok bytes ∧ m.matches digest bytes = true ∧
    a.content m.mediaType bytes = true
  torn : a.torn = none

theorem validateDocumentBytes_eq_ok : validateDocumentBytes digest a member bytes = .ok ⟨⟩ ↔
    member.matches digest bytes = true ∧ a.content member.mediaType bytes = true := by
  simp [validateDocumentBytes, bind_eq_ok, throwIf_eq_ok]

/-- How a step may end: the host refuses, the publication goes on, or it is completed. -/
inductive Resumes (clock : Clock) (digest : Bytes → Sha256) (subject : Package) (predecessor : Option Package)
    (willing : Prop) (left : ℕ) : Documented (State × Progress) → Prop
  | refused {code : DocumentErrorCode} : ¬ willing → Resumes clock digest subject predecessor willing left (.error code)
  | running {s : State} {t : Ticket} {stage : Stage} : Filed clock s.store →
      Resumable digest subject predecessor s t → stage.At digest subject s.tree t → stage.left subject < left →
      Resumes clock digest subject predecessor willing left (.ok (s, .running ⟨subject, predecessor, stage⟩))
  | completed {s : State} {t : Ticket} : Filed clock s.store → Published digest subject predecessor s t →
      Resumes clock digest subject predecessor willing left (.ok (s, .ended (.ok ⟨⟩)))

namespace Resumable

variable {rest : List Member}

theorem not_complete (h : Resumable digest subject predecessor s t) :
    observe digest s.tree t subject predecessor ≠ .complete := by
  rw [h.clear.observe]
  split_ifs with hc
  · unfold isComplete at hc
    simp only [Bool.and_eq_true, beq_iff_eq] at hc
    obtain ⟨⟨-, hlen⟩, hall⟩ := hc
    obtain ⟨r, hr⟩ := List.length_eq_one_iff.1 hlen
    have hmem : r ∈ primaries t := by rw [hr]; exact List.mem_singleton_self r
    exact absurd (by simpa using List.all_eq_true.1 hall r hmem) (h.unpromoted r hmem)
  · exact fun h => by cases h
  · exact fun h => by cases h

theorem writable (h : Resumable digest subject predecessor s t) :
    writable digest s.tree t subject predecessor = .ok ⟨⟩ := by
  have hclear := clear_iff.2 h.clear
  have hne := h.not_complete
  simp only [Publication.writable, bind_eq_ok, throwIf_eq_ok]
  refine ⟨⟨⟩, ?_, by simp [h.claimable]⟩
  cases hv : observe digest s.tree t subject predecessor <;> simp_all [PackageObservation.clear]

theorem ticket (h : Resumable digest subject predecessor s t) (hs : Filed clock s.store) :
    s.ticket a.host subject = .ok t :=
  (ticket_eq_ok hs).2 ⟨h.read, h.project⟩

/-- A step that was authorized goes on with the ticket. -/
theorem authorized (h : Resumable digest subject predecessor s t) (hs : Filed clock s.store) {stage : Stage} {left : ℕ}
    {next : Ticket → Documented (State × Progress)}
    (hnext : Resumes clock digest subject predecessor (Willing digest subject a) left (next t)) :
    Resumes clock digest subject predecessor (Willing digest subject a) left
      (s.authorize digest a ⟨subject, predecessor, stage⟩ >>= next) := by
  have hauthorize : s.authorize digest a ⟨subject, predecessor, stage⟩ = a.authorize >>= fun _ => .ok t := by
    unfold State.authorize
    rw [h.ticket hs]
    show (a.authorize >>= fun _ => Publication.writable digest s.tree t subject predecessor >>= fun _ => .ok t) = _
    rw [h.writable]
    rfl
  rw [hauthorize]
  cases hauth : a.authorize with
  | error code =>
    refine .refused fun hw => ?_
    rw [hw.authorize] at hauth
    cases hauth
  | ok _ => exact hnext

/-- The next directory is made, or is there. -/
theorem makeDirectory (h : Resumable digest subject predecessor s t) (hs : Filed clock s.store) {rest : List String}
    (hat : (Stage.directories path (part :: rest)).At digest subject s.tree t) :
    Resumes clock digest subject predecessor (Willing digest subject a)
      ((Stage.directories path (part :: rest)).left subject)
      (Publication.makeDirectory digest a s ⟨subject, predecessor, .directories path (part :: rest)⟩ path part
        rest) := by
  unfold Publication.makeDirectory
  refine h.authorized hs ?_
  obtain ⟨hparts, hd⟩ := hat
  have hpre : path ++ [part] <+: subject.parts := ⟨rest, by rw [← hparts]; simp⟩
  have hlen : (Stage.directories (path ++ [part]) rest).left subject <
      (Stage.directories path (part :: rest)).left subject := by simp [Stage.left]
  have hat' : ∀ tree, (Stage.directories (path ++ [part]) rest).At digest subject tree t ↔
      tree.nodes (path ++ [part]) = some .directory :=
    fun tree => and_iff_right (by rw [← hparts]; simp)
  cases hn : s.tree.nodes (path ++ [part]) with
  | some node =>
    obtain rfl := h.clear.free.2 _ hpre (by simp) _ hn
    have hsame : s.tree.mkdir path part = s.tree := by
      unfold Tree.mkdir Tree.create
      rw [dif_neg (by rw [hn]; simp)]
      rfl
    show Resumes clock digest subject predecessor _ _ (.ok ({ s with tree := s.tree.mkdir path part }, _))
    rw [hsame, if_pos hn]
    exact .running hs h ((hat' _).2 hn) hlen
  | none =>
    obtain ⟨tree, hc⟩ : ∃ tree, s.tree.create path part .directory = some tree := by
      unfold Tree.create
      rw [dif_pos ⟨hd, hn⟩]
      exact ⟨_, rfl⟩
    have hmk : s.tree.mkdir path part = tree := by
      unfold Tree.mkdir
      rw [hc]
      rfl
    have hn' : tree.nodes (path ++ [part]) = some .directory := by
      rw [(Tree.create_eq_some.1 hc).2.2, Function.update_self]
    show Resumes clock digest subject predecessor _ _ (.ok ({ s with tree := s.tree.mkdir path part }, _))
    rw [hmk, if_pos hn']
    refine .running hs { h with clear := h.clear.grown (.create hc) fun m hm hv => Or.inl ?_ } ((hat' _).2 hn') hlen
    refine inspect_absent_create hv hc (fun heq => ?_) fun _ => rfl
    have := hpre.length_le
    rw [heq] at this
    simp at this

/-- The next file is written. -/
theorem writeMember (h : Resumable digest subject predecessor s t) (hs : Filed clock s.store)
    (hat : (Stage.files (member :: rest)).At digest subject s.tree t)
    (hv : inspect digest s.tree subject member ≠ .exact) (htorn : a.torn = none) :
    Resumes clock digest subject predecessor (Willing digest subject a) ((Stage.files (member :: rest)).left subject)
      (Publication.writeMember digest a s ⟨subject, predecessor, .files (member :: rest)⟩ member rest) := by
  obtain ⟨hd, hmem, hexact⟩ := hat
  have hm : member ∈ subject.members := hmem member (List.mem_cons_self ..)
  unfold Publication.writeMember
  cases hread : a.read member.sha256 with
  | error code =>
    refine .refused fun hw => ?_
    obtain ⟨bytes, hb, -⟩ := hw.read member hm
    rw [hread] at hb
    cases hb
  | ok bytes =>
    show Resumes clock digest subject predecessor _ _ (validateDocumentBytes digest a member bytes >>= _)
    cases hchecked : validateDocumentBytes digest a member bytes with
    | error code =>
      refine .refused fun hw => ?_
      obtain ⟨bytes', hb, hvalid⟩ := hw.read member hm
      obtain rfl := Except.ok.inj (hread.symm.trans hb)
      rw [validateDocumentBytes_eq_ok.2 hvalid] at hchecked
      cases hchecked
    | ok _ =>
      have hvalid := validateDocumentBytes_eq_ok.1 hchecked
      show Resumes clock digest subject predecessor _ _ (s.authorize digest a _ >>= _)
      refine h.authorized hs ?_
      have habsent : inspect digest s.tree subject member = .absent := (h.clear.members member hm).resolve_right hv
      obtain ⟨tree, hc⟩ : ∃ tree, s.tree.create subject.parts member.name (.file bytes) = some tree := by
        unfold Tree.create
        rw [dif_pos ⟨hd, (inspect_absent.1 habsent).2.2⟩]
        exact ⟨_, rfl⟩
      have hnode : tree.memberNode subject member = some (.file bytes) := by
        rw [Tree.memberNode, (Tree.create_eq_some.1 hc).2.2, Function.update_self]
      have hsize : ¬ memberBytes < bytes.length := by
        have hb := subject.bounded member hm
        have hlen : bytes.length = member.bytes := by
          have := hvalid.1
          rw [Member.matches, Bool.and_eq_true] at this
          simpa using this.1
        omega
      have hnew : inspect digest tree subject member = .exact := by
        rw [inspect_file hnode, if_neg hsize, if_pos hvalid.1]
      have hothers : ∀ m ∈ subject.members, inspect digest s.tree subject m = .absent →
          inspect digest tree subject m = .absent ∨ inspect digest tree subject m = .exact := by
        intro m hm' hva
        by_cases heq : m = member
        · exact Or.inr (heq ▸ hnew)
        · refine Or.inl (inspect_absent_create hva hc (fun hname => heq ?_) fun hpre => ?_)
          · have := (List.append_inj' hname rfl).2
            exact name_inj hm' hm (List.singleton_inj.1 this).symm
          · have := hpre.length_le
            simp at this
      show Resumes clock digest subject predecessor _ _ (require (s.tree.create subject.parts member.name
        (.file (a.torn.getD bytes))) .uncertain >>= _)
      rw [htorn, Option.getD_none, hc]
      show Resumes clock digest subject predecessor _ _ (.ok ({ s with tree }, _))
      rw [if_pos ⟨rfl, hnew⟩]
      refine .running hs { h with clear := h.clear.grown (.create hc) hothers } ⟨?_, ?_, fun m hm' => ?_⟩
        (by simp [Stage.left])
      · exact Tree.Extends.create hc _ _ hd
      · exact fun m hm' => hmem m (List.mem_cons_of_mem _ hm')
      · rcases hexact m hm' with hin | hin
        · rcases List.mem_cons.1 hin with rfl | hin
          · exact Or.inr hnew
          · exact Or.inl hin
        · exact Or.inr (by rw [inspect_extends (.create hc) (Or.inl hin), hin])

/-- The next reference is added. -/
theorem addReference (h : Resumable digest subject predecessor s t) (hs : Filed clock s.store)
    (hat : (Stage.references (member :: rest)).At digest subject s.tree t) (hno : refsOf t subject member = []) :
    Resumes clock digest subject predecessor (Willing digest subject a)
      ((Stage.references (member :: rest)).left subject)
      (Publication.addReference digest a s ⟨subject, predecessor, .references (member :: rest)⟩ member rest) := by
  obtain ⟨hmem, hall⟩ := hat
  have hm : member ∈ subject.members := hmem member (List.mem_cons_self ..)
  have hn := hs.normal (lookup_of_readTicket h.read)
  unfold Publication.addReference
  refine h.authorized hs ?_
  show Resumes clock digest subject predecessor _ _ (.ok ((s.update a subject.ticket (addition subject member)).1, _))
  rw [update_addition hs h.read hno]
  refine .running (filed_rewrite hs h.read rfl (normal_withRefs hn (normal_added hn)))
    ⟨readTicket_put h.read rfl, h.project, h.claimable, h.clear.added hm hno, ?_⟩ ⟨?_, fun m hm' => ?_⟩
    (by simp [Stage.left])
  · rw [primaries_added]
    exact h.unpromoted
  · exact fun m hm' => hmem m (List.mem_cons_of_mem _ hm')
  · refine ⟨(hall m hm').1, ?_⟩
    rw [refsOf_added]
    rcases (hall m hm').2 with hin | hne
    · rcases List.mem_cons.1 hin with rfl | hin
      · exact Or.inr (by simp)
      · exact Or.inl hin
    · exact Or.inr fun hnil => hne (List.append_eq_nil_iff.1 hnil).1

/-- The requirements become primary. -/
theorem promote (h : Resumable digest subject predecessor s t) (hs : Filed clock s.store)
    (hat : Stage.promotion.At digest subject s.tree t) {left : ℕ} :
    Resumes clock digest subject predecessor (Willing digest subject a) left
      (Publication.promote digest a s ⟨subject, predecessor, .promotion⟩) := by
  have hn := hs.normal (lookup_of_readTicket h.read)
  have hready : subject.ready digest s.tree t = true := by
    refine List.all_eq_true.2 fun m hm => ?_
    obtain ⟨hexact, hne⟩ := hat m hm
    obtain ⟨r, hr⟩ := List.exists_mem_of_ne_nil _ hne
    have hok := List.all_eq_true.1 (h.clear.refs m hm).2 r hr
    rw [refOk, Bool.and_eq_true] at hok
    rw [hexact, Bool.and_eq_true]
    exact ⟨rfl, List.any_eq_true.2 ⟨r, hr, hok.1⟩⟩
  have hfiled : Filed clock (s.store.put (withRefs t (Publication.promoted subject t.doc_refs) a.host.nowUtc)) :=
    filed_rewrite hs h.read rfl (normal_withRefs hn (normal_promoted hn))
  have hdone : observe digest s.tree (withRefs t (Publication.promoted subject t.doc_refs) a.host.nowUtc) subject
      predecessor = .complete := h.clear.promoted (h.clear.whole hready)
  have hread : readTicket (s.put (withRefs t (Publication.promoted subject t.doc_refs) a.host.nowUtc)).store
      subject.ticket = some (withRefs t (Publication.promoted subject t.doc_refs) a.host.nowUtc) :=
    readTicket_put h.read rfl
  unfold Publication.promote
  refine h.authorized hs ?_
  show Resumes clock digest subject predecessor _ _ (throwIf (subject.ready digest s.tree t = false) _ >>= _)
  rw [throwIf_neg (by rw [hready]; decide)]
  show Resumes clock digest subject predecessor _ _ (.ok ((s.update a subject.ticket (promotion subject t)).1,
    .ended ((s.update a subject.ticket (promotion subject t)).2 >>= fun _ =>
      (s.update a subject.ticket (promotion subject t)).1.proven digest a ⟨subject, predecessor, .promotion⟩)))
  rw [update_promotion hs h.read]
  have hproven : (s.put (withRefs t (Publication.promoted subject t.doc_refs) a.host.nowUtc)).proven digest a
      ⟨subject, predecessor, .promotion⟩ = .ok ⟨⟩ := by
    simp only [State.proven, bind_eq_ok, throwIf_eq_ok]
    exact ⟨_, (ticket_eq_ok hfiled).2 ⟨hread, h.project⟩, not_not.2 hdone⟩
  show Resumes clock digest subject predecessor _ _ (.ok (_, .ended (State.proven _ _ _ _)))
  rw [hproven]
  exact .completed hfiled ⟨hread, h.project, hdone⟩

/-- **A step of a publication that was clear to begin.** -/
theorem advance (h : Resumable digest subject predecessor s t) (hs : Filed clock s.store) (stage : Stage)
    (hat : stage.At digest subject s.tree t) (htorn : a.torn = none) :
    Resumes clock digest subject predecessor (Willing digest subject a) (stage.left subject)
      (Publication.advance digest a s ⟨subject, predecessor, stage⟩) := by
  match stage with
  | .directories path [] =>
    obtain ⟨hparts, hd⟩ := hat
    rw [List.append_nil] at hparts
    exact .running hs h ⟨hparts ▸ hd, fun m hm => hm, fun m hm => Or.inl hm⟩ (by simp [Stage.left]; omega)
  | .directories path (part :: rest) => exact h.makeDirectory hs hat
  | .files [] =>
    obtain ⟨-, -, hall⟩ := hat
    refine .running hs h ⟨fun m hm => hm, fun m hm => ⟨?_, Or.inl hm⟩⟩ (by simp [Stage.left])
    exact (hall m hm).resolve_left (List.not_mem_nil)
  | .files (member :: rest) =>
    simp only [Publication.advance]
    split_ifs with hv
    · obtain ⟨hd, hmem, hall⟩ := hat
      refine .running hs h ⟨hd, fun m hm => hmem m (List.mem_cons_of_mem _ hm), fun m hm => ?_⟩ (by simp [Stage.left])
      rcases hall m hm with hin | hin
      · rcases List.mem_cons.1 hin with rfl | hin
        · exact Or.inr hv
        · exact Or.inl hin
      · exact Or.inr hin
    · exact h.writeMember hs hat hv htorn
  | .references [] =>
    refine .running hs h (fun m hm => ⟨(hat.2 m hm).1, ?_⟩) (by simp [Stage.left])
    exact (hat.2 m hm).2.resolve_left (List.not_mem_nil)
  | .references (member :: rest) =>
    simp only [Publication.advance]
    rw [h.ticket hs]
    show Resumes clock digest subject predecessor _ _ (if _ then _ else _)
    split_ifs with href
    · obtain ⟨hmem, hall⟩ := hat
      refine .running hs h ⟨fun m hm => hmem m (List.mem_cons_of_mem _ hm), fun m hm => ⟨(hall m hm).1, ?_⟩⟩
        (by simp [Stage.left])
      rcases (hall m hm).2 with hin | hne
      · rcases List.mem_cons.1 hin with rfl | hin
        · refine Or.inr ?_
          obtain ⟨r, hr, hpath⟩ := List.any_eq_true.1 href
          exact List.ne_nil_of_mem (List.mem_filter.2 ⟨hr, hpath⟩)
        · exact Or.inl hin
      · exact Or.inr hne
    · refine h.addReference hs hat (List.filter_eq_nil_iff.2 fun r hr hpath => href ?_)
      exact List.any_eq_true.2 ⟨r, hr, hpath⟩
  | .promotion => exact h.promote hs hat

end Resumable

/-! ## Interrupted publications -/

/-- A publication was begun, or may begin, or is done. -/
inductive Halfway (digest : Bytes → Sha256) (subject : Package) (predecessor : Option Package) (w : World) : Prop
  | idle {t : Ticket} : Resumable digest subject predecessor w.state t → w.call = none →
      Halfway digest subject predecessor w
  | busy {t : Ticket} {stage : Stage} : Resumable digest subject predecessor w.state t →
      w.call = some ⟨subject, predecessor, stage⟩ → stage.At digest subject w.state.tree t →
      Halfway digest subject predecessor w
  | done {t : Ticket} : Published digest subject predecessor w.state t → w.call = none →
      Halfway digest subject predecessor w

/-- The events of the attempts to publish a package: no write of a file is torn. -/
inductive Attempt (subject : Package) (predecessor : Option Package) : Event clock → Prop
  | publish (a : Answers clock) : Attempt subject predecessor (.publish a subject predecessor)
  | advance (a : Answers clock) : a.torn = none → Attempt subject predecessor (.advance a)
  | crash : Attempt subject predecessor .crash

variable {w w' : World} {e : Event clock}

theorem Clear.at_directories (h : Clear digest tree t subject predecessor) :
    (Stage.directories [] subject.parts).At digest subject tree t := ⟨rfl, h.free.1⟩

/-- The start of a publication that may begin. -/
theorem Resumable.start (h : Resumable digest subject predecessor s t) (hs : Filed clock s.store) :
    Publication.start digest a s subject predecessor = a.authorize >>= fun _ =>
      .ok (s, .running ⟨subject, predecessor, .directories [] subject.parts⟩) := by
  unfold Publication.start
  rw [h.ticket hs]
  simp only [ok_bind, if_neg h.not_complete, h.writable]
  rfl

/-- The start of a publication that is done. -/
theorem Published.start (h : Published digest subject predecessor s t) (hs : Filed clock s.store) :
    Publication.start digest a s subject predecessor = a.authorize >>= fun _ => .ok (s, .ended (.ok ⟨⟩)) := by
  unfold Publication.start
  rw [(ticket_eq_ok hs).2 ⟨h.read, h.project⟩]
  simp only [ok_bind, if_pos h.complete]
  rfl

/-- An attempt leaves the publication halfway. -/
theorem Halfway.step (h : Halfway digest subject predecessor w) (hs : Filed clock w.state.store)
    (he : Attempt subject predecessor e) (hstep : step digest w e = .ok w') :
    Filed clock w'.state.store ∧ Halfway digest subject predecessor w' := by
  cases he with
  | publish a =>
    simp only [Publication.step, bind_eq_ok, pure_eq_ok, throwIf_eq_ok] at hstep
    obtain ⟨_, hcall, rfl⟩ := hstep
    cases h with
    | idle hr _ =>
      rw [hr.start hs]
      cases a.authorize with
      | error code => exact ⟨hs, .idle hr rfl⟩
      | ok _ => exact ⟨hs, .busy hr rfl hr.clear.at_directories⟩
    | busy _ hbusy _ => simp [hbusy] at hcall
    | done hp _ =>
      rw [hp.start hs]
      cases a.authorize with
      | error code => exact ⟨hs, .done hp rfl⟩
      | ok _ => exact ⟨hs, .done hp rfl⟩
  | advance a htorn =>
    simp only [Publication.step, bind_eq_ok, pure_eq_ok, require_eq_ok] at hstep
    obtain ⟨p, hp, rfl⟩ := hstep
    cases h with
    | idle _ hcall => rw [hcall] at hp; cases hp
    | done _ hcall => rw [hcall] at hp; cases hp
    | @busy t stage hr hcall hat =>
      rw [hcall] at hp
      cases hp
      generalize hres : Publication.advance digest a w.state ⟨subject, predecessor, stage⟩ = res
      have hstep := hr.advance (a := a) hs stage hat htorn
      rw [hres] at hstep
      cases hstep with
      | refused _ => exact ⟨hs, .idle hr rfl⟩
      | running hs' hr' hat' _ => exact ⟨hs', .busy hr' rfl hat'⟩
      | completed hs' hp' => exact ⟨hs', .done hp' rfl⟩
  | crash =>
    simp only [Publication.step, bind_eq_ok, pure_eq_ok, require_eq_ok] at hstep
    obtain ⟨p, hp, rfl⟩ := hstep
    cases h with
    | idle hr _ => exact ⟨hs, .idle hr rfl⟩
    | busy hr _ _ => exact ⟨hs, .idle hr rfl⟩
    | done hp' _ => exact ⟨hs, .done hp' rfl⟩

/-- The call returned, and the package is published. -/
def Completed (digest : Bytes → Sha256) (subject : Package) (predecessor : Option Package) (w : World) : Prop :=
  w.call = none ∧ w.last = some (.ok ⟨⟩) ∧ ∃ t, Published digest subject predecessor w.state t

/-- With a willing host the steps that are left complete the publication. -/
theorem advances_complete (ha : Willing digest subject a) {n : ℕ} {stage : Stage} (hs : Filed clock w.state.store)
    (hr : Resumable digest subject predecessor w.state t) (hcall : w.call = some ⟨subject, predecessor, stage⟩)
    (hat : stage.At digest subject w.state.tree t) (hn : stage.left subject ≤ n) :
    ∃ k w', Run.exec (step digest) w (List.replicate k (Event.advance a)) = .ok w' ∧
      Completed digest subject predecessor w' := by
  induction n generalizing w t stage with
  | zero =>
    have hpos : 0 < stage.left subject := by cases stage <;> simp [Stage.left]
    omega
  | succ n ih =>
    have hstep := hr.advance (a := a) hs stage hat ha.torn
    have hnext : step digest w (Event.advance a) =
        .ok (w.after (Publication.advance digest a w.state ⟨subject, predecessor, stage⟩)) := by
      simp only [Publication.step, hcall]
      rfl
    generalize Publication.advance digest a w.state ⟨subject, predecessor, stage⟩ = res at hstep hnext
    cases hstep with
    | refused hno => exact absurd ha hno
    | @running s' t' stage' hs' hr' hat' hlt =>
      obtain ⟨k, w', hexec, hdone⟩ :=
        ih (w := ⟨s', some ⟨subject, predecessor, stage'⟩, w.last⟩) hs' hr' rfl hat' (by omega)
      refine ⟨k + 1, w', ?_, hdone⟩
      rw [List.replicate_succ, Run.exec, hnext]
      exact hexec
    | @completed s' t' hs' hp =>
      refine ⟨1, ⟨s', none, some (.ok ⟨⟩)⟩, ?_, rfl, rfl, t', hp⟩
      rw [List.replicate_one, Run.exec, hnext]
      rfl

/-- **A retry completes an interrupted publication.**  Wherever the attempts to publish a package
    ended, by a refusal of the host or with their process, the next one completes it, if no file
    was torn and the host lets it through. -/
theorem retry_completes {w₀ w : World} {h : List (Run.Step World (Event clock))} (hs : Filed clock w₀.state.store)
    (hr : Resumable digest subject predecessor w₀.state t) (hcall : w₀.call = none)
    (hrun : Run.Reaches (step digest) w₀ h w) (hattempts : ∀ st ∈ h, Attempt subject predecessor st.event)
    (hend : w.call = none) (ha : Willing digest subject a) :
    ∃ n w', Run.exec (step digest) w (.publish a subject predecessor :: List.replicate n (.advance a)) = .ok w' ∧
      Completed digest subject predecessor w' := by
  obtain ⟨⟨hs', hhalf⟩, -⟩ := Run.Reaches.throughout (C := fun _ e => Attempt subject predecessor e)
    (I := fun w => Filed clock w.state.store ∧ Halfway digest subject predecessor w) ⟨hs, .idle hr hcall⟩
    (fun w e w' hI he hstep => hI.2.step hI.1 he hstep) hrun hattempts
  have hstart : step digest w (.publish a subject predecessor) =
      .ok (w.after (Publication.start digest a w.state subject predecessor)) := by
    simp only [Publication.step, hend]
    rfl
  cases hhalf with
  | @idle t' hr' _ =>
    rw [hr'.start hs', ha.authorize] at hstart
    obtain ⟨k, w', hexec, hdone⟩ := advances_complete ha
      (w := ⟨w.state, some ⟨subject, predecessor, .directories [] subject.parts⟩, w.last⟩) hs' hr' rfl
      hr'.clear.at_directories le_rfl
    refine ⟨k, w', ?_, hdone⟩
    rw [Run.exec, hstart]
    exact hexec
  | busy _ hbusy _ => rw [hend] at hbusy; cases hbusy
  | @done t' hp _ =>
    rw [hp.start hs', ha.authorize] at hstart
    refine ⟨0, ⟨w.state, none, some (.ok ⟨⟩)⟩, ?_, rfl, rfl, t', hp⟩
    rw [Run.exec, hstart]
    rfl

namespace Sample

/-- The ticket is open for the package, which is absent. -/
theorem opens : (readTicket store "PA-001").any (fun t => t.project == "pa" && claimable t &&
    (observe constant artifacts t package none).clear && (primaries t).isEmpty) = true := by
  decide +kernel

theorem resumable : ∃ t, Resumable constant package none world.state t := by
  cases ht : readTicket store "PA-001" with
  | none => exact absurd opens (by rw [ht]; simp)
  | some t =>
    have hopen := opens
    rw [ht] at hopen
    simp only [Option.any_some, Bool.and_eq_true, beq_iff_eq, List.isEmpty_iff] at hopen
    obtain ⟨⟨⟨hproject, hclaim⟩, hclear⟩, hnil⟩ := hopen
    exact ⟨t, ht, hproject, hclaim, clear_iff.1 hclear, by rw [hnil]; simp⟩

theorem willing_package : Willing constant package willing := by
  refine ⟨rfl, fun m hm => ⟨[0], rfl, ?_, rfl⟩, rfl⟩
  rcases List.mem_cons.1 hm with rfl | hm
  · decide
  · obtain rfl := List.mem_singleton.1 hm
    decide

/-- The process ends when one of the two files is written. -/
theorem interrupts : (Run.exec (step constant) world (attempt 6 ++ [.crash])).toOption.any (fun w => w.call.isNone) =
    true := by
  decide +kernel

end Sample

theorem retry_completes_sample : ∃ (h : List (Run.Step World (Event isoClock))) (w w' : World) (n : ℕ),
    Run.Reaches (step Sample.constant) Sample.world h w ∧ h.map Run.Step.event = Sample.attempt 6 ++ [.crash] ∧
      Run.exec (step Sample.constant) w (.publish Sample.willing Sample.package none ::
        List.replicate n (.advance Sample.willing)) = .ok w' ∧ Completed Sample.constant Sample.package none w' := by
  obtain ⟨h, w, hr, hes, hcall⟩ := Sample.ran Sample.interrupts
  obtain ⟨t, ht⟩ := Sample.resumable
  have hattempts : ∀ st ∈ h, Attempt Sample.package none st.event := by
    intro st hst
    have hmem : st.event ∈ Sample.attempt 6 ++ [.crash] := by
      rw [← hes]
      exact List.mem_map_of_mem hst
    simp only [Sample.attempt, List.mem_append, List.mem_cons, List.mem_replicate, List.not_mem_nil, or_false] at hmem
    rcases hmem with (h | ⟨-, h⟩) | h <;> rw [h]
    · exact .publish _
    · exact .advance _ rfl
    · exact .crash
  obtain ⟨n, w', hexec, hdone⟩ := retry_completes Sample.filed ht rfl hr hattempts
    (Option.isNone_iff_eq_none.1 hcall) Sample.willing_package
  exact ⟨h, w, w', n, hr, hes, hexec, hdone⟩

/-! ## Torn files -/

/-- The write of a file that fails leaves a file in conflict. -/
theorem torn_conflict {rest : List Member} {progress : Progress}
    (h : writeMember digest a s p member rest = .ok (s', progress)) (ht : a.torn = some bytes)
    (hm : member.matches digest bytes = false) (hl : bytes.length ≤ memberBytes) :
    inspect digest s'.tree p.subject member = .conflict ∧ progress = .ended (.error .uncertain) := by
  simp only [writeMember, bind_eq_ok, pure_eq_ok, require_eq_ok, ht, Option.getD_some] at h
  obtain ⟨_, -, _, -, _, -, tree, hc, h⟩ := h
  cases h
  have hnode : tree.memberNode p.subject member = some (.file bytes) := by
    rw [Tree.memberNode, (Tree.create_eq_some.1 hc).2.2, Function.update_self]
  refine ⟨?_, if_neg fun h => Option.some_ne_none _ h.1⟩
  rw [inspect_file hnode, if_neg (Nat.not_lt_of_le hl), hm]
  rfl

/-- A package with a file in conflict is in conflict. -/
theorem observe_conflict (hm : m ∈ subject.members) (h : inspect digest tree subject m = .conflict) :
    observe digest tree t subject predecessor = .conflict := by
  unfold observe
  dsimp only
  rw [if_pos (List.any_eq_true.2 ⟨_, List.mem_map_of_mem hm, by rw [h]; rfl⟩)]

theorem Changed.extends (h : Changed clock digest subject s s') : s.tree.Extends s'.tree := by
  cases h with
  | grown he => exact he
  | added => exact .refl
  | promoted => exact .refl

theorem Changed.filed (h : Changed clock digest subject s s') (hs : Filed clock s.store) : Filed clock s'.store := by
  cases h with
  | grown _ => exact hs
  | added host hread _ =>
    have hn := hs.normal (lookup_of_readTicket hread)
    exact filed_rewrite hs hread rfl (normal_withRefs hn (normal_added hn))
  | promoted host hread _ =>
    have hn := hs.normal (lookup_of_readTicket hread)
    exact filed_rewrite hs hread rfl (normal_withRefs hn (normal_promoted hn))

/-- Nodes are never lost. -/
theorem step_extends (hs : Filed clock w.state.store) (h : step digest w e = .ok w') :
    Filed clock w'.state.store ∧ w.state.tree.Extends w'.state.tree := by
  cases step_moved hs h with
  | called _ hc _ => exact ⟨hc.filed hs, hc.extends⟩
  | kept _ htree hfiled _ => exact ⟨hfiled, by rw [htree]; exact .refl⟩

/-- The call is refused and changes nothing. -/
structure Refused (w w' : World) : Prop where
  state : w'.state = w.state
  call : w'.call = none
  last : ∃ code, w'.last = some (.error code)

/-- The start of a `publish` or `queue` for a package. -/
def Starts (subject : Package) (e : Event clock) : Prop :=
  (∃ a predecessor, e = .publish a subject predecessor) ∨ ∃ a again predecessor, e = .queue a again subject predecessor

theorem refused_of_conflict (hm : m ∈ subject.members) (hv : inspect digest w.state.tree subject m = .conflict)
    (he : Starts subject e) (h : step digest w e = .ok w') : Refused w w' := by
  rcases he with ⟨a, predecessor, rfl⟩ | ⟨a, again, predecessor, rfl⟩
  · simp only [step, bind_eq_ok, pure_eq_ok] at h
    obtain ⟨_, -, rfl⟩ := h
    have hfails : ∃ code, start digest a w.state subject predecessor = .error code := by
      cases hstart : start digest a w.state subject predecessor with
      | error code => exact ⟨code, rfl⟩
      | ok r =>
        simp only [start, bind_eq_ok] at hstart
        obtain ⟨_, -, t, -, hstart⟩ := hstart
        rw [if_neg (by rw [observe_conflict hm hv]; decide), bind_eq_ok] at hstart
        obtain ⟨_, hw, -⟩ := hstart
        simp only [writable, bind_eq_ok, throwIf_eq_ok, observe_conflict hm hv] at hw
        obtain ⟨_, hw, -⟩ := hw
        exact absurd ⟨by decide, by decide⟩ hw
    obtain ⟨code, hcode⟩ := hfails
    rw [hcode]
    exact ⟨rfl, rfl, code, rfl⟩
  · simp only [step, bind_eq_ok, pure_eq_ok] at h
    obtain ⟨_, -, rfl⟩ := h
    have hfails : ∃ code, queue digest a again w.state subject predecessor = .error code := by
      cases hq : queue digest a again w.state subject predecessor with
      | error code => exact ⟨code, rfl⟩
      | ok r =>
        simp only [queue, bind_eq_ok, throwIf_eq_ok] at hq
        obtain ⟨_, -, _, -, t, -, _, hw, -⟩ := hq
        exact absurd (by rw [observe_conflict hm hv]; decide) hw
    obtain ⟨code, hcode⟩ := hfails
    rw [hcode]
    exact ⟨rfl, rfl, code, rfl⟩

/-- **A torn file stays in the way.**  Once a member of a package is in conflict it is so for
    good, whatever is called and wherever a process ends; every `publish` and `queue` of the
    package is refused and changes nothing. -/
theorem conflict_stays {w₀ w : World} {h : List (Run.Step World (Event clock))} (hs : Filed clock w₀.state.store)
    (hm : m ∈ subject.members) (hv : inspect digest w₀.state.tree subject m = .conflict)
    (hrun : Run.Reaches (step digest) w₀ h w) :
    inspect digest w.state.tree subject m = .conflict ∧
      ∀ st ∈ h, Starts subject st.event → Refused st.before st.after := by
  have hinv : (Filed clock w.state.store ∧ inspect digest w.state.tree subject m = .conflict) ∧
      ∀ st ∈ h, Starts subject st.event → Refused st.before st.after := by
    refine Run.Reaches.invariant (P := fun h w =>
      (Filed clock w.state.store ∧ inspect digest w.state.tree subject m = .conflict) ∧
        ∀ st ∈ h, Starts subject st.event → Refused st.before st.after) ⟨⟨hs, hv⟩, by simp⟩ ?_ hrun
    rintro h w e w' _ ⟨⟨hs, hv⟩, hall⟩ hstep
    obtain ⟨hs', he⟩ := step_extends hs hstep
    refine ⟨⟨hs', by rw [inspect_extends he (Or.inr hv), hv]⟩, fun st hst hstart => ?_⟩
    rcases List.mem_append.1 hst with hst | hst
    · exact hall st hst hstart
    · obtain rfl := List.mem_singleton.1 hst
      exact refused_of_conflict hm hv hstart hstep
  exact ⟨hinv.1.2, hinv.2⟩

namespace Sample

/-- The file of the requirements was torn. -/
def torn : Tree :=
  ((((artifacts.mkdir [] "packages").mkdir ["packages"] "PA-001").mkdir ["packages", "PA-001"] "intake").mkdir
    ["packages", "PA-001", "intake"] "r001" |>.create package.parts requirements.name (.file [])).getD artifacts

theorem torn_requirements : inspect constant torn package requirements = .conflict := by decide +kernel

theorem retries :
    (Run.exec (step constant) ⟨⟨torn, store⟩, none, none⟩ (attempt 0)).toOption.any (fun _ => true) = true := by
  decide +kernel

end Sample

theorem conflict_stays_sample : ∃ (h : List (Run.Step World (Event isoClock))) (w : World),
    Run.Reaches (step Sample.constant) ⟨⟨Sample.torn, Sample.store⟩, none, none⟩ h w ∧
      h.map Run.Step.event = Sample.attempt 0 ∧
      inspect Sample.constant w.state.tree Sample.package Sample.requirements = .conflict ∧
      ∀ st ∈ h, Starts Sample.package st.event → Refused st.before st.after := by
  obtain ⟨h, w, hr, hes, -⟩ := Sample.ran Sample.retries
  exact ⟨h, w, hr, hes, conflict_stays Sample.filed (List.mem_cons_self ..) Sample.torn_requirements hr⟩

end PaPlatform.Tickets.Publication
