/-
  The comments of one ticket.

  A comment is addressed by the id that the call which made it returned, and that id
  is the reading of the clock.  What is done to a comment by its id is done to that
  comment alone exactly as long as no reading gives an id that is in use or was returned.
-/
import PaPlatform.Tickets.Updates

namespace PaPlatform.Tickets

open Effect

variable {clock : Clock} {host host' : Host clock} {s : Store} {t : Ticket} {id : String}

/-- The id of a comment made at `now`. -/
def commentId (now : String) : String := "c-" ++ digits now

inductive CommentCall (clock : Clock) where
  | comment (host : Host clock) (author content : String)
  | editComment (host : Host clock) (commentId content : String)
  | deleteComment (host : Host clock) (commentId : String)

def CommentCall.on (id : String) : CommentCall clock → Call clock
  | comment host author content => .comment host id author content
  | editComment host commentId content => .editComment host id commentId content
  | deleteComment host commentId => .deleteComment host id commentId

/-! ## Which comment is which -/

/-- A store, the comments of the ticket, each with the number of the call that made it if it was
    one of these, and the ids that the calls returned. -/
structure Thread where
  store : Store
  entries : List (Option ℕ × Comment)
  issued : List String

def Thread.start (s : Store) (t : Ticket) : Thread := ⟨s, t.comments.map fun c => (none, c), []⟩

/-- The calls that made the comments that are left. -/
def CommentCall.makers (w : Thread) : CommentCall clock → List (Option ℕ)
  | comment _ _ _ => w.entries.map (·.1) ++ [some w.issued.length]
  | editComment _ _ _ => w.entries.map (·.1)
  | deleteComment _ commentId => (w.entries.filter fun e => e.2.id ≠ commentId).map (·.1)

def CommentCall.returned (w : Thread) : CommentCall clock → List String
  | comment host _ _ => w.issued ++ [commentId host.nowUtc]
  | _ => w.issued

/-- The comments after a call stand in the ticket that it wrote. -/
def Thread.after (id : String) (w : Thread) (c : CommentCall clock) : Thread :=
  match outcome (perform (c.on id)) w.store with
  | (.error _, s) => { w with store := s }
  | (.ok next, s) => ⟨s, (c.makers w).zip next.comments, c.returned w⟩

def Comment.edit (content now : String) (c : Comment) : Comment :=
  { c with content := content, editedAt := some now }

/-- The comment of the `n`-th call is edited, the others are left. -/
def Thread.edited (w : Thread) (n : ℕ) (content now : String) : List Comment :=
  w.entries.map fun e => if e.1 = some n then e.2.edit content now else e.2

/-- The comment of the `n`-th call is removed, the others are left. -/
def Thread.without (w : Thread) (n : ℕ) : List Comment := (w.entries.filter fun e => e.1 ≠ some n).map (·.2)

/-- The call gives the ticket these comments and changes no more of it than its time. -/
def Rewrites (s : Store) (id : String) (c : Call clock) (now : String) (comments : List Comment) : Prop :=
  ∃ t, readTicket s id = some t ∧
    (outcome (perform c) s).1 = .ok { t with comments := comments, updatedAt := now } ∧
    readTicket (after s c) id = some { t with comments := comments, updatedAt := now }

def Refuses (s : Store) (c : Call clock) (commentId : String) : Prop :=
  outcome (perform c) s = (.error (.commentNotFound commentId), s)

/-- By the id that a call returned its comment is edited and deleted, and no other. -/
structure Addressed (clock : Clock) (id : String) (w : Thread) : Prop where
  single : (w.entries.filterMap (·.1)).Nodup
  edit : ∀ n commentId, w.issued[n]? = some commentId → ∀ (host : Host clock) content,
    if some n ∈ w.entries.map (·.1) then
      Rewrites w.store id (.editComment host id commentId content) host.nowUtc (w.edited n content host.nowUtc)
    else Refuses w.store (.editComment host id commentId content) commentId
  delete : ∀ n commentId, w.issued[n]? = some commentId → ∀ host : Host clock,
    if some n ∈ w.entries.map (·.1) then
      Rewrites w.store id (.deleteComment host id commentId) host.nowUtc (w.without n)
    else Refuses w.store (.deleteComment host id commentId) commentId

/-- A new comment gets an id that no comment of the ticket has and no call has returned. -/
def CommentCall.Fresh (w : Thread) : CommentCall clock → Prop
  | comment host _ _ => commentId host.nowUtc ∉ w.issued ∧ ∀ e ∈ w.entries, e.2.id ≠ commentId host.nowUtc
  | _ => True

/-- Comments are addressed by their ids before and after every call. -/
def AlwaysAddressed (id : String) : Thread → List (CommentCall clock) → Prop
  | w, [] => Addressed clock id w
  | w, c :: cs => Addressed clock id w ∧ AlwaysAddressed id (w.after id c) cs

def AlwaysFresh (id : String) : Thread → List (CommentCall clock) → Prop
  | _, [] => True
  | w, c :: cs => c.Fresh w ∧ AlwaysFresh id (w.after id c) cs

/-! ## What the calls do -/

theorem current_ok (hs : Filed clock s) (ht : readTicket s id = some t) :
    outcome (current host id) s = (.ok t, s) := by
  refine wp_exact.1 ?_
  simp only [current, wp_bind, wp_get, wp_liftM, wp_demand, hs.get, ht]
  refine ⟨?_, ?_⟩
  · rintro found hf
    cases hf
    refine ⟨by rintro ⟨⟩, ?_⟩
    rintro t' ht'
    exact ⟨(Option.some.inj ht').symm, trivial⟩
  · rintro e he
    cases he

theorem writeTicket_ok (hc : isCanonicalTicketId t.id = true) : outcome (writeTicket t) s = (.ok ⟨⟩, s.put t) := by
  refine wp_exact.1 (wp_writeTicket.2 ⟨?_, ?_⟩)
  · rintro h
    rw [hc] at h
    cases h
  · rintro -
    exact ⟨rfl, rfl⟩

/-- A ticket with new comments is written and read again. -/
theorem rewrites_of_outcome {c : Call clock} {next : Ticket} {now : String} {comments : List Comment}
    (ht : readTicket s id = some t) (hnext : next = { t with comments := comments, updatedAt := now })
    (h : outcome (perform c) s = (.ok next, s.put next)) : Rewrites s id c now comments := by
  refine ⟨t, ht, ?_, ?_⟩
  · rw [h, hnext]
  · unfold after
    rw [h, ← hnext]
    exact readTicket_put ht (by rw [hnext])

def withComment (host : Host clock) (author content : String) (t : Ticket) : Ticket :=
  { t with
    comments := t.comments ++ [⟨commentId host.nowUtc, author, content, host.nowUtc, none⟩]
    updatedAt := host.nowUtc }

theorem comment_outcome (hs : Filed clock s) (ht : readTicket s id = some t) (author content : String) :
    outcome (comment host id author content) s =
      (.ok (withComment host author content t), s.put (withComment host author content t)) := by
  have hc : isCanonicalTicketId (withComment host author content t).id = true :=
    (canonical_of_readTicket hs ht :)
  unfold comment
  rw [outcome_bind, current_ok hs ht]
  show outcome (writeTicket (withComment host author content t) >>= _) s = _
  rw [outcome_bind, writeTicket_ok hc]
  rfl

def withEdit (host : Host clock) (index : ℕ) (content : String) (t : Ticket) : Ticket :=
  { t with
    comments := t.comments.modify index (Comment.edit content host.nowUtc)
    updatedAt := host.nowUtc }

theorem editComment_outcome (hs : Filed clock s) (ht : readTicket s id = some t) (commentId content : String) :
    outcome (editComment host id commentId content) s =
      match t.comments.findIdx? fun c => c.id == commentId with
      | none => (.error (.commentNotFound commentId), s)
      | some index => (.ok (withEdit host index content t), s.put (withEdit host index content t)) := by
  unfold editComment
  rw [outcome_bind, current_ok hs ht]
  dsimp only
  rw [outcome_bind]
  cases t.comments.findIdx? fun c => c.id == commentId with
  | none => rfl
  | some index =>
    have hc : isCanonicalTicketId (withEdit host index content t).id = true :=
      (canonical_of_readTicket hs ht :)
    show outcome (writeTicket (withEdit host index content t) >>= _) s = _
    rw [outcome_bind, writeTicket_ok hc]
    rfl

def withoutComment (host : Host clock) (commentId : String) (t : Ticket) : Ticket :=
  { t with comments := t.comments.filter fun c => c.id ≠ commentId, updatedAt := host.nowUtc }

theorem deleteComment_outcome (hs : Filed clock s) (ht : readTicket s id = some t) (commentId : String) :
    outcome (deleteComment host id commentId) s =
      if ∃ c ∈ t.comments, c.id = commentId then
        (.ok (withoutComment host commentId t), s.put (withoutComment host commentId t))
      else (.error (.commentNotFound commentId), s) := by
  have hl : (t.comments.filter fun c => c.id ≠ commentId).length = t.comments.length ↔
      ¬ ∃ c ∈ t.comments, c.id = commentId := by
    rw [List.length_filter_eq_length_iff]
    simp
  unfold deleteComment
  rw [outcome_bind, current_ok hs ht]
  dsimp only
  rw [outcome_bind]
  by_cases h : ∃ c ∈ t.comments, c.id = commentId
  · have hc : isCanonicalTicketId (withoutComment host commentId t).id = true :=
      (canonical_of_readTicket hs ht :)
    rw [if_pos h, failIf, if_neg (fun hlen => hl.1 hlen h)]
    show outcome (writeTicket (withoutComment host commentId t) >>= _) s = _
    rw [outcome_bind, writeTicket_ok hc]
    rfl
  · rw [if_neg h, failIf, if_pos (hl.2 h)]
    rfl


/-! ## One call -/

variable {w : Thread} {c : CommentCall clock} {author content : String} {cid : String}

/-- The entries are the comments of the ticket, and each has the id that its call returned. -/
structure Consistent (clock : Clock) (id : String) (w : Thread) : Prop where
  filed : Filed clock w.store
  read : ∃ t, readTicket w.store id = some t ∧ t.comments = w.entries.map (·.2)
  single : (w.entries.filterMap (·.1)).Nodup
  made : ∀ e ∈ w.entries, ∀ n, e.1 = some n → w.issued[n]? = some e.2.id

/-- An id that was returned belongs to the comment of that call alone. -/
structure Faithful (w : Thread) : Prop where
  distinct : w.issued.Nodup
  own : ∀ e ∈ w.entries, ∀ n, w.issued[n]? = some e.2.id → e.1 = some n

theorem fst_modify {f : Comment → Comment} (l : List (Option ℕ × Comment)) (i : ℕ) :
    (l.modify i fun e => (e.1, f e.2)).map (·.1) = l.map (·.1) := by
  refine List.ext_getElem? fun j => ?_
  rw [List.getElem?_map, List.getElem?_modify, List.getElem?_map]
  cases l[j]? with
  | none => rfl
  | some a => split_ifs <;> rfl

theorem snd_modify {f : Comment → Comment} (l : List (Option ℕ × Comment)) (i : ℕ) :
    (l.modify i fun e => (e.1, f e.2)).map (·.2) = (l.map (·.2)).modify i f := by
  refine List.ext_getElem? fun j => ?_
  rw [List.getElem?_map, List.getElem?_modify, List.getElem?_modify, List.getElem?_map]
  cases l[j]? with
  | none => rfl
  | some a => split_ifs <;> simp [*]

theorem zip_entries (l : List (Option ℕ × Comment)) : (l.map (·.1)).zip (l.map (·.2)) = l := by
  rw [List.zip_map']
  exact List.map_id l

/-- The comment that a call makes. -/
def newComment (host : Host clock) (author content : String) : Comment :=
  ⟨commentId host.nowUtc, author, content, host.nowUtc, none⟩

theorem after_comment (hs : Filed clock w.store) (ht : readTicket w.store id = some t)
    (hc : t.comments = w.entries.map (·.2)) : w.after id (.comment host author content) =
      ⟨w.store.put (withComment host author content t),
        w.entries ++ [(some w.issued.length, newComment host author content)],
        w.issued ++ [commentId host.nowUtc]⟩ := by
  have hz : (w.entries.map (·.1) ++ [some w.issued.length]).zip (withComment host author content t).comments =
      w.entries ++ [(some w.issued.length, newComment host author content)] := by
    show List.zip _ (t.comments ++ [newComment host author content]) = _
    have hz := zip_entries (w.entries ++ [(some w.issued.length, newComment host author content)])
    rw [List.map_append, List.map_append] at hz
    rw [hc]
    exact hz
  unfold Thread.after
  rw [show perform (CommentCall.on id (.comment host author content)) = comment host id author content from rfl,
    comment_outcome hs ht author content]
  dsimp only [CommentCall.makers, CommentCall.returned]
  rw [hz]

theorem after_editComment (hs : Filed clock w.store) (ht : readTicket w.store id = some t)
    (hc : t.comments = w.entries.map (·.2)) : w.after id (.editComment host cid content) =
      match w.entries.findIdx? fun e => e.2.id == cid with
      | none => w
      | some index => ⟨w.store.put (withEdit host index content t), w.entries.modify index fun e =>
          (e.1, e.2.edit content host.nowUtc), w.issued⟩ := by
  have hfind : (t.comments.findIdx? fun c => c.id == cid) = w.entries.findIdx? fun e => e.2.id == cid := by
    rw [hc, List.findIdx?_map]
    rfl
  unfold Thread.after
  rw [show perform (CommentCall.on id (.editComment host cid content)) = editComment host id cid content from rfl,
    editComment_outcome hs ht cid content, hfind]
  cases w.entries.findIdx? fun e => e.2.id == cid with
  | none => rfl
  | some index =>
    have hz : (w.entries.map (·.1)).zip (withEdit host index content t).comments =
        w.entries.modify index fun e => (e.1, e.2.edit content host.nowUtc) := by
      have hz := zip_entries (w.entries.modify index fun e => (e.1, e.2.edit content host.nowUtc))
      rw [fst_modify, snd_modify, ← hc] at hz
      exact hz
    dsimp only [CommentCall.makers, CommentCall.returned]
    rw [hz]

theorem after_deleteComment (hs : Filed clock w.store) (ht : readTicket w.store id = some t)
    (hc : t.comments = w.entries.map (·.2)) : w.after id (.deleteComment host cid : CommentCall clock) =
      if ∃ e ∈ w.entries, e.2.id = cid then
        ⟨w.store.put (withoutComment host cid t), w.entries.filter fun e => e.2.id ≠ cid, w.issued⟩
      else w := by
  have hex : (∃ c ∈ t.comments, c.id = cid) ↔ ∃ e ∈ w.entries, e.2.id = cid := by
    rw [hc]
    constructor
    · rintro ⟨c, hmem, hid⟩
      rcases List.mem_map.1 hmem with ⟨e, he, rfl⟩
      exact ⟨e, he, hid⟩
    · rintro ⟨e, he, hid⟩
      exact ⟨e.2, List.mem_map_of_mem he, hid⟩
  unfold Thread.after
  rw [show perform (CommentCall.on id (.deleteComment host cid)) = deleteComment host id cid from rfl,
    deleteComment_outcome hs ht cid]
  by_cases h : ∃ e ∈ w.entries, e.2.id = cid
  · have hz : ((w.entries.filter fun e => e.2.id ≠ cid).map (·.1)).zip (withoutComment host cid t).comments =
        w.entries.filter fun e => e.2.id ≠ cid := by
      show List.zip _ (t.comments.filter fun c => c.id ≠ cid) = _
      rw [hc, List.filter_map]
      exact zip_entries _
    rw [if_pos (hex.2 h), if_pos h]
    dsimp only [CommentCall.makers, CommentCall.returned]
    rw [hz]
  · rw [if_neg (fun h' => h (hex.1 h')), if_neg h]


/-! ## Runs -/

theorem Consistent.start (hs : Filed clock s) (ht : readTicket s id = some t) :
    Consistent clock id (.start s t) := by
  refine ⟨hs, ⟨t, ht, ?_⟩, ?_, ?_⟩
  · show t.comments = (t.comments.map _).map _
    rw [List.map_map]
    exact (List.map_id _).symm
  · show ((t.comments.map fun c => ((none : Option ℕ), c)).filterMap _).Nodup
    rw [List.filterMap_eq_nil_iff.2]
    · exact List.nodup_nil
    · rintro e he
      rcases List.mem_map.1 he with ⟨c, -, rfl⟩
      rfl
  · rintro e he n hn
    rcases List.mem_map.1 he with ⟨c, -, rfl⟩
    exact absurd hn (by simp)

theorem Faithful.start : Faithful (.start s t) := by
  refine ⟨List.nodup_nil, ?_⟩
  rintro e - n hn
  exact absurd hn (by simp [Thread.start])

/-- The store that a call leaves is filed. -/
theorem filed_outcome {c : Call clock} {r : Except TicketError Ticket} {s' : Store} (hs : Filed clock s)
    (h : outcome (perform c) s = (r, s')) : Filed clock s' := by
  have hf := (change_outcome hs c).filed hs
  unfold after at hf
  rwa [h] at hf

theorem makers_eq (l : List (Option ℕ × Comment)) : l.filterMap (·.1) = (l.map (·.1)).filterMap fun n => n := by
  rw [List.filterMap_map]
  rfl

theorem mem_modify_fst {f : Comment → Comment} {l : List (Option ℕ × Comment)} {i : ℕ} {e : Option ℕ × Comment}
    (h : e ∈ l.modify i fun e => (e.1, f e.2)) (hf : ∀ c, (f c).id = c.id) :
    ∃ e' ∈ l, e'.1 = e.1 ∧ e'.2.id = e.2.id := by
  rcases mem_modify h with h | ⟨y, hy, rfl⟩
  · exact ⟨e, h, rfl, rfl⟩
  · exact ⟨y, List.mem_of_getElem? hy, rfl, (hf y.2).symm⟩

theorem Consistent.after (h : Consistent clock id w) (c : CommentCall clock) : Consistent clock id (w.after id c) := by
  rcases h.read with ⟨t, ht, hc⟩
  cases c with
  | comment host author content =>
    rw [after_comment h.filed ht hc]
    refine ⟨filed_outcome (c := .comment host id author content) h.filed (comment_outcome h.filed ht author content),
      ⟨_, readTicket_put ht rfl, ?_⟩, ?_, ?_⟩
    · rw [List.map_append, ← hc]
      rfl
    · rw [List.filterMap_append]
      refine List.nodup_append.2 ⟨h.single, List.nodup_singleton _, ?_⟩
      rintro n hn m hm rfl
      rw [show n = w.issued.length from by simpa using hm] at hn
      rcases List.mem_filterMap.1 hn with ⟨e, he, hen⟩
      have hlt := List.getElem?_eq_some_iff.1 (h.made e he _ hen)
      exact absurd hlt.1 (lt_irrefl _)
    · rintro e he n hn
      rcases List.mem_append.1 he with he | he
      · have hi := h.made e he n hn
        rw [List.getElem?_append_left (List.getElem?_eq_some_iff.1 hi).1]
        exact hi
      · rw [List.mem_singleton.1 he] at hn ⊢
        rw [← Option.some.inj hn, List.getElem?_append_right le_rfl, Nat.sub_self]
        rfl
  | editComment host cid content =>
    rw [after_editComment h.filed ht hc]
    have ho := @editComment_outcome _ host _ _ _ h.filed ht cid content
    rw [hc, List.findIdx?_map] at ho
    show Consistent clock id (match w.entries.findIdx? fun e => e.2.id == cid with
      | none => w
      | some index => _)
    rw [show ((fun c : Comment => c.id == cid) ∘ fun x : Option ℕ × Comment => x.2) = fun e => e.2.id == cid from rfl] at ho
    cases hi : w.entries.findIdx? fun e => e.2.id == cid with
    | none => exact h
    | some index =>
      rw [hi] at ho
      refine ⟨filed_outcome (c := .editComment host id cid content) h.filed ho, ⟨_, readTicket_put ht rfl, ?_⟩, ?_, ?_⟩
      · rw [snd_modify, ← hc]
        rfl
      · rw [makers_eq, fst_modify, ← makers_eq]
        exact h.single
      · rintro e he n hn
        rcases mem_modify_fst he (fun _ => rfl) with ⟨e', he', h1, h2⟩
        rw [← h1] at hn
        rw [← h2]
        exact h.made e' he' n hn
  | deleteComment host cid =>
    rw [after_deleteComment h.filed ht hc]
    have ho := @deleteComment_outcome _ host _ _ _ h.filed ht cid
    split_ifs with hex
    · rcases hex with ⟨e, he, hid⟩
      rw [if_pos ⟨e.2, hc ▸ List.mem_map_of_mem he, hid⟩] at ho
      refine ⟨filed_outcome (c := .deleteComment host id cid) h.filed ho, ⟨_, readTicket_put ht rfl, ?_⟩, ?_, ?_⟩
      · show t.comments.filter _ = _
        rw [hc, List.filter_map]
        rfl
      · exact h.single.sublist (List.filter_sublist.filterMap _)
      · rintro e he n hn
        exact h.made e (List.mem_filter.1 he).1 n hn
    · exact h


/-- The first item is the only one. -/
theorem modify_unique {α : Type} {p : α → Bool} {f : α → α} {l : List α} {i : ℕ}
    (h : l.Pairwise fun a b => ¬ (p a = true ∧ p b = true)) (hi : l.findIdx? p = some i) :
    l.modify i f = l.map fun a => if p a = true then f a else a := by
  induction l generalizing i with
  | nil => exact absurd hi (by simp)
  | cons a l ih =>
    rw [List.pairwise_cons] at h
    rw [List.findIdx?_cons] at hi
    by_cases hp : p a = true
    · rw [if_pos hp] at hi
      obtain rfl := Option.some.inj hi
      have hl : l.map (fun a => if p a = true then f a else a) = l.map fun a => a :=
        List.map_congr_left fun b hb => if_neg fun hpb => h.1 b hb ⟨hp, hpb⟩
      rw [List.modify_zero_cons, List.map_cons, if_pos hp, hl, List.map_id']
    · rw [if_neg hp] at hi
      rcases Option.map_eq_some_iff.1 hi with ⟨j, hj, rfl⟩
      rw [List.modify_succ_cons, List.map_cons, if_neg hp, ih h.2 hj]

section
variable {n : ℕ}

/-- A returned id is that of the comment of its call. -/
theorem id_iff (h : Consistent clock id w) (hf : Faithful w) (hn : w.issued[n]? = some cid) {e : Option ℕ × Comment}
    (he : e ∈ w.entries) : e.2.id = cid ↔ e.1 = some n := by
  constructor
  · rintro rfl
    exact hf.own e he n hn
  · rintro hm
    have hi := h.made e he n hm
    rw [hn] at hi
    exact (Option.some.inj hi).symm

theorem exists_iff (h : Consistent clock id w) (hf : Faithful w) (hn : w.issued[n]? = some cid) :
    (∃ e ∈ w.entries, e.2.id = cid) ↔ some n ∈ w.entries.map (·.1) := by
  rw [List.mem_map]
  constructor
  · rintro ⟨e, he, hid⟩
    exact ⟨e, he, (id_iff h hf hn he).1 hid⟩
  · rintro ⟨e, he, hm⟩
    exact ⟨e, he, (id_iff h hf hn he).2 hm⟩

/-- Only one comment has the id. -/
theorem pairwise_ids (h : Consistent clock id w) (hf : Faithful w) (hn : w.issued[n]? = some cid) :
    w.entries.Pairwise fun a b => ¬ ((a.2.id == cid) = true ∧ (b.2.id == cid) = true) := by
  refine (List.pairwise_filterMap.1 h.single).imp_of_mem ?_
  rintro a b ha hb hne ⟨hida, hidb⟩
  exact hne n ((id_iff h hf hn ha).1 (eq_of_beq hida)) n ((id_iff h hf hn hb).1 (eq_of_beq hidb)) rfl

theorem addressed_edit (h : Consistent clock id w) (hf : Faithful w) (hn : w.issued[n]? = some cid)
    (host : Host clock) (content : String) :
    if some n ∈ w.entries.map (·.1) then
      Rewrites w.store id (.editComment host id cid content) host.nowUtc (w.edited n content host.nowUtc)
    else Refuses w.store (.editComment host id cid content) cid := by
  rcases h.read with ⟨t, ht, hc⟩
  have ho : outcome (perform (.editComment host id cid content)) w.store = _ := editComment_outcome h.filed ht cid content
  rw [hc, List.findIdx?_map] at ho
  cases hi : List.findIdx? ((fun c : Comment => c.id == cid) ∘ fun e : Option ℕ × Comment => e.2) w.entries with
  | none =>
    rw [hi] at ho
    rw [if_neg]
    · exact ho
    · rw [← exists_iff h hf hn]
      rintro ⟨e, he, hid⟩
      have hne := List.findIdx?_eq_none_iff.1 hi e he
      exact absurd hne (by simp [hid])
  | some index =>
    rw [hi] at ho
    rw [if_pos]
    · refine rewrites_of_outcome ht ?_ ho
      have hm : t.comments.modify index (Comment.edit content host.nowUtc) = w.edited n content host.nowUtc := by
        have hmap : ∀ e ∈ w.entries, (if (e.2.id == cid) = true then (e.1, e.2.edit content host.nowUtc) else e).2 =
            if e.1 = some n then e.2.edit content host.nowUtc else e.2 := by
          rintro e he
          by_cases hid : e.2.id = cid
          · rw [if_pos (beq_iff_eq.2 hid), if_pos ((id_iff h hf hn he).1 hid)]
          · rw [if_neg (fun hb => hid (eq_of_beq hb)), if_neg (fun hm => hid ((id_iff h hf hn he).2 hm))]
        rw [hc, ← snd_modify, modify_unique (pairwise_ids h hf hn) hi, List.map_map]
        exact List.map_congr_left hmap
      show ({ t with comments := _, updatedAt := _ } : Ticket) = _
      rw [hm]
    · rw [← exists_iff h hf hn]
      rcases List.findIdx?_eq_some_iff_getElem.1 hi with ⟨hlt, hp, -⟩
      exact ⟨w.entries[index], List.getElem_mem hlt, eq_of_beq hp⟩

theorem addressed_delete (h : Consistent clock id w) (hf : Faithful w) (hn : w.issued[n]? = some cid)
    (host : Host clock) :
    if some n ∈ w.entries.map (·.1) then
      Rewrites w.store id (.deleteComment host id cid) host.nowUtc (w.without n)
    else Refuses w.store (.deleteComment host id cid) cid := by
  rcases h.read with ⟨t, ht, hc⟩
  have ho : outcome (perform (.deleteComment host id cid)) w.store = _ := deleteComment_outcome h.filed ht cid
  have hex : (∃ c ∈ t.comments, c.id = cid) ↔ some n ∈ w.entries.map (·.1) := by
    rw [← exists_iff h hf hn, hc]
    constructor
    · rintro ⟨c, hmem, hid⟩
      rcases List.mem_map.1 hmem with ⟨e, he, rfl⟩
      exact ⟨e, he, hid⟩
    · rintro ⟨e, he, hid⟩
      exact ⟨e.2, List.mem_map_of_mem he, hid⟩
  by_cases hm : some n ∈ w.entries.map (·.1)
  · rw [if_pos (hex.2 hm)] at ho
    rw [if_pos hm]
    refine rewrites_of_outcome ht ?_ ho
    have hfilter : t.comments.filter (fun c => c.id ≠ cid) = w.without n := by
      rw [hc, List.filter_map]
      unfold Thread.without
      congr 1
      refine List.filter_congr fun e he => ?_
      simp only [Function.comp_apply, ne_eq, id_iff h hf hn he]
    show ({ t with comments := _, updatedAt := _ } : Ticket) = _
    rw [hfilter]
  · rw [if_neg (fun h' => hm (hex.1 h'))] at ho
    rw [if_neg hm]
    exact ho

theorem Faithful.addressed (h : Consistent clock id w) (hf : Faithful w) : Addressed clock id w :=
  ⟨h.single, fun _ _ hn => addressed_edit h hf hn, fun _ _ hn => addressed_delete h hf hn⟩

end

/-- A fresh id keeps the ids faithful. -/
theorem Faithful.after (h : Consistent clock id w) (hf : Faithful w) (hc : c.Fresh w) : Faithful (w.after id c) := by
  rcases h.read with ⟨t, ht, hcs⟩
  cases c with
  | comment host author content =>
    rw [after_comment h.filed ht hcs]
    constructor
    · refine List.nodup_append.2 ⟨hf.distinct, List.nodup_singleton _, ?_⟩
      rintro x hx y hy rfl
      rw [List.mem_singleton.1 hy] at hx
      exact hc.1 hx
    · rintro e he n hn
      rcases List.mem_append.1 he with he | he
      · have hlt : n < w.issued.length := by
          by_contra hge
          rw [List.getElem?_append_right (not_lt.1 hge)] at hn
          have hmem := List.mem_of_getElem? hn
          exact hc.2 e he (List.mem_singleton.1 hmem)
        rw [List.getElem?_append_left hlt] at hn
        exact hf.own e he n hn
      · rw [List.mem_singleton.1 he] at hn ⊢
        by_cases hlt : n < w.issued.length
        · rw [List.getElem?_append_left hlt] at hn
          exact absurd (List.mem_of_getElem? hn) hc.1
        · have hn' := (List.getElem?_eq_some_iff.1 hn).1
          rw [List.length_append] at hn'
          rw [show n = w.issued.length from by simp at hn'; omega]
  | editComment host cid content =>
    rw [after_editComment h.filed ht hcs]
    cases w.entries.findIdx? fun e => e.2.id == cid with
    | none => exact hf
    | some index =>
      refine ⟨hf.distinct, ?_⟩
      rintro e he n hn
      rcases mem_modify_fst he (fun _ => rfl) with ⟨e', he', h1, h2⟩
      rw [← h1]
      rw [← h2] at hn
      exact hf.own e' he' n hn
  | deleteComment host cid =>
    rw [after_deleteComment h.filed ht hcs]
    split_ifs
    · exact ⟨hf.distinct, fun e he => hf.own e (List.mem_filter.1 he).1⟩
    · exact hf


/-! ## Ids that are used twice -/

/-- The thread after a comment. -/
def commented (host : Host clock) (author content : String) (s : Store) (w : Thread) : Thread :=
  ⟨s, w.entries ++ [(some w.issued.length, newComment host author content)], w.issued ++ [commentId host.nowUtc]⟩

theorem edit_ne (c : Comment) (now : String) : c.edit (c.content ++ "x") now ≠ c := by
  intro h
  have hl := congrArg String.length (congrArg Comment.content h)
  exact absurd hl (by simp [Comment.edit])

/-- The id of the new comment is that of no other. -/
theorem unused_of_addressed (h : Consistent clock id w) (h' : Consistent clock id (commented host author content s w))
    (ha : Addressed clock id (commented host author content s w)) :
    ∀ e ∈ w.entries, e.2.id ≠ commentId host.nowUtc := by
  rintro e he hid
  rcases h'.read with ⟨t, ht, hc⟩
  have hlast : (commented host author content s w).issued[w.issued.length]? = some (commentId host.nowUtc) := by
    simp [commented]
  have hmem : some w.issued.length ∈ (commented host author content s w).entries.map (·.1) := by simp [commented]
  have hex : ((commented host author content s w).entries.findIdx? fun e => e.2.id == commentId host.nowUtc).isSome := by
    rw [List.findIdx?_isSome, List.any_eq_true]
    exact ⟨e, List.mem_append_left _ he, beq_iff_eq.2 hid⟩
  rcases Option.isSome_iff_exists.1 hex with ⟨index, hi⟩
  rcases List.findIdx?_eq_some_iff_getElem.1 hi with ⟨hlt, hp, hfirst⟩
  have hbefore : index < w.entries.length := by
    by_contra hge
    rcases List.getElem_of_mem he with ⟨j, hj, hej⟩
    have hnot := hfirst j (lt_of_lt_of_le hj (not_lt.1 hge))
    have hget : (commented host author content s w).entries[j]? = some e := by
      show (w.entries ++ _)[j]? = _
      rw [List.getElem?_append_left hj, List.getElem?_eq_getElem hj, hej]
    rw [(List.getElem?_eq_some_iff.1 hget).2] at hnot
    exact hnot (beq_iff_eq.2 hid)
  -- the first comment with the id is edited, although it is not the last
  have hat : (commented host author content s w).entries[index]? = some w.entries[index] := by
    rw [List.getElem?_eq_some_iff]
    exact ⟨hlt, List.getElem_append_left hbefore⟩
  have hedit := ha.edit _ _ hlast host (w.entries[index].2.content ++ "x")
  rw [if_pos hmem] at hedit
  rcases hedit with ⟨t', ht', hok, -⟩
  obtain rfl : t = t' := Option.some.inj (ht.symm.trans ht')
  have ho : outcome (perform (.editComment host id (commentId host.nowUtc) (w.entries[index].2.content ++ "x")))
      (commented host author content s w).store = _ := editComment_outcome h'.filed ht _ _
  rw [hc, List.findIdx?_map] at ho
  rw [show List.findIdx? ((fun c : Comment => c.id == commentId host.nowUtc) ∘ fun e : Option ℕ × Comment => e.2)
    (commented host author content s w).entries = some index from hi] at ho
  rw [ho] at hok
  have hcs : t.comments.modify index (Comment.edit (w.entries[index].2.content ++ "x") host.nowUtc) =
      (commented host author content s w).edited w.issued.length (w.entries[index].2.content ++ "x") host.nowUtc :=
    congrArg Ticket.comments (Except.ok.inj hok)
  have hcs := congrArg (fun l => l[index]?) hcs
  unfold Thread.edited at hcs
  rw [hc, List.getElem?_modify, List.getElem?_map, List.getElem?_map, hat] at hcs
  have hmaker : w.entries[index].1 ≠ some w.issued.length := by
    intro hm
    have hn := h.made _ (List.getElem_mem hbefore) _ hm
    exact absurd (List.getElem?_eq_some_iff.1 hn).1 (lt_irrefl _)
  simp only [Option.map_some, Option.map_eq_map, if_true, if_neg hmaker, Option.some.injEq] at hcs
  exact edit_ne _ _ hcs

/-- The id of the new comment was returned by no call. -/
theorem unreturned_of_addressed (h : Consistent clock id w) (h' : Consistent clock id (commented host author content s w))
    (ha : Addressed clock id (commented host author content s w)) : commentId host.nowUtc ∉ w.issued := by
  intro hissued
  rcases List.getElem?_of_mem hissued with ⟨n, hn⟩
  have hlt := (List.getElem?_eq_some_iff.1 hn).1
  have hlast : (commented host author content s w).issued[w.issued.length]? = some (commentId host.nowUtc) := by
    simp [commented]
  have hmem : some w.issued.length ∈ (commented host author content s w).entries.map (·.1) := by simp [commented]
  have hfirst : (commented host author content s w).issued[n]? = some (commentId host.nowUtc) := by
    show (w.issued ++ _)[n]? = _
    rw [List.getElem?_append_left hlt, hn]
  have hgone : some n ∉ (commented host author content s w).entries.map (·.1) := by
    intro hin
    rcases List.mem_map.1 hin with ⟨e, he, hm⟩
    rcases List.mem_append.1 he with he | he
    · have hid := h.made e he n hm
      rw [hn] at hid
      exact unused_of_addressed h h' ha e he (Option.some.inj hid).symm
    · rw [List.mem_singleton.1 he] at hm
      exact absurd (Option.some.inj hm) (by omega)
  have hok := ha.edit _ _ hlast host content
  rw [if_pos hmem] at hok
  have hrefused := ha.edit _ _ hfirst host content
  rw [if_neg hgone] at hrefused
  rcases hok with ⟨t, -, hok, -⟩
  rw [hrefused] at hok
  exact absurd hok (by simp)

/-- If the comments are addressed after a call, the call was fresh. -/
theorem fresh_of_addressed (h : Consistent clock id w) (ha : Addressed clock id (w.after id c)) : c.Fresh w := by
  cases c with
  | editComment host cid content => trivial
  | deleteComment host cid => trivial
  | comment host author content =>
    have h' := h.after (.comment host author content)
    rcases h.read with ⟨t, ht, hc⟩
    rw [after_comment h.filed ht hc] at ha h'
    exact ⟨unreturned_of_addressed h h' ha, unused_of_addressed h h' ha⟩

theorem alwaysAddressed_iff (h : Consistent clock id w) (hf : Faithful w) (cs : List (CommentCall clock)) :
    AlwaysAddressed id w cs ↔ AlwaysFresh id w cs := by
  induction cs generalizing w with
  | nil =>
    constructor
    · rintro -
      trivial
    · rintro -
      exact hf.addressed h
  | cons c cs ih =>
    constructor
    · rintro ⟨-, ha⟩
      have hc : c.Fresh w := by
        refine fresh_of_addressed h ?_
        cases cs with
        | nil => exact ha
        | cons d cs => exact ha.1
      exact ⟨hc, (ih (h.after c) (hf.after h hc)).1 ha⟩
    · rintro ⟨hc, ha⟩
      exact ⟨hf.addressed h, (ih (h.after c) (hf.after h hc)).2 ha⟩

/-- **The comments of a ticket are addressed by the ids that were returned for them** exactly if
    every new comment gets an id that is not in use and was not returned before. -/
theorem comments_addressed_iff (hs : Reachable (fun _ (_ : Call clock) => True) s) (ht : readTicket s id = some t)
    (cs : List (CommentCall clock)) : AlwaysAddressed id (.start s t) cs ↔ AlwaysFresh id (.start s t) cs :=
  alwaysAddressed_iff (.start hs.filed ht) .start cs

namespace Sample

/-- A ticket without comments. -/
def opened : Store := Tickets.after .empty (.create Sample.host (input .idea))

theorem reachable_opened : Reachable (fun _ (_ : Call isoClock) => True) opened := .call _ .empty trivial

theorem opened_read : (readTicket opened "PA-001").any (fun t => t.comments == []) = true := by decide +kernel

theorem opened_ticket : ∃ t, readTicket opened "PA-001" = some t ∧ t.comments = [] := by
  have hr := opened_read
  cases ht : readTicket opened "PA-001" with
  | none =>
    rw [ht] at hr
    cases hr
  | some t =>
    rw [ht] at hr
    exact ⟨t, rfl, eq_of_beq hr⟩

def note (content : String) : CommentCall isoClock := .comment Sample.host "a reader" content

end Sample

open Sample in
theorem comments_addressed_iff_note : ∃ t, readTicket opened "PA-001" = some t ∧
    AlwaysAddressed "PA-001" (.start opened t) [note "first"] := by
  rcases opened_ticket with ⟨t, ht, hc⟩
  refine ⟨t, ht, (comments_addressed_iff reachable_opened ht _).2 ⟨⟨?_, ?_⟩, trivial⟩⟩
  · exact List.not_mem_nil
  · rintro e he
    rw [show (Thread.start opened t).entries = [] from by rw [Thread.start, hc]; rfl] at he
    exact absurd he List.not_mem_nil

open Sample in
/-- Two comments in one millisecond share an id. -/
theorem notes_share_id : ¬ ∀ (s : Store) (t : Ticket) (id : String) (cs : List (CommentCall isoClock)),
    Reachable (fun _ (_ : Call isoClock) => True) s → readTicket s id = some t → AlwaysAddressed id (.start s t) cs := by
  intro h
  rcases opened_ticket with ⟨t, ht, -⟩
  have hstart := Consistent.start reachable_opened.filed ht
  have ha := (h opened t "PA-001" [note "first", note "second"] reachable_opened ht).2
  have hfresh := fresh_of_addressed (hstart.after (note "first")) ha.2
  have hafter : (Thread.start opened t).after "PA-001" (note "first") = _ :=
    after_comment reachable_opened.filed ht (by rw [Thread.start, List.map_map]; exact (List.map_id _).symm)
  rw [hafter] at hfresh
  exact hfresh.1 (List.mem_append_right _ List.mem_cons_self)

end PaPlatform.Tickets
