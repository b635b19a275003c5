/-
  The identity of a ticket under moves.

  `create` and `move` issue ids.  `move` reads through aliases, but it puts the
  new alias at the id that it was given; moved through an alias, a ticket keeps
  its old record next to the new one.  In a run whose moves are not addressed
  by an alias, every ticket has one record and all its ids lead to it.
-/
import PaPlatform.Tickets.Listing

namespace PaPlatform.Tickets

open Guard Effect Chase

variable {clock : Clock} {host : Host clock} {s s' : Store} {c : Call clock} {t next : Ticket}
  {id pre pre' : String} {n m : ℕ}

/-! ## Ids -/

theorem toList_padStart : (padStart 3 (toString n)).toList =
    List.replicate (3 - (toString n).length) '0' ++ Nat.toDigits 10 n := by
  simp only [padStart, String.toList_append, String.toList_ofList, Nat.toString_eq_repr,
    Nat.toList_repr]

theorem ofDigitChars_padStart : Nat.ofDigitChars 10 (padStart 3 (toString n)).toList 0 = n := by
  rw [toList_padStart, Nat.ofDigitChars_append, Nat.ofDigitChars_replicate_zero, Nat.mul_zero,
    Nat.ofDigitChars_ten_toDigits]

theorem ne_dash_of_mem_padStart {ch : Char} (h : ch ∈ (padStart 3 (toString n)).toList) : ch ≠ '-' := by
  rw [toList_padStart] at h
  rintro rfl
  rcases List.mem_append.1 h with h | h
  · cases List.eq_of_mem_replicate h
  · have hdigit := Nat.isDigit_of_mem_toDigits (by omega) (by omega) h
    revert hdigit
    decide

/-- The text after the last `-`. -/
theorem takeWhile_ticketId : ((ticketId pre n).toList.reverse.takeWhile (· ≠ '-')).reverse =
    (padStart 3 (toString n)).toList := by
  have hdash : "-".toList = ['-'] := rfl
  simp only [ticketId, String.toList_append, hdash, List.reverse_append, List.reverse_singleton]
  rw [List.takeWhile_append_of_pos]
  · simp
  · intro ch hch
    exact decide_eq_true (ne_dash_of_mem_padStart (List.mem_reverse.1 hch))

/-- **An id names its prefix and its number.** -/
theorem ticketId_inj (h : ticketId pre n = ticketId pre' m) : pre = pre' ∧ n = m := by
  have hn : n = m := by
    rw [← @ofDigitChars_padStart n, ← takeWhile_ticketId, h, takeWhile_ticketId, ofDigitChars_padStart]
  subst hn
  refine ⟨String.toList_inj.1 ?_, rfl⟩
  have hlist := congrArg String.toList h
  simp only [ticketId, String.toList_append] at hlist
  exact List.append_cancel_right (List.append_cancel_right hlist)

/-! ## Whose an id is -/

/-- A store, the ids that were issued with the numbers of their tickets, and
    how many tickets were created. -/
structure Tracked where
  store : Store
  issued : List (String × ℕ)
  created : ℕ

def Tracked.initial : Tracked := ⟨.empty, [], 0⟩

/-- A call, with the id that it issues: `create` issues one to a new ticket,
    `move` to the ticket of the id that it is given. -/
def track (w : Tracked) (c : Call clock) : Tracked :=
  match c, (outcome (perform c) w.store).1 with
  | .create _ _, .ok t => ⟨after w.store c, (t.id, w.created) :: w.issued, w.created + 1⟩
  | .move _ id _ _, .ok t =>
    ⟨after w.store c, (w.issued.lookup id).elim w.issued fun n => (t.id, n) :: w.issued, w.created⟩
  | _, _ => ⟨after w.store c, w.issued, w.created⟩

/-- The runs of calls that are allowed by `P`. -/
inductive Runs (P : Store → Call clock → Prop) : Tracked → Prop
  | initial : Runs P .initial
  | call {w : Tracked} (c : Call clock) : Runs P w → P w.store c → Runs P (track w c)

/-- No file is removed. -/
def Call.soft : Call clock → Prop
  | .delete _ _ _ hard _ => hard = false
  | _ => True

/-- The id has a record of its own. -/
def Store.Live (s : Store) (id : String) : Prop := ∃ t, s.files.lookup id = some (.ticket t)

/-- The id is an alias. -/
def Store.IsAlias (s : Store) (id : String) : Prop :=
  ∃ movedTo movedAt movedBy, s.files.lookup id = some (.moved movedTo movedAt movedBy)

/-- Every ticket has one record, no two share an id, and every id leads to the
    record of its ticket. -/
structure Identified (clock : Clock) (w : Tracked) : Prop where
  distinct : (w.issued.map Prod.fst).Nodup
  owned : ∀ id, w.store.Live id → ∃ n, n < w.created ∧ (id, n) ∈ w.issued
  one : ∀ n, n < w.created → ∃! id, (id, n) ∈ w.issued ∧ w.store.Live id
  found : ∀ id n, (id, n) ∈ w.issued → ∀ host : Host clock, ∃ t,
    w.store.get host id = .ok (some t) ∧ (t.id, n) ∈ w.issued ∧
      w.store.files.lookup t.id = some (.ticket t)

/-- A move that can succeed is not addressed by an alias. -/
def MovesDirectly (s : Store) (c : Call clock) : Prop :=
  ∀ host id project actor key pre, c = .move host id project actor →
    host.resolveProject project = some (key, pre) →
    isCanonicalTicketId (ticketId pre (s.counter pre + 1)) = true → ¬ s.IsAlias id

/-! ## The invariant -/

structure Sound (clock : Clock) (w : Tracked) : Prop where
  filed : Filed clock w.store
  distinct : (w.issued.map Prod.fst).Nodup
  names : ∀ id, id ∈ w.issued.map Prod.fst ↔ (w.store.files.lookup id).isSome = true
  bounded : ∀ id f, w.store.files.lookup id = some f →
    ∃ pre n, id = ticketId pre n ∧ n ≤ w.store.counter pre
  owner : ∀ id n, (id, n) ∈ w.issued → n < w.created
  each : ∀ n, n < w.created → ∃ id, (id, n) ∈ w.issued
  leads : ∀ id n, (id, n) ∈ w.issued → ∃ d t, Leads readFile w.store.files d id t.id t ∧
    (t.id, n) ∈ w.issued
  one : ∀ a b n, (a, n) ∈ w.issued → (b, n) ∈ w.issued → w.store.Live a → w.store.Live b → a = b

variable {w : Tracked}

theorem Sound.initial : Sound clock .initial where
  filed := .empty
  distinct := List.nodup_nil
  names id := by
    show id ∈ ([] : List String) ↔ _
    simp [Tracked.initial, Store.empty]
  bounded id f h := by cases h
  owner id n h := by cases h
  each n h := absurd h (Nat.not_lt_zero n)
  leads id n h := by cases h
  one a b n h := by cases h

theorem owner_unique {l : List (String × ℕ)} (hd : (l.map Prod.fst).Nodup) (hn : (id, n) ∈ l)
    (hm : (id, m) ∈ l) : n = m := by
  induction l with
  | nil => cases hn
  | cons e l ih =>
    rw [List.map_cons, List.nodup_cons] at hd
    rcases List.mem_cons.1 hn with rfl | hn'
    · rcases List.mem_cons.1 hm with he | hm'
      · cases he
        rfl
      · exact absurd (List.mem_map.2 ⟨_, hm', rfl⟩) hd.1
    · rcases List.mem_cons.1 hm with rfl | hm'
      · exact absurd (List.mem_map.2 ⟨_, hn', rfl⟩) hd.1
      · exact ih hd.2 hn' hm'

theorem lookup_of_leads {d : ℕ} (h : Leads readFile s.files d id t.id t) :
    s.files.lookup t.id = some (.ticket t) := by
  obtain ⟨a, ha, hx⟩ := h.ends
  obtain ⟨rfl, -⟩ := readFile_ticket.1 hx
  exact ha

theorem leads_ticket (h : s.files.lookup t.id = some (.ticket t)) :
    Leads readFile s.files 0 t.id t.id t := .here h (readFile_ticket.2 ⟨rfl, rfl⟩)

/-- **The invariant says what the claim says.** -/
theorem Sound.identified (h : Sound clock w) : Identified clock w := by
  refine ⟨h.distinct, ?_, ?_, ?_⟩
  · rintro id ⟨t, ht⟩
    obtain ⟨⟨id', n⟩, hn, rfl⟩ := List.mem_map.1 ((h.names id).2 (by rw [ht]; rfl))
    exact ⟨n, h.owner _ _ hn, hn⟩
  · intro n hn
    obtain ⟨id, hid⟩ := h.each n hn
    obtain ⟨d, t, hl, ht⟩ := h.leads id n hid
    refine ⟨t.id, ⟨ht, t, lookup_of_leads hl⟩, ?_⟩
    rintro b ⟨hb, hlive⟩
    exact h.one b t.id n hb ht hlive ⟨t, lookup_of_leads hl⟩
  · intro id n hn host
    obtain ⟨d, t, hl, ht⟩ := h.leads id n hn
    have hsome : (w.store.files.lookup id).isSome = true := (h.names id).1 (List.mem_map.2 ⟨_, hn, rfl⟩)
    obtain ⟨f, hf⟩ := Option.isSome_iff_exists.1 hsome
    have hread := readTicket_eq_some.2 ⟨h.filed.canonical hf, d, hl⟩
    exact ⟨t, by rw [h.filed.get, hread], ht, lookup_of_leads hl⟩

/-! ## What the calls keep -/

variable {l : List (String × ℕ)} {k : ℕ}

theorem counter_counted : (s.counted pre).counter pre' = if pre' = pre then s.counter pre + 1 else s.counter pre' := by
  simp only [Store.counter, Store.counted, Table.lookup_insert_eq]
  split_ifs <;> rfl

theorem counter_le : s.counter pre' ≤ (s.counted pre).counter pre' := by
  rw [counter_counted]
  split_ifs with h
  · rw [h]
    omega
  · exact Nat.le_refl _

theorem Sound.counted (h : Sound clock ⟨s, l, k⟩) : Sound clock ⟨s.counted pre, l, k⟩ where
  filed := h.filed.counted
  distinct := h.distinct
  names := h.names
  bounded id f hf := by
    obtain ⟨pre', n, hid, hn⟩ := h.bounded id f hf
    exact ⟨pre', n, hid, hn.trans counter_le⟩
  owner := h.owner
  each := h.each
  leads := h.leads
  one := h.one

/-- The next id is new. -/
theorem Sound.fresh (h : Sound clock ⟨s, l, k⟩) (ht : Issued clock s pre t) :
    s.files.lookup t.id = none := by
  rcases hf : s.files.lookup t.id with _ | f
  · rfl
  · obtain ⟨pre', n, hid, hn⟩ := h.bounded t.id f hf
    rw [ht.id] at hid
    obtain ⟨rfl, rfl⟩ := ticketId_inj hid
    have hn : s.counter pre + 1 ≤ s.counter pre := hn
    omega

theorem Sound.not_issued (h : Sound clock ⟨s, l, k⟩) (ht : Issued clock s pre t) :
    t.id ∉ l.map Prod.fst := by
  intro hmem
  have hsome := (h.names t.id).1 hmem
  rw [h.fresh ht] at hsome
  cases hsome

theorem live_insert {f : TicketFile} (a : String) :
    Store.Live { s with files := s.files.insert id f } a ↔
      if a = id then f.ticket?.isSome = true else s.Live a := by
  simp only [Store.Live, Table.lookup_insert_eq]
  split_ifs with ha
  · cases f with
    | ticket t => simp [TicketFile.ticket?]
    | moved movedTo movedAt movedBy => simp [TicketFile.ticket?]
  · rfl

theorem isSome_insert {f : TicketFile} (a : String) :
    ((s.files.insert id f).lookup a).isSome = true ↔ a = id ∨ (s.files.lookup a).isSome = true := by
  rw [Table.lookup_insert_eq]
  split_ifs with ha
  · simp [ha]
  · simp [ha]

/-- `create` gives a new ticket a new id. -/
theorem Sound.created (h : Sound clock ⟨s, l, k⟩) (ht : Issued clock s pre t) :
    Sound clock ⟨(s.counted pre).put t, (t.id, k) :: l, k + 1⟩ := by
  have hfresh := h.fresh ht
  have hnew := h.not_issued ht
  have hlive : ∀ a, ((s.counted pre).put t).Live a ↔ a = t.id ∨ s.Live a := by
    intro a
    rw [Store.put, live_insert]
    split_ifs with ha
    · simp [TicketFile.ticket?, ha]
    · simp only [ha, false_or]
      rfl
  refine ⟨h.filed.counted.put ht.canonical ht.normal, ?_, ?_, ?_, ?_, ?_, ?_, ?_⟩
  · exact List.nodup_cons.2 ⟨hnew, h.distinct⟩
  · intro id
    show id ∈ t.id :: l.map Prod.fst ↔ _
    rw [List.mem_cons, h.names id]
    exact (isSome_insert id).symm
  · intro id f hf
    by_cases hid : id = t.id
    · refine ⟨pre, s.counter pre + 1, hid.trans ht.id, ?_⟩
      show _ ≤ (s.counted pre).counter pre
      rw [counter_counted, if_pos rfl]
    · have hf : s.files.lookup id = some f := by
        rw [← hf]
        exact (AList.lookup_insert_ne hid).symm
      obtain ⟨pre', n, hid', hn⟩ := h.bounded id f hf
      exact ⟨pre', n, hid', hn.trans counter_le⟩
  · intro id n hn
    rcases List.mem_cons.1 hn with he | hn
    · cases he
      exact Nat.lt_succ_self k
    · exact (h.owner id n hn).trans (Nat.lt_succ_self k)
  · intro n hn
    rcases Nat.lt_succ_iff_lt_or_eq.1 hn with hn | rfl
    · obtain ⟨id, hid⟩ := h.each n hn
      exact ⟨id, List.mem_cons_of_mem _ hid⟩
    · exact ⟨t.id, List.mem_cons_self ..⟩
  · intro id n hn
    rcases List.mem_cons.1 hn with he | hn
    · cases he
      exact ⟨0, t, leads_ticket (AList.lookup_insert _), List.mem_cons_self ..⟩
    · obtain ⟨d, t', hl, ht'⟩ := h.leads id n hn
      exact ⟨d, t', hl.insert_fresh hfresh, List.mem_cons_of_mem _ ht'⟩
  · intro a b n ha hb hla hlb
    have hold : ∀ x, (x, n) ∈ (t.id, k) :: l → x = t.id ∧ n = k ∨ (x, n) ∈ l ∧ n < k := by
      intro x hx
      rcases List.mem_cons.1 hx with he | hx
      · cases he
        exact Or.inl ⟨rfl, rfl⟩
      · exact Or.inr ⟨hx, h.owner x n hx⟩
    have hne : ∀ x, (x, n) ∈ l → x ≠ t.id := by
      rintro x hx rfl
      exact hnew (List.mem_map.2 ⟨_, hx, rfl⟩)
    rcases hold a ha with ⟨rfl, rfl⟩ | ⟨ha, hlt⟩
    · rcases hold b hb with ⟨rfl, -⟩ | ⟨-, hlt⟩
      · rfl
      · omega
    · rcases hold b hb with ⟨-, rfl⟩ | ⟨hb, -⟩
      · omega
      · exact h.one a b n ha hb (((hlive a).1 hla).resolve_left (hne a ha))
          (((hlive b).1 hlb).resolve_left (hne b hb))

/-- An edited ticket keeps its id. -/
theorem Sound.rewritten (h : Sound clock ⟨s, l, k⟩) (ht : s.files.lookup t.id = some (.ticket t))
    (hid : next.id = t.id) (hn : Normal clock next) : Sound clock ⟨s.put next, l, k⟩ := by
  have hlive : ∀ a, (s.put next).Live a ↔ s.Live a := by
    intro a
    rw [Store.put, live_insert]
    split_ifs with ha
    · rw [ha, hid]
      exact iff_of_true rfl ⟨t, ht⟩
    · rfl
  refine ⟨h.filed.put (hid ▸ h.filed.canonical ht) hn, h.distinct, ?_, ?_, h.owner, h.each, ?_, ?_⟩
  · intro id
    rw [h.names id]
    refine Iff.trans ?_ (isSome_insert id).symm
    rw [or_iff_right_of_imp]
    rintro rfl
    rw [hid]
    show (s.files.lookup t.id).isSome = true
    rw [ht]
    rfl
  · intro id f hf
    have hsome : (s.files.lookup id).isSome = true := by
      have hf' : ((s.put next).files.lookup id).isSome = true := by
        rw [hf]
        rfl
      rcases (isSome_insert id).1 hf' with rfl | hold
      · rw [hid, ht]
        rfl
      · exact hold
    obtain ⟨f', hf'⟩ := Option.isSome_iff_exists.1 hsome
    exact h.bounded id f' hf'
  · intro id n hid'
    obtain ⟨d, t', hl, ht'⟩ := h.leads id n hid'
    by_cases he : t'.id = t.id
    · have hnew : Leads readFile (s.put next).files 0 t.id next.id next := by
        rw [← hid]
        exact leads_ticket (AList.lookup_insert _)
      rw [he] at hl ht'
      rw [← hid] at ht'
      refine ⟨d, next, ?_, ht'⟩
      rw [← hid] at hl hnew
      exact hl.insert_end hnew
    · rw [← hid] at he
      refine ⟨d, t', hl.insert_other (c := t) ?_ he, ht'⟩
      rw [hid]
      exact leads_ticket ht
  · intro a b n ha hb hla hlb
    exact h.one a b n ha hb ((hlive a).1 hla) ((hlive b).1 hlb)

/-- `move` gives the ticket of a record a new id, and the old one leads to it. -/
theorem Sound.moved (h : Sound clock ⟨s, l, k⟩) (ht : s.files.lookup t.id = some (.ticket t))
    (hnext : Issued clock s pre next) (hn : (t.id, n) ∈ l) (movedAt actor : String) :
    Sound clock ⟨{ (s.counted pre).put next with
      files := ((s.counted pre).put next).files.insert t.id (.moved next.id movedAt actor) },
      (next.id, n) :: l, k⟩ := by
  have hfresh := h.fresh hnext
  have hnew := h.not_issued hnext
  have hne : t.id ≠ next.id := by
    intro he
    rw [← he, ht] at hfresh
    cases hfresh
  have hput : ((s.counted pre).put next).files.lookup t.id = some (.ticket t) := by
    rw [← ht]
    exact AList.lookup_insert_ne hne
  have hto : (((s.counted pre).put next).files.insert t.id (.moved next.id movedAt actor)).lookup next.id =
      some (.ticket next) := by
    rw [AList.lookup_insert_ne hne.symm]
    exact AList.lookup_insert _
  have hlive : ∀ a, Store.Live { (s.counted pre).put next with
      files := ((s.counted pre).put next).files.insert t.id (.moved next.id movedAt actor) } a ↔
      a = next.id ∨ a ≠ t.id ∧ s.Live a := by
    intro a
    rw [live_insert]
    split_ifs with ha
    · subst ha
      simp [TicketFile.ticket?, hne]
    · rw [Store.put, live_insert]
      split_ifs with hb
      · simp [TicketFile.ticket?, hb]
      · simp only [ha, hb, ne_eq, not_false_eq_true, true_and, false_or]
        rfl
  refine ⟨?_, ?_, ?_, ?_, ?_, ?_, ?_, ?_⟩
  · refine (h.filed.counted.put hnext.canonical hnext.normal).insert (h.filed.canonical ht) ?_
    rintro _ ⟨⟩
  · exact List.nodup_cons.2 ⟨hnew, h.distinct⟩
  · intro id
    show id ∈ next.id :: l.map Prod.fst ↔ _
    rw [List.mem_cons, h.names id]
    refine Iff.trans ?_ (isSome_insert id).symm
    show _ ↔ id = t.id ∨ ((s.files.insert next.id (.ticket next)).lookup id).isSome = true
    rw [isSome_insert id, or_iff_right_of_imp (a := id = t.id)]
    rintro rfl
    right
    rw [ht]
    rfl
  · intro id f hf
    by_cases hid : id = next.id
    · refine ⟨pre, s.counter pre + 1, hid.trans hnext.id, ?_⟩
      show _ ≤ (s.counted pre).counter pre
      rw [counter_counted, if_pos rfl]
    · have hsome : (s.files.lookup id).isSome = true := by
        have hin : (((s.counted pre).put next).files.insert t.id
            (.moved next.id movedAt actor)).lookup id = some f := hf
        rcases (isSome_insert id).1 (by rw [hin]; rfl) with rfl | hf'
        · rw [ht]
          rfl
        · exact ((isSome_insert id).1 hf').resolve_left hid
      obtain ⟨f', hf'⟩ := Option.isSome_iff_exists.1 hsome
      obtain ⟨pre', m, hid', hm⟩ := h.bounded id f' hf'
      exact ⟨pre', m, hid', hm.trans counter_le⟩
  · intro id m hm
    rcases List.mem_cons.1 hm with he | hm
    · cases he
      exact h.owner _ _ hn
    · exact h.owner id m hm
  · intro m hm
    obtain ⟨id, hid⟩ := h.each m hm
    exact ⟨id, List.mem_cons_of_mem _ hid⟩
  · intro id m hm
    rcases List.mem_cons.1 hm with he | hm
    · cases he
      exact ⟨0, next, leads_ticket hto, List.mem_cons_self ..⟩
    · obtain ⟨d, t', hl, ht'⟩ := h.leads id m hm
      have hl := hl.insert_fresh (a := .ticket next) hfresh
      by_cases he : t'.id = t.id
      · rw [he] at hl ht'
        obtain rfl := owner_unique h.distinct ht' hn
        have hlast := @leads_ticket ⟨_, ∅⟩ next hto
        refine ⟨d + (0 + 1), next, hl.insert_end (.there (AList.lookup_insert _) ?_ hlast),
          List.mem_cons_self ..⟩
        exact if_pos hnext.canonical
      · exact ⟨d, t', hl.insert_other (leads_ticket hput) he, List.mem_cons_of_mem _ ht'⟩
  · intro a b m ha hb hla hlb
    -- the record that the ticket had is an alias now
    have hcase : ∀ x, (x, m) ∈ (next.id, n) :: l → Store.Live { (s.counted pre).put next with
        files := ((s.counted pre).put next).files.insert t.id (.moved next.id movedAt actor) } x →
        x = next.id ∧ m = n ∨ (x, m) ∈ l ∧ s.Live x ∧ m ≠ n := by
      intro x hx hlx
      rcases List.mem_cons.1 hx with he | hxl
      · cases he
        exact Or.inl ⟨rfl, rfl⟩
      · rcases (hlive x).1 hlx with rfl | ⟨hxt, hxs⟩
        · exact absurd (List.mem_map.2 ⟨_, hxl, rfl⟩) hnew
        · refine Or.inr ⟨hxl, hxs, ?_⟩
          rintro rfl
          exact hxt (h.one x t.id m hxl hn hxs ⟨t, ht⟩)
    rcases hcase a ha hla with ⟨rfl, rfl⟩ | ⟨ha, hla, hmn⟩
    · rcases hcase b hb hlb with ⟨rfl, -⟩ | ⟨-, -, hmn⟩
      · rfl
      · exact absurd rfl hmn
    · rcases hcase b hb hlb with ⟨-, rfl⟩ | ⟨hb, hlb, -⟩
      · exact absurd rfl hmn
      · exact h.one a b m ha hb hla hlb

/-! ## Runs -/

theorem lookup_eq_some (hd : (l.map Prod.fst).Nodup) (hn : (id, n) ∈ l) : l.lookup id = some n := by
  induction l with
  | nil => cases hn
  | cons e l ih =>
    obtain ⟨id', n'⟩ := e
    rw [List.map_cons, List.nodup_cons] at hd
    rcases List.mem_cons.1 hn with he | hl
    · cases he
      simp [List.lookup]
    · have hne : (id == id') = false := by
        refine beq_false_of_ne ?_
        rintro rfl
        exact hd.1 (List.mem_map.2 ⟨_, hl, rfl⟩)
      rw [List.lookup, hne]
      exact ih hd.2 hl

/-- Calls that issue no id keep the invariant. -/
theorem Sound.change {r : Except TicketError Ticket} (h : Sound clock w) (hc : Change c w.store r s')
    (hi : c.issues = false ∨ ∃ e, r = .error e) (hsoft : c.soft) :
    Sound clock ⟨s', w.issued, w.created⟩ := by
  cases hc with
  | failed e => exact h
  | same t _ => exact h
  | counted e pre => exact h.counted
  | created he _ _ =>
    subst he
    rcases hi with hi | ⟨e, hi⟩ <;> cases hi
  | rewritten _ _ ht hid hn _ => exact h.rewritten (lookup_of_readTicket ht) hid hn
  | moved he _ _ _ _ _ =>
    subst he
    rcases hi with hi | ⟨e, hi⟩ <;> cases hi
  | removed he _ =>
    subst he
    cases hsoft

theorem Sound.create {input : CreateTicketInput} (h : Sound clock w) :
    Sound clock (track w (.create host input)) := by
  have hc := change_outcome h.filed (.create host input)
  rcases ho : (outcome (perform (.create host input)) w.store).1 with e | t
  · rw [ho] at hc
    simp only [track, ho]
    exact h.change hc (Or.inr ⟨e, rfl⟩) trivial
  · rw [ho] at hc
    simp only [track, ho]
    generalize after w.store (.create host input) = s' at hc
    cases hc with
    | same _ hi => cases hi
    | created _ ht _ => exact Sound.created h ht
    | rewritten hi => cases hi
    | moved he => cases he
    | removed he => cases he

theorem Sound.move {project actor : String} (h : Sound clock w)
    (hd : MovesDirectly w.store (.move host id project actor)) :
    Sound clock (track w (.move host id project actor)) := by
  have hc := change_outcome h.filed (.move host id project actor)
  rcases ho : (outcome (perform (.move host id project actor)) w.store).1 with e | t
  · rw [ho] at hc
    simp only [track, ho]
    exact h.change hc (Or.inr ⟨e, rfl⟩) trivial
  · rw [ho] at hc
    simp only [track, ho]
    generalize after w.store (.move host id project actor) = s' at hc
    cases hc with
    | same _ hi => cases hi
    | created he _ _ => cases he
    | rewritten hi => cases hi
    | @moved _ _ _ _ pre key t' next he hp ht hnext _ _ =>
      cases he
      have hnot := hd host id project actor key pre rfl hp (hnext.id ▸ hnext.canonical)
      -- the id has a record of its own, the one that was read
      have hid : t'.id = id := by
        obtain ⟨hcan, d, hl⟩ := readTicket_eq_some.1 ht
        cases hl with
        | here _ _ => rfl
        | @there _ _ k' _ f _ hf hs _ =>
          cases f with
          | ticket t₀ =>
            rw [readFile] at hs
            split_ifs at hs
            cases hs
          | moved movedTo movedAt movedBy => exact absurd ⟨_, _, _, hf⟩ hnot
      subst hid
      have hlook := lookup_of_readTicket ht
      obtain ⟨⟨id, n⟩, hn, rfl⟩ := List.mem_map.1 ((h.names t'.id).2 (by rw [hlook]; rfl))
      rw [lookup_eq_some h.distinct hn]
      exact Sound.moved h hlook hnext hn _ _
    | removed he => cases he

theorem Sound.track (h : Sound clock w) (hsoft : c.soft) (hd : MovesDirectly w.store c) :
    Sound clock (track w c) := by
  cases c with
  | create host input => exact h.create
  | move host id project actor => exact h.move hd
  | update | comment | editComment | deleteComment | attach | delete | archive | unarchive
  | addSubTicket | updateSubTicket =>
    exact h.change (change_outcome h.filed _) (Or.inl rfl) hsoft

/-- **A ticket keeps one record under all its ids**, in every run whose moves
    are not addressed by an alias. -/
theorem ticket_identity (h : Runs (fun s (c : Call clock) => c.soft ∧ MovesDirectly s c) w) :
    Identified clock w := by
  have hsound : Sound clock w := by
    induction h with
    | initial => exact .initial
    | call c _ hp ih => exact ih.track hp.1 hp.2
  exact hsound.identified

/-! ## Moves of one ticket -/

namespace Sample

def create : Call isoClock := .create Sample.host (input .idea)

def moveTo (id project : String) : Call isoClock := .move Sample.host id project "pa-core"

def one : Tracked := track .initial create

/-- `PA-001` is `OPS-001`. -/
def two : Tracked := track one (moveTo "PA-001" "ops")

theorem directly {s : Store} {id project : String}
    (h : (s.files.lookup id).all (fun f => f.ticket?.isSome) = true) :
    MovesDirectly s (moveTo id project) := by
  rintro _ _ _ _ _ _ ⟨⟩ _ _ ⟨movedTo, movedAt, movedBy, hf⟩
  rw [hf] at h
  cases h

theorem runs_one : Runs (fun s (c : Call isoClock) => c.soft ∧ MovesDirectly s c) one :=
  .call _ .initial ⟨trivial, by rintro _ _ _ _ _ _ ⟨⟩⟩

theorem runs_two : Runs (fun s (c : Call isoClock) => c.soft ∧ MovesDirectly s c) two :=
  .call _ runs_one ⟨trivial, directly (by decide)⟩

/-- `OPS-001` moves back. -/
def three : Tracked := track two (moveTo "OPS-001" "pa")

theorem runs_three : Runs (fun s (c : Call isoClock) => c.soft ∧ MovesDirectly s c) three :=
  .call _ runs_two ⟨trivial, directly (by decide)⟩

/-- `PA-001` moves again, although it is an alias. -/
def split : Tracked := track two (moveTo "PA-001" "ops")

theorem live_of {s : Store} {id : String}
    (h : ((s.files.lookup id).bind TicketFile.ticket?).isSome = true) : s.Live id := by
  obtain ⟨t, ht⟩ := Option.isSome_iff_exists.1 h
  obtain ⟨f, hf, ht⟩ := Option.bind_eq_some_iff.1 ht
  obtain rfl := ticket?_eq_some.1 ht
  exact ⟨t, hf⟩

end Sample

open Sample in
theorem ticket_identity_moved_back :
    three.issued = [("PA-002", 0), ("OPS-001", 0), ("PA-001", 0)] ∧ Identified isoClock three :=
  ⟨by decide, ticket_identity runs_three⟩

open Sample in
/-- A ticket that is moved through an alias has two records. -/
theorem two_records_of_aliased_move :
    ¬ ∀ w, Runs (fun _ (c : Call isoClock) => c.soft) w → Identified isoClock w := by
  intro h
  have hr : Runs (fun _ (c : Call isoClock) => c.soft) split :=
    .call _ (.call _ (.call _ .initial trivial) trivial) trivial
  obtain ⟨id, -, huniq⟩ := (h split hr).one 0 (by decide)
  have h1 : "OPS-001" = id := huniq _ ⟨by decide, live_of (by decide)⟩
  have h2 : "OPS-002" = id := huniq _ ⟨by decide, live_of (by decide)⟩
  rw [← h1] at h2
  revert h2
  decide

end PaPlatform.Tickets
