/-
  The tables of the document service and its lawful journals.

  Each event follows from the events before it (`Lawful`): a publication is begun under
  the latest decision, and no two publications of a ticket are begun at a time.
-/
import PaPlatform.Documents.Service

namespace PaPlatform.Documents

open Js Guard

variable {digests : Digests} {r r' kept : Registry} {s s' : State} {key : TicketKey} {subject : DocumentPackage}
  {events log before : List DocumentEvent} {e : DocumentEvent} {data : DocumentEventData} {i : DocumentIntent}
  {w : Working} {c : Capturing} {host : Host} {sha id : String} {operation : DocumentOperation} {n : ℕ}

/-! ## Readings -/

theorem mem_pending : i ∈ documentPending events ↔ i ∈ intents events ∧ i.operationId ∉ completedIds events := by
  simp [documentPending]

theorem intents_snoc : intents (events ++ [e]) = intents events ++ e.data.intent?.toList := by
  cases h : e.data.intent? <;> simp [intents, h]

theorem completedIds_snoc : completedIds (events ++ [e]) = completedIds events ++ e.data.completes?.toList := by
  cases h : e.data.completes? <;> simp [completedIds, h]

/-- The event neither begins an operation nor completes one. -/
def Plain (data : DocumentEventData) : Prop := data.intent? = none ∧ data.completes? = none

theorem pending_plain (h : Plain e.data) : documentPending (events ++ [e]) = documentPending events := by
  simp [documentPending, intents_snoc, completedIds_snoc, h.1, h.2]

theorem pending_intent (he : e.data = .intent i) (hi : i.operationId ∉ completedIds events) :
    documentPending (events ++ [e]) = documentPending events ++ [i] := by
  simp [documentPending, intents_snoc, completedIds_snoc, he, DocumentEventData.intent?, DocumentEventData.completes?,
    hi]

theorem mem_pending_snoc (hi : i ∈ documentPending events) (he : e.data.completes? ≠ some i.operationId) :
    i ∈ documentPending (events ++ [e]) := by
  rw [mem_pending] at hi ⊢
  rw [intents_snoc, completedIds_snoc]
  refine ⟨List.mem_append_left _ hi.1, fun h => ?_⟩
  rcases List.mem_append.1 h with h | h
  · exact hi.2 h
  · exact he (Option.mem_toList.1 h)

theorem completed_mono (h : documentCompletedOperation events sha operation = true) (hp : events <+: log) :
    documentCompletedOperation log sha operation = true := by
  obtain ⟨t, rfl⟩ := hp
  simp only [documentCompletedOperation, intents, completedIds, List.filterMap_append, List.any_append,
    List.any_eq_true,
    Bool.or_eq_true, Bool.and_eq_true, List.contains_eq_mem, List.mem_append, decide_eq_true_eq] at h ⊢
  obtain ⟨i, hi, hs, hc⟩ := h
  exact Or.inl ⟨i, hi, hs, Or.inl hc⟩

/-- The later events are all of them freezes. -/
def Undisturbed (events log : List DocumentEvent) : Prop :=
  ∃ later, log = events ++ later ∧ ∀ e ∈ later, ∃ sha, e.data = .frozen sha

theorem Undisturbed.refl (events : List DocumentEvent) : Undisturbed events events := ⟨[], by simp⟩

theorem Undisturbed.snoc (h : Undisturbed events log) (he : e.data = .frozen sha) :
    Undisturbed events (log ++ [e]) := by
  obtain ⟨later, rfl, hl⟩ := h
  refine ⟨later ++ [e], List.append_assoc .., fun x hx => ?_⟩
  rcases List.mem_append.1 hx with hx | hx
  · exact hl x hx
  · exact ⟨sha, List.mem_singleton.1 hx ▸ he⟩

theorem Undisturbed.isPrefix (h : Undisturbed events log) : events <+: log := by
  obtain ⟨later, rfl, -⟩ := h
  exact List.prefix_append ..

theorem Undisturbed.pending (h : Undisturbed events log) : documentPending log = documentPending events := by
  obtain ⟨later, rfl, hl⟩ := h
  induction later using List.reverseRecOn with
  | nil => rw [List.append_nil]
  | append_singleton later e ih =>
    obtain ⟨sha, he⟩ := hl e (by simp)
    have hplain : Plain e.data := by simp [Plain, he, DocumentEventData.intent?, DocumentEventData.completes?]
    rw [← List.append_assoc, pending_plain hplain]
    exact ih fun x hx => hl x (by simp [hx])

/-- What is appended under the revision of the events comes right after them. -/
theorem Undisturbed.eq (h : Undisturbed events log) (hn : log.length = events.length) : log = events :=
  (h.isPrefix.eq_of_length hn.symm).symm

/-! ## The tables -/

@[simp] theorem eventData_eq_ok {d : DocumentEventData} : eventData data = .ok d ↔ data.ok = true ∧ data = d := by
  simp only [eventData, bind_eq_ok, throwIf_eq_ok, exists_const, pure_eq_ok, Bool.not_eq_false]

/-- The events of a ticket. -/
def Registry.journal (r : Registry) (key : TicketKey) : List DocumentEvent := (r.rows key).map (·.body)

namespace Registry

/-- The tables can be read, and a package is stored once. -/
structure Sound (digests : Digests) (r : Registry) : Prop where
  reads : ∀ key, readRows digests key 0 none (r.rows key) = .ok (r.journal key)
  bounded : ∀ key, (r.journal key).length ≤ 1024
  digest : ∀ row ∈ r.subjects, (digests.package row.body).1 = row.sha256
  once : r.subjects.Pairwise fun a b =>
    ¬ (a.body.key = b.body.key ∧ a.body.packageId = b.body.packageId ∧ a.body.revision = b.body.revision)
  stored : ∀ key, ∀ e ∈ r.journal key,
    ∃ subject, r.subject digests e.data.subjectSha256 = .ok subject ∧ subject.key = key
  keys : ∀ key, r.journal key ≠ [] → key.ok = true

theorem sound_empty : Sound digests empty :=
  ⟨fun _ => rfl, fun _ => Nat.zero_le _, by simp [empty], by simp [empty], by simp [empty, journal],
    fun _ h => absurd rfl h⟩

theorem Sound.events_eq (hs : r.Sound digests) (h : r.events digests key = .ok events) : events = r.journal key := by
  simp only [Registry.events, bind_eq_ok, throwIf_eq_ok, exists_const] at h
  obtain ⟨-, -, h⟩ := h
  exact (Except.ok.inj ((hs.reads key).symm.trans h)).symm

theorem events_key (h : r.events digests key = .ok events) : key.ok = true := by
  simp only [Registry.events, bind_eq_ok, throwIf_eq_ok, exists_const, Bool.not_eq_false] at h
  exact h.1

theorem Sound.revision_ok (hs : r.Sound digests) (h : r.revision digests subject n = .ok events) :
    events = r.journal subject.key ∧ events.length = n ∧ n ≤ 1023 := by
  simp only [Registry.revision, bind_eq_ok, throwIf_eq_ok, pure_eq_ok, not_not, ne_eq, exists_const] at h
  obtain ⟨hn, es, hes, hlen, rfl⟩ := h
  exact ⟨hs.events_eq hes, hlen, by omega⟩

theorem subject_mono (h : r.subject digests sha = .ok subject) (hp : r.subjects <+: r'.subjects) :
    r'.subject digests sha = .ok subject := by
  obtain ⟨t, ht⟩ := hp
  simp only [Registry.subject, bind_eq_ok, throwIf_eq_ok, require_eq_ok, pure_eq_ok, exists_const] at h ⊢
  obtain ⟨hsha, row, hrow, hrest⟩ := h
  refine ⟨hsha, row, ?_, hrest⟩
  rw [← ht, List.find?_append, hrow, Option.some_or]

theorem checkPredecessor_mono (h : r.checkPredecessor digests subject events = .ok ()) (hp : r.subjects <+: r'.subjects)
    (he : events <+: log) : r'.checkPredecessor digests subject log = .ok () := by
  unfold Registry.checkPredecessor at h ⊢
  cases hsub : subject.predecessor with
  | none => rfl
  | some sha =>
    simp only [hsub, Option.elim_some, bind_eq_ok, throwIf_eq_ok, exists_const, Bool.not_eq_false] at h ⊢
    obtain ⟨previous, hprev, hsame, hdone⟩ := h
    exact ⟨previous, subject_mono hprev hp, hsame, completed_mono hdone he⟩

theorem readRows_snoc {row : EventRow} {predecessor : Option String} {rows : List EventRow}
    (h : readRows digests key n predecessor rows = .ok events) (hkey : row.body.key = key)
    (hrev : row.body.revision = n + rows.length + 1) (hrow : row.revision = row.body.revision)
    (hpre : row.body.predecessor = (rows.getLast?.map (·.sha256)).or predecessor)
    (hpred : row.predecessor = row.body.predecessor) (hsha : (digests.event row.body).1 = row.sha256)
    (hdata : row.body.data.ok = true) :
    readRows digests key n predecessor (rows ++ [row]) = .ok (events ++ [row.body]) := by
  induction rows generalizing n predecessor events with
  | nil =>
    cases h
    simp only [List.nil_append, readRows, bind_eq_ok, throwIf_eq_ok, exists_const]
    refine ⟨?_, row.body.data, eventData_eq_ok.2 ⟨hdata, rfl⟩, [], rfl, rfl⟩
    simp_all
  | cons first rows ih =>
    simp only [readRows, bind_eq_ok, throwIf_eq_ok, exists_const, pure_eq_ok] at h
    obtain ⟨hfirst, d, hd, rest, hrest, rfl⟩ := h
    simp only [List.cons_append, readRows, bind_eq_ok, throwIf_eq_ok, exists_const, pure_eq_ok]
    refine ⟨hfirst, d, hd, rest ++ [row.body], ih hrest ?_ ?_, rfl⟩
    · rw [hrev, List.length_cons]
      omega
    · rw [hpre]
      cases hlast : rows.getLast? with
      | none => simp [List.getLast?_eq_none_iff.1 hlast]
      | some last => simp [List.getLast?_cons, hlast]

/-- An event is added to the journal of a ticket. -/
structure Adds (r r' : Registry) (key : TicketKey) (data : DocumentEventData) : Prop where
  bounded : (r.journal key).length < 1024
  event : ∃ e, e.data = data ∧ r'.journal key = r.journal key ++ [e]
  others : ∀ k, k ≠ key → r'.journal k = r.journal k
  subjects : r.subjects <+: r'.subjects

theorem addSnapshot_ok {raw : Bytes} (h : r.addSnapshot digests raw = .ok r') :
    r'.rows = r.rows ∧ r'.subjects = r.subjects := by
  simp only [addSnapshot, bind_eq_ok, pure_eq_ok] at h
  obtain ⟨-, -, rfl⟩ := h
  split_ifs <;> exact ⟨rfl, rfl⟩

theorem addSnapshots_ok {raws : List Bytes} (h : addSnapshots digests r raws = .ok r') :
    r'.rows = r.rows ∧ r'.subjects = r.subjects := by
  induction raws generalizing r with
  | nil =>
    cases h
    exact ⟨rfl, rfl⟩
  | cons raw raws ih =>
    simp only [addSnapshots, bind_eq_ok, throwIf_eq_ok, exists_const] at h
    obtain ⟨-, r₁, h₁, h⟩ := h
    obtain ⟨hrows, hsub⟩ := addSnapshot_ok h₁
    obtain ⟨hrows', hsub'⟩ := ih h
    exact ⟨hrows'.trans hrows, hsub'.trans hsub⟩

theorem addMembers_ok {members : List (DocumentMember × Bytes)} (h : addMembers digests r members = .ok r') :
    r'.rows = r.rows ∧ r'.subjects = r.subjects := by
  induction members generalizing r with
  | nil =>
    cases h
    exact ⟨rfl, rfl⟩
  | cons m members ih =>
    simp only [addMembers, bind_eq_ok, throwIf_eq_ok, exists_const] at h
    obtain ⟨-, r₁, h₁, h⟩ := h
    obtain ⟨hrows, hsub⟩ := addSnapshot_ok h₁
    obtain ⟨hrows', hsub'⟩ := ih h
    exact ⟨hrows'.trans hrows, hsub'.trans hsub⟩

theorem insert_rows (row : EventRow) :
    (r.insert key row).rows = Function.update r.rows key (r.rows key ++ [row]) := rfl

theorem journal_insert (row : EventRow) (k : TicketKey) :
    (r.insert key row).journal k = if k = key then r.journal key ++ [row.body] else r.journal k := by
  unfold journal
  rw [insert_rows]
  by_cases hk : k = key
  · rw [if_pos hk, hk, Function.update_self, List.map_append, List.map_singleton]
  · rw [if_neg hk, Function.update_of_ne hk]

theorem Sound.append_ok {raws : List Bytes} (hs : r.Sound digests) (h : r.append digests key n data raws = .ok r') :
    (r.journal key).length = n ∧ Adds r r' key data ∧ r'.Sound digests := by
  simp only [append, bind_eq_ok, throwIf_eq_ok, exists_const, pure_eq_ok, not_not, ne_eq, eventData_eq_ok] at h
  obtain ⟨hn, es, hes, d, ⟨hok, rfl⟩, hlen, subject, hsub, hkey, kept, hkept, _, -, rfl⟩ := h
  have hkeyok := events_key hes
  obtain rfl := hs.events_eq hes
  obtain ⟨hrows, hsubjects⟩ := addSnapshots_ok hkept
  have hjournal : kept.journal = r.journal := by
    funext k
    rw [journal, journal, hrows]
  have hbound : (r.journal key).length < 1024 := by omega
  refine ⟨hlen, ⟨hbound, ⟨(kept.nextRow digests key n data).body, rfl, ?_⟩, fun k hk => ?_,
    hsubjects ▸ List.prefix_rfl⟩, ?_⟩
  · rw [journal_insert, if_pos rfl, hjournal]
  · rw [journal_insert, if_neg hk, hjournal]
  · constructor
    · intro k
      rw [journal_insert, hjournal]
      by_cases hk : k = key
      · subst hk
        rw [if_pos rfl, insert_rows, Function.update_self, hrows]
        apply readRows_snoc (hs.reads k)
        · rfl
        · simp only [nextRow, ← hlen, journal, List.length_map, Nat.zero_add]
        · rfl
        · simp only [nextRow, hrows, Option.or_none]
        · rfl
        · rfl
        · simpa [nextRow] using hok
      · rw [if_neg hk, insert_rows, Function.update_of_ne hk, hrows]
        exact hs.reads k
    · intro k
      rw [journal_insert, hjournal]
      split_ifs with hk
      · rw [List.length_append, List.length_singleton]
        omega
      · exact hs.bounded k
    · intro row hrow
      exact hs.digest row (hsubjects ▸ hrow)
    · exact hsubjects.symm ▸ hs.once
    · intro k e he
      have hmono {sha : String} {p : DocumentPackage} (hp : r.subject digests sha = .ok p) :
          (kept.insert key (kept.nextRow digests key n data)).subject digests sha = .ok p :=
        subject_mono hp (hsubjects ▸ List.prefix_rfl)
      rw [journal_insert, hjournal] at he
      split_ifs at he with hk
      · rcases List.mem_append.1 he with he | he
        · obtain ⟨p, hp, hpk⟩ := hs.stored key e he
          exact ⟨p, hmono hp, hk ▸ hpk⟩
        · obtain rfl := List.mem_singleton.1 he
          exact ⟨subject, hmono hsub, hk ▸ hkey⟩
      · obtain ⟨p, hp, hpk⟩ := hs.stored k e he
        exact ⟨p, hmono hp, hpk⟩
    · intro k hk
      rw [journal_insert, hjournal] at hk
      split_ifs at hk with hkk
      · exact hkk ▸ hkeyok
      · exact hs.keys k hk

/-- A package with a new id and revision is stored. -/
theorem Sound.store (hs : r.Sound digests) (hnew : r.existing? subject = none) (hrows : kept.rows = r.rows)
    (hsubjects : kept.subjects = r.subjects) :
    Sound digests { kept with subjects := kept.subjects ++ [⟨(digests.package subject).1, subject⟩] } := by
  have hjournal (k : TicketKey) :
      journal { kept with subjects := kept.subjects ++ [⟨(digests.package subject).1, subject⟩] } k = r.journal k := by
    rw [journal, journal, hrows]
  constructor
  · intro k
    rw [hjournal]
    exact hrows ▸ hs.reads k
  · intro k
    rw [hjournal]
    exact hs.bounded k
  · intro row hrow
    rcases List.mem_append.1 hrow with hrow | hrow
    · exact hs.digest row (hsubjects ▸ hrow)
    · rw [List.mem_singleton.1 hrow]
  · rw [List.pairwise_append]
    refine ⟨hsubjects.symm ▸ hs.once, List.pairwise_singleton .., fun a ha b hb hab => ?_⟩
    rw [List.mem_singleton.1 hb] at hab
    have hno := List.find?_eq_none.1 hnew a (hsubjects ▸ ha)
    simp only [Bool.and_eq_true, beq_iff_eq, not_and] at hno
    exact hno ⟨hab.1, hab.2.1⟩ hab.2.2
  · intro k e he
    rw [hjournal] at he
    obtain ⟨p, hp, hpk⟩ := hs.stored k e he
    exact ⟨p, subject_mono hp (by simp [hsubjects]), hpk⟩
  · intro k hk
    exact hs.keys k (hjournal k ▸ hk)

theorem Sound.freeze_ok {raws : List Bytes} (hs : r.Sound digests) (h : r.freeze digests subject n raws = .ok r') :
    r' = r ∨ (∃ sha, Adds r r' subject.key (.frozen sha)) ∧ r'.Sound digests := by
  simp only [freeze, bind_eq_ok, throwIf_eq_ok, exists_const] at h
  obtain ⟨es, -, -, h⟩ := h
  cases hex : r.existing? subject with
  | some row =>
    simp only [hex, bind_eq_ok, throwIf_eq_ok, exists_const, pure_eq_ok] at h
    obtain ⟨-, -, -, rfl⟩ := h
    exact Or.inl rfl
  | none =>
    simp only [hex, freezeNew, bind_eq_ok, throwIf_eq_ok, exists_const] at h
    obtain ⟨-, kept, hkept, -, h⟩ := h
    obtain ⟨hrows, hsubjects⟩ := addMembers_ok hkept
    obtain ⟨-, ha, hsound⟩ := (hs.store hex hrows hsubjects).append_ok h
    have hjournal (k : TicketKey) :
        journal { kept with subjects := kept.subjects ++ [⟨(digests.package subject).1, subject⟩] } k =
          r.journal k := by
      rw [journal, journal, hrows]
    obtain ⟨hbound, ⟨e, he, hev⟩, hothers, hsub⟩ := ha
    refine Or.inr ⟨⟨_, ?_, ⟨e, he, ?_⟩, fun k hk => ?_, ?_⟩, hsound⟩
    · exact hjournal subject.key ▸ hbound
    · exact hjournal subject.key ▸ hev
    · exact hjournal k ▸ hothers k hk
    · rw [← hsubjects]
      exact (List.prefix_append ..).trans hsub

end Registry

/-! ## Lawful journals -/

/-- What holds of an event, after the events before it. -/
def Follows (digests : Digests) (before : List DocumentEvent) : DocumentEventData → Prop
  | .revoked sha decisionId _ => approved before sha decisionId = true
  | .intent i =>
    documentPending before = [] ∧ i.operationId ∉ (intents before).map (·.operationId) ∧
      i.operationId = operationId digests i.subjectSha256 i.decisionId i.operation ∧
      approved before i.subjectSha256 i.decisionId = true ∧
      (i.operation = .queue → documentCompletedOperation before i.subjectSha256 .publish = true)
  | .result _ id _ _ => ∃ i ∈ documentPending before, i.operationId = id
  | _ => True

/-- Every event follows from the events before it. -/
def Lawful (digests : Digests) (events : List DocumentEvent) : Prop :=
  ∀ before e after, events = before ++ e :: after → Follows digests before e.data

theorem lawful_nil : Lawful digests [] := by
  intro before e after h
  simp at h

theorem Lawful.snoc (h : Lawful digests events) (he : Follows digests events e.data) :
    Lawful digests (events ++ [e]) := by
  intro before x after hx
  rcases after.eq_nil_or_concat with rfl | ⟨after, y, rfl⟩
  · obtain ⟨rfl, hxe⟩ := List.append_inj' hx rfl
    cases hxe
    exact he
  · rw [List.concat_eq_append, ← List.cons_append, ← List.append_assoc] at hx
    exact h before x after (List.append_inj' hx rfl).1

theorem Lawful.beginning (h : Lawful digests (before ++ events)) : Lawful digests before := by
  intro pre e post hpre
  exact h pre e (post ++ events) (by rw [hpre, List.append_assoc, List.cons_append])

theorem Lawful.last (h : Lawful digests (events ++ [e])) : Follows digests events e.data := h events e [] rfl

/-- An operation is completed after its intent. -/
theorem Lawful.completed_mem (h : Lawful digests events) (hid : id ∈ completedIds events) :
    id ∈ (intents events).map (·.operationId) := by
  induction events using List.reverseRecOn with
  | nil => cases hid
  | append_singleton events e ih =>
    rw [completedIds_snoc] at hid
    rw [intents_snoc, List.map_append, List.mem_append]
    rcases List.mem_append.1 hid with hid | hid
    · exact Or.inl (ih h.beginning hid)
    · have hf := h.last
      cases hd : e.data with
      | result sha op outcome code =>
        cases outcome <;> simp only [hd, DocumentEventData.completes?, Option.toList_some, Option.toList_none,
          List.mem_singleton, List.not_mem_nil] at hid
        rw [hd] at hf
        obtain ⟨i, hi, hop⟩ := hf
        exact Or.inl (List.mem_map.2 ⟨i, (mem_pending.1 hi).1, hop.trans hid.symm⟩)
      | _ => simp [hd, DocumentEventData.completes?] at hid

/-- **At most one operation is pending.** -/
theorem Lawful.pending_le (h : Lawful digests events) : (documentPending events).length ≤ 1 := by
  induction events using List.reverseRecOn with
  | nil => exact Nat.zero_le 1
  | append_singleton events e ih =>
    have hle := ih h.beginning
    have hf := h.last
    by_cases hplain : Plain e.data
    · rwa [pending_plain hplain]
    cases hd : e.data with
    | intent i =>
      rw [hd] at hf
      rw [pending_intent hd fun hid => hf.2.1 (h.beginning.completed_mem hid), hf.1]
      exact le_rfl
    | result sha op outcome code =>
      have hsub : documentPending (events ++ [e]) = (documentPending events).filter fun i =>
          !(e.data.completes?.toList).contains i.operationId := by
        simp [documentPending, intents_snoc, completedIds_snoc, hd, DocumentEventData.intent?, List.filter_filter,
          Bool.and_comm]
      rw [hsub]
      exact (List.length_filter_le ..).trans hle
    | _ => simp [Plain, hd, DocumentEventData.intent?, DocumentEventData.completes?] at hplain

/-- **An operation is begun once.** -/
theorem Lawful.intents_nodup (h : Lawful digests events) : ((intents events).map (·.operationId)).Nodup := by
  induction events using List.reverseRecOn with
  | nil => exact List.nodup_nil
  | append_singleton events e ih =>
    have hf := h.last
    rw [intents_snoc]
    cases hd : e.data with
    | intent i =>
      rw [hd] at hf
      simp only [DocumentEventData.intent?, Option.toList_some, List.map_append, List.map_singleton]
      exact List.nodup_append.2 ⟨ih h.beginning, List.nodup_singleton _, fun a ha b hb hab =>
        hf.2.1 (List.mem_singleton.1 hb ▸ hab ▸ ha)⟩
    | _ => simpa [DocumentEventData.intent?] using ih h.beginning

/-- **An operation is completed once.** -/
theorem Lawful.completed_nodup (h : Lawful digests events) : (completedIds events).Nodup := by
  induction events using List.reverseRecOn with
  | nil => exact List.nodup_nil
  | append_singleton events e ih =>
    have hf := h.last
    rw [completedIds_snoc]
    cases hd : e.data with
    | result sha op outcome code =>
      cases outcome with
      | completed =>
        rw [hd] at hf
        obtain ⟨i, hi, rfl⟩ := hf
        simp only [DocumentEventData.completes?, Option.toList_some]
        exact List.nodup_append.2 ⟨ih h.beginning, List.nodup_singleton _, fun a ha b hb hab =>
          (mem_pending.1 hi).2 (List.mem_singleton.1 hb ▸ hab ▸ ha)⟩
      | _ => simpa [DocumentEventData.completes?] using ih h.beginning
    | _ => simpa [DocumentEventData.completes?] using ih h.beginning

end PaPlatform.Documents
