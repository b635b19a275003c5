/-
  What the validator reads is read again from what is written of it.
-/
import PaPlatform.Operations.Snapshot

namespace PaPlatform.Operations

open Js Js.Units Guard

open Value (Sound IsFinite)

variable {α : Type} {double : Units → Number} {n : ℕ} {parse : Option Value → Accepted α} {write : α → Value}

/-- What is read is written as a sound value of at most `n` levels, from which it is read again. -/
structure Rereads (double : Units → Number) (n : ℕ) (parse : Option Value → Accepted α) (write : α → Value) : Prop where
  again : ∀ value a, parse value = .ok a → parse (some (write a)) = .ok a
  sound : ∀ value a, parse value = .ok a → (write a).Sound double n

/-- The value itself is written. -/
theorem rereads_of_eq (h : ∀ value a, parse value = .ok a → value = some (write a))
    (hs : ∀ value a, parse value = .ok a → (write a).Sound double n) : Rereads double n parse write where
  again value a ha := h value a ha ▸ ha
  sound := hs

theorem Rereads.mono {m : ℕ} (h : Rereads double n parse write) (hnm : n ≤ m) : Rereads double m parse write :=
  ⟨h.again, fun value a ha => (h.sound value a ha).mono hnm⟩

/-! ## Fields -/

theorem text_eq_ok {value : Option Value} {max : ℕ} {multiline : Bool} {s : Units} (h : text value max multiline = .ok s) :
    value = some (.str s) ∧ s.WellFormed := by
  unfold text at h
  split at h
  · simp only [bind_eq_ok, throwIf_eq_ok, exists_const, pure_eq_ok, not_or, Bool.not_eq_true] at h
    obtain ⟨⟨-, hpaired, -⟩, -, rfl⟩ := h
    exact ⟨rfl, Validation.Review.unpaired_eq_false.1 hpaired⟩
  · cases h

theorem text_rereads (max : ℕ) (multiline : Bool) : Rereads double (n + 1) (text · max multiline) .str :=
  rereads_of_eq (fun _ _ h => (text_eq_ok h).1) fun _ _ h => Value.sound_str.2 (text_eq_ok h).2

theorem line_rereads (max : ℕ) : Rereads double (n + 1) (line · max) .str := text_rereads max false

theorem lineOf_rereads (max : ℕ) (pattern : Units → Bool) : Rereads double (n + 1) (lineOf · max pattern) .str := by
  have hline : ∀ value s, lineOf value max pattern = .ok s → line value max = .ok s := by
    intro value s h
    simp only [lineOf, bind_eq_ok, throwIf_eq_ok, exists_const, pure_eq_ok] at h
    obtain ⟨s, hs, -, rfl⟩ := h
    exact hs
  exact rereads_of_eq (fun _ _ h => (text_eq_ok (hline _ _ h)).1) fun _ _ h => Value.sound_str.2 (text_eq_ok (hline _ _ h)).2

theorem choice_rereads {all : List α} {name : α → String} (hname : ∀ a, (units (name a)).all (· < 0x80) = true) :
    Rereads double (n + 1) (choice all name) (named name) := by
  have hascii : ∀ a, (units (name a)).WellFormed := fun a => wellFormed_of_ascii (by simpa using hname a)
  refine rereads_of_eq (fun value a h => ?_) fun _ a _ => Value.sound_str.2 (hascii a)
  unfold choice at h
  split at h
  · rw [require_eq_ok] at h
    have hs := List.find?_some h
    rw [beq_iff_eq] at hs
    rw [named, hs]
  · cases h

theorem bool_rereads : Rereads double (n + 1) bool .bool := by
  refine rereads_of_eq (fun value b h => ?_) fun _ _ _ => Value.sound_bool
  unfold bool at h
  split at h <;> cases h
  rfl

theorem exitStatus_rereads : Rereads double (n + 1) exitStatus fun k => .num (.int k) := by
  have hnum : ∀ value k, exitStatus value = .ok k → value = some (.num (.int k)) ∧ k ≤ 2147483647 := by
    intro value k h
    unfold exitStatus at h
    split at h
    · split_ifs at h with hk
      · cases h
        exact ⟨by rw [Int.toNat_of_nonneg hk.1], by omega⟩
      · cases h
    · cases h
  refine rereads_of_eq (fun _ _ h => (hnum _ _ h).1) fun _ k h => Value.sound_num.2 ?_
  have hk := (hnum _ _ h).2
  show (k : ℤ).natAbs < 2 ^ 53
  omega

theorem nullable_rereads (h : Rereads double (n + 1) parse write) (hne : ∀ a, write a ≠ .null) :
    Rereads double (n + 1) (nullable parse) fun o => orNull (o.map write) where
  again value o ho := by
    cases o with
    | none => rfl
    | some a =>
      have ha : parse value = .ok a := by
        unfold nullable at ho
        split at ho
        · cases ho
        · rw [map_eq_ok] at ho
          obtain ⟨b, hb, he⟩ := ho
          rwa [← Option.some.inj he]
      have hagain := h.again value a ha
      show nullable parse (some (write a)) = _
      unfold nullable
      split
      · next heq => exact absurd (Option.some.inj heq) (hne a)
      · rw [hagain]
        rfl
  sound value o ho := by
    cases o with
    | none => exact Value.sound_null
    | some a =>
      refine h.sound value a ?_
      unfold nullable at ho
      split at ho
      · cases ho
      · rw [map_eq_ok] at ho
        obtain ⟨b, hb, he⟩ := ho
        rwa [← Option.some.inj he]

theorem digest_rereads : Rereads double (n + 1) digest fun o => orNull (o.map .str) :=
  nullable_rereads (lineOf_rereads 64 isSha) fun _ => by simp

theorem list_rereads (h : Rereads double n parse write) :
    Rereads double (n + 1) (list parse) fun l => .arr (l.map write) := by
  have hitems : ∀ (items : List Value) l, (items.mapM fun x => parse (some x)) = .ok l →
      l.length = items.length ∧ ((l.map write).mapM fun x => parse (some x)) = .ok l ∧
        ∀ a ∈ l, (write a).Sound double n := by
    intro items
    induction items with
    | nil =>
      rintro l ⟨⟩
      exact ⟨rfl, rfl, by simp⟩
    | cons x items ih =>
      intro l hl
      simp only [List.mapM_cons, bind_eq_ok, pure_eq_ok] at hl
      obtain ⟨a, ha, l, hl, rfl⟩ := hl
      obtain ⟨hlen, hagain, hsound⟩ := ih l hl
      refine ⟨by rw [List.length_cons, List.length_cons, hlen], ?_, ?_⟩
      · simp only [List.map_cons, List.mapM_cons, h.again _ a ha, hagain, ok_bind]
        rfl
      · exact List.forall_mem_cons.2 ⟨h.sound _ a ha, hsound⟩
  have hlist : ∀ value l, list parse value = .ok l → ∃ items, value = some (.arr items) ∧ items.length ≤ 128 ∧
      (items.mapM fun x => parse (some x)) = .ok l := by
    intro value l hl
    unfold list at hl
    split at hl
    · simp only [bind_eq_ok, throwIf_eq_ok, exists_const, not_lt] at hl
      exact ⟨_, rfl, hl⟩
    · cases hl
  constructor
  · intro value l hl
    obtain ⟨items, -, hlen, hl⟩ := hlist value l hl
    obtain ⟨hlen', hagain, -⟩ := hitems items l hl
    unfold list
    simp only [bind_eq_ok, throwIf_eq_ok, exists_const, not_lt, List.length_map]
    exact ⟨by omega, hagain⟩
  · intro value l hl
    obtain ⟨items, -, -, hl⟩ := hlist value l hl
    refine Value.sound_arr.2 fun x hx => ?_
    obtain ⟨a, ha, rfl⟩ := List.mem_map.1 hx
    exact (hitems items l hl).2.2 a ha

/-! ## Records -/

def isName (k : Units) : Bool := k.all (· < 0x80) && !Value.isIndex k

def areNames (keys : List Units) : Bool := keys.all isName && decide keys.Nodup

/-- An object with names for its keys. -/
theorem sound_record {fs : List (Units × Value)} (hk : areNames (fs.map (·.1)) = true)
    (hv : ∀ f ∈ fs, f.2.Sound double n) : (Value.obj fs).Sound double (n + 1) := by
  obtain ⟨hnames, hnodup⟩ := Bool.and_eq_true_iff.1 hk
  have hname : ∀ f ∈ fs, (∀ u ∈ f.1, u < 0x80) ∧ Value.isIndex f.1 = false := by
    intro f hf
    have hok := List.all_eq_true.1 hnames f.1 (List.mem_map_of_mem hf)
    simpa [isName] using hok
  refine Value.sound_obj.2 ⟨Value.inOrder_names (of_decide_eq_true hnodup) fun f hf => (hname f hf).2, fun f hf => ?_⟩
  exact ⟨wellFormed_of_ascii (hname f hf).1, hv f hf⟩

section

variable (double : Units → Number) (n : ℕ)

theorem evidence_rereads : Rereads double (n + 2) evidence OperationEvidence.value := by
  have hline := fun max => @line_rereads double n max
  have hversion := nullable_rereads (hline 128) fun _ => by simp
  have hdigest := @digest_rereads double n
  have hfreshness : Rereads double (n + 1) (choice Freshness.all Freshness.name) (named Freshness.name) :=
    choice_rereads fun a => by cases a <;> rfl
  constructor
  · intro value e h
    simp only [evidence, bind_eq_ok, throwIf_eq_ok, exists_const, pure_eq_ok] at h ⊢
    obtain ⟨r, -, owner, ho, ref, hr, version, hv, sha, hs, freshness, hf, scope, hc, hinv, rfl⟩ := h
    exact ⟨_, rfl, owner, (hline 128).again _ _ ho, ref, (hline 2048).again _ _ hr, version, hversion.again _ _ hv,
      sha, hdigest.again _ _ hs, freshness, hfreshness.again _ _ hf, scope, (hline 2048).again _ _ hc, hinv, rfl⟩
  · intro value e h
    simp only [evidence, bind_eq_ok, throwIf_eq_ok, exists_const, pure_eq_ok] at h
    obtain ⟨r, -, owner, ho, ref, hr, version, hv, sha, hs, freshness, hf, scope, hc, -, rfl⟩ := h
    refine sound_record rfl ?_
    simp only [List.forall_mem_cons, List.not_mem_nil, false_imp_iff, implies_true, and_true]
    exact ⟨(hline 128).sound _ _ ho, (hline 2048).sound _ _ hr, hversion.sound _ _ hv, hdigest.sound _ _ hs,
      hfreshness.sound _ _ hf, (hline 2048).sound _ _ hc⟩

theorem finding_rereads : Rereads double (n + 2) finding OperationFinding.value := by
  have hline := fun max => @line_rereads double n max
  have hcode := @lineOf_rereads double n 128 isCode
  have hseverity : Rereads double (n + 1) (choice Severity.all Severity.name) (named Severity.name) :=
    choice_rereads fun a => by cases a <;> rfl
  constructor
  · intro value f h
    simp only [finding, bind_eq_ok, pure_eq_ok] at h ⊢
    obtain ⟨r, -, code, hc, severity, hs, explanation, he, owner, ho, action, ha, rfl⟩ := h
    exact ⟨_, rfl, code, hcode.again _ _ hc, severity, hseverity.again _ _ hs, explanation, (hline 4096).again _ _ he,
      owner, (hline 128).again _ _ ho, action, (hline 4096).again _ _ ha, rfl⟩
  · intro value f h
    simp only [finding, bind_eq_ok, pure_eq_ok] at h
    obtain ⟨r, -, code, hc, severity, hs, explanation, he, owner, ho, action, ha, rfl⟩ := h
    refine sound_record rfl ?_
    simp only [List.forall_mem_cons, List.not_mem_nil, false_imp_iff, implies_true, and_true]
    exact ⟨hcode.sound _ _ hc, hseverity.sound _ _ hs, (hline 4096).sound _ _ he, (hline 128).sound _ _ ho,
      (hline 4096).sound _ _ ha⟩

theorem process_rereads : Rereads double (n + 2) processFacts OperationProcess.value := by
  have hexit := nullable_rereads (@exitStatus_rereads double n) fun _ => by simp
  have hsignal := nullable_rereads (@lineOf_rereads double n 32 isSignal) fun _ => by simp
  have hbool := @bool_rereads double n
  have hcleanup : Rereads double (n + 1) (choice Cleanup.all Cleanup.name) (named Cleanup.name) :=
    choice_rereads fun a => by cases a <;> rfl
  constructor
  · intro value p h
    simp only [processFacts, bind_eq_ok, throwIf_eq_ok, exists_const, pure_eq_ok] at h ⊢
    obtain ⟨r, -, exitCode, he, signal, hs, hinv, timedOut, ht, aborted, ha, cleanup, hc, rfl⟩ := h
    refine ⟨_, rfl, exitCode, ?_, signal, hsignal.again _ _ hs, hinv, timedOut, hbool.again _ _ ht, aborted,
      hbool.again _ _ ha, cleanup, hcleanup.again _ _ hc, rfl⟩
    cases exitCode <;> exact hexit.again _ _ he
  · intro value p h
    simp only [processFacts, bind_eq_ok, throwIf_eq_ok, exists_const, pure_eq_ok] at h
    obtain ⟨r, -, exitCode, he, signal, hs, -, timedOut, ht, aborted, ha, cleanup, hc, rfl⟩ := h
    refine sound_record rfl ?_
    simp only [List.forall_mem_cons, List.not_mem_nil, false_imp_iff, implies_true, and_true]
    refine ⟨?_, hsignal.sound _ _ hs, hbool.sound _ _ ht, hbool.sound _ _ ha, hcleanup.sound _ _ hc⟩
    cases exitCode <;> exact hexit.sound _ _ he

theorem output_rereads : Rereads double (n + 3) output OperationOutput.value := by
  have htext := @text_rereads double (n + 1) maxOperationTextBytes true
  have hbool := @bool_rereads double (n + 1)
  have href := nullable_rereads (evidence_rereads double n) fun _ => by simp [OperationEvidence.value]
  constructor
  · intro value o h
    simp only [output, bind_eq_ok, throwIf_eq_ok, exists_const, pure_eq_ok] at h ⊢
    obtain ⟨r, -, s, hs, truncated, ht, ref, hr, hlines, hinv, rfl⟩ := h
    exact ⟨_, rfl, s, htext.again _ _ hs, truncated, hbool.again _ _ ht, ref, href.again _ _ hr, hlines, hinv, rfl⟩
  · intro value o h
    simp only [output, bind_eq_ok, throwIf_eq_ok, exists_const, pure_eq_ok] at h
    obtain ⟨r, -, s, hs, truncated, ht, ref, hr, -, -, rfl⟩ := h
    refine sound_record rfl ?_
    simp only [List.forall_mem_cons, List.not_mem_nil, false_imp_iff, implies_true, and_true]
    exact ⟨htext.sound _ _ hs, hbool.sound _ _ ht, href.sound _ _ hr⟩

end

end PaPlatform.Operations
