/-
  The authority of a matrix is determined by its bytes: the lines before the section
  and after it do not change it.

  A text is cut into raw lines.  An accepted text is a preamble, the heading of the
  matrix, its section, and the rest from the next heading on; each part is checked
  on its own.
-/
import PaPlatform.Validation.ReviewPlan

namespace PaPlatform.Validation.Review

open Js Units Guard Effect

/-! ## Raw lines -/

variable {b r left right : Bytes} {rs ss : List Bytes} {fuel start : ℕ}

/-- The lines of a text, with their line feeds. -/
def raws : Bytes → List Bytes
  | [] => []
  | b :: rest =>
    if b = 10 then [b] :: raws rest
    else
      match raws rest with
      | [] => [[b]]
      | r :: rs => (b :: r) :: rs

/-- A line with its line feed. -/
def IsLine (r : Bytes) : Prop := ∃ content, r = content ++ [10] ∧ 10 ∉ content

theorem raws_line (h : IsLine r) : raws (r ++ right) = r :: raws right := by
  obtain ⟨content, rfl, hc⟩ := h
  induction content with
  | nil => exact if_pos rfl
  | cons c content ih =>
    rw [List.mem_cons, not_or] at hc
    rw [List.cons_append, List.cons_append, raws, if_neg (Ne.symm hc.1), ih hc.2]

theorem raws_last (h : 10 ∉ b) (hne : b ≠ []) : raws b = [b] := by
  induction b with
  | nil => exact absurd rfl hne
  | cons c rest ih =>
    rw [List.mem_cons, not_or] at h
    rw [raws, if_neg (Ne.symm h.1)]
    cases rest with
    | nil => rfl
    | cons d rest => rw [ih h.2 (List.cons_ne_nil d rest)]

theorem raws_flatten (h : ∀ r ∈ rs, IsLine r) : raws (rs.flatten ++ right) = rs ++ raws right := by
  induction rs with
  | nil => rfl
  | cons r rs ih =>
    rw [List.forall_mem_cons] at h
    rw [List.flatten_cons, List.append_assoc, raws_line h.1, ih h.2]
    rfl

/-- A text is its first line and the rest, or it has one line without a line feed. -/
theorem line_cases (b : Bytes) : (b.dropWhile (· != 10) = [] ∧ 10 ∉ b ∧ b.takeWhile (· != 10) = b) ∨
    ∃ rest, b.dropWhile (· != 10) = 10 :: rest ∧ IsLine (b.takeWhile (· != 10) ++ [10]) ∧
      b = (b.takeWhile (· != 10) ++ [10]) ++ rest := by
  have happ := List.takeWhile_append_dropWhile (p := fun c : UInt8 => c != 10) (l := b)
  have hnot : 10 ∉ b.takeWhile (· != 10) := by
    intro hmem
    have := List.mem_takeWhile_imp hmem
    simp at this
  cases hd : b.dropWhile (· != 10) with
  | nil =>
    rw [hd, List.append_nil] at happ
    refine Or.inl ⟨rfl, ?_, happ⟩
    rw [← happ]
    exact hnot
  | cons c rest =>
    have hc := List.head?_dropWhile_not (fun c : UInt8 => c != 10) b
    rw [hd] at hc
    have hten : c = 10 := by simpa using hc
    subst hten
    refine Or.inr ⟨rest, rfl, ⟨_, rfl, hnot⟩, ?_⟩
    rw [List.append_assoc]
    conv_lhs => rw [← happ, hd]
    rfl

theorem flatten_raws (b : Bytes) : (raws b).flatten = b := by
  induction b with
  | nil => rfl
  | cons c rest ih =>
    rw [raws]
    split_ifs
    · rw [List.flatten_cons, ih]
      rfl
    · cases hr : raws rest with
      | nil =>
        rw [hr] at ih
        rw [← ih]
        rfl
      | cons r rs =>
        rw [hr] at ih
        rw [← ih]
        rfl

/-- All lines but the last one have a line feed. -/
theorem isLine_of_raws {t : Bytes} (h : raws b = rs ++ t :: ss) : ∀ r ∈ rs, IsLine r := by
  induction rs generalizing b with
  | nil => simp
  | cons r rs ih =>
    by_cases hne : b = []
    · rw [hne] at h
      cases h
    · rcases line_cases b with ⟨-, hnot, -⟩ | ⟨rest, -, hline, hb⟩
      · rw [raws_last hnot hne] at h
        simp at h
      · rw [hb, raws_line hline, List.cons_append, List.cons.injEq] at h
        rw [List.forall_mem_cons, ← h.1]
        exact ⟨hline, ih h.2⟩

/-- The text of a raw line. -/
def textOf (r : Bytes) : Units := lineText (r.takeWhile (· != 10))

/-- Raw lines at their places. -/
def locate : ℕ → List Bytes → List Line
  | _, [] => []
  | start, r :: rs => ⟨textOf r, start, start + r.length⟩ :: locate (start + r.length) rs

theorem takeWhile_line (h : 10 ∉ left) : (left ++ [10]).takeWhile (· != 10) = left := by
  rw [List.takeWhile_append_of_pos (by
    intro c hc
    rw [bne_iff_ne]
    rintro rfl
    exact h hc)]
  simp

theorem linesFrom_eq (h : b.length ≤ fuel) : linesFrom fuel start b = locate start (raws b) := by
  induction fuel generalizing b start with
  | zero =>
    rw [List.length_eq_zero_iff.1 (Nat.le_zero.1 h)]
    rfl
  | succ fuel ih =>
    rw [linesFrom]
    split_ifs with hne
    · rw [hne]
      rfl
    · rcases line_cases b with ⟨hd, hnot, htake⟩ | ⟨rest, hd, hline, hb⟩
      · rw [hd, raws_last hnot hne]
        dsimp only
        rw [htake]
        show _ = [_]
        rw [textOf, htake]
      · rw [hd]
        dsimp only
        have hlen := congrArg List.length hb
        simp only [List.length_append, List.length_singleton] at hlen
        rw [ih (by omega)]
        conv_rhs => rw [hb, raws_line hline]
        have htext : textOf (b.takeWhile (· != 10) ++ [10]) = lineText (b.takeWhile (· != 10)) := by
          obtain ⟨content, hc, hnot⟩ := hline
          rw [List.append_cancel_right hc, textOf, takeWhile_line hnot]
        rw [locate, htext]
        simp only [List.length_append, List.length_singleton, Nat.add_assoc]

theorem lines_eq (b : Bytes) : lines b = locate 0 (raws b) := linesFrom_eq le_rfl

theorem locate_append : locate start (rs ++ ss) = locate start rs ++ locate (start + rs.flatten.length) ss := by
  induction rs generalizing start with
  | nil => rfl
  | cons r rs ih =>
    rw [List.cons_append, locate, locate, ih, List.flatten_cons, List.length_append, Nat.add_assoc]
    rfl

theorem locate_length : (locate start rs).length = rs.length := by
  induction rs generalizing start with
  | nil => rfl
  | cons r rs ih => rw [locate, List.length_cons, List.length_cons, ih]

theorem locate_text : (locate start rs).map (·.text) = rs.map textOf := by
  induction rs generalizing start with
  | nil => rfl
  | cons r rs ih => rw [locate, List.map_cons, List.map_cons, ih]

/-- The same line, further on. -/
def Line.shift (n : ℕ) (line : Line) : Line := ⟨line.text, n + line.start, n + line.stop⟩

theorem locate_shift {n : ℕ} : locate (n + start) rs = (locate start rs).map (Line.shift n) := by
  induction rs generalizing start with
  | nil => rfl
  | cons r rs ih =>
    rw [locate, locate, List.map_cons, ← ih, Nat.add_assoc]
    rfl

/-- Where a line ends in its text. -/
theorem locate_bounds {line : Line} (h : line ∈ locate start rs) :
    start ≤ line.start ∧ line.stop ≤ start + rs.flatten.length := by
  induction rs generalizing start with
  | nil => cases h
  | cons r rs ih =>
    rw [locate, List.mem_cons] at h
    rw [List.flatten_cons, List.length_append]
    rcases h with rfl | h
    · exact ⟨le_rfl, by dsimp only; omega⟩
    · have := ih h
      omega

theorem locate_le {line : Line} (h : line ∈ locate start rs) : line.start ≤ line.stop := by
  induction rs generalizing start with
  | nil => cases h
  | cons r rs ih =>
    rw [locate, List.mem_cons] at h
    rcases h with rfl | h
    · exact Nat.le_add_right ..
    · exact ih h

/-! ## Marks -/

variable {fence fence' : Fence} {texts more : List Units} {marks ms : List Mark}

theorem markLines_append : markLines fence (texts ++ more) = .ok (ms, fence') ↔ ∃ m₁ f m₂,
    markLines fence texts = .ok (m₁, f) ∧ markLines f more = .ok (m₂, fence') ∧ ms = m₁ ++ m₂ := by
  induction texts generalizing fence ms with
  | nil =>
    rw [List.nil_append]
    constructor
    · exact fun h => ⟨[], fence, ms, rfl, h, rfl⟩
    · rintro ⟨m₁, f, m₂, h₁, h₂, rfl⟩
      cases h₁
      exact h₂
  | cons text texts ih =>
    simp only [List.cons_append, markLines, bind_eq_ok, pure_eq_ok, Prod.mk.injEq, Prod.exists]
    constructor
    · rintro ⟨m, hm, l, f, h, rfl, rfl⟩
      obtain ⟨m₁, g, m₂, h₁, h₂, rfl⟩ := ih.1 h
      exact ⟨m :: m₁, g, m₂, ⟨m, hm, m₁, g, h₁, rfl, rfl⟩, h₂, rfl⟩
    · rintro ⟨_, g, m₂, ⟨m, hm, m₁, _, h₁, rfl, rfl⟩, h₂, rfl⟩
      exact ⟨m, hm, m₁ ++ m₂, fence', ih.2 ⟨m₁, _, m₂, h₁, h₂, rfl⟩, rfl, rfl⟩

theorem markLines_length (h : markLines fence texts = .ok (ms, fence')) : ms.length = texts.length := by
  induction texts generalizing fence ms with
  | nil =>
    cases h
    rfl
  | cons text texts ih =>
    simp only [markLines, bind_eq_ok, pure_eq_ok, Prod.mk.injEq, Prod.exists] at h
    obtain ⟨m, -, l, f, h, rfl, rfl⟩ := h
    rw [List.length_cons, ih h, List.length_cons]

theorem markLine_eq_ok {text : Units} {m : Mark} : markLine fence text = .ok m ↔
    (isMatrixHeading text = true → fence = none ∧ text = matrixHeading) ∧
      m = ⟨isMatrixHeading text, isBoundary fence text⟩ := by
  unfold markLine
  simp only [bind_eq_ok, failIf_eq_ok, pure_eq_ok, exists_const, not_and, not_or, ne_eq, not_not]
  exact and_congr_right fun _ => eq_comm

theorem mem_places {p : Mark → Bool} {i : ℕ} : i ∈ places p marks ↔ ∃ m, marks[i]? = some m ∧ p m = true := by
  unfold places
  simp only [List.mem_map, List.mem_filter, Prod.exists, List.mk_mem_zipIdx_iff_getElem?]
  constructor
  · rintro ⟨m, j, ⟨hm, hp⟩, rfl⟩
    exact ⟨m, hm, hp⟩
  · rintro ⟨m, hm, hp⟩
    exact ⟨m, i, ⟨hm, hp⟩, rfl⟩

/-- The places of two lists. -/
theorem places_append {p : Mark → Bool} :
    places p (marks ++ ms) = places p marks ++ (places p ms).map (marks.length + ·) := by
  unfold places
  rw [List.zipIdx_append, List.filter_append, List.map_append]
  congr 1
  rw [Nat.zero_add, List.zipIdx_eq_map_add, List.filter_map, List.map_map, List.map_map]
  congr 1

theorem places_eq_nil {p : Mark → Bool} : places p marks = [] ↔ ∀ m ∈ marks, p m = false := by
  rw [List.eq_nil_iff_forall_not_mem]
  simp only [mem_places, not_exists, not_and, Bool.not_eq_true]
  constructor
  · intro h m hm
    obtain ⟨i, hi⟩ := List.mem_iff_getElem?.1 hm
    exact h i m hi
  · exact fun h i m hm => h m (List.mem_of_getElem? hm)

theorem places_cons {p : Mark → Bool} {m : Mark} :
    places p (m :: marks) = (if p m then [0] else []) ++ (places p marks).map (1 + ·) := by
  have happ := @places_append [m] marks p
  rw [List.singleton_append, List.length_singleton] at happ
  rw [happ]
  unfold places
  cases hm : p m <;> simp [hm]

/-- There is one place. -/
theorem places_singleton {p : Mark → Bool} {s : ℕ} : places p marks = [s] ↔ ∃ m₁ m m₂, marks = m₁ ++ m :: m₂ ∧
    m₁.length = s ∧ p m = true ∧ (∀ x ∈ m₁, p x = false) ∧ ∀ x ∈ m₂, p x = false := by
  constructor
  · intro h
    obtain ⟨m, hm, hp⟩ := mem_places.1 (by rw [h]; exact List.mem_singleton_self s)
    obtain ⟨hs, rfl⟩ := List.getElem?_eq_some_iff.1 hm
    have hsplit : marks = marks.take s ++ marks[s] :: marks.drop (s + 1) := by
      rw [← List.drop_eq_getElem_cons hs, List.take_append_drop]
    have hl : (marks.take s).length = s := by
      rw [List.length_take]
      omega
    refine ⟨marks.take s, marks[s], marks.drop (s + 1), hsplit, hl, hp, ?_, ?_⟩
    all_goals
      rw [hsplit, places_append, places_cons, if_pos hp, hl] at h
      simp only [List.map_append, List.map_cons, List.map_nil, Nat.add_zero] at h
      have hlen := congrArg List.length h
      simp only [List.length_append, List.length_map, List.length_cons, List.length_nil] at hlen
      refine places_eq_nil.1 (List.eq_nil_of_length_eq_zero ?_)
      omega
  · rintro ⟨m₁, m, m₂, rfl, rfl, hp, h₁, h₂⟩
    rw [places_append, places_eq_nil.2 h₁, places_cons, if_pos hp, places_eq_nil.2 h₂]
    simp

/-- The first place behind a mark. -/
theorem find_place {p : Mark → Bool} {m₁ m₂ m₃ : List Mark} {x y : Mark} (hy : p y = true)
    (h₂ : ∀ m ∈ m₂, p m = false) :
    (places p (m₁ ++ x :: (m₂ ++ y :: m₃))).find? (m₁.length < ·) = some (m₁.length + 1 + m₂.length) := by
  have hnone : (places p m₁).find? (m₁.length < ·) = none := by
    rw [List.find?_eq_none]
    intro i hi
    obtain ⟨m, hm, -⟩ := mem_places.1 hi
    have := (List.getElem?_eq_some_iff.1 hm).1
    simp only [decide_eq_true_eq]
    omega
  rw [places_append, places_cons, places_append, places_eq_nil.2 h₂, places_cons, if_pos hy]
  rw [List.find?_append, hnone, Option.none_or, List.map_append, List.find?_append]
  have hself : (List.map (m₁.length + ·) (if p x = true then [0] else [])).find? (m₁.length < ·) = none := by
    split_ifs <;> simp
  rw [hself, Option.none_or]
  simp [Nat.add_assoc]

/-- No place behind a mark. -/
theorem find_no_place {p : Mark → Bool} {m₁ m₂ : List Mark} {x : Mark} (h₂ : ∀ m ∈ m₂, p m = false) :
    (places p (m₁ ++ x :: m₂)).find? (m₁.length < ·) = none := by
  rw [List.find?_eq_none]
  intro i hi
  rw [places_append, places_cons, places_eq_nil.2 h₂, List.map_nil, List.append_nil, List.mem_append] at hi
  simp only [decide_eq_true_eq, not_lt]
  rcases hi with hi | hi
  · obtain ⟨m, hm, -⟩ := mem_places.1 hi
    exact (List.getElem?_eq_some_iff.1 hm).1.le
  · split_ifs at hi <;> simp at hi
    omega

theorem first_or_none (p : Mark → Bool) (ms : List Mark) : (∀ m ∈ ms, p m = false) ∨
    ∃ m₂ y m₃, ms = m₂ ++ y :: m₃ ∧ p y = true ∧ ∀ m ∈ m₂, p m = false := by
  induction ms with
  | nil => exact Or.inl (by simp)
  | cons m ms ih =>
    cases hm : p m with
    | true => exact Or.inr ⟨[], m, ms, rfl, hm, by simp⟩
    | false =>
      rcases ih with h | ⟨m₂, y, m₃, rfl, hy, h⟩
      · exact Or.inl (by simp [hm]; simpa using h)
      · refine Or.inr ⟨m :: m₂, y, m₃, rfl, hy, ?_⟩
        rw [List.forall_mem_cons]
        exact ⟨hm, h⟩

theorem matrixHeading_marks : isMatrixHeading matrixHeading = true ∧ isBoundary none matrixHeading = true ∧
    fenceAfter none matrixHeading = none := by
  decide +kernel

/-! ## Layout -/

/-- The parts of an accepted text: a preamble, the heading of the matrix, its section,
    and the rest from the next heading on. -/
structure Layout (P : List Bytes) (h : Bytes) (S : List Bytes) (t : Bytes) (T : List Bytes) : Prop where
  before : ∃ ms, markLines none (P.map textOf) = .ok (ms, none) ∧ ∀ m ∈ ms, m.isMatrix = false
  title : textOf h = matrixHeading
  within : ∃ ms, markLines none (S.map textOf) = .ok (ms, none) ∧ ∀ m ∈ ms, m.isMatrix = false ∧ m.isHeading = false
  after : ∃ m ms, markLines none ((t :: T).map textOf) = .ok (m :: ms, none) ∧ m.isHeading = true ∧
    ∀ x ∈ m :: ms, x.isMatrix = false

theorem boundaries_eq_ok {all : List Line} {s e : ℕ} : boundaries all = .ok (s, e) ↔ ∃ ms,
    markLines none (all.map (·.text)) = .ok (ms, none) ∧ places Mark.isMatrix ms = [s] ∧
      (places Mark.isHeading ms).find? (s < ·) = some e := by
  unfold boundaries
  simp only [bind_eq_ok, failIf_eq_ok, ne_eq, not_not, exists_const, Prod.exists]
  constructor
  · rintro ⟨ms, f, hm, rfl, h⟩
    split at h
    · next start hs =>
      split at h
      · next terminal ht =>
        cases h
        exact ⟨ms, hm, hs, ht⟩
      · exact absurd h fail_ne
    · exact absurd h fail_ne
  · rintro ⟨ms, hm, hs, ht⟩
    refine ⟨ms, none, hm, rfl, ?_⟩
    rw [hs]
    dsimp only
    rw [ht]
    rfl

variable {P S T : List Bytes} {h t : Bytes}

theorem Layout.boundaries (hl : Layout P h S t T) (hr : raws b = P ++ h :: (S ++ t :: T)) :
    boundaries (lines b) = .ok (P.length, P.length + 1 + S.length) := by
  obtain ⟨m₁, h₁, hm₁⟩ := hl.before
  obtain ⟨m₂, h₂, hm₂⟩ := hl.within
  obtain ⟨m, m₃, h₃, hm, hm₃⟩ := hl.after
  obtain ⟨hmatrix, hboundary, hfence⟩ := matrixHeading_marks
  have l₁ := markLines_length h₁
  have l₂ := markLines_length h₂
  rw [List.length_map] at l₁ l₂
  rw [boundaries_eq_ok]
  refine ⟨m₁ ++ ⟨true, true⟩ :: (m₂ ++ m :: m₃), ?_, ?_, ?_⟩
  · rw [lines_eq, locate_text, hr, List.map_append, markLines_append]
    refine ⟨m₁, none, _, h₁, ?_, rfl⟩
    rw [List.map_cons, markLines, hl.title, (markLine_eq_ok.2 ⟨fun _ => ⟨rfl, rfl⟩, rfl⟩), ok_bind, hfence,
      List.map_append, markLines_append.2 ⟨m₂, none, _, h₂, h₃, rfl⟩, hmatrix, hboundary]
    rfl
  · rw [places_singleton]
    refine ⟨m₁, _, _, rfl, l₁, rfl, hm₁, fun x hx => ?_⟩
    rcases List.mem_append.1 hx with hx | hx
    · exact (hm₂ x hx).1
    · exact hm₃ x hx
  · rw [← l₁, ← l₂]
    exact find_place hm fun x hx => (hm₂ x hx).2

theorem length_split {L : List Bytes} {m₁ m₂ : List Mark} {x : Mark} (hl : (m₁ ++ x :: m₂).length = L.length) :
    ∃ P h Q, L = P ++ h :: Q ∧ P.length = m₁.length := by
  have hlt : m₁.length < L.length := by
    rw [← hl, List.length_append, List.length_cons]
    omega
  refine ⟨L.take m₁.length, L[m₁.length], L.drop (m₁.length + 1), ?_, ?_⟩
  · rw [← List.drop_eq_getElem_cons hlt, List.take_append_drop]
  · rw [List.length_take]
    omega

theorem layout_of_boundaries {s e : ℕ} (hb : boundaries (lines b) = .ok (s, e)) :
    ∃ P h S t T, raws b = P ++ h :: (S ++ t :: T) ∧ s = P.length ∧ e = P.length + 1 + S.length ∧ Layout P h S t T := by
  obtain ⟨ms, hms, hplaces, hfind⟩ := boundaries_eq_ok.1 hb
  rw [lines_eq, locate_text] at hms
  obtain ⟨m₁, x, m₂, rfl, rfl, hx, hm₁, hm₂⟩ := places_singleton.1 hplaces
  obtain ⟨P, h, Q, hr, hP⟩ := length_split ((markLines_length hms).trans (List.length_map ..))
  rw [hr, List.map_append, markLines_append] at hms
  obtain ⟨n₁, f, n₂, h₁, h₂, heq⟩ := hms
  obtain ⟨rfl, rfl⟩ := List.append_inj heq (by rw [markLines_length h₁, List.length_map, hP])
  simp only [List.map_cons, markLines, bind_eq_ok, pure_eq_ok, Prod.mk.injEq, Prod.exists] at h₂
  obtain ⟨x', hx', n₂, f₂, h₂, hcons, rfl⟩ := h₂
  obtain ⟨rfl, rfl⟩ := List.cons.inj hcons
  obtain ⟨hmatrix, rfl⟩ := markLine_eq_ok.1 hx'
  obtain ⟨rfl, htitle⟩ := hmatrix hx
  rw [htitle, matrixHeading_marks.2.2] at h₂
  rcases first_or_none Mark.isHeading n₂ with hnone | ⟨m₃, y, m₄, rfl, hy, hm₃⟩
  · rw [find_no_place hnone] at hfind
    cases hfind
  · rw [find_place hy hm₃] at hfind
    obtain ⟨S, t, T, rfl, hS⟩ := length_split ((markLines_length h₂).trans (List.length_map ..))
    rw [List.map_append, markLines_append] at h₂
    obtain ⟨k₁, f, k₂, h₃, h₄, heq⟩ := h₂
    obtain ⟨rfl, rfl⟩ := List.append_inj heq (by rw [markLines_length h₃, List.length_map, hS])
    have hf : f = none := by
      simp only [List.map_cons, markLines, bind_eq_ok, pure_eq_ok, Prod.mk.injEq, Prod.exists] at h₄
      obtain ⟨y', hy', k, f', -, hcons, -⟩ := h₄
      obtain ⟨rfl, -⟩ := List.cons.inj hcons
      rw [(markLine_eq_ok.1 hy').2] at hy
      simp only [isBoundary, Bool.and_eq_true, Option.isNone_iff_eq_none] at hy
      exact hy.1.2
    subst hf
    refine ⟨P, h, S, t, T, hr, hP.symm, ?_, ⟨⟨_, h₁, hm₁⟩, htitle, ⟨_, h₃, fun m hm => ?_⟩, ⟨_, _, h₄, hy, fun m hm => ?_⟩⟩⟩
    · rw [← Option.some.inj hfind, hP, hS]
    · exact ⟨hm₂ m (List.mem_append_left _ hm), hm₃ m hm⟩
    · exact hm₂ m (List.mem_append_right _ hm)


/-! ## The section on its own -/

variable {double : Units → Number} {sha256 : Bytes → Units} {source : Units} {matrix : ReviewMatrix}

theorem plain_eq_ok {α : Type} {x : Reviewed α} {a : α} : plain x = .ok a ↔ x = .ok a := by
  cases x <;> simp [plain, Except.mapError]

theorem payloadRange_shift {n : ℕ} {ls : List Line} :
    payloadRange (ls.map (Line.shift n)) = (payloadRange ls).map fun r => (n + r.1, n + r.2) := by
  have hfilter : (ls.map (Line.shift n)).filter (fun line => (fenceMarker line.text).isSome) =
      (ls.filter fun line => (fenceMarker line.text).isSome).map (Line.shift n) := by
    rw [List.filter_map]
    rfl
  unfold payloadRange
  rw [hfilter]
  generalize ls.filter (fun line => (fenceMarker line.text).isSome) = ds
  dsimp only
  have hany : ∀ p : Units → Bool, (ds.map (Line.shift n)).any (fun line => p line.text) =
      ds.any fun line => p line.text := by
    intro p
    rw [List.any_map]
    rfl
  rw [hany (· == units "```json"), hany isShellFence]
  simp only [List.map_eq_nil_iff]
  unfold failIf throwIf
  split_ifs
  · rfl
  · rcases ds with _ | ⟨first, _ | ⟨last, _ | ⟨third, ds⟩⟩⟩
    · rfl
    · rfl
    · simp only [List.map_cons, List.map_nil, ok_bind, Line.shift]
      split_ifs <;> rfl
    · rfl

theorem payloadRange_mem {ls : List Line} {i j : ℕ} (h : payloadRange ls = .ok (i, j)) :
    ∃ last ∈ ls, last.start = j := by
  unfold payloadRange at h
  obtain ⟨-, -, h⟩ := bind_eq_ok.1 h
  split at h
  · next first last hd =>
    obtain ⟨-, -, h⟩ := bind_eq_ok.1 h
    cases h
    have hmem : last ∈ ls.filter fun line => (fenceMarker line.text).isSome := by
      rw [hd]
      simp
    exact ⟨last, (List.mem_filter.1 hmem).1, rfl⟩
  · exact absurd h fail_ne

theorem slice_middle {pre mid post : Bytes} {i j : ℕ} (h : j ≤ mid.length) :
    slice (pre ++ (mid ++ post)) (pre.length + i) (pre.length + j) = slice mid i j := by
  unfold slice
  rw [List.take_length_add_append, List.drop_length_add_append, List.take_append_of_le_length h]

theorem checkSource_shift {n : ℕ} {ls : List Line} :
    checkSource (ls.map (Line.shift n)) matrix source = checkSource ls matrix source := by
  have hmap : ((ls.map (Line.shift n)).filter fun line => isSourceLine line.text).map (·.text) =
      (ls.filter fun line => isSourceLine line.text).map (·.text) := by
    rw [List.filter_map, List.map_map]
    rfl
  unfold checkSource
  rw [hmap]

/-- A section is read without what is around it. -/
theorem parseSection_middle {pre post : Bytes} :
    parseSection double (pre ++ (S.flatten ++ post)) (locate pre.length S) source = .ok matrix ↔
      parseSection double S.flatten (locate 0 S) source = .ok matrix := by
  have hshift : locate pre.length S = (locate 0 S).map (Line.shift pre.length) := by
    rw [← locate_shift, Nat.add_zero]
  unfold parseSection
  simp only [bind_eq_ok, pure_eq_ok, plain_eq_ok, hshift, payloadRange_shift, checkSource_shift]
  have hslice : ∀ r, payloadRange (locate 0 S) = .ok r →
      slice (pre ++ (S.flatten ++ post)) (pre.length + r.1) (pre.length + r.2) = slice S.flatten r.1 r.2 := by
    intro r hr
    obtain ⟨last, hmem, hlast⟩ := payloadRange_mem hr
    have hbound := locate_bounds hmem
    have hle := locate_le hmem
    exact slice_middle (by omega)
  constructor
  · rintro ⟨_, hr, m, hm, h⟩
    obtain ⟨r₀, hr₀, rfl⟩ := map_eq_ok.1 hr
    dsimp only at hm
    rw [hslice r₀ hr₀] at hm
    exact ⟨r₀, hr₀, m, hm, h⟩
  · rintro ⟨r, hr, m, hm, h⟩
    refine ⟨_, map_eq_ok.2 ⟨r, hr, rfl⟩, m, ?_, h⟩
    dsimp only
    rw [hslice r hr]
    exact hm

/-! ## Accepted texts -/

theorem startOf_locate {t : Bytes} : startOf (locate 0 (rs ++ t :: ss)) rs.length = rs.flatten.length := by
  unfold startOf
  rw [locate_append, List.getElem?_append_right (by rw [locate_length]), locate_length, Nat.sub_self, locate]
  simp

/-- **The parts of an accepted text.** -/
theorem parseReviewMatrixPlan_eq_ok {p : ReviewMatrixPlan} : parseReviewMatrixPlan double sha256 b source = .ok p ↔
    Ok (parseReviewMatrixSource (some (.str source))) ∧
    Ok (text (.bytes b) maxReviewArtifactBytes (units "artifact")) ∧
    ∃ P h S t T, raws b = P ++ h :: (S ++ t :: T) ∧ Layout P h S t T ∧
      ∃ matrix, parseSection double S.flatten (locate 0 S) source = .ok matrix ∧
        p = ⟨source, (h :: S).flatten, sha256 (h :: S).flatten, matrix, P.flatten⟩ := by
  have hparts : ∀ {P : List Bytes} {h : Bytes} {S : List Bytes} {t : Bytes} {T : List Bytes},
      raws b = P ++ h :: (S ++ t :: T) →
      slice b (startOf (lines b) P.length) (startOf (lines b) (P.length + 1 + S.length)) = (h :: S).flatten ∧
      slice b 0 (startOf (lines b) P.length) = P.flatten ∧
      ∀ m, parseSection double b (((lines b).take (P.length + 1 + S.length)).drop (P.length + 1)) source = .ok m ↔
        parseSection double S.flatten (locate 0 S) source = .ok m := by
    intro P h S t T hr
    have hb : b = P.flatten ++ ((h :: S).flatten ++ (t :: T).flatten) := by
      rw [← flatten_raws b, hr, ← List.cons_append, List.flatten_append, List.flatten_append]
    have hs : startOf (lines b) P.length = P.flatten.length := by
      rw [lines_eq, hr]
      exact startOf_locate
    have he : startOf (lines b) (P.length + 1 + S.length) = P.flatten.length + (h :: S).flatten.length := by
      have hsplit : P ++ h :: (S ++ t :: T) = (P ++ h :: S) ++ t :: T := by simp
      have hlen : P.length + 1 + S.length = (P ++ h :: S).length := by
        rw [List.length_append, List.length_cons]
        omega
      rw [lines_eq, hr, hsplit, hlen, startOf_locate, List.flatten_append, List.length_append]
    have hlines : ((lines b).take (P.length + 1 + S.length)).drop (P.length + 1) =
        locate (P.flatten ++ h).length S := by
      have hsplit : P ++ h :: (S ++ t :: T) = (P ++ [h]) ++ (S ++ t :: T) := by simp
      have hlen : P.length + 1 = (locate 0 (P ++ [h])).length := by
        rw [locate_length, List.length_append]
        rfl
      have hstart : 0 + (P ++ [h]).flatten.length = (P.flatten ++ h).length := by simp
      rw [lines_eq, hr, hsplit, @locate_append (P ++ [h]) (S ++ t :: T) 0, hlen, List.take_length_add_append, List.drop_left,
        hstart, locate_append]
      exact List.take_left' locate_length
    refine ⟨?_, ?_, fun m => ?_⟩
    · rw [hs, he, hb]
      have := @slice_middle P.flatten (h :: S).flatten (t :: T).flatten 0 (h :: S).flatten.length le_rfl
      rw [Nat.add_zero] at this
      rw [this]
      simp [slice]
    · rw [hs]
      conv_lhs => rw [hb]
      simp [slice]
    · rw [hlines, ← @parseSection_middle S double source m (P.flatten ++ h) (t :: T).flatten]
      have hb' : b = (P.flatten ++ h) ++ (S.flatten ++ (t :: T).flatten) := by
        rw [hb]
        simp
      rw [← hb']
  unfold parseReviewMatrixPlan
  simp only [bind_eq_ok, plain_eq_ok, pure_eq_ok, Prod.exists]
  constructor
  · rintro ⟨s, hs, x, hx, i, j, hrange, m, hm, rfl⟩
    obtain ⟨P, h, S, t, T, hr, rfl, rfl, hl⟩ := layout_of_boundaries hrange
    obtain ⟨hauthority, hpreamble, hsection⟩ := hparts hr
    refine ⟨⟨s, hs⟩, ⟨x, hx⟩, P, h, S, t, T, hr, hl, m, (hsection m).1 hm, ?_⟩
    rw [hauthority, hpreamble]
  · rintro ⟨⟨s, hs⟩, ⟨x, hx⟩, P, h, S, t, T, hr, hl, m, hm, rfl⟩
    obtain ⟨hauthority, hpreamble, hsection⟩ := hparts hr
    refine ⟨s, hs, x, hx, P.length, P.length + 1 + S.length, hl.boundaries hr, m, (hsection m).2 hm, ?_⟩
    rw [hauthority, hpreamble]


/-! ## Surroundings -/

/-- Complete lines of UTF-8, without a matrix heading, which leave no fence open. -/
structure Surrounding (b : Bytes) : Prop where
  utf8 : (decodeStrict b).isSome = true
  complete : Complete b
  headings : ∀ line ∈ lines b, isMatrixHeading line.text = false
  balanced : ((lines b).map (·.text)).foldl fenceAfter none = none

variable {before more : Bytes}

theorem markLines_quiet (h : ∀ text ∈ texts, isMatrixHeading text = false) :
    ∃ ms, markLines fence texts = .ok (ms, texts.foldl fenceAfter fence) ∧ ∀ m ∈ ms, m.isMatrix = false := by
  induction texts generalizing fence with
  | nil => exact ⟨[], rfl, by simp⟩
  | cons text texts ih =>
    rw [List.forall_mem_cons] at h
    obtain ⟨ms, hms, hq⟩ := @ih (fenceAfter fence text) h.2
    have hmark : markLine fence text = .ok ⟨false, isBoundary fence text⟩ := by
      rw [markLine_eq_ok, h.1]
      exact ⟨by simp, rfl⟩
    refine ⟨⟨false, isBoundary fence text⟩ :: ms, ?_, ?_⟩
    · rw [markLines, hmark, ok_bind, hms]
      rfl
    · rw [List.forall_mem_cons]
      exact ⟨rfl, hq⟩

/-- What a surrounding adds to the marks. -/
theorem Surrounding.marked (hs : Surrounding b) :
    ∃ ms, markLines none ((raws b).map textOf) = .ok (ms, none) ∧ ∀ m ∈ ms, m.isMatrix = false := by
  have htexts : (lines b).map (·.text) = (raws b).map textOf := by
    rw [lines_eq, locate_text]
  have hbalanced := hs.balanced
  have hheadings : ∀ text ∈ (raws b).map textOf, isMatrixHeading text = false := by
    rw [← htexts]
    intro text ht
    obtain ⟨line, hline, rfl⟩ := List.mem_map.1 ht
    exact hs.headings line hline
  rw [htexts] at hbalanced
  obtain ⟨ms, hms, hq⟩ := @markLines_quiet none _ hheadings
  rw [hbalanced] at hms
  exact ⟨ms, hms, hq⟩

/-- All lines of a complete text have a line feed. -/
theorem raws_complete (hc : Complete b) : ∀ r ∈ raws b, IsLine r := by
  rcases hc with rfl | hc
  · simp [raws]
  · obtain ⟨init, rfl⟩ := List.getLast?_eq_some_iff.1 hc
    clear hc
    induction hn : init.length using Nat.strong_induction_on generalizing init with
    | _ n ih =>
      rcases line_cases (init ++ [10]) with ⟨-, hnot, -⟩ | ⟨rest, -, hline, hb⟩
      · simp at hnot
      · rw [hb, raws_line hline, List.forall_mem_cons]
        refine ⟨hline, ?_⟩
        rcases List.eq_nil_or_concat rest with rfl | ⟨front, c, rfl⟩
        · simp [raws]
        · have hinit : init = (List.takeWhile (· != 10) (init ++ [10]) ++ [10]) ++ front ∧ c = 10 := by
            rw [List.concat_eq_append, ← List.append_assoc] at hb
            obtain ⟨h₁, h₂⟩ := List.append_inj' hb rfl
            exact ⟨h₁, (List.cons.inj h₂).1.symm⟩
          have hlen := congrArg List.length hinit.1
          simp only [List.length_append, List.length_singleton] at hlen
          rw [hinit.2, List.concat_eq_append]
          exact ih front.length (by omega) front rfl

theorem complete_flatten (h : ∀ r ∈ rs, IsLine r) : Complete rs.flatten := by
  rcases List.eq_nil_or_concat rs with rfl | ⟨front, r, rfl⟩
  · exact Or.inl rfl
  · obtain ⟨content, rfl, -⟩ := h r (by simp)
    right
    simp

theorem raws_append (hc : Complete left) : raws (left ++ right) = raws left ++ raws right := by
  have h := @raws_flatten right (raws left) (raws_complete hc)
  rwa [flatten_raws] at h

theorem Layout.replaced (hl : Layout P h S t T) (hs : Surrounding before) : Layout (raws before) h S t T :=
  ⟨hs.marked, hl.title, hl.within, hl.after⟩

theorem Layout.extended (hl : Layout P h S t T) (hs : Surrounding more) : Layout P h S t (T ++ raws more) := by
  obtain ⟨m, ms, hm, hheading, hq⟩ := hl.after
  obtain ⟨ns, hn, hq'⟩ := hs.marked
  refine ⟨hl.before, hl.title, hl.within, m, ms ++ ns, ?_, hheading, ?_⟩
  · rw [← List.cons_append, List.map_append, markLines_append]
    exact ⟨m :: ms, none, ns, hm, hn, rfl⟩
  · rw [← List.cons_append]
    intro x hx
    rcases List.mem_append.1 hx with hx | hx
    · exact hq x hx
    · exact hq' x hx

/-! ## Texts -/

theorem bom_complete (hc : Complete left) (hne : left ≠ []) (h : byteOrderMark.isPrefixOf left = false) :
    byteOrderMark.isPrefixOf (left ++ right) = false := by
  rcases hc with rfl | hc
  · exact absurd rfl hne
  · obtain ⟨init, rfl⟩ := List.getLast?_eq_some_iff.1 hc
    rcases init with _ | ⟨x, _ | ⟨y, _ | ⟨z, init⟩⟩⟩
    · simp [byteOrderMark, List.isPrefixOf]
    · simp [byteOrderMark, List.isPrefixOf]
    · simp [byteOrderMark, List.isPrefixOf]
    · simpa [byteOrderMark, List.isPrefixOf] using h

/-- The heading of the matrix does not begin with a byte order mark. -/
theorem bom_title (hline : IsLine h) (htitle : textOf h = matrixHeading) :
    byteOrderMark.isPrefixOf (h ++ right) = false := by
  obtain ⟨content, rfl, hnot⟩ := hline
  rw [textOf, takeWhile_line hnot] at htitle
  rcases content with _ | ⟨x, _ | ⟨y, _ | ⟨z, content⟩⟩⟩
  · simp [byteOrderMark, List.isPrefixOf]
  · simp [byteOrderMark, List.isPrefixOf]
  · simp [byteOrderMark, List.isPrefixOf]
  · by_contra hbom
    simp only [byteOrderMark, List.cons_append, List.isPrefixOf, Bool.and_true, Bool.not_eq_false,
      Bool.and_eq_true, beq_iff_eq] at hbom
    obtain ⟨rfl, rfl, rfl⟩ := hbom
    have hfirst : ∀ c : Bytes, (Units.decodeUtf8 (0xef :: 0xbb :: 0xbf :: c)).head? = some 0xfeff := by
      intro c
      rfl
    have hhead : (lineText (0xef :: 0xbb :: 0xbf :: content)).head? = some 0xfeff := by
      unfold lineText
      rcases List.eq_nil_or_concat content with rfl | ⟨front, c, rfl⟩
      · exact hfirst []
      · split_ifs
        · rw [List.concat_eq_append, ← List.cons_append, ← List.cons_append, ← List.cons_append,
            List.dropLast_concat]
          exact hfirst front
        · exact hfirst (front.concat c)
    rw [htitle] at hhead
    revert hhead
    decide +kernel

theorem text_bytes_ok {limit : ℕ} {path : Units} : Ok (text (.bytes b) limit path) ↔ b.length ≤ limit ∧
    byteOrderMark.isPrefixOf b = false ∧ Decoder.ground.valid b = true := by
  unfold Ok
  simp only [text_eq_ok, Input.toBytes, Input.unpaired, true_and, exists_and_left, decodeStrict]
  refine and_congr_right fun _ => and_congr_right fun _ => ?_
  split_ifs with h
  · simp [h]
  · simp [h]

theorem Surrounding.valid (hs : Surrounding b) : Decoder.ground.valid b = true := by
  have h := hs.utf8
  unfold decodeStrict at h
  split_ifs at h with hv
  · exact hv
  · cases h

/-- **Matrix authority.**  The bytes of the authority determine the matrix, and other complete
    lines before it or after it leave them as they are. -/
theorem authority_determines (double : Units → Number) (sha256 : Bytes → Units) (source : Units) :
    (∀ b b' p p', parseReviewMatrixPlan double sha256 b source = .ok p →
      parseReviewMatrixPlan double sha256 b' source = .ok p' → p.authorityBytes = p'.authorityBytes →
        p.matrix = p'.matrix ∧ p.digest = p'.digest) ∧
    (∀ b p before, parseReviewMatrixPlan double sha256 b source = .ok p → Surrounding before →
      byteOrderMark.isPrefixOf before = false →
      (before ++ b.drop p.preambleBytes.length).length ≤ maxReviewArtifactBytes →
        ∃ p', parseReviewMatrixPlan double sha256 (before ++ b.drop p.preambleBytes.length) source = .ok p' ∧
          p'.authorityBytes = p.authorityBytes) ∧
    ∀ b p more, parseReviewMatrixPlan double sha256 b source = .ok p → b.getLast? = some 10 → Surrounding more →
      (b ++ more).length ≤ maxReviewArtifactBytes →
        ∃ p', parseReviewMatrixPlan double sha256 (b ++ more) source = .ok p' ∧
          p'.authorityBytes = p.authorityBytes := by
  refine ⟨?_, ?_, ?_⟩
  · intro b b' p p' hp hp' hauthority
    obtain ⟨-, -, P, h, S, t, T, hr, -, m, hm, rfl⟩ := parseReviewMatrixPlan_eq_ok.1 hp
    obtain ⟨-, -, P', h', S', t', T', hr', -, m', hm', rfl⟩ := parseReviewMatrixPlan_eq_ok.1 hp'
    have hlines : ∀ {c : Bytes} {P : List Bytes} {h : Bytes} {S : List Bytes} {t : Bytes} {T : List Bytes},
        raws c = P ++ h :: (S ++ t :: T) → raws (h :: S).flatten = h :: S := by
      intro c P h S t T hc
      have hall := @isLine_of_raws c (P ++ h :: S) T t (by rw [hc]; simp)
      have := @raws_flatten [] (h :: S) fun r hr => hall r (List.mem_append_right P hr)
      rwa [List.append_nil, raws, List.append_nil] at this
    have heq : h :: S = h' :: S' := by
      rw [← hlines hr, ← hlines hr']
      exact congrArg raws hauthority
    obtain ⟨rfl, rfl⟩ := List.cons.inj heq
    rw [hm] at hm'
    exact ⟨Except.ok.inj hm', rfl⟩
  · intro b p before hp hs hbom hlimit
    obtain ⟨hsource, htext, P, h, S, t, T, hr, hl, m, hm, rfl⟩ := parseReviewMatrixPlan_eq_ok.1 hp
    obtain ⟨-, -, hvalid⟩ := text_bytes_ok.1 htext
    have hall := @isLine_of_raws b (P ++ h :: S) T t (by rw [hr]; simp)
    have hb : b = P.flatten ++ (h :: (S ++ t :: T)).flatten := by
      rw [← flatten_raws b, hr, List.flatten_append]
    have hdrop : b.drop P.flatten.length = (h :: (S ++ t :: T)).flatten := by
      conv_lhs => rw [hb]
      exact List.drop_left
    have hrest : raws (h :: (S ++ t :: T)).flatten = h :: (S ++ t :: T) := by
      have h₁ := @raws_flatten (h :: (S ++ t :: T)).flatten P fun r hr => hall r (List.mem_append_left _ hr)
      rw [← hb, hr] at h₁
      exact (List.append_cancel_left h₁).symm
    dsimp only at hlimit ⊢
    rw [hdrop] at hlimit ⊢
    refine ⟨_, parseReviewMatrixPlan_eq_ok.2 ⟨hsource, text_bytes_ok.2 ⟨hlimit, ?_, ?_⟩, raws before, h, S, t, T,
      ?_, hl.replaced hs, m, hm, rfl⟩, rfl⟩
    · by_cases hne : before = []
      · rw [hne, List.nil_append]
        exact bom_title (hall h (by simp)) hl.title
      · exact bom_complete hs.complete hne hbom
    · rw [valid_complete hs.complete, hs.valid]
      have hcomplete : Complete P.flatten := complete_flatten fun r hr => hall r (List.mem_append_left _ hr)
      rw [hb, valid_complete hcomplete, Bool.and_eq_true] at hvalid
      exact hvalid.2
    · rw [raws_append hs.complete, hrest]
  · intro b p more hp hlast hs hlimit
    obtain ⟨hsource, htext, P, h, S, t, T, hr, hl, m, hm, rfl⟩ := parseReviewMatrixPlan_eq_ok.1 hp
    obtain ⟨-, hbom, hvalid⟩ := text_bytes_ok.1 htext
    have hcomplete : Complete b := Or.inr hlast
    have hne : b ≠ [] := by
      rintro rfl
      cases hlast
    refine ⟨_, parseReviewMatrixPlan_eq_ok.2 ⟨hsource, text_bytes_ok.2 ⟨hlimit, bom_complete hcomplete hne hbom, ?_⟩,
      P, h, S, t, T ++ raws more, ?_, hl.extended hs, m, hm, rfl⟩, rfl⟩
    · rw [valid_complete hcomplete, hvalid, hs.valid]
      rfl
    · rw [raws_append hcomplete, hr]
      simp



/-! ## An accepted plan -/

/-- A plan that is accepted. -/
def samplePlan : String :=
"### Full Validation Matrix
Matrix Source: requirements:agent-teams/requirements/artifacts/a.md
```json
\x7b\"schemaVersion\":\"pa-review-matrix/v1\",\"source\":\"requirements:agent-teams/requirements/artifacts/a.md\",
\"repository\":\x7b\"key\":\"a\",\"root\":\"/a\",\"baseSha\":\"0000000000000000000000000000000000000000\",
\"branch\":\"feature/A-1-b\"\x7d,
\"profile\":\"non-node-nix/v1\",
\"prerequisites\":[\x7b\"kind\":\"platform\",\"os\":\"a\",\"arch\":\"a\"\x7d,\x7b\"kind\":\"tool\",\"name\":\"nix\",\"version\":\"nix (Nix) 2.1.1\"\x7d],
\"environment\":\x7b\"PA_REPO\":\x7b\"binding\":\"worktreeRoot\"\x7d,
\"PA_FEATURE_SHA\":\x7b\"binding\":\"featureSha\"\x7d,
\"PA_MATRIX_SOURCE\":\x7b\"binding\":\"matrixSource\"\x7d,
\"PA_MATRIX_AUTHORITY_SHA256\":\x7b\"binding\":\"matrixAuthoritySha256\"\x7d,
\"PA_MATRIX_APPROVAL_EVIDENCE\":\x7b\"binding\":\"matrixApprovalEvidence\"\x7d,
\"PATH\":\x7b\"binding\":\"trustedPath\"\x7d,
\"PA_TICKET_ID\":\x7b\"literal\":\"A-1\"\x7d,\"CI\":\x7b\"literal\":\"1\"\x7d,\"HOME\":\x7b\"literal\":\"/\"\x7d,\"LANG\":\x7b\"literal\":\"C\"\x7d,\"TZ\":\x7b\"literal\":\"U\"\x7d\x7d,
\"commands\":[\x7b\"id\":\"a\",\"command\":\"b\",\"cwd\":\".\",\"timeoutSeconds\":60,\"maxOutputBytes\":1048576\x7d],
\"commandCount\":1,\"outputs\":[\"a: b\"],
\"passCriteria\":\x7b\"completionPercent\":100,\"exitCode\":0,\"critical\":0,\"major\":0,\"minorRationaleRequired\":true\x7d\x7d
```
# A
"
def sampleBytes : Bytes := samplePlan.toList.map fun c => UInt8.ofNat c.toNat

def sampleSource : Units := units "requirements:agent-teams/requirements/artifacts/a.md"

/-- A heading above the plan. -/
def sampleTitle : Bytes := [35, 32, 97, 10]

set_option maxRecDepth 100000 in
theorem samplePlan_accepted :
    (parseReviewMatrixPlan Number.float (fun _ => []) sampleBytes sampleSource).isOk = true ∧
      sampleBytes.length ≤ 2000 ∧ sampleBytes.getLast? = some 10 := by
  have h : sampleBytes = (_ : List Char).map fun c => UInt8.ofNat c.toNat := congrArg _ String.toList_ofList
  rw [h]
  decide +kernel

theorem sampleTitle_surrounding : Surrounding sampleTitle ∧ byteOrderMark.isPrefixOf sampleTitle = false := by
  refine ⟨⟨?_, Or.inr rfl, ?_, ?_⟩, ?_⟩ <;> decide +kernel

/-- The plan with a title before it, or with its title after it, has the same authority. -/
theorem samplePlan_surrounded : ∃ p before after,
    parseReviewMatrixPlan Number.float (fun _ => []) sampleBytes sampleSource = .ok p ∧
    parseReviewMatrixPlan Number.float (fun _ => []) (sampleTitle ++ sampleBytes.drop p.preambleBytes.length)
      sampleSource = .ok before ∧
    parseReviewMatrixPlan Number.float (fun _ => []) (sampleBytes ++ sampleTitle) sampleSource = .ok after ∧
    before.authorityBytes = p.authorityBytes ∧ after.authorityBytes = p.authorityBytes ∧
    before.matrix = p.matrix ∧ after.matrix = p.matrix := by
  obtain ⟨hok, hlength, hlast⟩ := samplePlan_accepted
  obtain ⟨hs, hbom⟩ := sampleTitle_surrounding
  cases hp : parseReviewMatrixPlan Number.float (fun _ => []) sampleBytes sampleSource with
  | error e =>
    rw [hp] at hok
    cases hok
  | ok p =>
    have htitle : sampleTitle.length = 4 := rfl
    have hlimit : maxReviewArtifactBytes = 1048576 := rfl
    obtain ⟨hsame, hbefore, hafter⟩ := authority_determines Number.float (fun _ => []) sampleSource
    obtain ⟨p₁, h₁, e₁⟩ := hbefore sampleBytes p sampleTitle hp hs hbom (by
      rw [List.length_append, List.length_drop]
      omega)
    obtain ⟨p₂, h₂, e₂⟩ := hafter sampleBytes p sampleTitle hp hlast hs (by
      rw [List.length_append]
      omega)
    exact ⟨p, p₁, p₂, rfl, h₁, h₂, e₁, e₂, (hsame _ _ _ _ h₁ hp e₁).1, (hsame _ _ _ _ h₂ hp e₂).1⟩

end PaPlatform.Validation.Review
