/-
  The order of ticket ids (`tickets/board.ts`): runs of digits are compared by their
  numbers, other runs and ties as raw text.

  The comparison is decided by a key in a linear order: the keys of the tokens, and
  then the text.
-/
import PaPlatform.Lib.JsonRound
import PaPlatform.Lib.UnitsOrder

namespace PaPlatform.Tickets

open Js Units Comparator

/-! ## Comparison -/

/-- `left < right ? -1 : left > right ? 1 : 0`. -/
def compareRawText (left right : Units) : ℤ := compareUnits left right

/-- `s.match(/\d+|\D+/g)`: the runs of digits and of other units. -/
def runs : Units → List Units
  | [] => []
  | u :: s =>
    match runs s with
    | (v :: t) :: ts =>
      if Units.isDigit u = Units.isDigit v then (u :: v :: t) :: ts else [u] :: (v :: t) :: ts
    | ts => [u] :: ts

/-- `s.match(NATURAL_TOKEN) ?? [s]`. -/
def tokens (s : Units) : List Units := if runs s = [] then [s] else runs s

/-- `/^\d+$/`. -/
def isDecimal (s : Units) : Bool := s != [] && s.all Units.isDigit

/-- `s.replace(/^0+(?=\d)/, "")`. -/
def normalized (s : Units) : Units :=
  let rest := s.dropWhile (· == 0x30)
  if rest.head?.any Units.isDigit ∨ rest.length = s.length then rest else 0x30 :: rest

def compareDecimalStrings (left right : Units) : ℤ :=
  let normalizedLeft := normalized left
  let normalizedRight := normalized right
  if normalizedLeft.length ≠ normalizedRight.length then
    if normalizedLeft.length < normalizedRight.length then -1 else 1
  else compareRawText normalizedLeft normalizedRight

def compareToken (left right : Units) : ℤ :=
  if isDecimal left ∧ isDecimal right then compareDecimalStrings left right else compareRawText left right

/-- The first tokens that differ, or the numbers of tokens. -/
def compareTokens : List Units → List Units → ℤ
  | l :: ls, r :: rs => if compareToken l r ≠ 0 then compareToken l r else compareTokens ls rs
  | ls, rs => if ls.length ≠ rs.length then if ls.length < rs.length then -1 else 1 else 0

/-- Compare ticket IDs without locale or numeric-range dependent behavior. -/
def compareTicketIds (left right : Units) : ℤ :=
  if left = right then 0
  else if compareTokens (tokens left) (tokens right) ≠ 0 then compareTokens (tokens left) (tokens right)
  else compareRawText left right

variable {s t l r : Units} {u v : UInt16}

/-! ## Raw text -/

theorem compareRawText_decides (l r : Units) : Decides (compareRawText l r) (textKey l) (textKey r) :=
  compareUnits_decides l r

theorem compareRawText_neg (h : l < r) : compareRawText l r = -1 := if_pos h

theorem compareRawText_pos (h : r < l) : compareRawText l r = 1 := by
  unfold compareRawText compareUnits
  rw [if_neg (fun h' => (textKey_lt.2 h').asymm (textKey_lt.2 h)), if_pos h]

/-! ## Numbers -/

theorem ofDecimal_cons : Value.ofDecimal (u :: s) = (u.toNat - 48) * 10 ^ s.length + Value.ofDecimal s := by
  unfold Value.ofDecimal
  rw [List.map_cons, List.reverse_cons, Nat.ofDigits_append, Nat.ofDigits_singleton, List.length_reverse,
    List.length_map, Nat.add_comm, Nat.mul_comm]

theorem digit_bounds (h : Units.isDigit u = true) : 48 ≤ u.toNat ∧ u.toNat ≤ 57 := by
  have h := Bool.and_eq_true_iff.1 h
  exact ⟨UInt16.le_iff_toNat_le.1 (of_decide_eq_true h.1), UInt16.le_iff_toNat_le.1 (of_decide_eq_true h.2)⟩

theorem ofDecimal_lt (h : ∀ u ∈ s, Units.isDigit u = true) : Value.ofDecimal s < 10 ^ s.length := by
  induction s with
  | nil => simp [Value.ofDecimal]
  | cons u s ih =>
    rw [List.forall_mem_cons] at h
    have hu := digit_bounds h.1
    have hs := ih h.2
    rw [ofDecimal_cons, List.length_cons, Nat.pow_succ]
    have hmul : (u.toNat - 48) * 10 ^ s.length ≤ 9 * 10 ^ s.length := Nat.mul_le_mul_right _ (by omega)
    omega

/-- Texts of one length are compared as numbers. -/
theorem lt_iff_ofDecimal (hs : ∀ u ∈ s, Units.isDigit u = true) (ht : ∀ u ∈ t, Units.isDigit u = true)
    (hl : s.length = t.length) : s < t ↔ Value.ofDecimal s < Value.ofDecimal t := by
  induction s generalizing t with
  | nil =>
    cases t with
    | nil => simp
    | cons v t => cases hl
  | cons u s ih =>
    cases t with
    | nil => cases hl
    | cons v t =>
      rw [List.forall_mem_cons] at hs ht
      have hlen : s.length = t.length := Nat.succ.inj hl
      have hu := digit_bounds hs.1
      have hv := digit_bounds ht.1
      have hslt := ofDecimal_lt hs.2
      have htlt := ofDecimal_lt ht.2
      rw [List.cons_lt_cons_iff, ih hs.2 ht.2 hlen, ofDecimal_cons, ofDecimal_cons, hlen]
      rw [hlen] at hslt
      generalize 10 ^ t.length = p at *
      generalize Value.ofDecimal s = a at *
      generalize Value.ofDecimal t = b at *
      rcases lt_trichotomy u.toNat v.toNat with h | h | h
      · have hmul : (u.toNat - 48 + 1) * p ≤ (v.toNat - 48) * p := Nat.mul_le_mul_right _ (by omega)
        rw [Nat.add_mul, Nat.one_mul] at hmul
        exact ⟨fun _ => by omega, fun _ => Or.inl (UInt16.lt_iff_toNat_lt.2 h)⟩
      · rw [UInt16.toNat_inj] at h
        subst h
        simp
      · have hmul : (v.toNat - 48 + 1) * p ≤ (u.toNat - 48) * p := Nat.mul_le_mul_right _ (by omega)
        rw [Nat.add_mul, Nat.one_mul] at hmul
        constructor
        · rintro (hlt | ⟨rfl, -⟩)
          · exact absurd (UInt16.lt_iff_toNat_lt.1 hlt) h.asymm
          · exact absurd h (Nat.lt_irrefl _)
        · intro hlt
          omega

/-- A text of digits that does not begin with a zero, unless it is one digit. -/
def NormalDigits (s : Units) : Prop :=
  s ≠ [] ∧ (∀ u ∈ s, Units.isDigit u = true) ∧ (s.head? = some 0x30 → s.length = 1)

theorem NormalDigits.le (hs : NormalDigits s) (hl : 1 < s.length) : 10 ^ (s.length - 1) ≤ Value.ofDecimal s := by
  obtain ⟨-, hdigits, hzero⟩ := hs
  cases s with
  | nil => cases hl
  | cons u s =>
    have hu := digit_bounds (hdigits u (List.mem_cons_self ..))
    have hne : u.toNat ≠ 48 := by
      intro h
      have hu : u = 0x30 := UInt16.toNat_inj.1 h
      have := hzero (by rw [hu]; rfl)
      omega
    rw [ofDecimal_cons, List.length_cons, Nat.add_sub_cancel]
    have hmul : 1 * 10 ^ s.length ≤ (u.toNat - 48) * 10 ^ s.length := Nat.mul_le_mul_right _ (by omega)
    omega

theorem NormalDigits.lt_of_length (hs : NormalDigits s) (ht : NormalDigits t) (h : s.length < t.length) :
    Value.ofDecimal s < Value.ofDecimal t := by
  have hpos := List.length_pos_iff.2 hs.1
  calc Value.ofDecimal s < 10 ^ s.length := ofDecimal_lt hs.2.1
    _ ≤ 10 ^ (t.length - 1) := Nat.pow_le_pow_right (by omega) (by omega)
    _ ≤ Value.ofDecimal t := ht.le (by omega)

/-- Leading zeros do not change the number. -/
theorem normalized_spec (h : isDecimal s = true) : NormalDigits (normalized s) ∧
    Value.ofDecimal (normalized s) = Value.ofDecimal s := by
  simp only [isDecimal, Bool.and_eq_true, bne_iff_ne, List.all_eq_true] at h
  obtain ⟨hne, hdigits⟩ := h
  have happ := List.takeWhile_append_dropWhile (p := fun u : UInt16 => u == 0x30) (l := s)
  have hzeros : ∀ u ∈ s.takeWhile (· == 0x30), u = 0x30 := fun u hu => by
    simpa using List.mem_takeWhile_imp hu
  have hnumber : ∀ z : Units, (∀ u ∈ z, u = 0x30) → ∀ t, Value.ofDecimal (z ++ t) = Value.ofDecimal t := by
    intro z hz t
    induction z with
    | nil => rfl
    | cons u z ih =>
      rw [List.forall_mem_cons] at hz
      rw [List.cons_append, ofDecimal_cons, hz.1, ih hz.2]
      simp
  have hvalue : Value.ofDecimal (s.dropWhile (· == 0x30)) = Value.ofDecimal s := by
    conv_rhs => rw [← happ]
    exact (hnumber _ hzeros _).symm
  have hrest : ∀ u ∈ s.dropWhile (· == 0x30), Units.isDigit u = true := by
    intro u hu
    refine hdigits u ?_
    rw [← happ]
    exact List.mem_append_right _ hu
  have hhead := List.head?_dropWhile_not (fun u : UInt16 => u == 0x30) s
  unfold normalized
  dsimp only
  cases hr : s.dropWhile (· == 0x30) with
  | nil =>
    have hlen : ¬ (0 = s.length) := fun h => hne (List.length_eq_zero_iff.1 h.symm)
    rw [hr] at hvalue
    rw [if_neg (by simpa using hlen), ← hvalue]
    refine ⟨⟨List.cons_ne_nil _ _, ?_, fun _ => rfl⟩, rfl⟩
    intro u hu
    rw [List.mem_singleton.1 hu]
    rfl
  | cons u t =>
    rw [hr] at hvalue hrest hhead
    rw [if_pos (by simp [hrest u (List.mem_cons_self ..)])]
    refine ⟨⟨List.cons_ne_nil _ _, hrest, fun h => ?_⟩, hvalue⟩
    simp at hhead h
    exact absurd h hhead

theorem compareDecimalStrings_decides (hl : isDecimal l = true) (hr : isDecimal r = true) :
    Decides (compareDecimalStrings l r) (Value.ofDecimal l) (Value.ofDecimal r) := by
  obtain ⟨hln, hlv⟩ := normalized_spec hl
  obtain ⟨hrn, hrv⟩ := normalized_spec hr
  rw [← hlv, ← hrv]
  unfold compareDecimalStrings
  dsimp only
  generalize normalized l = a at *
  generalize normalized r = b at *
  split_ifs with hne hlt
  · exact Or.inl ⟨rfl, hln.lt_of_length hrn hlt⟩
  · exact Or.inr (Or.inr ⟨rfl, hrn.lt_of_length hln (by omega)⟩)
  · rw [ne_eq, not_not] at hne
    rcases compareRawText_decides a b with ⟨h, hk⟩ | ⟨h, hk⟩ | ⟨h, hk⟩
    · exact Or.inl ⟨h, (lt_iff_ofDecimal hln.2.1 hrn.2.1 hne).1 (textKey_lt.1 hk)⟩
    · exact Or.inr (Or.inl ⟨h, congrArg Value.ofDecimal (textKey_injective hk)⟩)
    · exact Or.inr (Or.inr ⟨h, (lt_iff_ofDecimal hrn.2.1 hln.2.1 hne.symm).1 (textKey_lt.1 hk)⟩)


/-! ## Tokens -/

/-- Digits sort before the units above nine and after the others. -/
def rank (t : Units) : ℕ := if t.head?.any (0x39 < ·) then 2 else 0

/-- The key of a token: its number, or its text. -/
def tokenKey (t : Units) : ℕ ×ₗ ℕ ×ₗ List ℕ :=
  if isDecimal t then toLex (1, toLex (Value.ofDecimal t, [])) else toLex (rank t, toLex (0, textKey t))

/-- Digits only, or a text that does not begin with a digit. -/
def IsToken (t : Units) : Prop := isDecimal t = true ∨ ∀ u ∈ t.head?, Units.isDigit u = false

theorem isDecimal_head (h : isDecimal s = true) : ∃ u t, s = u :: t ∧ Units.isDigit u = true := by
  simp only [isDecimal, Bool.and_eq_true, bne_iff_ne, List.all_eq_true] at h
  cases s with
  | nil => exact absurd rfl h.1
  | cons u t => exact ⟨u, t, rfl, h.2 u (List.mem_cons_self ..)⟩

theorem rank_mono (h : l < r) : rank l ≤ rank r := by
  unfold rank
  cases l with
  | nil => simp
  | cons u l =>
    cases r with
    | nil => simp at h
    | cons v r =>
      simp only [List.head?_cons, Option.any_some, decide_eq_true_eq]
      rw [List.cons_lt_cons_iff] at h
      split_ifs with hu hv
      · exact le_rfl
      · rcases h with h | ⟨rfl, -⟩
        · exact absurd (UInt16.lt_trans hu h) hv
        · exact absurd hu hv
      · exact Nat.zero_le _
      · exact le_rfl

theorem texts_decide (l r : Units) :
    Decides (compareRawText l r) (toLex (rank l, toLex (0, textKey l)) : ℕ ×ₗ ℕ ×ₗ List ℕ)
      (toLex (rank r, toLex (0, textKey r))) := by
  have hlt : ∀ {a b : Units}, textKey a < textKey b →
      (toLex (rank a, toLex (0, textKey a)) : ℕ ×ₗ ℕ ×ₗ List ℕ) < toLex (rank b, toLex (0, textKey b)) := by
    intro a b h
    rw [Prod.Lex.toLex_lt_toLex, Prod.Lex.toLex_lt_toLex]
    rcases (rank_mono (textKey_lt.1 h)).lt_or_eq with hr | hr
    · exact Or.inl hr
    · exact Or.inr ⟨hr, Or.inr ⟨rfl, h⟩⟩
  rcases compareRawText_decides l r with ⟨hn, h⟩ | ⟨hn, h⟩ | ⟨hn, h⟩
  · exact Or.inl ⟨hn, hlt h⟩
  · rw [textKey_injective h] at hn ⊢
    exact Or.inr (Or.inl ⟨hn, rfl⟩)
  · exact Or.inr (Or.inr ⟨hn, hlt h⟩)

/-- A text that does not begin with a digit is below or above all numbers. -/
theorem text_number (hl : ∀ u ∈ l.head?, Units.isDigit u = false) (hr : isDecimal r = true) :
    rank l = 0 ∧ l < r ∨ rank l = 2 ∧ r < l := by
  obtain ⟨v, t, rfl, hv⟩ := isDecimal_head hr
  have hbounds := digit_bounds hv
  cases l with
  | nil => exact Or.inl ⟨rfl, by simp⟩
  | cons u s =>
    have hu := hl u rfl
    simp only [Units.isDigit, within, Bool.and_eq_false_iff, decide_eq_false_iff_not, UInt16.le_iff_toNat_le] at hu
    have hzero : (unit '0').toNat = 48 := rfl
    have hnine : (unit '9').toNat = 57 := rfl
    have hconst : (0x39 : UInt16).toNat = 57 := rfl
    unfold rank
    simp only [List.head?_cons, Option.any_some, decide_eq_true_eq, List.cons_lt_cons_iff, UInt16.lt_iff_toNat_lt]
    split_ifs with h
    · exact Or.inr ⟨rfl, Or.inl (by omega)⟩
    · exact Or.inl ⟨rfl, Or.inl (by omega)⟩

theorem compareToken_decides (hl : IsToken l) (hr : IsToken r) :
    Decides (compareToken l r) (tokenKey l) (tokenKey r) := by
  unfold compareToken tokenKey
  by_cases hdl : isDecimal l = true
  · by_cases hdr : isDecimal r = true
    · rw [if_pos ⟨hdl, hdr⟩, if_pos hdl, if_pos hdr]
      unfold Decides
      simp only [Prod.Lex.toLex_lt_toLex, lt_irrefl, false_or, true_and, and_false, or_false, toLex_inj,
        Prod.mk.injEq, and_true]
      exact compareDecimalStrings_decides hdl hdr
    · rw [if_neg (fun h => hdr h.2), if_pos hdl, if_neg hdr]
      have hk := compareRawText_decides l r
      rcases text_number (hr.resolve_left hdr) hdl with ⟨h0, hlt⟩ | ⟨h2, hlt⟩
      · right; right
        refine ⟨compareRawText_pos hlt, ?_⟩
        rw [Prod.Lex.toLex_lt_toLex, h0]
        exact Or.inl Nat.zero_lt_one
      · left
        refine ⟨compareRawText_neg hlt, ?_⟩
        rw [Prod.Lex.toLex_lt_toLex, h2]
        exact Or.inl Nat.one_lt_two
  · rw [if_neg (fun h => hdl h.1), if_neg hdl]
    by_cases hdr : isDecimal r = true
    · rw [if_pos hdr]
      rcases text_number (hl.resolve_left hdl) hdr with ⟨h0, hlt⟩ | ⟨h2, hlt⟩
      · left
        refine ⟨compareRawText_neg hlt, ?_⟩
        rw [Prod.Lex.toLex_lt_toLex, h0]
        exact Or.inl Nat.zero_lt_one
      · right; right
        refine ⟨compareRawText_pos hlt, ?_⟩
        rw [Prod.Lex.toLex_lt_toLex, h2]
        exact Or.inl Nat.one_lt_two
    · rw [if_neg hdr]
      exact texts_decide l r

theorem compareTokens_decides {ls rs : List Units} (hl : ∀ t ∈ ls, IsToken t) (hr : ∀ t ∈ rs, IsToken t) :
    Decides (compareTokens ls rs) (ls.map tokenKey) (rs.map tokenKey) := by
  induction ls generalizing rs with
  | nil =>
    cases rs with
    | nil => exact Or.inr (Or.inl ⟨rfl, rfl⟩)
    | cons r rs => exact Or.inl ⟨rfl, by simp⟩
  | cons l ls ih =>
    cases rs with
    | nil => exact Or.inr (Or.inr ⟨rfl, by simp⟩)
    | cons r rs =>
      rw [List.forall_mem_cons] at hl hr
      exact (compareToken_decides hl.1 hr.1).cons (ih hl.2 hr.2)

/-! ## Runs -/

theorem runs_cons (u : UInt16) (s : Units) : ∃ t ts, runs (u :: s) = (u :: t) :: ts := by
  rw [runs]
  split
  · split_ifs
    · exact ⟨_, _, rfl⟩
    · exact ⟨_, _, rfl⟩
  · exact ⟨_, _, rfl⟩

theorem runs_ne_nil (h : s ≠ []) : runs s ≠ [] := by
  cases s with
  | nil => exact absurd rfl h
  | cons u s =>
    obtain ⟨t, ts, h⟩ := runs_cons u s
    rw [h]
    exact List.cons_ne_nil _ _

/-- A run has only digits or no digit. -/
theorem mem_runs (h : t ∈ runs s) : ∃ u rest, t = u :: rest ∧ ∀ v ∈ t, Units.isDigit v = Units.isDigit u := by
  induction s generalizing t with
  | nil => cases h
  | cons u s ih =>
    rw [runs] at h
    split at h
    · next v w ws hs =>
      split_ifs at h with hd
      · rcases List.mem_cons.1 h with rfl | h
        · obtain ⟨v', rest, he, hall⟩ := ih (by rw [hs]; exact List.mem_cons_self ..)
          obtain ⟨rfl, rfl⟩ := List.cons.inj he
          refine ⟨u, _, rfl, ?_⟩
          rw [List.forall_mem_cons]
          exact ⟨rfl, fun x hx => (hall x hx).trans hd.symm⟩
        · exact ih (by rw [hs]; exact List.mem_cons_of_mem _ h)
      · rcases List.mem_cons.1 h with rfl | h
        · exact ⟨u, [], rfl, by simp⟩
        · exact ih (by rw [hs]; exact h)
    · rcases List.mem_cons.1 h with rfl | h
      · exact ⟨u, [], rfl, by simp⟩
      · exact ih h

theorem isToken_of_mem (h : t ∈ tokens s) : IsToken t := by
  unfold tokens at h
  split_ifs at h with hs
  · rw [List.mem_singleton.1 h]
    have hnil : s = [] := by
      by_contra hne
      exact runs_ne_nil hne hs
    rw [hnil]
    exact Or.inr (by simp)
  · obtain ⟨u, rest, rfl, hall⟩ := mem_runs h
    cases hu : Units.isDigit u with
    | true =>
      left
      simp only [isDecimal, Bool.and_eq_true, bne_iff_ne, List.all_eq_true]
      exact ⟨List.cons_ne_nil _ _, fun v hv => (hall v hv).trans hu⟩
    | false =>
      right
      rintro v ⟨⟩
      exact hu

theorem runs_append (h : ∀ u ∈ s.getLast?, ∀ v ∈ t.head?, Units.isDigit u ≠ Units.isDigit v) :
    runs (s ++ t) = runs s ++ runs t := by
  induction s with
  | nil => rfl
  | cons u s ih =>
    cases s with
    | nil =>
      cases t with
      | nil => rfl
      | cons v t =>
        obtain ⟨w, ws, hw⟩ := runs_cons v t
        show runs (u :: v :: t) = [[u]] ++ _
        rw [runs, hw]
        exact if_neg (h u rfl v rfl)
    | cons v s =>
      have ih := ih (by simpa using h)
      obtain ⟨w, ws, hw⟩ := runs_cons v s
      have hleft : runs (u :: v :: s) =
          if Units.isDigit u = Units.isDigit v then (u :: v :: w) :: ws else [u] :: (v :: w) :: ws := by
        rw [runs, hw]
      have hright : runs (u :: (v :: s ++ t)) = if Units.isDigit u = Units.isDigit v then
          (u :: v :: w) :: (ws ++ runs t) else [u] :: (v :: w) :: (ws ++ runs t) := by
        rw [runs, ih, hw]
        rfl
      rw [List.cons_append, hleft, hright]
      split_ifs <;> rfl

theorem runs_digits (h : isDecimal s = true) : runs s = [s] := by
  simp only [isDecimal, Bool.and_eq_true, bne_iff_ne, List.all_eq_true] at h
  obtain ⟨hne, hdigits⟩ := h
  induction s with
  | nil => exact absurd rfl hne
  | cons u s ih =>
    rw [List.forall_mem_cons] at hdigits
    cases s with
    | nil => rfl
    | cons v s =>
      rw [runs, ih (List.cons_ne_nil _ _) hdigits.2]
      exact if_pos (by rw [hdigits.1, hdigits.2 v (List.mem_cons_self ..)])

/-! ## Ticket ids -/

/-- The key of a ticket id: the keys of its tokens, and its text. -/
def ticketKey (s : Units) : List (ℕ ×ₗ ℕ ×ₗ List ℕ) ×ₗ List ℕ := toLex ((tokens s).map tokenKey, textKey s)

theorem compareTicketIds_decided : DecidedBy compareTicketIds ticketKey := by
  intro a b
  unfold compareTicketIds
  split_ifs with heq hne
  · rw [heq]
    exact Or.inr (Or.inl ⟨rfl, rfl⟩)
  all_goals
    have h := (compareTokens_decides (fun _ => isToken_of_mem (s := a)) (fun _ => isToken_of_mem (s := b))).lex
      (compareRawText_decides a b)
  · rwa [if_pos hne] at h
  · rwa [if_neg hne] at h

variable {p d e : Units}

/-- The tokens of an id around a run of digits. -/
theorem tokens_around (hp : ∀ u ∈ p.getLast?, Units.isDigit u = false) (hd : isDecimal d = true)
    (hr : ∀ u ∈ r.head?, Units.isDigit u = false) : tokens (p ++ d ++ r) = runs p ++ d :: runs r := by
  obtain ⟨v, t, rfl, hv⟩ := isDecimal_head hd
  have hall := hd
  simp only [isDecimal, Bool.and_eq_true, bne_iff_ne, List.all_eq_true] at hall
  have hne : p ++ (v :: t) ++ r ≠ [] := by simp
  unfold tokens
  rw [if_neg (runs_ne_nil hne), runs_append, runs_append, runs_digits hd, List.append_assoc]
  · rfl
  · intro u hu w hw
    rw [hp u hu]
    simp only [List.head?_cons, Option.mem_some_iff] at hw
    rw [← hw, hv]
    decide
  · intro u hu w hw
    have hmem : u ∈ v :: t := by
      rw [List.getLast?_append_of_ne_nil _ (List.cons_ne_nil v t)] at hu
      exact List.mem_of_getLast? hu
    rw [hr w hw, hall.2 u hmem]
    decide

/-- **The order of ticket ids** is a strict total order, and by number at a run of digits. -/
theorem compareTicketIds_strict :
    (∀ a b, compareTicketIds a b = 0 ↔ a = b) ∧
    (∀ a b, compareTicketIds b a = -compareTicketIds a b) ∧
    (∀ a b c, compareTicketIds a b < 0 → compareTicketIds b c < 0 → compareTicketIds a c < 0) ∧
    ∀ p d e r s, (∀ u ∈ p.getLast?, Units.isDigit u = false) → isDecimal d = true → isDecimal e = true →
      (∀ u ∈ r.head?, Units.isDigit u = false) → (∀ u ∈ s.head?, Units.isDigit u = false) →
      (Value.ofDecimal d < Value.ofDecimal e → compareTicketIds (p ++ d ++ r) (p ++ e ++ s) < 0) ∧
      (Value.ofDecimal e < Value.ofDecimal d → 0 < compareTicketIds (p ++ d ++ r) (p ++ e ++ s)) := by
  have hnumber : ∀ {p d e r s : Units}, (∀ u ∈ p.getLast?, Units.isDigit u = false) → isDecimal d = true →
      isDecimal e = true → (∀ u ∈ r.head?, Units.isDigit u = false) → (∀ u ∈ s.head?, Units.isDigit u = false) →
      Value.ofDecimal d < Value.ofDecimal e → compareTicketIds (p ++ d ++ r) (p ++ e ++ s) < 0 := by
    intro p d e r s hp hd he hr hs hlt
    rw [compareTicketIds_decided.neg_iff, ticketKey, ticketKey, Prod.Lex.toLex_lt_toLex]
    left
    rw [tokens_around hp hd hr, tokens_around hp he hs, List.map_append, List.map_append]
    refine List.append_left_lt ?_
    rw [List.map_cons, List.map_cons, List.cons_lt_cons_iff]
    left
    rw [tokenKey, tokenKey, if_pos hd, if_pos he, Prod.Lex.toLex_lt_toLex]
    exact Or.inr ⟨rfl, Prod.Lex.toLex_lt_toLex.2 (Or.inl hlt)⟩
  refine ⟨fun a b => ?_, fun a b => compareTicketIds_decided.antisymm, fun a b c => compareTicketIds_decided.trans,
    fun p d e r s hp hd he hr hs => ⟨hnumber hp hd he hr hs, fun hlt => ?_⟩⟩
  · rw [compareTicketIds_decided.zero_iff]
    constructor
    · intro h
      exact textKey_injective (congrArg (fun k => (ofLex k).2) h)
    · exact congrArg ticketKey
  · rw [compareTicketIds_decided.antisymm]
    have := hnumber hp he hd hs hr hlt
    omega

example : compareTicketIds (units "PAP-002") (units "PAP-2") = -1 := by decide +kernel

end PaPlatform.Tickets
