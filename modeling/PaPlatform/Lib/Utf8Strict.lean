/-
  Strict UTF-8: `new TextDecoder("utf-8", { fatal: true, ignoreBOM: true })`.

  It accepts exactly the texts of well-formed strings.
-/
import PaPlatform.Lib.Utf8

namespace Js.Units

open Value

/-- The next byte goes on with a sequence or begins one. -/
def Decoder.accepts (d : Decoder) (b : ℕ) : Bool :=
  if d.needed = 0 then b < 0x80 || (0xc2 ≤ b && b ≤ 0xf4) else d.low ≤ b && b ≤ d.high

/-- No byte is replaced. -/
def Decoder.valid (d : Decoder) : Bytes → Bool
  | [] => d.needed = 0
  | b :: bytes => d.accepts b.toNat && valid (d.next b.toNat).2 bytes

/-- `decoder.decode(bytes)`; it throws for bytes that are not UTF-8. -/
def decodeStrict (bytes : Bytes) : Option Units :=
  if Decoder.ground.valid bytes then some (decodeUtf8 bytes) else none

/-- `new TextDecoder("utf-8", { fatal: true }).decode(bytes)`. -/
def decodeFatal (bytes : Bytes) : Option Units :=
  (decodeStrict bytes).map fun s => if s.head? = some 0xfeff then s.drop 1 else s

/-! ## Code points -/

/-- A code point that is not a surrogate. -/
def Scalar (n : ℕ) : Prop := n < 0x110000 ∧ ¬ (0xd800 ≤ n ∧ n < 0xe000)

variable {bytes : Bytes} {s : Units} {n : ℕ}

theorem toNat_high (hn : n < 0x110000) :
    (UInt16.ofNat (0xd800 + (n - 0x10000) / 0x400)).toNat = 0xd800 + (n - 0x10000) / 0x400 :=
  UInt16.toNat_ofNat_of_lt' (by show _ < 65536; omega)

theorem toNat_low : (UInt16.ofNat (0xdc00 + (n - 0x10000) % 0x400)).toNat = 0xdc00 + (n - 0x10000) % 0x400 :=
  UInt16.toNat_ofNat_of_lt' (by show _ < 65536; omega)

/-- The halves of a code point beyond the basic plane. -/
theorem pair_ofCodePoint (hn : n < 0x110000) :
    isHigh (UInt16.ofNat (0xd800 + (n - 0x10000) / 0x400)) = true ∧
      isLow (UInt16.ofNat (0xdc00 + (n - 0x10000) % 0x400)) = true := by
  simp only [isHigh, isLow, Bool.and_eq_true, decide_eq_true_eq, UInt16.le_iff_toNat_le, UInt16.lt_iff_toNat_lt,
    UInt16.reduceToNat, toNat_high hn, toNat_low]
  omega

theorem unit_ofCodePoint (h : Scalar n) (h1 : n < 0x10000) : isSurrogate (UInt16.ofNat n) = false := by
  rw [← Bool.not_eq_true, toNat_surrogate, UInt16.toNat_ofNat_of_lt' h1]
  exact h.2

theorem wellFormed_ofCodePoint (h : Scalar n) : WellFormed (ofCodePoint n) := by
  unfold ofCodePoint
  split_ifs with h1
  · exact .unit (unit_ofCodePoint h h1) .nil
  · exact .pair (pair_ofCodePoint h.1).1 (pair_ofCodePoint h.1).2 .nil

theorem pairPoint_ofCodePoint {u v : UInt16} (h1 : ¬ n < 0x10000) (hu : u.toNat = 0xd800 + (n - 0x10000) / 0x400)
    (hv : v.toNat = 0xdc00 + (n - 0x10000) % 0x400) : pairPoint u v = n := by
  have hdiv := Nat.div_add_mod (n - 0x10000) 0x400
  unfold pairPoint
  omega

theorem encodeUtf8_ofCodePoint (h : Scalar n) : encodeUtf8 (ofCodePoint n ++ s) = encodePoint n ++ encodeUtf8 s := by
  unfold ofCodePoint
  split_ifs with h1
  · have hunit := encodeUtf8_unit (s := s) (unit_ofCodePoint h h1)
    rwa [UInt16.toNat_ofNat_of_lt' h1] at hunit
  · obtain ⟨hu, hv⟩ := pair_ofCodePoint h.1
    have hpoint := pairPoint_ofCodePoint h1 (toNat_high h.1) toNat_low
    generalize UInt16.ofNat (0xd800 + (n - 0x10000) / 0x400) = u at hu hpoint ⊢
    generalize UInt16.ofNat (0xdc00 + (n - 0x10000) % 0x400) = v at hv hpoint ⊢
    rw [List.cons_append, List.cons_append, List.nil_append, encodeUtf8, if_pos (Bool.and_eq_true_iff.2 ⟨hu, hv⟩), hpoint]

/-! ## Sequences -/

theorem valid_ground {b : UInt8} : Decoder.ground.valid (b :: bytes) = true ↔
    (b.toNat < 0x80 ∨ 0xc2 ≤ b.toNat ∧ b.toNat ≤ 0xf4) ∧ (Decoder.first b.toNat).2.valid bytes = true := by
  have haccepts : Decoder.ground.accepts b.toNat = (decide (b.toNat < 0x80) || (0xc2 ≤ b.toNat && b.toNat ≤ 0xf4)) := rfl
  have hnext : Decoder.ground.next b.toNat = Decoder.first b.toNat := rfl
  rw [Decoder.valid, haccepts, hnext, Bool.and_eq_true, Bool.or_eq_true, Bool.and_eq_true]
  simp only [decide_eq_true_eq]

theorem valid_more {d : Decoder} (hn : 1 < d.needed) (h : d.valid bytes = true) : ∃ b rest, bytes = b :: rest ∧
    d.low ≤ b.toNat ∧ b.toNat ≤ d.high ∧
      Decoder.valid ⟨d.needed - 1, 0x80, 0xbf, d.codePoint * 64 + (b.toNat - 0x80)⟩ rest = true := by
  cases bytes with
  | nil =>
    rw [Decoder.valid, decide_eq_true_eq] at h
    omega
  | cons b rest =>
    rw [Decoder.valid, Decoder.accepts, if_neg (by omega), Bool.and_eq_true, Bool.and_eq_true] at h
    simp only [decide_eq_true_eq] at h
    obtain ⟨⟨hl, hh⟩, h⟩ := h
    rw [Decoder.next, if_neg (by omega), if_pos ⟨hl, hh⟩] at h
    dsimp only at h
    rw [if_neg (by omega)] at h
    exact ⟨b, rest, rfl, hl, hh, h⟩

theorem valid_last {d : Decoder} (hn : d.needed = 1) (h : d.valid bytes = true) : ∃ b rest, bytes = b :: rest ∧
    d.low ≤ b.toNat ∧ b.toNat ≤ d.high ∧ Decoder.ground.valid rest = true := by
  cases bytes with
  | nil =>
    rw [Decoder.valid, decide_eq_true_eq] at h
    omega
  | cons b rest =>
    rw [Decoder.valid, Decoder.accepts, if_neg (by omega), Bool.and_eq_true, Bool.and_eq_true] at h
    simp only [decide_eq_true_eq] at h
    obtain ⟨⟨hl, hh⟩, h⟩ := h
    rw [Decoder.next, if_neg (by omega), if_pos ⟨hl, hh⟩] at h
    dsimp only at h
    rw [if_pos hn] at h
    exact ⟨b, rest, rfl, hl, hh, h⟩

theorem byte_eq {b : UInt8} {k : ℕ} (h : k = b.toNat) : UInt8.ofNat k = b := by
  rw [h, UInt8.ofNat_toNat]

/-- **Valid bytes begin** with the sequence of a code point. -/
theorem valid_cons {b : UInt8} (h : Decoder.ground.valid (b :: bytes) = true) :
    ∃ n rest, Scalar n ∧ b :: bytes = encodePoint n ++ rest ∧ Decoder.ground.valid rest = true := by
  have hb := b.toNat_lt
  obtain ⟨hfirst, h⟩ := valid_ground.1 h
  by_cases h1 : b.toNat < 0x80
  · rw [first_one h1] at h
    refine ⟨b.toNat, bytes, ⟨by omega, by omega⟩, ?_, h⟩
    rw [encodePoint, if_pos h1, UInt8.ofNat_toNat]
    rfl
  by_cases h2 : b.toNat ≤ 0xdf
  · rw [first_two (by omega) h2] at h
    obtain ⟨c, rest, rfl, hl, hh, h⟩ := valid_last rfl h
    dsimp only at hl hh
    refine ⟨(b.toNat - 0xc0) * 64 + (c.toNat - 0x80), rest, ⟨by omega, by omega⟩, ?_, h⟩
    rw [encodePoint, if_neg (by omega), if_pos (by omega), byte_eq (b := b) (by omega), byte_eq (b := c) (by omega)]
    rfl
  by_cases h3 : b.toNat ≤ 0xef
  · rw [first_three (by omega) h3] at h
    obtain ⟨c, rest, rfl, hl, hh, h⟩ := valid_more (by dsimp only; omega) h
    obtain ⟨d, rest, rfl, hl', hh', h⟩ := valid_last rfl h
    dsimp only at hl hh hl' hh'
    have hpoint : 0x800 ≤ ((b.toNat - 0xe0) * 64 + (c.toNat - 0x80)) * 64 + (d.toNat - 0x80) ∧
        ¬ (0xd800 ≤ ((b.toNat - 0xe0) * 64 + (c.toNat - 0x80)) * 64 + (d.toNat - 0x80) ∧
          ((b.toNat - 0xe0) * 64 + (c.toNat - 0x80)) * 64 + (d.toNat - 0x80) < 0xe000) := by
      split_ifs at hl hh <;> omega
    have hc : 0x80 ≤ c.toNat ∧ c.toNat ≤ 0xbf := by
      split_ifs at hl hh <;> omega
    refine ⟨((b.toNat - 0xe0) * 64 + (c.toNat - 0x80)) * 64 + (d.toNat - 0x80), rest, ⟨by omega, hpoint.2⟩, ?_, h⟩
    rw [encodePoint, if_neg (by omega), if_neg (by omega), if_pos (by omega), byte_eq (b := b) (by omega),
      byte_eq (b := c) (by omega), byte_eq (b := d) (by omega)]
    rfl
  · rw [first_four (by omega) (by omega)] at h
    obtain ⟨c, rest, rfl, hl, hh, h⟩ := valid_more (by dsimp only; omega) h
    obtain ⟨d, rest, rfl, hl', hh', h⟩ := valid_more (by dsimp only; omega) h
    obtain ⟨e, rest, rfl, hl'', hh'', h⟩ := valid_last rfl h
    dsimp only at hl hh hl' hh' hl'' hh''
    have hc : 0x80 ≤ c.toNat ∧ c.toNat ≤ 0xbf := by
      split_ifs at hl hh <;> omega
    have hpoint : 0x10000 ≤ (((b.toNat - 0xf0) * 64 + (c.toNat - 0x80)) * 64 + (d.toNat - 0x80)) * 64 + (e.toNat - 0x80) ∧
        (((b.toNat - 0xf0) * 64 + (c.toNat - 0x80)) * 64 + (d.toNat - 0x80)) * 64 + (e.toNat - 0x80) < 0x110000 := by
      split_ifs at hl hh <;> omega
    refine ⟨(((b.toNat - 0xf0) * 64 + (c.toNat - 0x80)) * 64 + (d.toNat - 0x80)) * 64 + (e.toNat - 0x80), rest,
      ⟨hpoint.2, by omega⟩, ?_, h⟩
    rw [encodePoint, if_neg (by omega), if_neg (by omega), if_neg (by omega), byte_eq (b := b) (by omega),
      byte_eq (b := c) (by omega), byte_eq (b := d) (by omega), byte_eq (b := e) (by omega)]
    rfl

theorem valid_more_cons {d : Decoder} {b : UInt8} (hn : 1 < d.needed) (hl : d.low ≤ b.toNat) (hh : b.toNat ≤ d.high) :
    d.valid (b :: bytes) = Decoder.valid ⟨d.needed - 1, 0x80, 0xbf, d.codePoint * 64 + (b.toNat - 0x80)⟩ bytes := by
  rw [Decoder.valid, Decoder.accepts, if_neg (by omega), Decoder.next, if_neg (by omega), if_pos ⟨hl, hh⟩]
  dsimp only
  rw [if_neg (by omega), decide_eq_true hl, decide_eq_true hh, Bool.true_and, Bool.true_and]

theorem valid_last_cons {d : Decoder} {b : UInt8} (hn : d.needed = 1) (hl : d.low ≤ b.toNat) (hh : b.toNat ≤ d.high) :
    d.valid (b :: bytes) = Decoder.ground.valid bytes := by
  rw [Decoder.valid, Decoder.accepts, if_neg (by omega), Decoder.next, if_neg (by omega), if_pos ⟨hl, hh⟩]
  dsimp only
  rw [if_pos hn, decide_eq_true hl, decide_eq_true hh, Bool.true_and, Bool.true_and]

theorem valid_first {b : UInt8} (h : b.toNat < 0x80 ∨ 0xc2 ≤ b.toNat ∧ b.toNat ≤ 0xf4) :
    Decoder.ground.valid (b :: bytes) = (Decoder.first b.toNat).2.valid bytes := by
  rw [Bool.eq_iff_iff, valid_ground, and_iff_right h]

theorem valid_encodePoint (h : Scalar n) : Decoder.ground.valid (encodePoint n ++ bytes) = Decoder.ground.valid bytes := by
  obtain ⟨hn, hs⟩ := h
  have hlast : (UInt8.ofNat (0x80 + n % 64)).toNat = 0x80 + n % 64 := toNat_byte (by omega)
  have hmid : (UInt8.ofNat (0x80 + n / 64 % 64)).toNat = 0x80 + n / 64 % 64 := toNat_byte (by omega)
  unfold encodePoint
  split_ifs with h1 h2 h3
  · have hfirst : (UInt8.ofNat n).toNat = n := toNat_byte (by omega)
    show Decoder.ground.valid (_ :: bytes) = _
    rw [valid_first (by omega), hfirst, first_one h1]
  · have hfirst : (UInt8.ofNat (0xc0 + n / 64)).toNat = 0xc0 + n / 64 := toNat_byte (by omega)
    show Decoder.ground.valid (_ :: _ :: bytes) = _
    rw [valid_first (by omega), hfirst, first_two (by omega) (by omega),
      valid_last_cons rfl (by rw [hlast]; dsimp only; omega) (by rw [hlast]; dsimp only; omega)]
  · have hfirst : (UInt8.ofNat (0xe0 + n / 4096)).toNat = 0xe0 + n / 4096 := toNat_byte (by omega)
    show Decoder.ground.valid (_ :: _ :: _ :: bytes) = _
    rw [valid_first (by omega), hfirst, first_three (by omega) (by omega),
      valid_more_cons (by dsimp only; omega) (by rw [hmid]; dsimp only; split_ifs <;> omega)
        (by rw [hmid]; dsimp only; split_ifs <;> omega),
      valid_last_cons rfl (by rw [hlast]; dsimp only; omega) (by rw [hlast]; dsimp only; omega)]
  · have hfirst : (UInt8.ofNat (0xf0 + n / 262144)).toNat = 0xf0 + n / 262144 := toNat_byte (by omega)
    have hsecond : (UInt8.ofNat (0x80 + n / 4096 % 64)).toNat = 0x80 + n / 4096 % 64 := toNat_byte (by omega)
    show Decoder.ground.valid (_ :: _ :: _ :: _ :: bytes) = _
    rw [valid_first (by omega), hfirst, first_four (by omega) (by omega),
      valid_more_cons (by dsimp only; omega) (by rw [hsecond]; dsimp only; split_ifs <;> omega)
        (by rw [hsecond]; dsimp only; split_ifs <;> omega),
      valid_more_cons (by dsimp only; omega) (by rw [hmid]; dsimp only; omega) (by rw [hmid]; dsimp only; omega),
      valid_last_cons rfl (by rw [hlast]; dsimp only; omega) (by rw [hlast]; dsimp only; omega)]

/-! ## Strings -/

theorem valid_encodeUtf8 (hs : WellFormed s) : Decoder.ground.valid (encodeUtf8 s) = true := by
  induction hs with
  | nil => rfl
  | @unit u s hu _ ih =>
    have hnot : ¬ (0xd800 ≤ u.toNat ∧ u.toNat < 0xe000) := by
      rw [← toNat_surrogate, hu]
      exact Bool.false_ne_true
    have hlt := u.toNat_lt
    rw [encodeUtf8_unit hu, valid_encodePoint ⟨by omega, hnot⟩, ih]
  | @pair u v s hu hv _ ih =>
    have hpoint := pair_bounds hu hv
    rw [encodeUtf8, if_pos (by rw [hu, hv]; rfl), valid_encodePoint ⟨by unfold pairPoint; omega, by unfold pairPoint; omega⟩, ih]

theorem encodePoint_ne_nil : encodePoint n ≠ [] := by
  unfold encodePoint
  split_ifs <;> exact List.cons_ne_nil _ _

/-- Valid bytes are those of a well-formed string. -/
theorem wellFormed_of_valid (h : Decoder.ground.valid bytes = true) : ∃ s, WellFormed s ∧ encodeUtf8 s = bytes := by
  generalize hk : bytes.length = k
  induction k using Nat.strong_induction_on generalizing bytes with
  | _ k ih =>
    cases bytes with
    | nil => exact ⟨[], .nil, rfl⟩
    | cons b bytes =>
      obtain ⟨n, rest, hn, heq, h⟩ := valid_cons h
      have hlen : rest.length < k := by
        have hpos := List.length_pos_iff.2 (@encodePoint_ne_nil n)
        rw [← hk, heq, List.length_append]
        omega
      obtain ⟨s, hs, rfl⟩ := ih _ hlen h rfl
      exact ⟨ofCodePoint n ++ s, (wellFormed_ofCodePoint hn).append hs, by rw [encodeUtf8_ofCodePoint hn, heq]⟩

/-- **The strict decoder** reads exactly the bytes of well-formed strings. -/
theorem decodeStrict_eq_some : decodeStrict bytes = some s ↔ WellFormed s ∧ encodeUtf8 s = bytes := by
  unfold decodeStrict
  constructor
  · intro h
    split_ifs at h with hv
    obtain ⟨t, ht, rfl⟩ := wellFormed_of_valid hv
    rw [decodeUtf8_encodeUtf8 ht] at h
    cases h
    exact ⟨ht, rfl⟩
  · rintro ⟨hs, rfl⟩
    rw [if_pos (valid_encodeUtf8 hs), decodeUtf8_encodeUtf8 hs]

/-! ## Lines -/

/-- No byte of a prefix is replaced. -/
def Decoder.allows (d : Decoder) : Bytes → Bool
  | [] => true
  | b :: bytes => d.accepts b.toNat && allows (d.next b.toNat).2 bytes

/-- The sequence after a prefix. -/
def Decoder.after (d : Decoder) (bytes : Bytes) : Decoder := bytes.foldl (fun d b => (d.next b.toNat).2) d

theorem allows_append (d : Decoder) (left right : Bytes) :
    d.allows (left ++ right) = (d.allows left && (d.after left).allows right) := by
  induction left generalizing d with
  | nil => rfl
  | cons b left ih =>
    rw [List.cons_append, Decoder.allows, Decoder.allows, ih, Bool.and_assoc]
    rfl

theorem valid_append (d : Decoder) (left right : Bytes) :
    d.valid (left ++ right) = (d.allows left && (d.after left).valid right) := by
  induction left generalizing d with
  | nil => rfl
  | cons b left ih =>
    rw [List.cons_append, Decoder.valid, Decoder.allows, ih, Bool.and_assoc]
    rfl

/-- Bytes that are empty or end with a line feed. -/
def Complete (bytes : Bytes) : Prop := bytes = [] ∨ bytes.getLast? = some 10

theorem low_next {d : Decoder} {n : ℕ} : 0x80 ≤ (d.next n).2.low := by
  have hfirst : 0x80 ≤ (Decoder.first n).2.low := by
    unfold Decoder.first Decoder.ground
    split_ifs <;> simp
  unfold Decoder.next
  split_ifs
  · exact hfirst
  · exact le_rfl
  · exact le_rfl
  · exact hfirst

theorem low_after {d : Decoder} (h : 0x80 ≤ d.low) : 0x80 ≤ (d.after bytes).low := by
  induction bytes generalizing d with
  | nil => exact h
  | cons b bytes ih => exact ih low_next

/-- A line feed is not inside a sequence. -/
theorem after_complete {left : Bytes} (hc : Complete left) (h : Decoder.ground.allows left = true) :
    Decoder.ground.after left = .ground := by
  rcases hc with rfl | hc
  · rfl
  · obtain ⟨init, rfl⟩ := List.getLast?_eq_some_iff.1 hc
    rw [allows_append, Bool.and_eq_true] at h
    have hlow : 0x80 ≤ (Decoder.ground.after init).low := low_after le_rfl
    have hlast := h.2
    rw [Decoder.allows, Bool.and_eq_true, Decoder.accepts] at hlast
    have hneeded : (Decoder.ground.after init).needed = 0 := by
      by_contra hne
      rw [if_neg hne] at hlast
      have hle := hlast.1
      simp only [Bool.and_eq_true, decide_eq_true_eq] at hle
      have hten : (10 : UInt8).toNat = 10 := rfl
      omega
    unfold Decoder.after at hneeded ⊢
    rw [List.foldl_append]
    show (Decoder.next _ _).2 = _
    rw [Decoder.next, if_pos hneeded]
    rfl

/-- Complete lines are decoded on their own. -/
theorem valid_complete {left right : Bytes} (hc : Complete left) :
    Decoder.ground.valid (left ++ right) = (Decoder.ground.valid left && Decoder.ground.valid right) := by
  have hleft := valid_append .ground left []
  rw [List.append_nil] at hleft
  rw [valid_append, hleft]
  cases ha : Decoder.ground.allows left with
  | false => rfl
  | true =>
    rw [after_complete hc ha]
    rfl

end Js.Units
