/-
  Code points of strings, and the general categories Cc and Cf.
-/
import PaPlatform.Lib.Utf8

namespace Js.Units

open Value

/-- The code points of a string; a lone surrogate is one. -/
def codePoints : Units → List ℕ
  | [] => []
  | [u] => [u.toNat]
  | u :: v :: rest =>
    if isHigh u && isLow v then pairPoint u v :: codePoints rest else u.toNat :: codePoints (v :: rest)

/-- `\p{Cc}`. -/
def isControl (n : ℕ) : Bool := n < 0x20 || (0x7f ≤ n && n < 0xa0)

/-- The code points of category Cf, as closed ranges. -/
def formatRanges : List (ℕ × ℕ) :=
  [(0xad, 0xad), (0x600, 0x605), (0x61c, 0x61c), (0x6dd, 0x6dd), (0x70f, 0x70f), (0x890, 0x891), (0x8e2, 0x8e2),
    (0x180e, 0x180e), (0x200b, 0x200f), (0x202a, 0x202e), (0x2060, 0x2064), (0x2066, 0x206f), (0xfeff, 0xfeff),
    (0xfff9, 0xfffb), (0x110bd, 0x110bd), (0x110cd, 0x110cd), (0x13430, 0x1343f), (0x1bca0, 0x1bca3),
    (0x1d173, 0x1d17a), (0xe0001, 0xe0001), (0xe0020, 0xe007f)]

/-- `\p{Cf}`. -/
def isFormat (n : ℕ) : Bool := formatRanges.any fun range => range.1 ≤ n && n ≤ range.2

/-- `Buffer.byteLength(s)`. -/
def byteLength (s : Units) : ℕ := (encodeUtf8 s).length

variable {s t : Units} {u : UInt16} {n : ℕ}

theorem length_encodePoint (n : ℕ) : 1 ≤ (encodePoint n).length ∧ (encodePoint n).length ≤ 4 := by
  unfold encodePoint
  split_ifs <;> simp

theorem length_encodeUnit (u : UInt16) : 1 ≤ (encodeUnit u).length ∧ (encodeUnit u).length ≤ 3 := by
  refine ⟨(length_encodePoint _).1, ?_⟩
  have hlt : ∀ n, n < 0x10000 → (encodePoint n).length ≤ 3 := by
    intro n hn
    unfold encodePoint
    split_ifs <;> simp
  exact hlt _ (UInt16.toNat_lt _)

/-- A unit has one to three bytes. -/
theorem length_encodeUtf8 (s : Units) : s.length ≤ byteLength s ∧ byteLength s ≤ 3 * s.length := by
  unfold byteLength
  fun_induction encodeUtf8 s with
  | case1 => exact ⟨le_rfl, le_rfl⟩
  | case2 u => simpa using length_encodeUnit u
  | case3 u v rest hp ih =>
    have hpair : 2 ≤ (encodePoint (pairPoint u v)).length := by
      have hn : 0x10000 ≤ pairPoint u v := by
        unfold pairPoint
        omega
      rw [encodePoint, if_neg (by omega), if_neg (by omega), if_neg (by omega)]
      simp
    have hlen := (length_encodePoint (pairPoint u v)).2
    simp only [List.length_append, List.length_cons]
    omega
  | case4 u v rest hp ih =>
    have hunit := length_encodeUnit u
    simp only [List.length_append, List.length_cons] at ih ⊢
    omega

/-- A unit that is no surrogate parts the bytes. -/
theorem encodeUtf8_part (hu : isSurrogate u = false) :
    encodeUtf8 (s ++ u :: t) = encodeUtf8 s ++ encodeUtf8 (u :: t) := by
  have hlow : isLow u = false := (Bool.or_eq_false_iff.1 hu).2
  fun_induction encodeUtf8 s with
  | case1 => rfl
  | case2 v =>
    rw [List.singleton_append, encodeUtf8, if_neg (by simp [hlow])]
  | case3 v w rest hp ih =>
    rw [List.cons_append, List.cons_append, encodeUtf8, if_pos hp, ih, List.append_assoc]
  | case4 v w rest hp ih =>
    rw [List.cons_append, List.cons_append, encodeUtf8, if_neg hp, ← List.cons_append, ih, List.append_assoc]

theorem byteLength_newline : byteLength (s ++ 0x0a :: t) = byteLength s + 1 + byteLength t := by
  have hpart : encodeUtf8 (s ++ 0x0a :: t) = encodeUtf8 s ++ encodeUtf8 (0x0a :: t) := encodeUtf8_part (by decide)
  rw [byteLength, hpart, encodeUtf8_unit (by decide), List.length_append, List.length_append]
  simp only [byteLength, encodePoint, UInt16.reduceToNat]
  simp
  omega

/-- An ASCII text has a byte for each unit. -/
theorem byteLength_ascii (hs : ∀ u ∈ s, u < 0x80) : byteLength s = s.length := by
  induction s with
  | nil => rfl
  | cons u s ih =>
    obtain ⟨hu, hs⟩ := List.forall_mem_cons.1 hs
    have hlt : u.toNat < 0x80 := by simpa [UInt16.lt_iff_toNat_lt] using hu
    have hsur : isSurrogate u = false := by
      rw [Bool.eq_false_iff, Ne, toNat_surrogate]
      omega
    have ih := ih hs
    unfold byteLength at ih ⊢
    rw [encodeUtf8_unit hsur, encodePoint, if_pos hlt, List.length_append, ih]
    simp
    omega

theorem length_decimal (k : ℕ) (hk : 1 ≤ k) : (decimal n).length ≤ k ↔ n < 10 ^ k := by
  unfold decimal
  split_ifs with h
  · subst h
    simpa using hk
  · rw [List.length_reverse, List.length_map, Nat.digits_length_le_iff (by omega)]

theorem length_decimal_succ : (decimal (n + 1)).length ≤ (decimal n).length + 1 := by
  have hpos : 1 ≤ (decimal n).length := List.length_pos_iff.2 (Value.decimal_ne_nil n)
  have hn : n < 10 ^ (decimal n).length := (length_decimal _ hpos).1 le_rfl
  rw [length_decimal _ (by omega), pow_succ]
  omega

end Js.Units
