/-
  The bytes of texts in UTF-8, and of the texts of JSON values.

  The text of a value has at least as many bytes as its strings and keys, and one
  more for each value in it (`cost_le_bytes`).
-/
import PaPlatform.Lib.Unicode

namespace Js.Units

open Value (isHigh isLow)

variable {s t : Units} {u : UInt16}

theorem encodeUtf8_append (hs : WellFormed s) (t : Units) : encodeUtf8 (s ++ t) = encodeUtf8 s ++ encodeUtf8 t := by
  induction hs with
  | nil => rfl
  | @unit u s hu hs ih =>
    rw [List.cons_append, encodeUtf8_unit hu, encodeUtf8_unit hu, ih, List.append_assoc]
  | @pair u v s hu hv hs ih =>
    have hpair : (isHigh u && isLow v) = true := by rw [hu, hv]; rfl
    rw [List.cons_append, List.cons_append, encodeUtf8, encodeUtf8, if_pos hpair, if_pos hpair, ih, List.append_assoc]

theorem byteLength_append (hs : WellFormed s) (t : Units) : byteLength (s ++ t) = byteLength s + byteLength t := by
  rw [byteLength, encodeUtf8_append hs, List.length_append]
  rfl

theorem byteLength_cons (hu : u < 0x80) (t : Units) : byteLength (u :: t) = 1 + byteLength t := by
  have hone : ∀ v ∈ [u], v < 0x80 := by simpa using hu
  rw [← List.singleton_append, byteLength_append (wellFormed_of_ascii hone), byteLength_ascii hone]
  rfl

/-- An escape is no shorter than its unit. -/
theorem byteLength_escapeUnit (u : UInt16) : (encodeUnit u).length ≤ byteLength (Value.escapeUnit u) := by
  have hunit := (length_encodeUnit u).2
  unfold Value.escapeUnit
  split
  · next letter hl =>
    have hu : u.toNat < 0x80 := by
      have hmem := Value.mem_of_lookup hl
      simp only [Value.escapes, List.mem_cons, Prod.mk.injEq, List.not_mem_nil, or_false] at hmem
      rcases hmem with ⟨rfl, -⟩ | ⟨rfl, -⟩ | ⟨rfl, -⟩ | ⟨rfl, -⟩ | ⟨rfl, -⟩ | ⟨rfl, -⟩ | ⟨rfl, -⟩ <;> decide
    have hsur : isSurrogate u = false := by
      rw [Bool.eq_false_iff, Ne, toNat_surrogate]
      omega
    have hone : (encodeUnit u).length = 1 := by
      rw [encodeUnit, hsur, if_neg (by simp), encodePoint, if_pos hu]
      rfl
    have hlen := (length_encodeUtf8 [0x5c, letter]).1
    rw [List.length_cons, List.length_singleton] at hlen
    omega
  · split_ifs with hn
    · have hlen := (length_encodeUtf8 (Value.escapeNumber u)).1
      rw [show (Value.escapeNumber u).length = 6 from rfl] at hlen
      omega
    · exact le_rfl

theorem byteLength_escape (s : Units) : byteLength s ≤ byteLength (Value.escape s) := by
  fun_induction Value.escape s with
  | case1 => exact le_rfl
  | case2 u => exact byteLength_escapeUnit u
  | case3 u v rest hp ih =>
    unfold byteLength at ih ⊢
    rw [encodeUtf8, encodeUtf8, if_pos hp, if_pos hp, List.length_append, List.length_append]
    omega
  | case4 u v rest hp ih =>
    have hunit := byteLength_escapeUnit u
    rw [byteLength_append (wellFormed_escapeUnit u)]
    unfold byteLength at ih hunit ⊢
    rw [encodeUtf8, if_neg hp, List.length_append]
    omega

theorem byteLength_quote (s : Units) : byteLength s + 2 ≤ byteLength (Value.quote s) := by
  have hquote : (0x22 : UInt16) < 0x80 := by decide
  have hescape := byteLength_escape s
  have hlast : byteLength [(0x22 : UInt16)] = 1 := byteLength_ascii (by simp)
  rw [Value.quote, byteLength_cons hquote, byteLength_append (wellFormed_escape s), hlast]
  omega

end Js.Units

namespace Js.Value

open Js.Units

variable {double : Units → Number}

mutual

/-- The bytes of all strings and keys, and one for each value. -/
def cost : Value → ℕ
  | str s => 1 + byteLength s
  | arr items => 1 + costItems items
  | obj fields => 1 + costFields fields
  | _ => 1

def costItems : List Value → ℕ
  | [] => 0
  | x :: xs => cost x + costItems xs

def costFields : List (Units × Value) → ℕ
  | [] => 0
  | (k, x) :: fs => byteLength k + cost x + costFields fs

end

mutual

/-- **The text of a value has as many bytes as the value costs.** -/
theorem cost_le_bytes : ∀ v : Value, v.Written double → v.cost ≤ byteLength v.stringify
  | null, _ => (length_encodeUtf8 _).1.trans' (by simp [stringify, cost, null_units])
  | bool true, _ => (length_encodeUtf8 _).1.trans' (by simp [stringify, cost, true_units])
  | bool false, _ => (length_encodeUtf8 _).1.trans' (by simp [stringify, cost, false_units])
  | num n, hv => by
    obtain ⟨u, t, ht, -⟩ := text_finite hv
    refine (length_encodeUtf8 _).1.trans' ?_
    simp [stringify, cost, ht]
  | str s, _ => by
    have hquote := byteLength_quote s
    simp only [stringify, cost]
    omega
  | arr [], _ => (length_encodeUtf8 _).1.trans' (by decide)
  | arr (x :: xs), hv => by
    obtain ⟨hx, hxs⟩ : x.Written double ∧ WrittenItems double xs := hv
    have hcost := cost_le_bytes x hx
    have hcosts := costItems_le_bytes xs hxs
    rw [stringify, byteLength_cons (by decide), byteLength_append (wellFormed_stringify x hx), cost, costItems]
    omega
  | obj [], _ => (length_encodeUtf8 _).1.trans' (by decide)
  | obj ((k, x) :: fs), hv => by
    obtain ⟨hx, hfs⟩ : x.Written double ∧ WrittenFields double fs := hv
    have hcost := cost_le_bytes x hx
    have hcosts := costFields_le_bytes fs hfs
    have hquote := byteLength_quote k
    rw [stringify, byteLength_cons (by decide), byteLength_append (wellFormed_quote k), byteLength_cons (by decide),
      byteLength_append (wellFormed_stringify x hx), cost, costFields]
    omega

theorem costItems_le_bytes : ∀ xs : List Value, WrittenItems double xs →
    costItems xs + 1 ≤ byteLength (stringifyItems xs)
  | [], _ => (length_encodeUtf8 _).1.trans' (by decide)
  | x :: xs, hv => by
    obtain ⟨hx, hxs⟩ : x.Written double ∧ WrittenItems double xs := hv
    have hcost := cost_le_bytes x hx
    have hcosts := costItems_le_bytes xs hxs
    rw [stringifyItems, byteLength_cons (by decide), byteLength_append (wellFormed_stringify x hx), costItems]
    omega

theorem costFields_le_bytes : ∀ fs : List (Units × Value), WrittenFields double fs →
    costFields fs + 1 ≤ byteLength (stringifyFields fs)
  | [], _ => (length_encodeUtf8 _).1.trans' (by decide)
  | (k, x) :: fs, hv => by
    obtain ⟨hx, hfs⟩ : x.Written double ∧ WrittenFields double fs := hv
    have hcost := cost_le_bytes x hx
    have hcosts := costFields_le_bytes fs hfs
    have hquote := byteLength_quote k
    rw [stringifyFields, byteLength_cons (by decide), byteLength_append (wellFormed_quote k), byteLength_cons (by decide),
      byteLength_append (wellFormed_stringify x hx), costFields]
    omega

end

end Js.Value
