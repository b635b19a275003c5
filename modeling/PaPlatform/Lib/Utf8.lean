/-
  The UTF-8 text of a string: `Buffer.from(s, "utf8")`.

  Lone surrogates are written as U+FFFD, so that only well-formed strings are read
  back.  The text of a JSON value is well formed.
-/
import PaPlatform.Lib.JsonWritten

namespace Js.Units

open Value

/-- The bytes of a code point. -/
def encodePoint (n : ℕ) : Bytes :=
  if n < 0x80 then [UInt8.ofNat n]
  else if n < 0x800 then [UInt8.ofNat (0xc0 + n / 64), UInt8.ofNat (0x80 + n % 64)]
  else if n < 0x10000 then
    [UInt8.ofNat (0xe0 + n / 4096), UInt8.ofNat (0x80 + n / 64 % 64), UInt8.ofNat (0x80 + n % 64)]
  else
    [UInt8.ofNat (0xf0 + n / 262144), UInt8.ofNat (0x80 + n / 4096 % 64), UInt8.ofNat (0x80 + n / 64 % 64),
      UInt8.ofNat (0x80 + n % 64)]

/-- The code point of a surrogate pair. -/
def pairPoint (u v : UInt16) : ℕ := 0x10000 + (u.toNat - 0xd800) * 0x400 + (v.toNat - 0xdc00)

def isSurrogate (u : UInt16) : Bool := isHigh u || isLow u

/-- The bytes of a unit by itself. -/
def encodeUnit (u : UInt16) : Bytes := encodePoint (if isSurrogate u then replacement else u).toNat

/-- `Buffer.from(s, "utf8")`. -/
def encodeUtf8 : Units → Bytes
  | [] => []
  | [u] => encodeUnit u
  | u :: v :: rest =>
    if isHigh u && isLow v then encodePoint (pairPoint u v) ++ encodeUtf8 rest
    else encodeUnit u ++ encodeUtf8 (v :: rest)

/-- A string without lone surrogates. -/
inductive WellFormed : Units → Prop
  | nil : WellFormed []
  | unit {u : UInt16} {s : Units} (hu : isSurrogate u = false) (hs : WellFormed s) : WellFormed (u :: s)
  | pair {u v : UInt16} {s : Units} (hu : isHigh u = true) (hv : isLow v = true) (hs : WellFormed s) :
    WellFormed (u :: v :: s)

/-! ## Decoding -/

variable {s t : Units}

theorem toNat_byte {n : ℕ} (h : n < 256) : (UInt8.ofNat n).toNat = n := UInt8.toNat_ofNat_of_lt' h

theorem run_ground {b : UInt8} {bytes : Bytes} : Decoder.ground.run (b :: bytes) =
    (Decoder.first b.toNat).1 ++ (Decoder.first b.toNat).2.run bytes := rfl

/-- A byte that goes on with a sequence. -/
theorem run_more {d : Decoder} {b : UInt8} {bytes : Bytes} (hn : 1 < d.needed)
    (hl : d.low ≤ b.toNat) (hh : b.toNat ≤ d.high) :
    d.run (b :: bytes) = Decoder.run ⟨d.needed - 1, 0x80, 0xbf, d.codePoint * 64 + (b.toNat - 0x80)⟩ bytes := by
  rw [Decoder.run, Decoder.next, if_neg (by omega), if_pos ⟨hl, hh⟩]
  dsimp only
  rw [if_neg (by omega)]
  rfl

/-- The last byte of a sequence. -/
theorem run_last {d : Decoder} {b : UInt8} {bytes : Bytes} (hn : d.needed = 1)
    (hl : d.low ≤ b.toNat) (hh : b.toNat ≤ d.high) :
    d.run (b :: bytes) = ofCodePoint (d.codePoint * 64 + (b.toNat - 0x80)) ++ Decoder.ground.run bytes := by
  rw [Decoder.run, Decoder.next, if_neg (by omega), if_pos ⟨hl, hh⟩]
  dsimp only
  rw [if_pos hn]

theorem first_one {b : ℕ} (h : b < 0x80) : Decoder.first b = ([UInt16.ofNat b], .ground) := if_pos h

theorem first_two {b : ℕ} (h : 0xc2 ≤ b) (h' : b ≤ 0xdf) : Decoder.first b = ([], ⟨1, 0x80, 0xbf, b - 0xc0⟩) := by
  rw [Decoder.first, if_neg (by omega), if_pos ⟨h, h'⟩]

theorem first_three {b : ℕ} (h : 0xe0 ≤ b) (h' : b ≤ 0xef) : Decoder.first b =
    ([], ⟨2, if b = 0xe0 then 0xa0 else 0x80, if b = 0xed then 0x9f else 0xbf, b - 0xe0⟩) := by
  rw [Decoder.first, if_neg (by omega), if_neg (by omega), if_pos ⟨h, h'⟩]

theorem first_four {b : ℕ} (h : 0xf0 ≤ b) (h' : b ≤ 0xf4) : Decoder.first b =
    ([], ⟨3, if b = 0xf0 then 0x90 else 0x80, if b = 0xf4 then 0x8f else 0xbf, b - 0xf0⟩) := by
  rw [Decoder.first, if_neg (by omega), if_neg (by omega), if_neg (by omega), if_pos ⟨h, h'⟩]

/-- **A code point is read back**, unless it is a surrogate. -/
theorem run_encodePoint {n : ℕ} {bytes : Bytes} (hn : n < 0x110000) (hs : ¬ (0xd800 ≤ n ∧ n < 0xe000)) :
    Decoder.ground.run (encodePoint n ++ bytes) = ofCodePoint n ++ Decoder.ground.run bytes := by
  have hlast : (UInt8.ofNat (0x80 + n % 64)).toNat = 0x80 + n % 64 := toNat_byte (by omega)
  have hmid : (UInt8.ofNat (0x80 + n / 64 % 64)).toNat = 0x80 + n / 64 % 64 := toNat_byte (by omega)
  unfold encodePoint
  split_ifs with h1 h2 h3
  · show Decoder.ground.run (_ :: bytes) = _
    rw [run_ground, toNat_byte (by omega), first_one h1, ofCodePoint, if_pos (by omega)]
  · show Decoder.ground.run (_ :: _ :: bytes) = _
    have hfirst : (UInt8.ofNat (0xc0 + n / 64)).toNat = 0xc0 + n / 64 := toNat_byte (by omega)
    rw [run_ground, hfirst, first_two (by omega) (by omega)]
    dsimp only
    rw [List.nil_append, run_last rfl (by rw [hlast]; dsimp only; omega) (by rw [hlast]; dsimp only; omega), hlast]
    have hpoint : (0xc0 + n / 64 - 0xc0) * 64 + (0x80 + n % 64 - 0x80) = n := by omega
    rw [hpoint]
  · show Decoder.ground.run (_ :: _ :: _ :: bytes) = _
    have hfirst : (UInt8.ofNat (0xe0 + n / 4096)).toNat = 0xe0 + n / 4096 := toNat_byte (by omega)
    rw [run_ground, hfirst, first_three (by omega) (by omega)]
    dsimp only
    rw [List.nil_append, run_more (by dsimp only; omega) (by rw [hmid]; dsimp only; split_ifs <;> omega)
      (by rw [hmid]; dsimp only; split_ifs <;> omega), hmid]
    dsimp only
    rw [run_last rfl (by rw [hlast]; dsimp only; omega) (by rw [hlast]; dsimp only; omega), hlast]
    have hpoint : ((0xe0 + n / 4096 - 0xe0) * 64 + (0x80 + n / 64 % 64 - 0x80)) * 64 + (0x80 + n % 64 - 0x80) = n := by omega
    rw [hpoint]
  · show Decoder.ground.run (_ :: _ :: _ :: _ :: bytes) = _
    have hfirst : (UInt8.ofNat (0xf0 + n / 262144)).toNat = 0xf0 + n / 262144 := toNat_byte (by omega)
    have hsecond : (UInt8.ofNat (0x80 + n / 4096 % 64)).toNat = 0x80 + n / 4096 % 64 := toNat_byte (by omega)
    rw [run_ground, hfirst, first_four (by omega) (by omega)]
    dsimp only
    rw [List.nil_append, run_more (by dsimp only; omega) (by rw [hsecond]; dsimp only; split_ifs <;> omega)
      (by rw [hsecond]; dsimp only; split_ifs <;> omega), hsecond]
    dsimp only
    rw [run_more (by dsimp only; omega) (by rw [hmid]; dsimp only; omega) (by rw [hmid]; dsimp only; omega), hmid]
    dsimp only
    rw [run_last rfl (by rw [hlast]; dsimp only; omega) (by rw [hlast]; dsimp only; omega), hlast]
    have hpoint : (((0xf0 + n / 262144 - 0xf0) * 64 + (0x80 + n / 4096 % 64 - 0x80)) * 64 + (0x80 + n / 64 % 64 - 0x80)) * 64 +
        (0x80 + n % 64 - 0x80) = n := by omega
    rw [hpoint]

theorem toNat_surrogate {u : UInt16} : isSurrogate u = true ↔ 0xd800 ≤ u.toNat ∧ u.toNat < 0xe000 := by
  unfold isSurrogate isHigh isLow
  simp only [Bool.or_eq_true, Bool.and_eq_true, decide_eq_true_eq, UInt16.le_iff_toNat_le, UInt16.lt_iff_toNat_lt,
    UInt16.reduceToNat]
  omega

theorem encodeUtf8_unit {u : UInt16} (hu : isSurrogate u = false) :
    encodeUtf8 (u :: s) = encodePoint u.toNat ++ encodeUtf8 s := by
  have hunit : encodeUnit u = encodePoint u.toNat := by
    unfold encodeUnit
    rw [hu]
    rfl
  cases s with
  | nil =>
    rw [encodeUtf8, List.append_nil]
    exact hunit
  | cons v s =>
    have hhigh : isHigh u = false := (Bool.or_eq_false_iff.1 hu).1
    rw [encodeUtf8, hunit, if_neg (by simp [hhigh])]

theorem ofCodePoint_unit {u : UInt16} : ofCodePoint u.toNat = [u] := by
  unfold ofCodePoint
  rw [if_pos u.toNat_lt, UInt16.ofNat_toNat]

theorem pair_bounds {u v : UInt16} (hu : isHigh u = true) (hv : isLow v = true) :
    (0xd800 ≤ u.toNat ∧ u.toNat < 0xdc00) ∧ 0xdc00 ≤ v.toNat ∧ v.toNat < 0xe000 := by
  simpa only [isHigh, isLow, Bool.and_eq_true, decide_eq_true_eq, UInt16.le_iff_toNat_le, UInt16.lt_iff_toNat_lt,
    UInt16.reduceToNat] using And.intro hu hv

theorem ofCodePoint_pair {u v : UInt16} (hu : isHigh u = true) (hv : isLow v = true) :
    ofCodePoint (pairPoint u v) = [u, v] := by
  obtain ⟨hu, hv⟩ := pair_bounds hu hv
  unfold ofCodePoint pairPoint
  rw [if_neg (by omega)]
  have hhigh : 0xd800 + (0x10000 + (u.toNat - 0xd800) * 0x400 + (v.toNat - 0xdc00) - 0x10000) / 0x400 = u.toNat := by
    omega
  have hlow : 0xdc00 + (0x10000 + (u.toNat - 0xd800) * 0x400 + (v.toNat - 0xdc00) - 0x10000) % 0x400 = v.toNat := by
    omega
  rw [hhigh, hlow, UInt16.ofNat_toNat, UInt16.ofNat_toNat]

/-- **A well-formed string is read back.** -/
theorem decodeUtf8_encodeUtf8 (hs : WellFormed s) : decodeUtf8 (encodeUtf8 s) = s := by
  unfold decodeUtf8
  induction hs with
  | nil => rfl
  | @unit u s hu _ ih =>
    have hnot : ¬ (0xd800 ≤ u.toNat ∧ u.toNat < 0xe000) := by
      rw [← toNat_surrogate, hu]
      exact Bool.false_ne_true
    have hlt := u.toNat_lt
    rw [encodeUtf8_unit hu, run_encodePoint (by omega) hnot, ih, ofCodePoint_unit]
    rfl
  | @pair u v s hu hv _ ih =>
    have hpoint := pair_bounds hu hv
    rw [encodeUtf8, if_pos (by rw [hu, hv]; rfl), run_encodePoint (by unfold pairPoint; omega)
      (by unfold pairPoint; omega), ih, ofCodePoint_pair hu hv]
    rfl

theorem encodeUtf8_injective (hs : WellFormed s) (ht : WellFormed t) (h : encodeUtf8 s = encodeUtf8 t) : s = t := by
  rw [← decodeUtf8_encodeUtf8 hs, h, decodeUtf8_encodeUtf8 ht]

/-! ## JSON text -/

theorem WellFormed.append (hs : WellFormed s) (ht : WellFormed t) : WellFormed (s ++ t) := by
  induction hs with
  | nil => exact ht
  | unit hu _ ih => exact .unit hu ih
  | pair hu hv _ ih => exact .pair hu hv ih

theorem wellFormed_of_ascii (hs : ∀ u ∈ s, u < 0x80) : WellFormed s := by
  induction s with
  | nil => exact .nil
  | cons u s ih =>
    refine .unit ?_ (ih fun v hv => hs v (List.mem_cons_of_mem _ hv))
    rw [← Bool.not_eq_true, toNat_surrogate]
    have hu : u.toNat < 0x80 := UInt16.lt_iff_toNat_lt.1 (hs u (List.mem_cons_self ..))
    omega

theorem hexUnit_lt : ∀ n < 16, hexUnit n < 0x80 := by decide

theorem escapes_lt : ∀ e ∈ escapes, e.2 < 0x80 := by
  intro e he
  simp only [escapes, List.mem_cons, List.not_mem_nil, or_false] at he
  rcases he with rfl | rfl | rfl | rfl | rfl | rfl | rfl <;> decide

theorem wellFormed_escapeUnit (u : UInt16) : WellFormed (escapeUnit u) := by
  have hu := u.toNat_lt
  unfold escapeUnit
  split
  · next letter hl =>
    refine wellFormed_of_ascii fun v hv => ?_
    simp only [List.mem_cons, List.not_mem_nil, or_false] at hv
    rcases hv with rfl | rfl
    · decide
    · exact escapes_lt _ (mem_of_lookup hl)
  · split_ifs with hn
    · refine wellFormed_of_ascii fun v hv => ?_
      simp only [escapeNumber, List.mem_cons, List.not_mem_nil, or_false] at hv
      rcases hv with rfl | rfl | rfl | rfl | rfl | rfl
      · decide
      · decide
      all_goals exact hexUnit_lt _ (by omega)
    · refine .unit ?_ .nil
      simp only [not_or, Bool.not_eq_true] at hn
      exact Bool.or_eq_false_iff.2 hn.2

theorem wellFormed_escape (s : Units) : WellFormed (escape s) := by
  fun_induction escape s with
  | case1 => exact .nil
  | case2 u => exact wellFormed_escapeUnit u
  | case3 u v s hpair ih =>
    simp only [Bool.and_eq_true] at hpair
    exact .pair hpair.1 hpair.2 ih
  | case4 u v s _ ih => exact (wellFormed_escapeUnit u).append ih

theorem wellFormed_quote (s : Units) : WellFormed (quote s) :=
  .unit (by decide) ((wellFormed_escape s).append (.unit (by decide) .nil))

theorem wellFormed_text {double : Units → Number} {n : Number} (hn : IsFinite double n) : WellFormed n.text := by
  have hdigit : ∀ u, Units.isDigit u = true → u < 0x80 := by
    intro u hu
    have h := of_decide_eq_true (Bool.and_eq_true_iff.1 hu).2
    exact UInt16.lt_of_le_of_lt h (by decide)
  have hdigits : ∀ m, ∀ u ∈ decimal m, u < 0x80 := fun m u hu => hdigit u (decimal_digits m u hu)
  cases n with
  | float lexeme =>
    obtain ⟨⟨sign, i, f, e, rfl, hs, hi, hf, he, -⟩, -⟩ := hn
    refine wellFormed_of_ascii fun u hu => ?_
    simp only [Number.text, List.mem_append] at hu
    rcases hu with ((hu | hu) | hu) | hu
    · rcases hs with rfl | rfl
      · cases hu
      · rw [List.mem_singleton.1 hu]
        decide
    · rcases hi with rfl | ⟨v, d, rfl, -, hd⟩
      · rw [List.mem_singleton.1 hu]
        decide
      · exact hdigit u (hd u hu)
    · rcases hf with rfl | ⟨d, rfl, -, hd⟩
      · cases hu
      · rcases List.mem_cons.1 hu with rfl | hu
        · decide
        · exact hdigit u (hd u hu)
    · rcases he with rfl | ⟨v, sign, d, rfl, hv, hsign, -, hd⟩
      · cases hu
      · rw [List.mem_cons, List.mem_append] at hu
        rcases hu with rfl | hu | hu
        · rcases hv with rfl | rfl <;> decide
        · rcases hsign with rfl | rfl | rfl
          · cases hu
          · rw [List.mem_singleton.1 hu]
            decide
          · rw [List.mem_singleton.1 hu]
            decide
        · exact hdigit u (hd u hu)
  | int n =>
    unfold Number.text
    dsimp only
    split_ifs
    · exact .unit (by decide) (wellFormed_of_ascii (hdigits _))
    · exact wellFormed_of_ascii (hdigits _)

section

variable {double : Units → Number}

mutual

/-- **The text of a value is well formed.** -/
theorem wellFormed_stringify : ∀ v : Value, v.Written double → WellFormed v.stringify
  | .null, _ => wellFormed_of_ascii (by simp [stringify, null_units])
  | .bool true, _ => wellFormed_of_ascii (by simp [stringify, true_units])
  | .bool false, _ => wellFormed_of_ascii (by simp [stringify, false_units])
  | .num _, hv => wellFormed_text hv
  | .str s, _ => wellFormed_quote s
  | .arr [], _ => .unit (by decide) (.unit (by decide) .nil)
  | .arr (x :: xs), hv => by
    obtain ⟨hx, hxs⟩ : x.Written double ∧ WrittenItems double xs := hv
    exact .unit (by decide) ((wellFormed_stringify x hx).append (wellFormed_items xs hxs))
  | .obj [], _ => .unit (by decide) (.unit (by decide) .nil)
  | .obj ((k, x) :: fs), hv => by
    obtain ⟨hx, hfs⟩ : x.Written double ∧ WrittenFields double fs := hv
    exact .unit (by decide) ((wellFormed_quote k).append (.unit (by decide)
      ((wellFormed_stringify x hx).append (wellFormed_fields fs hfs))))

theorem wellFormed_items : ∀ xs : List Value, WrittenItems double xs → WellFormed (stringifyItems xs)
  | [], _ => .unit (by decide) .nil
  | x :: xs, hv => by
    obtain ⟨hx, hxs⟩ : x.Written double ∧ WrittenItems double xs := hv
    exact .unit (by decide) ((wellFormed_stringify x hx).append (wellFormed_items xs hxs))

theorem wellFormed_fields : ∀ fs : List (Units × Value), WrittenFields double fs → WellFormed (stringifyFields fs)
  | [], _ => .unit (by decide) .nil
  | (k, x) :: fs, hv => by
    obtain ⟨hx, hfs⟩ : x.Written double ∧ WrittenFields double fs := hv
    exact .unit (by decide) ((wellFormed_quote k).append (.unit (by decide)
      ((wellFormed_stringify x hx).append (wellFormed_fields fs hfs))))

end

theorem wellFormed_plain {v : Value} (hv : v.Plain) : WellFormed v.stringify :=
  wellFormed_stringify v (@plain_written .float v hv)

end

end Js.Units

namespace Js.Value

mutual

/-- No string and no key has a lone surrogate. -/
def Paired : Value → Prop
  | str s => s.WellFormed
  | arr items => PairedItems items
  | obj fields => PairedFields fields
  | _ => True

def PairedItems : List Value → Prop
  | [] => True
  | x :: xs => Paired x ∧ PairedItems xs

def PairedFields : List (Units × Value) → Prop
  | [] => True
  | (k, x) :: fs => k.WellFormed ∧ Paired x ∧ PairedFields fs

end

end Js.Value
