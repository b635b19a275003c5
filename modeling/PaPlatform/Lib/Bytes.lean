/-
  The bytes of strings: UTF-8 and base64, forth and back.
-/
import PaPlatform.Lib.Text

namespace Js

variable {s t : String} {bytes : Bytes} {b : UInt8} {c : Char}

/-! ## UTF-8 -/

/-- `Buffer.from(s)`. -/
def utf8 (s : String) : Bytes := s.toUTF8.data.toList

theorem toArray_utf8 (s : String) : (⟨(utf8 s).toArray⟩ : ByteArray) = s.toUTF8 := by
  rw [utf8, Array.toArray_toList]

theorem fromUTF8?_utf8 (s : String) : String.fromUTF8? ⟨(utf8 s).toArray⟩ = some s := by
  rw [toArray_utf8, String.fromUTF8?]
  exact dif_pos s.isValidUTF8

theorem utf8_injective (h : utf8 s = utf8 t) : s = t := by
  have hs := fromUTF8?_utf8 s
  rw [h, fromUTF8?_utf8] at hs
  exact (Option.some.inj hs).symm

/-- A text that is read is the text of its bytes. -/
theorem utf8_of_fromUTF8? (h : String.fromUTF8? ⟨bytes.toArray⟩ = some s) : utf8 s = bytes := by
  rw [String.fromUTF8?] at h
  split at h
  · cases h
    rw [utf8]
    rfl
  · cases h

theorem utf8_eq_flatMap (s : String) : utf8 s = s.toList.flatMap String.utf8EncodeChar := by
  conv_lhs => rw [← String.ofList_toList (s := s)]
  rw [utf8, String.toUTF8_eq_toByteArray, String.toByteArray_ofList, List.utf8Encode, List.toList_data_toByteArray]

theorem utf8_ne_nil (h : s ≠ "") : utf8 s ≠ [] := by
  intro hs
  exact h (utf8_injective (hs.trans rfl))

/-- An ASCII byte stands for the character of its number only. -/
theorem mem_utf8EncodeChar (hb : b < 0x80) : b ∈ String.utf8EncodeChar c ↔ c.toNat = b.toNat := by
  have hb : b.toNat < 128 := UInt8.lt_iff_toNat_lt.1 hb
  have hc : c.val.toNat = c.toNat := rfl
  unfold String.utf8EncodeChar
  simp only [hc]
  split_ifs with h1 h2 h3
  all_goals
    simp only [List.mem_cons, List.not_mem_nil, or_false, ← UInt8.toNat_inj, UInt8.toNat_ofNat']
    omega

theorem mem_utf8 (hb : b < 0x80) : b ∈ utf8 s ↔ ∃ c ∈ s.toList, c.toNat = b.toNat := by
  rw [utf8_eq_flatMap, List.mem_flatMap]
  exact exists_congr fun c => and_congr_right fun _ => mem_utf8EncodeChar hb

/-! ## Base64 -/

theorem base64Value_char : ∀ n < 64, base64Char n ≠ '=' ∧ base64Value (base64Char n) = some n := by
  decide +kernel

/-- The groups of six bits of a byte string. -/
def sextets : Bytes → List ℕ
  | a :: b :: c :: rest =>
    let n := a.toNat * 65536 + b.toNat * 256 + c.toNat
    n / 262144 :: n / 4096 % 64 :: n / 64 % 64 :: n % 64 :: sextets rest
  | [a, b] =>
    let n := a.toNat * 65536 + b.toNat * 256
    [n / 262144, n / 4096 % 64, n / 64 % 64]
  | [a] =>
    let n := a.toNat * 65536
    [n / 262144, n / 4096 % 64]
  | [] => []

theorem sextets_lt (bytes : Bytes) : ∀ n ∈ sextets bytes, n < 64 := by
  fun_induction sextets bytes with
  | case1 a b c rest n ih =>
    have ha := a.toNat_lt
    have hb := b.toNat_lt
    have hc := c.toNat_lt
    simp only [List.mem_cons, forall_eq_or_imp]
    refine ⟨by omega, by omega, by omega, by omega, ih⟩
  | case2 a b n =>
    have ha := a.toNat_lt
    have hb := b.toNat_lt
    simp only [List.mem_cons, forall_eq_or_imp, List.not_mem_nil, false_imp_iff, implies_true, and_true]
    refine ⟨by omega, by omega, by omega⟩
  | case3 a n =>
    have ha := a.toNat_lt
    simp only [List.mem_cons, forall_eq_or_imp, List.not_mem_nil, false_imp_iff, implies_true, and_true]
    refine ⟨by omega, by omega⟩
  | case4 => nofun

theorem base64Encode_eq (bytes : Bytes) :
    ∃ pad, base64Encode bytes = (sextets bytes).map base64Char ++ List.replicate pad '=' := by
  fun_induction sextets bytes with
  | case1 a b c rest n ih =>
    obtain ⟨pad, h⟩ := ih
    refine ⟨pad, ?_⟩
    rw [base64Encode, h]
    rfl
  | case2 => exact ⟨1, rfl⟩
  | case3 => exact ⟨2, rfl⟩
  | case4 => exact ⟨0, rfl⟩

theorem base64Bytes_sextets (bytes : Bytes) : base64Bytes (sextets bytes) = bytes := by
  fun_induction sextets bytes with
  | case1 a b c rest n ih =>
    have ha := a.toNat_lt
    have hb := b.toNat_lt
    have hc := c.toNat_lt
    rw [base64Bytes, ih]
    refine congrArg₂ _ ?_ (congrArg₂ _ ?_ (congrArg₂ _ ?_ rfl))
    all_goals
      rw [← UInt8.toNat_inj, UInt8.toNat_ofNat']
      omega
  | case2 a b n =>
    have ha := a.toNat_lt
    have hb := b.toNat_lt
    rw [base64Bytes]
    refine congrArg₂ _ ?_ (congrArg₂ _ ?_ rfl)
    all_goals
      rw [← UInt8.toNat_inj, UInt8.toNat_ofNat']
      omega
  | case3 a n =>
    have ha := a.toNat_lt
    rw [base64Bytes]
    refine congrArg₂ _ ?_ rfl
    rw [← UInt8.toNat_inj, UInt8.toNat_ofNat']
    omega
  | case4 => rfl

/-- What is written in base64 is read back. -/
theorem base64Decode_encode (bytes : Bytes) : base64Decode (String.ofList (base64Encode bytes)) = bytes := by
  obtain ⟨pad, h⟩ := base64Encode_eq bytes
  have hlt := sextets_lt bytes
  have htake : (base64Encode bytes).takeWhile (· ≠ '=') = (sextets bytes).map base64Char := by
    rw [h, List.takeWhile_append_of_pos]
    · cases pad <;> simp [List.replicate_succ]
    · intro c hc
      obtain ⟨n, hn, rfl⟩ := List.mem_map.1 hc
      exact decide_eq_true (base64Value_char n (hlt n hn)).1
  have hread : ((sextets bytes).map base64Char).filterMap base64Value = sextets bytes := by
    rw [List.filterMap_map]
    conv_rhs => rw [← List.filterMap_some (l := sextets bytes)]
    refine List.filterMap_congr fun n hn => ?_
    exact (base64Value_char n (hlt n hn)).2
  rw [base64Decode, String.toList_ofList, htake, hread, base64Bytes_sextets]

end Js
