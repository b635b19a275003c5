/-
  JSON values, their text, and strict readers.

  A number is a safe integer (`num`) or any other number, kept by its text
  (`float`).  `stringify` is `JSON.stringify` without indentation.
  `exactObject` reads an object whose own keys are exactly the given ones, so a
  reader built from it rejects every extra or missing field.
-/
import Mathlib

namespace Js

/-- A JSON value.  The keys of an object are distinct. -/
inductive Json where
  | null
  | bool (b : Bool)
  | num (n : ℤ)
  | float (lexeme : String)
  | str (s : String)
  | arr (items : List Json)
  | obj (fields : List (String × Json))
  deriving Inhabited

namespace Json

/-! ## Text -/

/-- A lower-case hexadecimal digit. -/
def hexDigit (n : ℕ) : Char := if n < 10 then Char.ofNat (48 + n) else Char.ofNat (87 + n)

/-- A character inside a JSON string. -/
def escapeChar (c : Char) : List Char :=
  if c = '"' then ['\\', '"']
  else if c = '\\' then ['\\', '\\']
  else if c = '\n' then ['\\', 'n']
  else if c = '\r' then ['\\', 'r']
  else if c = '\t' then ['\\', 't']
  else if c.toNat = 8 then ['\\', 'b']
  else if c.toNat = 12 then ['\\', 'f']
  else if c.toNat < 32 then ['\\', 'u', '0', '0', hexDigit (c.toNat / 16), hexDigit (c.toNat % 16)]
  else [c]

/-- A JSON string, with its quotes. -/
def quote (s : String) : String :=
  String.ofList ('"' :: (s.toList.flatMap escapeChar ++ ['"']))

mutual

/-- `JSON.stringify`. -/
def stringify : Json → String
  | null => "null"
  | bool true => "true"
  | bool false => "false"
  | num n => toString n
  | float l => l
  | str s => quote s
  | arr xs => "[" ++ String.intercalate "," (stringifyItems xs) ++ "]"
  | obj fs => "\x7b" ++ String.intercalate "," (stringifyFields fs) ++ "\x7d"

def stringifyItems : List Json → List String
  | [] => []
  | x :: xs => stringify x :: stringifyItems xs

def stringifyFields : List (String × Json) → List String
  | [] => []
  | (k, x) :: fs => (quote k ++ ":" ++ stringify x) :: stringifyFields fs

end

/-- The blanks before a line of an indented text. -/
def indent (depth : ℕ) : String := String.ofList (List.replicate (2 * depth) ' ')

mutual

/-- `JSON.stringify(value, null, 2)`, inside `depth` brackets. -/
def pretty (depth : ℕ) : Json → String
  | arr [] => "[]"
  | arr (x :: xs) => "[\n" ++ String.intercalate ",\n" (prettyItems (depth + 1) (x :: xs)) ++ "\n" ++
      indent depth ++ "]"
  | obj [] => "\x7b\x7d"
  | obj (f :: fs) => "\x7b\n" ++ String.intercalate ",\n" (prettyFields (depth + 1) (f :: fs)) ++
      "\n" ++ indent depth ++ "\x7d"
  | v => stringify v

def prettyItems (depth : ℕ) : List Json → List String
  | [] => []
  | x :: xs => (indent depth ++ pretty depth x) :: prettyItems depth xs

def prettyFields (depth : ℕ) : List (String × Json) → List String
  | [] => []
  | (k, x) :: fs => (indent depth ++ quote k ++ ": " ++ pretty depth x) :: prettyFields depth fs

end

theorem utf8ByteSize_intercalate (s t : String) (l : List String) :
    (s.intercalate (t :: l)).utf8ByteSize =
      t.utf8ByteSize + (l.map fun u => s.utf8ByteSize + u.utf8ByteSize).sum := by
  induction l generalizing t with
  | nil => simp
  | cons u l ih =>
    rw [String.intercalate_cons_cons, String.utf8ByteSize_append, String.utf8ByteSize_append, ih]
    simp only [List.map_cons, List.sum_cons]
    omega

theorem stringifyFields_eq (fs : List (String × Json)) :
    stringifyFields fs = fs.map fun f => quote f.1 ++ ":" ++ stringify f.2 := by
  induction fs with
  | nil =>
    rw [stringifyFields]
    rfl
  | cons f fs ih =>
    obtain ⟨k, x⟩ := f
    rw [stringifyFields, ih]
    rfl

/-- The bytes of the key and of the value of a field. -/
def fieldBytes (f : String × Json) : ℕ := (quote f.1).utf8ByteSize + f.2.stringify.utf8ByteSize

/-- The bytes of the text of an object: each field has a colon, and a comma
    after it or a bracket around all of them. -/
theorem utf8ByteSize_stringify_obj (f : String × Json) (fs : List (String × Json)) :
    (obj (f :: fs)).stringify.utf8ByteSize = ((f :: fs).map fun g => fieldBytes g + 2).sum + 1 := by
  have h1 : "\x7b".utf8ByteSize = 1 := by decide
  have h2 : "\x7d".utf8ByteSize = 1 := by decide
  have h3 : ":".utf8ByteSize = 1 := by decide
  have h4 : ",".utf8ByteSize = 1 := by decide
  have hs : (fs.map fun u => ",".utf8ByteSize + (quote u.1 ++ ":" ++ u.2.stringify).utf8ByteSize).sum =
      (fs.map fun g => fieldBytes g + 2).sum := by
    congr 1
    refine List.map_congr_left fun g _ => ?_
    rw [String.utf8ByteSize_append, String.utf8ByteSize_append, h3, h4, fieldBytes]
    omega
  rw [stringify, stringifyFields_eq, String.utf8ByteSize_append, String.utf8ByteSize_append,
    List.map_cons, utf8ByteSize_intercalate, List.map_map, Function.comp_def, hs,
    String.utf8ByteSize_append, String.utf8ByteSize_append, List.map_cons, List.sum_cons,
    fieldBytes, h1, h2, h3]
  omega

/-! ## Strict readers -/

/-- The values of an object whose own keys are exactly `keys`, in the order of
    `keys`. -/
def exactObject (keys : List String) : Json → Option (List Json)
  | obj fs => if fs.length = keys.length then keys.mapM fun k => fs.lookup k else none
  | _ => none

/-- The value of the own property `key`. -/
def field (key : String) : Json → Option Json
  | obj fs => fs.lookup key
  | _ => none

/-- The own properties, in their order. -/
def entries : Json → List (String × Json)
  | obj fs => fs
  | _ => []

variable {α : Type}

theorem mapM_congr {β : Type} {f g : β → Option α} {l : List β} (h : ∀ x ∈ l, f x = g x) :
    l.mapM f = l.mapM g := by
  induction l with
  | nil => rfl
  | cons x l ih =>
    rw [List.mapM_cons, List.mapM_cons, h x (by simp), ih fun y hy => h y (by simp [hy])]

theorem mapM_lookup_zip {keys : List String} {values : List Json} (hn : keys.Nodup)
    (hl : keys.length = values.length) :
    keys.mapM (fun k => (keys.zip values).lookup k) = some values := by
  induction keys generalizing values with
  | nil => cases values with
    | nil => rfl
    | cons => simp at hl
  | cons k keys ih =>
    cases values with
    | nil => simp at hl
    | cons v values =>
      rw [List.nodup_cons] at hn
      have hrest : keys.mapM (fun k' => ((k :: keys).zip (v :: values)).lookup k') =
          keys.mapM (fun k' => (keys.zip values).lookup k') := by
        refine mapM_congr fun k' hk' => ?_
        have hne : (k' == k) = false := by
          rw [beq_eq_false_iff_ne]; rintro rfl; exact hn.1 hk'
        simp only [List.zip_cons_cons, List.lookup, hne]
      rw [List.mapM_cons, hrest, ih hn.2 (by simpa using hl)]
      simp

/-- An object literal with the given keys reads back. -/
theorem exactObject_zip {keys : List String} {values : List Json} (hn : keys.Nodup)
    (hl : keys.length = values.length) : exactObject keys (obj (keys.zip values)) = some values := by
  simp only [exactObject]
  rw [if_pos (by simp [hl]), mapM_lookup_zip hn hl]

/-- A condition that a reader checks. -/
def check (p : Prop) [Decidable p] : Option Unit := if p then some () else none

@[simp] theorem check_eq_some {p : Prop} [Decidable p] {u : Unit} : check p = some u ↔ p := by
  simp [check]

theorem check_pos {p : Prop} [Decidable p] (h : p) : check p = some () := if_pos h

/-- A reader for nullable fields. -/
def nullable (read : Json → Option α) : Json → Option (Option α)
  | null => some none
  | v => (read v).map some

/-- The text of a nullable field. -/
def ofOption (write : α → Json) : Option α → Json
  | none => null
  | some a => write a

@[simp] theorem ofOption_some {write : α → Json} (a : α) : ofOption write (some a) = write a := rfl

/-- A value that is written as something other than `null` reads back. -/
theorem nullable_ofOption {read : Json → Option α} {write : α → Json}
    (hread : ∀ a, read (write a) = some a) (hnull : ∀ a, write a ≠ null) (o : Option α) :
    nullable read (ofOption write o) = some o := by
  cases o with
  | none => rfl
  | some a =>
    have h := hread a
    have hn := hnull a
    simp only [ofOption]
    cases hw : write a with
    | null => exact absurd hw hn
    | _ => simp only [hw] at h; simp [nullable, h]

/-- A reader for strings. -/
def string : Json → Option String
  | str s => some s
  | _ => none

/-- A reader for integers. -/
def integer : Json → Option ℤ
  | num n => some n
  | _ => none

/-- A reader for the constant `s`. -/
def literal (s : String) : Json → Option Unit
  | str t => if t = s then some () else none
  | _ => none

@[simp] theorem string_str (s : String) : string (str s) = some s := rfl

@[simp] theorem integer_num (n : ℤ) : integer (num n) = some n := rfl

@[simp] theorem literal_str (s : String) : literal s (str s) = some () := if_pos rfl

/-- A reader for the items of an array. -/
def items (read : Json → Option α) : Json → Option (List α)
  | arr xs => xs.mapM read
  | _ => none

theorem items_arr {read : Json → Option α} {write : α → Json}
    (hread : ∀ a, read (write a) = some a) (l : List α) :
    items read (arr (l.map write)) = some l := by
  unfold items
  induction l with
  | nil => rfl
  | cons a l ih => simp only [List.map_cons, List.mapM_cons, hread, ih]; rfl

/-! ## Checked strings and bounded integers -/

end Json

/-- A string accepted by `p`. -/
abbrev Checked (p : String → Bool) := {s : String // p s = true}

/-- An integer between `lo` and `hi`. -/
abbrev Bounded (lo hi : ℤ) := {n : ℤ // lo ≤ n ∧ n ≤ hi}

/-- A list of at least one and at most 64 distinct strings accepted by `p`. -/
abbrev Names (p : String → Bool) := {l : List (Checked p) // 1 ≤ l.length ∧ l.length ≤ 64 ∧ l.Nodup}

namespace Json

def checked (p : String → Bool) : Json → Option (Checked p)
  | str s => if h : p s = true then some ⟨s, h⟩ else none
  | _ => none

def bounded (lo hi : ℤ) : Json → Option (Bounded lo hi)
  | num n => if h : lo ≤ n ∧ n ≤ hi then some ⟨n, h⟩ else none
  | _ => none

/-- A natural number between `lo` and `hi`. -/
def natural (lo hi : ℕ) (v : Json) : Option ℕ := (bounded lo hi v).map (·.1.toNat)

def names (p : String → Bool) (v : Json) : Option (Names p) := do
  let l ← items (checked p) v
  if h : 1 ≤ l.length ∧ l.length ≤ 64 ∧ l.Nodup then some ⟨l, h⟩ else none

def ofChecked {p : String → Bool} (t : Checked p) : Json := str t.1

def ofNames {p : String → Bool} (l : Names p) : Json := arr (l.1.map ofChecked)

@[simp] theorem checked_ofChecked {p : String → Bool} (t : Checked p) :
    checked p (ofChecked t) = some t := dif_pos t.2

@[simp] theorem bounded_num {lo hi : ℤ} (n : Bounded lo hi) : bounded lo hi (num n.1) = some n :=
  dif_pos n.2

theorem natural_num {lo hi n : ℕ} : natural lo hi (num n) = if lo ≤ n ∧ n ≤ hi then some n else none := by
  unfold natural bounded
  by_cases h : lo ≤ n ∧ n ≤ hi
  · simp [h]
  · have hn : ¬ ((lo : ℤ) ≤ n ∧ (n : ℤ) ≤ hi) := by omega
    simp only [dif_neg hn, if_neg h, Option.map_none]

theorem natural_eq_some {lo hi n : ℕ} {v : Json} (h : natural lo hi v = some n) : lo ≤ n ∧ n ≤ hi := by
  unfold natural bounded at h
  cases v with
  | num m =>
    simp only at h
    split_ifs at h with hm
    · simp only [Option.map_some, Option.some.injEq] at h
      omega
    · simp at h
  | _ => simp at h

@[simp] theorem names_ofNames {p : String → Bool} (l : Names p) : names p (ofNames l) = some l := by
  have h : items (checked p) (ofNames l) = some l.1 := items_arr checked_ofChecked l.1
  simp only [names, h]
  exact dif_pos l.2

@[simp] theorem nullable_checked {p : String → Bool} (o : Option (Checked p)) :
    nullable (checked p) (ofOption ofChecked o) = some o :=
  nullable_ofOption checked_ofChecked (by simp [ofChecked]) o

end Json

end Js
