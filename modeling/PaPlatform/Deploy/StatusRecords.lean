/-
  The records that `git status --porcelain=v2 -z` prints, and what
  `parseRepositoryGitStatus` makes of them.

  The decoder of paths drops a byte order mark, so a list of records is decoded
  exactly if and only if no path in it begins with one.
-/
import PaPlatform.Deploy.GitStatus
import PaPlatform.Lib.Bytes

namespace PaPlatform

open Js Guard

/-! ## Records -/

/-- A fixed field of a record. -/
abbrev StatusField := {bytes : Bytes // (0x20 : UInt8) ∉ bytes ∧ (0 : UInt8) ∉ bytes}

/-- A path in a record; it may hold every other character. -/
abbrev StatusPath := {path : String // path ≠ "" ∧ Char.ofNat 0 ∉ path.toList}

/-- `XY`: two ASCII characters. -/
structure StatusCode where
  x : Char
  y : Char
  ascii : ∀ c ∈ [x, y], c.toNat < 128 ∧ c.toNat ≠ 0x20 ∧ c.toNat ≠ 0

inductive StatusRecord where
  /-- `1 XY sub mH mI mW hH hI path`. -/
  | ordinary (xy : StatusCode) (fields : List.Vector StatusField 6) (path : StatusPath)
  /-- `2 XY sub mH mI mW hH hI Xscore path`, and the source path behind a NUL. -/
  | renameOrCopy (xy : StatusCode) (fields : List.Vector StatusField 7) (path source : StatusPath)
  /-- `u XY sub m1 m2 m3 mW h1 h2 h3 path`. -/
  | unmerged (xy : StatusCode) (fields : List.Vector StatusField 8) (path : StatusPath)
  /-- `? path`. -/
  | untracked (path : StatusPath)
  /-- `! path`. -/
  | ignored (path : StatusPath)

def StatusCode.text (xy : StatusCode) : String := String.ofList [xy.x, xy.y]

def StatusCode.bytes (xy : StatusCode) : Bytes := [UInt8.ofNat xy.x.toNat, UInt8.ofNat xy.y.toNat]

/-- Fields with a space after each, and a last one. -/
def spaced (fields : List Bytes) (last : Bytes) : Bytes := fields.flatMap (· ++ [0x20]) ++ last

/-- A character as a field. -/
def tagField (c : Char) : Bytes := [UInt8.ofNat c.toNat]

namespace StatusRecord

def kind : StatusRecord → RepositoryGitStatusKind
  | ordinary .. => .ordinary
  | renameOrCopy .. => .renameOrCopy
  | unmerged .. => .unmerged
  | untracked .. => .untracked
  | ignored .. => .ignored

def xy : StatusRecord → String
  | ordinary xy .. | renameOrCopy xy .. | unmerged xy .. => xy.text
  | untracked _ => "??"
  | ignored _ => "!!"

def path : StatusRecord → StatusPath
  | ordinary _ _ path | renameOrCopy _ _ path _ | unmerged _ _ path | untracked path | ignored path => path

def source : StatusRecord → Option StatusPath
  | renameOrCopy _ _ _ source => some source
  | _ => none

/-- The fixed fields of a record. -/
def fixed : StatusRecord → List Bytes
  | ordinary xy fields _ => tagField '1' :: xy.bytes :: fields.toList.map (·.1)
  | renameOrCopy xy fields _ _ => tagField '2' :: xy.bytes :: fields.toList.map (·.1)
  | unmerged xy fields _ => tagField 'u' :: xy.bytes :: fields.toList.map (·.1)
  | untracked _ => [tagField '?']
  | ignored _ => [tagField '!']

/-- The parts of a record, each of which a NUL ends. -/
def parts (r : StatusRecord) : List Bytes :=
  spaced r.fixed (utf8 r.path.1) :: (r.source.map fun source => utf8 source.1).toList

end StatusRecord

/-- The `-z` encoding. -/
def encodeStatus (records : List StatusRecord) : Bytes := (records.flatMap (·.parts)).flatMap (· ++ [0])

/-! ## Fields of a record -/

variable {fields : List Bytes} {last record : Bytes} {n index : ℕ} {xy : StatusCode} {r : StatusRecord}
  {records : List StatusRecord}

theorem splitOn_parts (h : ∀ f ∈ fields, (0 : UInt8) ∉ f) :
    (fields.flatMap (· ++ [0])).splitOn 0 = fields ++ [[]] := by
  induction fields with
  | nil => rfl
  | cons f fields ih =>
    rw [List.forall_mem_cons] at h
    have hf : ∀ x ∈ f, (x == 0) = false := by
      rintro x hx
      rw [beq_eq_false_iff_ne]
      rintro rfl
      exact h.1 hx
    rw [List.flatMap_cons, List.append_assoc, List.singleton_append, List.splitOn,
      List.splitOnP_append_cons_of_forall_mem hf 0 (by decide), ← List.splitOn, ih h.2, List.cons_append]

theorem spaced_cons (f : Bytes) : spaced (f :: fields) last = f ++ 0x20 :: spaced fields last := by
  simp [spaced]

theorem afterSpaces_spaced (h : ∀ f ∈ fields, (0x20 : UInt8) ∉ f) (hn : n ≤ fields.length) :
    afterSpaces n (spaced fields last) = some (spaced (fields.drop n) last) := by
  induction n generalizing fields with
  | zero => rfl
  | succ n ih =>
    cases fields with
    | nil => exact absurd hn (Nat.not_succ_le_zero n)
    | cons f fields =>
      rw [List.forall_mem_cons] at h
      have hdrop : (f ++ 0x20 :: spaced fields last).dropWhile (· ≠ 0x20) = 0x20 :: spaced fields last := by
        rw [List.dropWhile_append_of_pos]
        · rfl
        · rintro x hx
          rw [decide_eq_true_eq]
          rintro rfl
          exact h.1 hx
      rw [afterSpaces, spaced_cons, hdrop]
      exact ih h.2 (Nat.succ_le_succ_iff.1 hn)

theorem trailingField_spaced (h : ∀ f ∈ fields, (0x20 : UInt8) ∉ f) (hl : last ≠ []) :
    trailingField (spaced fields last) fields.length = .ok last := by
  have hafter : afterSpaces fields.length (spaced fields last) = some last := by
    rw [afterSpaces_spaced h le_rfl, List.drop_length]
    rfl
  rw [trailingField, hafter, require_some, ok_bind, throwIf_neg hl, ok_bind]
  rfl

theorem toNat_ascii {c : Char} (h : c.toNat < 128) : (UInt8.ofNat c.toNat).toNat = c.toNat :=
  UInt8.toNat_ofNat_of_lt' (h.trans (by decide))

theorem ofNat_ne {c : Char} {b : UInt8} (h : c.toNat < 128) (hb : c.toNat ≠ b.toNat) : b ≠ UInt8.ofNat c.toNat := by
  rintro rfl
  exact hb (toNat_ascii h).symm

theorem StatusCode.bytes_ne (xy : StatusCode) : (0x20 : UInt8) ∉ xy.bytes ∧ (0 : UInt8) ∉ xy.bytes := by
  obtain ⟨hx, hy⟩ : _ ∧ _ := by simpa using xy.ascii
  have hspace : (0x20 : UInt8) ∉ [UInt8.ofNat xy.x.toNat, UInt8.ofNat xy.y.toNat] := by
    simpa using ⟨ofNat_ne hx.1 hx.2.1, ofNat_ne hy.1 hy.2.1⟩
  have hnul : (0 : UInt8) ∉ [UInt8.ofNat xy.x.toNat, UInt8.ofNat xy.y.toNat] := by
    simpa using ⟨ofNat_ne hx.1 hx.2.2, ofNat_ne hy.1 hy.2.2⟩
  exact ⟨hspace, hnul⟩

theorem asciiText_bytes (xy : StatusCode) : asciiText xy.bytes = xy.text := by
  have hchar : ∀ c : Char, c.toNat < 128 → Char.ofNat ((UInt8.ofNat c.toNat).toNat % 128) = c := by
    intro c hc
    rw [toNat_ascii hc, Nat.mod_eq_of_lt hc, Char.ofNat_toNat]
  have hx := hchar xy.x (xy.ascii xy.x (by simp)).1
  have hy := hchar xy.y (xy.ascii xy.y (by simp)).1
  rw [asciiText, StatusCode.bytes, StatusCode.text, List.map_cons, List.map_cons, hx, hy, List.map_nil]

theorem asciiField_spaced {tag : Bytes} (ht : (0x20 : UInt8) ∉ tag) :
    asciiField (spaced (tag :: xy.bytes :: fields) last) 1 = .ok xy.text := by
  have hafter : afterSpaces 1 (spaced (tag :: xy.bytes :: fields) last) = some (spaced (xy.bytes :: fields) last) := by
    rw [spaced_cons, afterSpaces, List.dropWhile_append_of_pos]
    · rfl
    · rintro x hx
      rw [decide_eq_true_eq]
      rintro rfl
      exact ht hx
  have hmem : ¬ (0x20 : UInt8) ∉ spaced (xy.bytes :: fields) last := by
    rw [spaced_cons]
    simp
  have htake : (spaced (xy.bytes :: fields) last).takeWhile (· ≠ 0x20) = xy.bytes := by
    rw [spaced_cons, List.takeWhile_append_of_pos]
    · simp
    · rintro x hx
      rw [decide_eq_true_eq]
      rintro rfl
      exact xy.bytes_ne.1 hx
  rw [asciiField, hafter, require_some, ok_bind, throwIf_neg hmem, ok_bind, htake, asciiText_bytes]
  rfl

/-! ## Paths -/

/-- A path as it is decoded: without a byte order mark before it. -/
def stripMark (path : String) : String :=
  match path.toList with
  | c :: cs => if c.toNat = 0xfeff then String.ofList cs else path
  | [] => path

/-- The path begins with a byte order mark. -/
def Marked (path : String) : Prop := path.toList.head?.map Char.toNat = some 0xfeff

instance (path : String) : Decidable (Marked path) := inferInstanceAs (Decidable (_ = _))

theorem decodeGitPath_utf8 (path : String) : decodeGitPath (utf8 path) = .ok (stripMark path) := by
  rw [decodeGitPath, decodeUtf8, fromUTF8?_utf8, Option.map_some, require_some]
  rfl

theorem stripMark_eq_iff (path : String) : stripMark path = path ↔ ¬ Marked path := by
  unfold stripMark Marked
  rcases hp : path.toList with _ | ⟨c, cs⟩
  · simp
  · by_cases hc : c.toNat = 0xfeff
    · simp only [if_pos hc, List.head?_cons, Option.map_some, hc, not_true_eq_false, iff_false]
      intro heq
      have hlen := congrArg (fun s : String => s.toList.length) heq
      simp [hp] at hlen
    · simp [hc]

theorem nul_path (path : StatusPath) : (0 : UInt8) ∉ utf8 path.1 := by
  rw [mem_utf8 (by decide)]
  rintro ⟨c, hc, hn⟩
  have : c = Char.ofNat 0 := by rw [← Char.ofNat_toNat c, hn]; rfl
  exact path.2.2 (this ▸ hc)

/-! ## Decoding -/

/-- The entry for a record. -/
def StatusRecord.entry (index : ℕ) (r : StatusRecord) : RepositoryGitStatusEntry where
  recordIndex := index
  kind := r.kind
  xy := r.xy
  path := stripMark r.path.1
  pathBase64 := base64Text (utf8 r.path.1)
  source := r.source.bind fun source =>
    if stripMark source.1 = "" then none else some (stripMark source.1, base64Text (utf8 source.1))

/-- The entries for records, from the entry `index` on. -/
def entriesFrom (index : ℕ) : List StatusRecord → List RepositoryGitStatusEntry
  | [] => []
  | r :: records => r.entry index :: entriesFrom (index + 1) records

variable {following : List Bytes}

theorem spaced_head {c : Char} : (spaced (tagField c :: fields) last).head? = some (UInt8.ofNat c.toNat) := rfl

theorem field_mem {k : ℕ} {vector : List.Vector StatusField k} :
    ∀ f ∈ vector.toList.map (·.1), (0x20 : UInt8) ∉ f ∧ (0 : UInt8) ∉ f := by
  intro f hf
  obtain ⟨x, -, rfl⟩ := List.mem_map.1 hf
  exact x.2

/-- The fixed fields have no separator. -/
theorem fixed_mem (r : StatusRecord) : ∀ f ∈ r.fixed, (0x20 : UInt8) ∉ f ∧ (0 : UInt8) ∉ f := by
  cases r with
  | untracked | ignored =>
    simp only [StatusRecord.fixed, List.mem_singleton, forall_eq]
    decide
  | ordinary xy fields | renameOrCopy xy fields | unmerged xy fields =>
    simp only [StatusRecord.fixed, List.forall_mem_cons]
    exact ⟨by decide, xy.bytes_ne, field_mem⟩

theorem parts_nul (r : StatusRecord) : ∀ f ∈ r.parts, (0 : UInt8) ∉ f ∧ f ≠ [] := by
  intro f hf
  rcases List.mem_cons.1 hf with rfl | hf
  · constructor
    · intro hmem
      rcases List.mem_append.1 hmem with hmem | hmem
      · obtain ⟨g, hg, hmem⟩ := List.mem_flatMap.1 hmem
        rcases List.mem_append.1 hmem with hmem | hmem
        · exact (fixed_mem r g hg).2 hmem
        · exact absurd hmem (by decide)
      · exact nul_path r.path hmem
    · intro hnil
      exact utf8_ne_nil r.path.2.1 (List.append_eq_nil_iff.1 hnil).2
  · obtain ⟨source, hsource⟩ : ∃ source : StatusPath, f = utf8 source.1 := by
      rcases hs : r.source with _ | source
      · simp [hs] at hf
      · exact ⟨source, by simpa [hs] using hf⟩
    rw [hsource]
    exact ⟨nul_path source, utf8_ne_nil source.2.1⟩

theorem trailingField_record (r : StatusRecord) :
    trailingField (spaced r.fixed (utf8 r.path.1)) r.fixed.length = .ok (utf8 r.path.1) :=
  trailingField_spaced (fun f hf => (fixed_mem r f hf).1) (utf8_ne_nil r.path.2.1)

theorem length_fixed {k : ℕ} (vector : List.Vector StatusField k) (tag xy : Bytes) :
    (tag :: xy :: vector.toList.map (·.1)).length = k + 2 := by
  rw [List.length_cons, List.length_cons, List.length_map, vector.toList_length]

theorem recordFields_record (r : StatusRecord) :
    recordFields (spaced r.fixed (utf8 r.path.1)) ((r.source.map fun source => utf8 source.1).toList ++ following) =
      .ok (r.kind, r.xy, utf8 r.path.1, r.source.map fun source => utf8 source.1) := by
  have htrail := trailingField_record r
  cases r with
  | ordinary xy fields path =>
    have hascii : asciiField (spaced (tagField '1' :: xy.bytes :: fields.toList.map (·.1)) (utf8 path.1)) 1 =
        .ok xy.text := asciiField_spaced (by decide)
    simp only [StatusRecord.fixed, length_fixed, StatusRecord.path] at htrail
    simp only [recordFields, StatusRecord.fixed, StatusRecord.path, spaced_head]
    show (asciiField _ 1 >>= fun _ => _) = _
    rw [hascii, ok_bind, htrail]
    rfl
  | renameOrCopy xy fields path source =>
    have hascii : asciiField (spaced (tagField '2' :: xy.bytes :: fields.toList.map (·.1)) (utf8 path.1)) 1 =
        .ok xy.text := asciiField_spaced (by decide)
    simp only [StatusRecord.fixed, length_fixed, StatusRecord.path] at htrail
    simp only [recordFields, StatusRecord.fixed, StatusRecord.path, spaced_head]
    show (asciiField _ 1 >>= fun _ => _) = _
    rw [hascii, ok_bind, htrail]
    rfl
  | unmerged xy fields path =>
    have hascii : asciiField (spaced (tagField 'u' :: xy.bytes :: fields.toList.map (·.1)) (utf8 path.1)) 1 =
        .ok xy.text := asciiField_spaced (by decide)
    simp only [StatusRecord.fixed, length_fixed, StatusRecord.path] at htrail
    simp only [recordFields, StatusRecord.fixed, StatusRecord.path, spaced_head]
    show (asciiField _ 1 >>= fun _ => _) = _
    rw [hascii, ok_bind, htrail]
    rfl
  | untracked path =>
    simp only [recordFields, StatusRecord.fixed, StatusRecord.path, spaced_head]
    show (trailingField (spaced [tagField '?'] (utf8 path.1)) 1 >>= fun _ => _) = _
    have htrail : trailingField (spaced [tagField '?'] (utf8 path.1)) 1 = .ok (utf8 path.1) := htrail
    rw [htrail]
    rfl
  | ignored path =>
    simp only [recordFields, StatusRecord.fixed, StatusRecord.path, spaced_head]
    show (trailingField (spaced [tagField '!'] (utf8 path.1)) 1 >>= fun _ => _) = _
    have htrail : trailingField (spaced [tagField '!'] (utf8 path.1)) 1 = .ok (utf8 path.1) := htrail
    rw [htrail]
    rfl

/-- One record. -/
theorem parseRecords_record (r : StatusRecord) : parseRecords index (r.parts ++ following) =
    (parseRecords (index + 1) following >>= fun rest => .ok (r.entry index :: rest)) := by
  have hfields := @recordFields_record following r
  rw [StatusRecord.parts, List.cons_append, parseRecords, hfields, ok_bind]
  simp only [decodeGitPath_utf8, ok_bind, StatusRecord.entry]
  rcases r.source with _ | source
  · rfl
  · simp only [Option.map_some, decodeGitPath_utf8, ok_bind]
    rfl

theorem parseRecords_records (records : List StatusRecord) (index : ℕ) :
    parseRecords index (records.flatMap (·.parts)) = .ok (entriesFrom index records) := by
  induction records generalizing index with
  | nil => rfl
  | cons r records ih =>
    rw [List.flatMap_cons, parseRecords_record, ih, ok_bind]
    rfl

/-- **The encoding of records** is parsed into one entry for each. -/
theorem parse_encode (records : List StatusRecord) :
    parseRepositoryGitStatus (encodeStatus records) = .ok (entriesFrom 1 records) := by
  have hmem : ∀ f ∈ records.flatMap (·.parts), (0 : UInt8) ∉ f ∧ f ≠ [] := by
    intro f hf
    obtain ⟨r, -, hf⟩ := List.mem_flatMap.1 hf
    exact parts_nul r f hf
  have hsplit := splitOn_parts fun f hf => (hmem f hf).1
  rcases records with _ | ⟨r, records⟩
  · rfl
  · have hne : encodeStatus (r :: records) ≠ [] := by
      rw [encodeStatus, List.flatMap_cons, StatusRecord.parts, List.cons_append, List.flatMap_cons]
      simp
    have hlast : (encodeStatus (r :: records)).getLast? = some 0 := by
      have hparts : (r :: records).flatMap (·.parts) ≠ [] := by simp [StatusRecord.parts]
      rw [encodeStatus, ← List.dropLast_append_getLast hparts, List.flatMap_append, List.flatMap_singleton,
        ← List.append_assoc, List.getLast?_concat]
    have hnil : [] ∉ (r :: records).flatMap (·.parts) := fun h => (hmem [] h).2 rfl
    rw [parseRepositoryGitStatus, if_neg hne, throwIf_neg (by rw [hlast]; simp), ok_bind, splitNulFields]
    have hfields : ((encodeStatus (r :: records)).splitOn 0).dropLast = (r :: records).flatMap (·.parts) := by
      rw [encodeStatus, hsplit, List.dropLast_concat]
    simp only [hfields]
    rw [throwIf_neg hnil, ok_bind]
    exact parseRecords_records (r :: records) 1

/-! ## Exactness -/

/-- The entry tells what the record does. -/
structure Tells (r : StatusRecord) (e : RepositoryGitStatusEntry) : Prop where
  kind : e.kind = r.kind
  xy : e.xy = r.xy
  path : e.path = r.path.1
  source : e.source.map (·.1) = r.source.map (·.1)

/-- The status of records is decoded exactly. -/
structure DecodedExactly (records : List StatusRecord) (entries : List RepositoryGitStatusEntry) : Prop where
  parsed : parseRepositoryGitStatus (encodeStatus records) = .ok entries
  /-- One entry for each record, in their order. -/
  tells : List.Forall₂ Tells records entries
  /-- Different paths have different names. -/
  distinct : ∀ e ∈ entries, ∀ e' ∈ entries, base64Decode e.pathBase64 ≠ base64Decode e'.pathBase64 → e.path ≠ e'.path
  /-- The name is the path that Git reported. -/
  reported : ∀ e ∈ entries, utf8 e.path = base64Decode e.pathBase64

/-- No path of the record begins with a byte order mark. -/
def Unmarked (r : StatusRecord) : Prop := ¬ Marked r.path.1 ∧ ∀ source, r.source = some source → ¬ Marked source.1

theorem tells_entry (h : Unmarked r) (index : ℕ) : Tells r (r.entry index) := by
  constructor
  · rfl
  · rfl
  · exact (stripMark_eq_iff _).2 h.1
  · unfold StatusRecord.entry
    rcases hs : r.source with _ | source
    · rfl
    · have heq := (stripMark_eq_iff source.1).2 (h.2 source hs)
      simp only [Option.bind_some, heq, if_neg source.2.1, Option.map_some]

theorem unmarked_of_tells (h : Tells r (r.entry index)) : Unmarked r := by
  constructor
  · exact (stripMark_eq_iff _).1 h.path
  · rintro source hs
    have hsource := h.source
    simp only [StatusRecord.entry, hs, Option.bind_some, Option.map_some] at hsource
    split_ifs at hsource
    · cases hsource
    · exact (stripMark_eq_iff _).1 (Option.some.inj hsource)

theorem mem_entriesFrom {e : RepositoryGitStatusEntry} (h : e ∈ entriesFrom index records) :
    ∃ r ∈ records, ∃ i, e = r.entry i := by
  induction records generalizing index with
  | nil => cases h
  | cons r records ih =>
    rcases List.mem_cons.1 h with rfl | h
    · exact ⟨r, List.mem_cons_self, index, rfl⟩
    · obtain ⟨r', hr, hi⟩ := ih h
      exact ⟨r', List.mem_cons_of_mem _ hr, hi⟩

theorem forall₂_entries : List.Forall₂ Tells records (entriesFrom index records) ↔ ∀ r ∈ records, Unmarked r := by
  induction records generalizing index with
  | nil => exact ⟨fun _ => nofun, fun _ => .nil⟩
  | cons r records ih =>
    rw [entriesFrom, List.forall₂_cons, ih, List.forall_mem_cons]
    exact and_congr_left fun _ => ⟨unmarked_of_tells, fun h => tells_entry h index⟩

theorem entry_reported (h : Unmarked r) (index : ℕ) :
    (r.entry index).path = r.path.1 ∧ base64Decode (r.entry index).pathBase64 = utf8 r.path.1 :=
  ⟨(stripMark_eq_iff _).2 h.1, base64Decode_encode _⟩

theorem unmarked_of_decoded {entries : List RepositoryGitStatusEntry} (h : DecodedExactly records entries) :
    ∀ r ∈ records, Unmarked r := by
  have heq := h.parsed
  rw [parse_encode] at heq
  cases heq
  exact forall₂_entries.1 h.tells

/-- **Git status decoding is exact if and only if** no path begins with a byte order mark. -/
theorem status_decoded_iff (records : List StatusRecord) :
    (∃ entries, DecodedExactly records entries) ↔ ∀ r ∈ records, Unmarked r := by
  constructor
  · rintro ⟨entries, h⟩
    exact unmarked_of_decoded h
  · intro h
    have hentry : ∀ e ∈ entriesFrom 1 records, utf8 e.path = base64Decode e.pathBase64 := by
      intro e he
      obtain ⟨r, hr, i, rfl⟩ := mem_entriesFrom he
      obtain ⟨hpath, hbytes⟩ := entry_reported (h r hr) i
      rw [hpath, hbytes]
    refine ⟨entriesFrom 1 records, parse_encode records, forall₂_entries.2 h, ?_, hentry⟩
    intro e he e' he' hne heq
    rw [← hentry e he, ← hentry e' he', heq] at hne
    exact hne rfl

/-- The files `a` and U+FEFF `a` have one name. -/
theorem marked_paths_collide : ¬ ∀ records, ∃ entries, DecodedExactly records entries := by
  intro h
  obtain ⟨entries, h⟩ := h [.untracked ⟨String.ofList [Char.ofNat 0xfeff, 'a'], by decide⟩,
    .untracked ⟨"a", by decide⟩]
  have hpath := (unmarked_of_decoded h _ List.mem_cons_self).1
  exact hpath (by decide)

end PaPlatform
