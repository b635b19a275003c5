/-
  The task section of a status report (`deploy/task-snapshot.ts`).

  A text is a string of UTF-16 units.  The last steps of the sanitizer remove
  what the first ones leave, so that its result has no control character and no
  line separator, whatever the escape sequences in the text are.
-/
import PaPlatform.Lib.Pattern
import PaPlatform.Lib.Separated
import PaPlatform.Lib.Unicode
import PaPlatform.Todo.Store

namespace PaPlatform.Todo

open Js Js.Units

/-! ## The sanitizer -/

/-- `\u001b\][^\u0007]*(?:\u0007|\u001b\\)`. -/
def operatingSystemCommand : Pattern :=
  .chain [.text [0x1b, 0x5d], .star (.unit (· != 0x07)), .alt (.text [0x07]) (.text [0x1b, 0x5c])]

/-- `\u001b[P^_][\s\S]*?\u001b\\`. -/
def stringCommand : Units → Option ℕ
  | 0x1b :: u :: rest =>
    if u == unit 'P' || u == unit '^' || u == unit '_' then
      (Separated.breakOn [0x1b, 0x5c] rest).map fun parts => 2 + parts.1.length + 2
    else none
  | _ => none

/-- `(?:\u001b\[|\u009b)[0-?]*[\u0020-\u002f]*[@-~]`. -/
def controlSequence : Pattern :=
  .chain [.alt (.text [0x1b, 0x5b]) (.text [0x9b]), .star (.unit (within '0' '?')), .star (.unit (within ' ' '/')),
    .unit (within '@' '~')]

/-- `\u001b[@-_]`. -/
def escapeSequence : Pattern := .chain [.text [0x1b], .unit (within '@' '_')]

/-- `[\p{Cc}\p{Cf}\p{Zl}\p{Zp}]`, of a code point. -/
def isHidden (n : ℕ) : Bool := Units.isControl n || Units.isFormat n || n == 0x2028 || n == 0x2029

/-- `[\p{Cc}\p{Cf}\p{Zl}\p{Zp}]+`: a match starts and ends between code points. -/
def hidden (s : Units) : Option ℕ := some (((codePoints s).takeWhile isHidden).flatMap ofCodePoint).length

/-- `\s+`. -/
def spaces (s : Units) : Option ℕ := some (s.takeWhile Units.isSpace).length

/-- `s.trim()`. -/
def trimUnits (s : Units) : Units := ((s.dropWhile Units.isSpace).reverse.dropWhile Units.isSpace).reverse

def sanitizeDeploymentTaskText (text : Units) : Units :=
  let text := replaceAll operatingSystemCommand.find [] text
  let text := replaceAll stringCommand [] text
  let text := replaceAll controlSequence.find [] text
  let text := replaceAll escapeSequence.find [] text
  let text := replaceAll hidden [0x20] text
  let text := replaceAll spaces [0x20] text
  trimUnits text

/-! ## The section -/

/-- A task whose text is a string of UTF-16 units. -/
structure SectionTask where
  id : ℕ
  text : Units
  status : DeploymentTaskStatus
  order : ℕ
  dependencies : List ℕ

/-- What the section shows of a snapshot.  An array has less than 2^32 elements. -/
structure SectionSnapshot where
  updatedAt : String
  tasks : List SectionTask
  length_lt : tasks.length < 2 ^ 32

/-- `String(id)`, which is in decimal for a safe integer. -/
structure IdText where
  text : ℕ → Units
  safe : ∀ n < 2 ^ 53, text n = decimal n
  plain : ∀ n, ∀ u ∈ text n, Units.isDigit u = true ∨ u = unit '.' ∨ u = unit 'e' ∨ u = unit '+'

def maxSectionBytes : ℕ := 50 * 1024

def maxSectionLines : ℕ := 2000

def deploymentTaskStatusMarker : DeploymentTaskStatus → Units
  | .pending => [0x25cb]
  | .inProgress => [0x25b6]
  | .completed => [0x2713]
  | .cancelled => [0x2212]

/-- `lines.join("\n")`. -/
def joinLines (lines : List Units) : Units := List.intercalate [0x0a] lines

def fitsTaskSection (lines : List Units) : Bool :=
  lines.length ≤ maxSectionLines && byteLength (joinLines lines) ≤ maxSectionBytes

def taskOmissionNotice (omitted : ℕ) : Units :=
  units "  ... [" ++ decimal omitted ++ units " " ++ units (if omitted = 1 then "task" else "tasks") ++
    units " omitted: task section limit of 51200 bytes/2000 lines]"

/-- ` ← #1,#2`. -/
def dependencyText (ids : IdText) (dependencies : List ℕ) : Units :=
  if dependencies = [] then []
  else units " ← " ++ List.intercalate [unit ','] (dependencies.map fun id => unit '#' :: ids.text id)

def taskRow (ids : IdText) (task : SectionTask) : Units :=
  units "  " ++ deploymentTaskStatusMarker task.status ++ units " #" ++ ids.text task.id ++ units " " ++
    sanitizeDeploymentTaskText task.text ++ dependencyText ids task.dependencies

def sectionHeader (snapshot : SectionSnapshot) : List Units :=
  [units "Session tasks: " ++ decimal (snapshot.tasks.countP (·.status == .completed)) ++ units "/" ++
      decimal snapshot.tasks.length ++ units " completed",
    units "  Freshness: " ++ units snapshot.updatedAt]

/-- The order of the rows: by order, then by id. -/
def rowsBefore (left right : SectionTask) : Bool :=
  left.order < right.order || (left.order == right.order && left.id ≤ right.id)

def sectionRows (ids : IdText) (snapshot : SectionSnapshot) : List Units :=
  (snapshot.tasks.mergeSort rowsBefore).map (taskRow ids)

/-- The loop over the rows, after the rows `selected`. -/
def selectRows (header : List Units) (total : ℕ) : List Units → List Units → List Units
  | selected, [] => selected
  | selected, row :: rows =>
    if fitsTaskSection (header ++ selected ++ [row, taskOmissionNotice (total - selected.length - 1)]) then
      selectRows header total (selected ++ [row]) rows
    else selected

def formatDeploymentTaskSection (ids : IdText) (snapshot : SectionSnapshot) : Units :=
  let header := sectionHeader snapshot
  if snapshot.tasks = [] then joinLines (header ++ [units "  No session tasks"])
  else
    let rows := sectionRows ids snapshot
    if fitsTaskSection (header ++ rows) then joinLines (header ++ rows)
    else
      let selected := selectRows header rows.length [] rows
      joinLines (header ++ selected ++ [taskOmissionNotice (rows.length - selected.length)])

variable {s : Units} {u : UInt16}

/-! ## What the sanitizer leaves -/

/-- Not a control character, and not a line or paragraph separator. -/
def isQuiet (u : UInt16) : Bool := !Units.isControl u.toNat && u != 0x2028 && u != 0x2029

theorem isQuiet_surrogate (h : isSurrogate u = true) : isQuiet u = true := by
  rw [toNat_surrogate] at h
  have hcontrol : Units.isControl u.toNat = false := by
    simp [Units.isControl]
    omega
  have hne : ∀ v : UInt16, v.toNat < 0xd800 → u ≠ v := by
    rintro v hv rfl
    omega
  simp [isQuiet, hcontrol, hne 0x2028 (by simp), hne 0x2029 (by simp)]

theorem codePoints_cons (u : UInt16) (rest : Units) :
    ∃ c t, codePoints (u :: rest) = c :: t ∧ (c = u.toNat ∨ Value.isHigh u = true) := by
  cases rest with
  | nil => exact ⟨_, _, rfl, Or.inl rfl⟩
  | cons v rest =>
    rw [codePoints]
    split_ifs with hp
    · exact ⟨_, _, rfl, Or.inr (by simpa using (Bool.and_eq_true_iff.1 hp).1)⟩
    · exact ⟨_, _, rfl, Or.inl rfl⟩

/-- A unit that is not hidden is quiet. -/
theorem isQuiet_of_hidden {rest : Units} (h : ∀ n, hidden (u :: rest) ≠ some (n + 1)) : isQuiet u = true := by
  obtain ⟨c, t, hc, hu⟩ := codePoints_cons u rest
  rcases hu with rfl | hu
  · have hseen : isHidden u.toNat = false := by
      rw [Bool.eq_false_iff]
      intro hh
      rw [hidden, hc, List.takeWhile_cons_of_pos hh, List.flatMap_cons, ofCodePoint_unit] at h
      exact h _ rfl
    have hne : ∀ v : UInt16, u.toNat ≠ v.toNat → u ≠ v := by
      rintro v hv rfl
      exact hv rfl
    simp only [isHidden, Bool.or_eq_false_iff, beq_eq_false_iff_ne] at hseen
    simp [isQuiet, hseen.1.1.1, hne 0x2028 hseen.1.2, hne 0x2029 hseen.2]
  · exact isQuiet_surrogate (by simp [isSurrogate, hu])

theorem mem_trimUnits (h : u ∈ trimUnits s) : u ∈ s := by
  have hback := (List.dropWhile_suffix _).subset (List.mem_reverse.1 h)
  exact (List.dropWhile_suffix _).subset (List.mem_reverse.1 hback)

/-- **Nothing but quiet units is left of a text**: what the first steps leave of an escape sequence is
    hidden, and the last steps only put spaces and trim. -/
theorem sanitizeDeploymentTaskText_quiet (text : Units) :
    ∀ u ∈ sanitizeDeploymentTaskText text, isQuiet u = true := by
  intro u hu
  have hspace : ∀ u ∈ ([0x20] : Units), isQuiet u = true := by simp [isQuiet, Units.isControl]
  have hshown := fun s => forall_replaceFrom (s := s) hspace (fun _ _ _ hn => isQuiet_of_hidden hn) 0
  exact forall_replaceAll hspace (hshown _) u (mem_trimUnits hu)

/-! ## The rows -/

/-- A printable ASCII character. -/
def isPrintable (u : UInt16) : Bool := 0x20 ≤ u && u < 0x7f

theorem isQuiet_printable (h : isPrintable u = true) : isQuiet u = true := by
  simp only [isPrintable, Bool.and_eq_true, decide_eq_true_eq, UInt16.le_iff_toNat_le, UInt16.lt_iff_toNat_lt,
    UInt16.reduceToNat] at h
  have hcontrol : Units.isControl u.toNat = false := by
    simp [Units.isControl]
    omega
  have hne : ∀ v : UInt16, 0x7f ≤ v.toNat → u ≠ v := by
    rintro v hv rfl
    omega
  simp [isQuiet, hcontrol, hne 0x2028 (by simp), hne 0x2029 (by simp)]

theorem isPrintable_digit (h : Units.isDigit u = true) : isPrintable u = true := by
  simp only [Units.isDigit, within, Bool.and_eq_true, decide_eq_true_eq, isPrintable, UInt16.le_iff_toNat_le,
    UInt16.lt_iff_toNat_lt] at h ⊢
  have hzero : (unit '0').toNat = 0x30 := rfl
  have hnine : (unit '9').toNat = 0x39 := rfl
  simp only [UInt16.reduceToNat]
  omega

theorem isPrintable_decimal (n : ℕ) : ∀ u ∈ decimal n, isPrintable u = true :=
  fun u hu => isPrintable_digit (Value.decimal_digits n u hu)

theorem IdText.printable (ids : IdText) (n : ℕ) : ∀ u ∈ ids.text n, isPrintable u = true := by
  intro u hu
  rcases ids.plain n u hu with h | rfl | rfl | rfl
  · exact isPrintable_digit h
  · rfl
  · rfl
  · rfl

/-- Lines of quiet units. -/
def Quiet (s : Units) : Prop := ∀ u ∈ s, isQuiet u = true

theorem quiet_append {t : Units} (hs : Quiet s) (ht : Quiet t) : Quiet (s ++ t) := List.forall_mem_append.2 ⟨hs, ht⟩

theorem quiet_printable (h : ∀ u ∈ s, isPrintable u = true) : Quiet s := fun u hu => isQuiet_printable (h u hu)

theorem quiet_word (h : s.all isPrintable = true) : Quiet s := quiet_printable (List.all_eq_true.1 h)

theorem dependencyText_quiet (ids : IdText) (dependencies : List ℕ) : Quiet (dependencyText ids dependencies) := by
  have harrow : Quiet (units " ← ") := by
    show Quiet [0x20, 0x2190, 0x20]
    simp [Quiet, isQuiet, Units.isControl]
  have hids : ∀ ds : List ℕ, Quiet (List.intercalate [unit ','] (ds.map fun id => unit '#' :: ids.text id)) := by
    intro ds
    induction ds with
    | nil => simp [Quiet, List.intercalate]
    | cons d ds ih =>
      have hd : Quiet (unit '#' :: ids.text d) :=
        quiet_printable (List.forall_mem_cons.2 ⟨rfl, ids.printable d⟩)
      cases ds with
      | nil => simpa [List.intercalate] using hd
      | cons e ds =>
        rw [List.map_cons, List.map_cons, List.intercalate_cons_cons]
        have hcomma : Quiet [unit ','] := quiet_word rfl
        exact quiet_append (quiet_append hd hcomma) ih
  unfold dependencyText
  split_ifs
  · simp [Quiet]
  · exact quiet_append harrow (hids dependencies)

theorem taskRow_quiet (ids : IdText) (task : SectionTask) : Quiet (taskRow ids task) := by
  have hmarker : Quiet (deploymentTaskStatusMarker task.status) := by
    cases task.status <;> simp [deploymentTaskStatusMarker, Quiet, isQuiet, Units.isControl]
  have htext : Quiet (sanitizeDeploymentTaskText task.text) := sanitizeDeploymentTaskText_quiet task.text
  have hwords : ∀ w ∈ ["  ", " #", " "], Quiet (units w) := by
    intro w hw
    fin_cases hw <;> exact quiet_word rfl
  unfold taskRow
  refine quiet_append (quiet_append (quiet_append (quiet_append (quiet_append (quiet_append ?_ hmarker) ?_) ?_) ?_) htext)
    (dependencyText_quiet ids task.dependencies)
  · exact hwords _ (by simp)
  · exact hwords _ (by simp)
  · exact quiet_printable (ids.printable task.id)
  · exact hwords _ (by simp)

/-! ## The header -/

/-- A character between the space and the tilde. -/
def Printable (c : Char) : Prop := 0x20 ≤ c.toNat ∧ c.toNat < 0x7f

theorem printable_digits {cs : List Char} {n : ℕ} (h : digits cs = some n) : ∀ c ∈ cs, Printable c := by
  unfold digits at h
  split_ifs at h with hall
  unfold allOf at hall
  intro c hc
  have hdigit := List.all_eq_true.1 (Bool.and_eq_true_iff.1 hall).2 c hc
  simp only [Js.isDigit, Bool.and_eq_true, decide_eq_true_eq] at hdigit
  exact ⟨le_trans (by decide) (show '0'.toNat ≤ c.toNat from hdigit.1),
    lt_of_le_of_lt (show c.toNat ≤ '9'.toNat from hdigit.2) (by decide)⟩

/-- The year and what follows it. -/
theorem isoYear_printable {cs rest : List Char} {year : ℤ} (h : isoYear cs = some (year, rest))
    (hrest : ∀ c ∈ rest, Printable c) : cs.length ≤ 7 + rest.length ∧ ∀ c ∈ cs, Printable c := by
  have hparts : ∀ (k n : ℕ) (ds : List Char), k ≤ 6 → digits (ds.take k) = some n → ds.drop k = rest →
      ds.length ≤ 6 + rest.length ∧ ∀ c ∈ ds, Printable c := by
    rintro k n ds hk hn rfl
    refine ⟨by rw [List.length_drop]; omega, fun c hc => ?_⟩
    rw [← List.take_append_drop k ds] at hc
    exact (List.mem_append.1 hc).elim (printable_digits hn c) (hrest c)
  unfold isoYear at h
  split at h <;> simp only [Option.map_eq_some_iff, Option.bind_eq_bind, Option.bind_eq_some_iff, Prod.mk.injEq] at h
  · obtain ⟨_, ⟨n, hn, -⟩, -, hr⟩ := h
    obtain ⟨hlen, hall⟩ := hparts 6 n _ le_rfl hn hr
    exact ⟨by simp only [List.length_cons]; omega, List.forall_mem_cons.2 ⟨by simp [Printable], hall⟩⟩
  · obtain ⟨_, ⟨n, hn, -⟩, -, hr⟩ := h
    obtain ⟨hlen, hall⟩ := hparts 6 n _ le_rfl hn hr
    exact ⟨by simp only [List.length_cons]; omega, List.forall_mem_cons.2 ⟨by simp [Printable], hall⟩⟩
  · obtain ⟨_, ⟨n, hn, -⟩, -, hr⟩ := h
    obtain ⟨hlen, hall⟩ := hparts 4 n _ (by omega) hn hr
    exact ⟨by omega, hall⟩

theorem isIsoTimestamp_printable {t : String} (h : isIsoTimestamp t = true) :
    t.toList.length ≤ 27 ∧ ∀ c ∈ t.toList, Printable c := by
  obtain ⟨ms, hms⟩ : ∃ ms, dateParse t = some ms := by
    cases hd : dateParse t with
    | none => simp [isIsoTimestamp, hd] at h
    | some ms => exact ⟨ms, rfl⟩
  unfold dateParse at hms
  obtain ⟨⟨year, rest⟩, hyear, hms⟩ := Option.bind_eq_some_iff.1 hms
  dsimp only at hms
  split at hms
  · simp only [Option.bind_eq_bind, Option.bind_eq_some_iff] at hms
    obtain ⟨_, hm, _, hd, _, hh, _, hi, _, hs, _, hf, -⟩ := hms
    have hmark : ∀ c ∈ ['-', 'T', ':', '.', 'Z'], Printable c := by simp [Printable]
    have hm := printable_digits hm
    have hd := printable_digits hd
    have hh := printable_digits hh
    have hi := printable_digits hi
    have hs := printable_digits hs
    have hf := printable_digits hf
    refine isoYear_printable hyear ?_
    simp only [List.forall_mem_cons] at hmark hm hd hh hi hs hf ⊢
    obtain ⟨hdash, hT, hcolon, hdot, hZ, hnil⟩ := hmark
    exact ⟨hdash, hm.1, hm.2.1, hdash, hd.1, hd.2.1, hT, hh.1, hh.2.1, hcolon, hi.1, hi.2.1, hcolon, hs.1, hs.2.1,
      hdot, hf.1, hf.2.1, hf.2.2.1, hZ, hnil⟩
  · cases hms

/-- A text of printable characters has a unit for each. -/
theorem units_printable {t : String} (h : ∀ c ∈ t.toList, Printable c) :
    (units t).length = t.toList.length ∧ ∀ u ∈ units t, isPrintable u = true := by
  have hmap : ∀ cs : List Char, (∀ c ∈ cs, Printable c) →
      (cs.flatMap fun c => if c.toNat < 0x10000 then [c.toNat]
        else [0xd800 + (c.toNat - 0x10000) / 0x400, 0xdc00 + (c.toNat - 0x10000) % 0x400]) = cs.map (·.toNat) := by
    intro cs hcs
    induction cs with
    | nil => rfl
    | cons c cs ih =>
      obtain ⟨hc, hcs⟩ := List.forall_mem_cons.1 hcs
      rw [List.flatMap_cons, if_pos (by have := hc.2; omega), ih hcs, List.map_cons, List.singleton_append]
  have hunits : units t = t.toList.map fun c => UInt16.ofNat c.toNat := by
    rw [units, utf16Units, hmap _ h, List.map_map]
    rfl
  rw [hunits]
  refine ⟨List.length_map _, fun u hu => ?_⟩
  obtain ⟨c, hc, rfl⟩ := List.mem_map.1 hu
  obtain ⟨hlow, hhigh⟩ := h c hc
  have hnat : (UInt16.ofNat c.toNat).toNat = c.toNat := UInt16.toNat_ofNat_of_lt' (show _ < 65536 by omega)
  simp only [isPrintable, Bool.and_eq_true, decide_eq_true_eq, UInt16.le_iff_toNat_le, UInt16.lt_iff_toNat_lt,
    UInt16.reduceToNat, hnat]
  exact ⟨hlow, hhigh⟩

/-! ## Sizes -/

/-- The bytes of the lines, each with a line feed. -/
def cost (lines : List Units) : ℕ := (lines.map fun l => byteLength l + 1).sum

theorem cost_append (xs ys : List Units) : cost (xs ++ ys) = cost xs + cost ys := by
  simp [cost]

theorem byteLength_joinLines {lines : List Units} (h : lines ≠ []) : byteLength (joinLines lines) + 1 = cost lines := by
  induction lines with
  | nil => exact absurd rfl h
  | cons l lines ih =>
    cases lines with
    | nil => simp [joinLines, cost, List.intercalate]
    | cons m lines =>
      have ih := ih (by simp)
      have hjoin : joinLines (l :: m :: lines) = l ++ 0x0a :: joinLines (m :: lines) := by
        rw [joinLines, List.intercalate_cons_cons, List.append_assoc]
        rfl
      rw [hjoin, byteLength_newline, add_assoc, ih]
      simp only [cost, List.map_cons, List.sum_cons]

theorem fits_iff {lines : List Units} (h : lines ≠ []) :
    fitsTaskSection lines = true ↔ lines.length ≤ 2000 ∧ cost lines ≤ 51201 := by
  have hjoin := byteLength_joinLines h
  rw [fitsTaskSection, Bool.and_eq_true, decide_eq_true_eq, decide_eq_true_eq, maxSectionLines, maxSectionBytes]
  omega

theorem printable_append {t : Units} (hs : ∀ u ∈ s, isPrintable u = true) (ht : ∀ u ∈ t, isPrintable u = true) :
    ∀ u ∈ s ++ t, isPrintable u = true := List.forall_mem_append.2 ⟨hs, ht⟩

theorem notice_printable (n : ℕ) : ∀ u ∈ taskOmissionNotice n, isPrintable u = true := by
  have hword : ∀ w ∈ ["  ... [", " ", "task", "tasks", " omitted: task section limit of 51200 bytes/2000 lines]"],
      ∀ u ∈ units w, isPrintable u = true := by
    intro w hw
    fin_cases hw <;> exact List.all_eq_true.1 rfl
  unfold taskOmissionNotice
  refine printable_append (printable_append (printable_append (printable_append ?_ ?_) ?_) ?_) ?_
  · exact hword _ (by simp)
  · exact isPrintable_decimal n
  · exact hword _ (by simp)
  · split_ifs <;> exact hword _ (by simp)
  · exact hword _ (by simp)

theorem lt_of_printable (h : isPrintable u = true) : u < 0x80 := by
  simp only [isPrintable, Bool.and_eq_true, decide_eq_true_eq, UInt16.le_iff_toNat_le, UInt16.lt_iff_toNat_lt,
    UInt16.reduceToNat] at h ⊢
  omega

/-- The notice has a byte for each unit. -/
theorem byteLength_notice (n : ℕ) : byteLength (taskOmissionNotice n) =
    63 + (decimal n).length + (if n = 1 then 4 else 5) := by
  have hlengths : (units "  ... [").length = 7 ∧ (units " ").length = 1 ∧ (units "task").length = 4 ∧
      (units "tasks").length = 5 ∧ (units " omitted: task section limit of 51200 bytes/2000 lines]").length = 55 :=
    ⟨rfl, rfl, rfl, rfl, rfl⟩
  obtain ⟨h1, h2, h3, h4, h5⟩ := hlengths
  rw [byteLength_ascii fun u hu => lt_of_printable (notice_printable n u hu)]
  simp only [taskOmissionNotice, List.length_append, h1, h2, h5]
  split_ifs <;> simp only [h3, h4] <;> omega

/-- One task more in the notice is two bytes more at most. -/
theorem byteLength_notice_succ (n : ℕ) :
    byteLength (taskOmissionNotice (n + 1)) ≤ byteLength (taskOmissionNotice n) + 2 := by
  have hlen := @length_decimal_succ n
  rw [byteLength_notice, byteLength_notice]
  split_ifs <;> omega

/-! ## The cut -/

/-- The section with the first `k` rows and the notice. -/
def cut (header rows : List Units) (k : ℕ) : List Units :=
  header ++ rows.take k ++ [taskOmissionNotice (rows.length - k)]

variable {header rows : List Units} {k j : ℕ}

theorem cut_ne_nil : cut header rows k ≠ [] := by simp [cut]

/-- **With one row less the section is no larger**: a row has two bytes at least. -/
theorem fits_cut_succ (hrows : ∀ row ∈ rows, 2 ≤ row.length) (hk : k < rows.length)
    (h : fitsTaskSection (cut header rows (k + 1)) = true) : fitsTaskSection (cut header rows k) = true := by
  rw [fits_iff cut_ne_nil] at h ⊢
  have hnotice := byteLength_notice_succ (rows.length - (k + 1))
  have hrow : 2 ≤ byteLength rows[k] := (hrows _ (List.getElem_mem hk)).trans (length_encodeUtf8 _).1
  have htake : rows.take (k + 1) = rows.take k ++ [rows[k]] := by
    rw [List.take_add_one, List.getElem?_eq_getElem hk, Option.toList_some]
  rw [show rows.length - (k + 1) + 1 = rows.length - k by omega] at hnotice
  simp only [cut, htake, cost_append, List.length_append, List.length_singleton] at h ⊢
  simp only [cost, List.map_singleton, List.sum_singleton] at h ⊢
  omega

theorem fits_cut_of_le (hrows : ∀ row ∈ rows, 2 ≤ row.length) (hj : j ≤ rows.length) (hkj : k ≤ j)
    (h : fitsTaskSection (cut header rows j) = true) : fitsTaskSection (cut header rows k) = true := by
  induction j, hkj using Nat.le_induction with
  | base => exact h
  | succ j hkj ih => exact ih (by omega) (fits_cut_succ hrows (by omega) h)

/-- **The loop stops at the first row that does not fit.** -/
theorem selectRows_eq {i : ℕ} (hi : i ≤ rows.length) :
    ∃ k, i ≤ k ∧ k ≤ rows.length ∧ selectRows header rows.length (rows.take i) (rows.drop i) = rows.take k ∧
      (k = i ∨ fitsTaskSection (cut header rows k) = true) ∧
      (k < rows.length → fitsTaskSection (cut header rows (k + 1)) = false) := by
  induction hn : rows.length - i generalizing i with
  | zero =>
    have hi : rows.length = i := by omega
    refine ⟨i, le_rfl, hi.ge, ?_, Or.inl rfl, fun hlt => absurd hlt (by omega)⟩
    rw [List.drop_of_length_le hi.le, selectRows]
  | succ n ih =>
    have hlt : i < rows.length := by omega
    have htake : rows.take (i + 1) = rows.take i ++ [rows[i]] := by
      rw [List.take_add_one, List.getElem?_eq_getElem hlt, Option.toList_some]
    have hcut : header ++ rows.take i ++ [rows[i], taskOmissionNotice (rows.length - (rows.take i).length - 1)] =
        cut header rows (i + 1) := by
      rw [cut, htake, List.length_take_of_le hi, Nat.sub_sub]
      simp only [List.append_assoc, List.cons_append, List.nil_append]
    rw [List.drop_eq_getElem_cons hlt, selectRows, hcut]
    split_ifs with hfit
    · obtain ⟨k, hik, hk, heq, hfits, hstop⟩ := ih (i := i + 1) (by omega) (by omega)
      refine ⟨k, by omega, hk, by rw [← htake, heq], Or.inr ?_, hstop⟩
      rcases hfits with rfl | hfits
      · exact hfit
      · exact hfits
    · exact ⟨i, le_rfl, hi, rfl, Or.inl rfl, fun _ => by simpa using hfit⟩

/-! ## Accepted snapshots -/

/-- The snapshot is accepted, whatever its texts are. -/
def SectionSnapshot.Accepted (snapshot : SectionSnapshot) : Prop :=
  ∃ (value : DeploymentTaskSnapshot) (id : String), validateDeploymentTaskSnapshot value id = .ok value ∧
    value.updatedAt = snapshot.updatedAt ∧
    List.Forall₂ (fun v t => v.id = t.id ∧ v.status = t.status ∧ v.order = t.order ∧ v.dependencies = t.dependencies)
      value.tasks snapshot.tasks

theorem validateOrder_orders {tasks : List DeploymentTask} {index : ℕ} {seen : List ℕ}
    (h : validateOrder tasks index seen = .ok ()) : tasks.map (·.order) = List.range' (index + 1) tasks.length := by
  induction tasks generalizing index seen with
  | nil => rfl
  | cons t tasks ih =>
    simp only [validateOrder, Guard.bind_eq_ok, Guard.throwIf_eq_ok, not_not] at h
    obtain ⟨_, -, _, ho, h⟩ := h
    rw [List.map_cons, ih h, ho, List.length_cons, List.range'_succ]

theorem validate_ok {value value' : DeploymentTaskSnapshot} {id : String}
    (h : validateDeploymentTaskSnapshot value id = .ok value') :
    isIsoTimestamp value.updatedAt = true ∧ value.tasks.map (·.order) = List.range' 1 value.tasks.length := by
  simp only [validateDeploymentTaskSnapshot, Guard.bind_eq_ok, Guard.throwIf_eq_ok, not_not] at h
  obtain ⟨_, -, _, -, _, hiso, _, -, _, -, _, horder, -⟩ := h
  exact ⟨by simpa using hiso, validateOrder_orders horder⟩

/-- The tasks of an accepted snapshot stand in their order. -/
theorem SectionSnapshot.Accepted.sorted {snapshot : SectionSnapshot} (h : snapshot.Accepted) :
    isIsoTimestamp snapshot.updatedAt = true ∧ snapshot.tasks.mergeSort rowsBefore = snapshot.tasks := by
  obtain ⟨value, id, hvalid, hdate, htasks⟩ := h
  obtain ⟨hiso, horders⟩ := validate_ok hvalid
  have hmap : ∀ {vs : List DeploymentTask} {ts : List SectionTask}, List.Forall₂ (fun v t => v.id = t.id ∧
      v.status = t.status ∧ v.order = t.order ∧ v.dependencies = t.dependencies) vs ts →
      ts.map (·.order) = vs.map (·.order) := by
    intro vs ts hall
    induction hall with
    | nil => rfl
    | cons ht _ ih => rw [List.map_cons, List.map_cons, ih, ht.2.2.1]
  refine ⟨hdate ▸ hiso, List.mergeSort_of_pairwise ?_⟩
  have hsorted : (snapshot.tasks.map (·.order)).Pairwise (· < ·) := by
    rw [hmap htasks, horders]
    exact List.pairwise_lt_range'
  refine (List.pairwise_map.1 hsorted).imp fun hlt => ?_
  simp [rowsBefore, hlt]

variable {ids : IdText} {snapshot : SectionSnapshot}

theorem length_count (h : snapshot.tasks.length < 2 ^ 32) :
    (decimal snapshot.tasks.length).length ≤ 10 ∧
      (decimal (snapshot.tasks.countP (·.status == .completed))).length ≤ 10 := by
  have hcount := List.countP_le_length (p := fun t : SectionTask => t.status == .completed) (l := snapshot.tasks)
  rw [length_decimal _ (by omega), length_decimal _ (by omega)]
  omega

/-- The lines of the header are printable, and short. -/
theorem sectionHeader_printable (hiso : isIsoTimestamp snapshot.updatedAt = true) :
    (∀ line ∈ sectionHeader snapshot, ∀ u ∈ line, isPrintable u = true) ∧ cost (sectionHeader snapshot) ≤ 100 := by
  obtain ⟨hlen, hchars⟩ := isIsoTimestamp_printable hiso
  obtain ⟨hunits, hdate⟩ := units_printable hchars
  obtain ⟨htotal, hcount⟩ := length_count snapshot.length_lt
  have hword : ∀ w ∈ ["Session tasks: ", "/", " completed", "  Freshness: "], ∀ u ∈ units w, isPrintable u = true := by
    intro w hw
    fin_cases hw <;> exact List.all_eq_true.1 rfl
  have hall : ∀ line ∈ sectionHeader snapshot, ∀ u ∈ line, isPrintable u = true := by
    refine List.forall_mem_cons.2 ⟨?_, List.forall_mem_singleton.2 ?_⟩
    · refine printable_append (printable_append (printable_append (printable_append ?_ ?_) ?_) ?_) ?_
      · exact hword _ (by simp)
      · exact isPrintable_decimal _
      · exact hword _ (by simp)
      · exact isPrintable_decimal _
      · exact hword _ (by simp)
    · exact printable_append (hword _ (by simp)) hdate
  have hbytes : ∀ line ∈ sectionHeader snapshot, byteLength line = line.length :=
    fun line hl => byteLength_ascii fun u hu => lt_of_printable (hall line hl u hu)
  have hlengths : (units "Session tasks: ").length = 15 ∧ (units "/").length = 1 ∧ (units " completed").length = 10 ∧
      (units "  Freshness: ").length = 13 := ⟨rfl, rfl, rfl, rfl⟩
  obtain ⟨h1, h2, h3, h4⟩ := hlengths
  refine ⟨hall, ?_⟩
  have hcost : cost (sectionHeader snapshot) = ((sectionHeader snapshot).map fun l => l.length + 1).sum := by
    rw [cost]
    refine congrArg List.sum (List.map_congr_left fun l hl => ?_)
    rw [hbytes l hl]
  rw [hcost, sectionHeader]
  simp only [List.map_cons, List.map_nil, List.sum_cons, List.sum_nil, List.length_append, h1, h2, h3, h4, hunits]
  omega

/-- Lines of quiet units are what the text splits into. -/
theorem splitOn_joinLines {lines : List Units} (hne : lines ≠ []) (h : ∀ line ∈ lines, Quiet line) :
    Units.split (joinLines lines) '\n' = lines := by
  refine List.splitOn_intercalate _ (fun line hl hmem => ?_) hne
  have hq := h line hl _ hmem
  have hnewline : (unit '\n').toNat = 10 := rfl
  simp [isQuiet, Units.isControl, hnewline] at hq

/-- Lines that fit are shown as they are, within the limits. -/
theorem joinLines_shown {lines : List Units} (hne : lines ≠ []) (hq : ∀ line ∈ lines, Quiet line)
    (hf : fitsTaskSection lines = true) : byteLength (joinLines lines) ≤ 51200 ∧
      (Units.split (joinLines lines) '\n').length ≤ 2000 ∧ Units.split (joinLines lines) '\n' = lines := by
  have hsplit := splitOn_joinLines hne hq
  have hbytes := byteLength_joinLines hne
  obtain ⟨hlen, hcost⟩ := (fits_iff hne).1 hf
  exact ⟨by omega, by rw [hsplit]; exact hlen, hsplit⟩

theorem sectionHeader_ne_nil (lines : List Units) : sectionHeader snapshot ++ lines ≠ [] := by simp [sectionHeader]

/-- The header fits with one short line after it. -/
theorem fits_header (hiso : isIsoTimestamp snapshot.updatedAt = true) {line : Units} (hl : byteLength line ≤ 100) :
    fitsTaskSection (sectionHeader snapshot ++ [line]) = true := by
  have hcost := (sectionHeader_printable hiso).2
  rw [fits_iff (sectionHeader_ne_nil _), cost_append]
  refine ⟨by simp [sectionHeader], ?_⟩
  simp only [cost, List.map_singleton, List.sum_singleton] at hcost ⊢
  omega

/-- **The rows that are selected** are as many as fit with the notice. -/
theorem selectRows_spec {header rows : List Units} (hrows : ∀ row ∈ rows, 2 ≤ row.length) (hh : header ≠ [])
    (hnone : fitsTaskSection (cut header rows 0) = true) (hall : fitsTaskSection (header ++ rows) = false) :
    ∃ k < rows.length, selectRows header rows.length [] rows = rows.take k ∧
      fitsTaskSection (cut header rows k) = true ∧
      ∀ j, k < j → j ≤ rows.length → fitsTaskSection (cut header rows j) = false := by
  obtain ⟨k, -, hk, heq, hfits, hstop⟩ := @selectRows_eq header rows 0 (by omega)
  have hfits : fitsTaskSection (cut header rows k) = true := by
    rcases hfits with rfl | hfits
    · exact hnone
    · exact hfits
  -- all rows and a notice are more than all rows
  have hlt : k < rows.length := by
    rcases lt_or_eq_of_le hk with hlt | rfl
    · exact hlt
    · have hne : header ++ rows ≠ [] := by simp [hh]
      have hcut := (fits_iff cut_ne_nil).1 hfits
      rw [cut, List.take_length, cost_append, List.length_append] at hcut
      rw [Bool.eq_false_iff, Ne, fits_iff hne] at hall
      exact absurd ⟨by omega, by omega⟩ hall
  refine ⟨k, hlt, by simpa using heq, hfits, fun j hkj hj => Bool.eq_false_iff.2 fun hf => ?_⟩
  have hnext := fits_cut_of_le hrows hj hkj hf
  rw [hstop hlt] at hnext
  cases hnext

/-- **The section of an accepted snapshot** keeps both limits, and its lines are the header and the
    rows of the tasks: of all of them if they fit, else of the first ones and the notice, as many as
    fit with it.  A row is one line without control characters, whatever the text of its task is. -/
theorem section_bounded (h : snapshot.Accepted) :
    byteLength (formatDeploymentTaskSection ids snapshot) ≤ 51200 ∧
      (Units.split (formatDeploymentTaskSection ids snapshot) '\n').length ≤ 2000 ∧
      (snapshot.tasks = [] → Units.split (formatDeploymentTaskSection ids snapshot) '\n' =
        sectionHeader snapshot ++ [units "  No session tasks"]) ∧
      (snapshot.tasks ≠ [] → fitsTaskSection (sectionHeader snapshot ++ snapshot.tasks.map (taskRow ids)) = true →
        Units.split (formatDeploymentTaskSection ids snapshot) '\n' =
          sectionHeader snapshot ++ snapshot.tasks.map (taskRow ids)) ∧
      (snapshot.tasks ≠ [] → fitsTaskSection (sectionHeader snapshot ++ snapshot.tasks.map (taskRow ids)) = false →
        ∃ k < snapshot.tasks.length, Units.split (formatDeploymentTaskSection ids snapshot) '\n' =
            sectionHeader snapshot ++ (snapshot.tasks.take k).map (taskRow ids) ++
              [taskOmissionNotice (snapshot.tasks.length - k)] ∧
          ∀ j, k < j → j ≤ snapshot.tasks.length → fitsTaskSection (sectionHeader snapshot ++
            (snapshot.tasks.take j).map (taskRow ids) ++ [taskOmissionNotice (snapshot.tasks.length - j)]) = false) ∧
      ∀ task ∈ snapshot.tasks, ∀ u ∈ taskRow ids task, isQuiet u = true := by
  obtain ⟨hiso, hsort⟩ := h.sorted
  obtain ⟨hprint, -⟩ := sectionHeader_printable hiso
  have hheader : ∀ line ∈ sectionHeader snapshot, Quiet line := fun line hl => quiet_printable (hprint line hl)
  have hquiet : ∀ row ∈ snapshot.tasks.map (taskRow ids), Quiet row := by
    intro row hrow
    obtain ⟨task, -, rfl⟩ := List.mem_map.1 hrow
    exact taskRow_quiet ids task
  have hlong : ∀ row ∈ snapshot.tasks.map (taskRow ids), 2 ≤ row.length := by
    intro row hrow
    obtain ⟨task, -, rfl⟩ := List.mem_map.1 hrow
    have htwo : (units "  ").length = 2 := rfl
    simp only [taskRow, List.length_append, htwo]
    omega
  have hlen : (snapshot.tasks.map (taskRow ids)).length = snapshot.tasks.length := List.length_map _
  have hrows : sectionRows ids snapshot = snapshot.tasks.map (taskRow ids) := by rw [sectionRows, hsort]
  have htasks : ∀ task ∈ snapshot.tasks, ∀ u ∈ taskRow ids task, isQuiet u = true :=
    fun task _ => taskRow_quiet ids task
  by_cases hempty : snapshot.tasks = []
  · have hword : byteLength (units "  No session tasks") ≤ 100 := by
      rw [byteLength_ascii fun u hu => lt_of_printable (List.all_eq_true.1 rfl u hu)]
      decide
    have hshown := joinLines_shown (sectionHeader_ne_nil _)
      (List.forall_mem_append.2 ⟨hheader, List.forall_mem_singleton.2 (quiet_word rfl)⟩) (fits_header hiso hword)
    rw [formatDeploymentTaskSection, if_pos hempty]
    exact ⟨hshown.1, hshown.2.1, fun _ => hshown.2.2, fun hn => absurd hempty hn, fun hn => absurd hempty hn, htasks⟩
  · rw [formatDeploymentTaskSection, if_neg hempty]
    dsimp only
    rw [hrows]
    cases hall : fitsTaskSection (sectionHeader snapshot ++ snapshot.tasks.map (taskRow ids)) with
    | true =>
      have hshown := joinLines_shown (sectionHeader_ne_nil _) (List.forall_mem_append.2 ⟨hheader, hquiet⟩) hall
      rw [if_pos rfl]
      exact ⟨hshown.1, hshown.2.1, fun hn => absurd hn hempty, fun _ _ => hshown.2.2, fun _ hn => absurd hn (by simp), htasks⟩
    | false =>
      have hnotice : fitsTaskSection (cut (sectionHeader snapshot) (snapshot.tasks.map (taskRow ids)) 0) = true := by
        have htotal := (length_count snapshot.length_lt).1
        rw [cut, List.take_zero, List.append_nil, hlen, Nat.sub_zero]
        refine fits_header hiso ?_
        rw [byteLength_notice]
        split_ifs <;> omega
      obtain ⟨k, hk, hsel, hfits, hmax⟩ := selectRows_spec hlong (by simp [sectionHeader]) hnotice hall
      have hcut : ∀ j, cut (sectionHeader snapshot) (snapshot.tasks.map (taskRow ids)) j = sectionHeader snapshot ++
          (snapshot.tasks.take j).map (taskRow ids) ++ [taskOmissionNotice (snapshot.tasks.length - j)] := by
        intro j
        rw [cut, hlen, List.map_take]
      have hq : ∀ line ∈ cut (sectionHeader snapshot) (snapshot.tasks.map (taskRow ids)) k, Quiet line :=
        List.forall_mem_append.2 ⟨List.forall_mem_append.2 ⟨hheader, fun row hr => hquiet row (List.mem_of_mem_take hr)⟩,
          List.forall_mem_singleton.2 (quiet_printable (notice_printable _))⟩
      have hshown := joinLines_shown cut_ne_nil hq hfits
      rw [if_neg (by simp), hsel, List.length_take_of_le hk.le, hlen]
      rw [hcut] at hshown
      rw [← List.map_take]
      refine ⟨hshown.1, hshown.2.1, fun hn => absurd hn hempty, fun _ hn => absurd hn (by simp), fun _ _ => ?_, htasks⟩
      refine ⟨k, by rwa [hlen] at hk, hshown.2.2, fun j hkj hj => ?_⟩
      rw [← hcut]
      exact hmax j hkj (by rwa [hlen])

/-- Ids in decimal. -/
def decimalIds : IdText := ⟨decimal, fun _ _ => rfl, fun n u hu => Or.inl (Value.decimal_digits n u hu)⟩

/-- A snapshot with a task whose text has a color, a line feed and the end of a command. -/
def sampleSnapshot : SectionSnapshot :=
  ⟨"2026-03-02T00:00:00.000Z", [⟨1, [0x1b, 0x5b, 0x33, 0x31, 0x6d, 0x61, 0x0a, 0x9b, 0x62], .pending, 1, []⟩], by decide⟩

theorem sampleSnapshot_accepted : sampleSnapshot.Accepted :=
  ⟨⟨"d-000001", "2026-03-02T00:00:00.000Z", [⟨1, "a", .pending, 1, []⟩], 2⟩, "d-000001", rfl, rfl,
    .cons ⟨rfl, rfl, rfl, rfl⟩ .nil⟩

theorem section_bounded_sample :
    byteLength (formatDeploymentTaskSection decimalIds sampleSnapshot) ≤ 51200 ∧
      ∀ u ∈ taskRow decimalIds ⟨1, [0x1b, 0x5b, 0x33, 0x31, 0x6d, 0x61, 0x0a, 0x9b, 0x62], .pending, 1, []⟩,
        isQuiet u = true :=
  ⟨(section_bounded sampleSnapshot_accepted).1,
    (section_bounded sampleSnapshot_accepted).2.2.2.2.2 _ (List.mem_singleton.2 rfl)⟩

/-- A snapshot without tasks. -/
def emptySnapshot : SectionSnapshot := ⟨"2026-03-02T00:00:00.000Z", [], by decide⟩

/-- The section of a snapshot without tasks has a third line. -/
theorem section_empty : emptySnapshot.Accepted ∧
    fitsTaskSection (sectionHeader emptySnapshot ++ emptySnapshot.tasks.map (taskRow decimalIds)) = true ∧
    Units.split (formatDeploymentTaskSection decimalIds emptySnapshot) '\n' ≠
      sectionHeader emptySnapshot ++ emptySnapshot.tasks.map (taskRow decimalIds) := by
  refine ⟨⟨⟨"d-000001", "2026-03-02T00:00:00.000Z", [], 1⟩, "d-000001", rfl, rfl, .nil⟩, ?_, ?_⟩
  · decide
  · decide

end PaPlatform.Todo
