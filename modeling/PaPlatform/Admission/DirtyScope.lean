/-
  `validateRepositoryDirtyBorrowScope` of `deploy/repository-admission.ts`.

  It compares the number of classifications with the number of status records.
  Git may report several records for one path, so the scope is exactly the
  classified work if and only if the paths of the records are distinct.
-/
import PaPlatform.Admission.Snapshots
import PaPlatform.Lib.Bytes

namespace PaPlatform.Admission.DirtyScope

open Js Guard

/-! ## Paths in the worktree -/

/-- What `lstatSync` makes of a path. -/
inductive Lstat where
  /-- `ENOENT`. -/
  | missing
  /-- Any other error. -/
  | failed
  | entry (symbolicLink : Bool)
  deriving DecidableEq

/-- The components of a path. -/
def components (path : String) : List String := split path '/'

section
variable (lstat : List String → Lstat)

/-- `pathEntryExists`, of a path below the root. -/
def pathEntryExists (path : String) : Except Refusal Bool :=
  match lstat (components path) with
  | .missing => .ok false
  | .failed => .error (.thrown "lstat")
  | .entry _ => .ok true

/-- The loop of `hasSymlinkTraversal`, below `current`. -/
def symlinkBelow (current : List String) : List String → Except Refusal Bool
  | [] => .ok false
  | component :: rest =>
    match lstat (current ++ [component]) with
    | .missing => .ok false
    | .failed => .error (.thrown "lstat")
    | .entry true => .ok true
    | .entry false => symlinkBelow (current ++ [component]) rest

/-- `hasSymlinkTraversal`, of a path below the root. -/
def hasSymlinkTraversal (path : String) : Except Refusal Bool := symlinkBelow lstat [] (components path)

/-! ## The scope -/

structure RepositoryDirtyBorrowClassification where
  path : String
  classification : String
  deriving DecidableEq

/-- `isApprovedClassification`. -/
def isApprovedClassification (classification : String) : Bool :=
  classification = "active-ticket-produced" ∨ classification = "active-ticket-preserved"

/-- `if (c || hasSymlinkTraversal(root, path)) throw`. -/
def exactPath (p : Prop) [Decidable p] (path : String) (refusal : Refusal) : Except Refusal Unit := do
  throwIf p refusal
  let link ← hasSymlinkTraversal lstat path
  throwIf (link = true) refusal

/-- An item of the loop over the classifications: `classified` are the paths in the map. -/
def addClassification (classified : List String) (item : RepositoryDirtyBorrowClassification) :
    Except Refusal (List String) := do
  exactPath lstat (isApprovedClassification item.classification = false ∨ validRepositoryRelativePath item.path = false)
    item.path
    (.thrown "dirty-borrow-approval: every classification must name one exact repository-relative active-ticket path")
  throwIf (item.path ∈ classified) (.thrown "dirty-borrow-approval: duplicate classifications are forbidden")
  return classified ++ [item.path]

/-- The paths that an entry names. -/
def entryPaths (entry : RepositoryGitStatusEntry) : List String :=
  entry.path :: (entry.source.map (·.1)).toList

/-- An item of the loop over the status entries. -/
def checkEntry (classified : List String) (entry : RepositoryGitStatusEntry) : Except Refusal Unit := do
  throwIf (entry.path ∉ classified)
    (.thrown "dirty-borrow-approval: classification path set does not exactly match the status records")
  (entryPaths entry).forM fun path => exactPath lstat False path
    (.thrown "dirty-borrow-approval: symlinked current paths cannot receive mutation authority")

/-- An item of the loop over the planned paths. -/
def addPlanned (currentPaths planned : List String) (path : String) : Except Refusal (List String) := do
  let refusal := Refusal.thrown
    "dirty-borrow-approval: planned new paths must be unique, nonexistent, exact repository-relative paths without glob syntax"
  throwIf (validRepositoryRelativePath path = false ∨ containsGlobSyntax path = true ∨ path ∈ currentPaths) refusal
  let present ← pathEntryExists lstat path
  exactPath lstat (present = true) path refusal
  throwIf (path ∈ planned) (.thrown "dirty-borrow-approval: duplicate planned new paths are forbidden")
  return planned ++ [path]

/-- `validateRepositoryDirtyBorrowScope`. -/
def validateRepositoryDirtyBorrowScope (sha256 : Bytes → Sha256) (canonicalRepoRoot : String)
    (snapshot : RepositoryGitSnapshot) (classifications : List RepositoryDirtyBorrowClassification)
    (plannedNewPaths : List String) : Except Refusal (List String) := do
  let _ ← assertCanonicalRoot canonicalRepoRoot
  throwIf (isCompleteGitSnapshot sha256 snapshot = false ∨ snapshot.dirty = false)
    (.thrown "dirty-borrow-approval: a complete dirty porcelain-v2 snapshot is required")
  let statusEntries := snapshot.statusEntries.getD []
  throwIf (classifications.length ≠ statusEntries.length)
    (.thrown "dirty-borrow-approval: exactly one classification is required for every status record")
  let classified ← classifications.foldlM (addClassification lstat) []
  statusEntries.forM (checkEntry lstat classified)
  throwIf (classified.length ≠ statusEntries.length)
    (.thrown "dirty-borrow-approval: unrelated classifications are forbidden")
  let currentPaths := statusEntries.flatMap entryPaths
  let planned ← plannedNewPaths.foldlM (addPlanned lstat currentPaths) []
  return sortStrings (currentPaths ++ planned).dedup

end

/-! ## What the loops do -/

variable {lstat : List String → Lstat} {sha256 : Bytes → Sha256} {refusal : Refusal} {path : String}
  {classified planned currentPaths paths result : List String} {item : RepositoryDirtyBorrowClassification}
  {classifications : List RepositoryDirtyBorrowClassification} {entry : RepositoryGitStatusEntry}
  {entries : List RepositoryGitStatusEntry}

/-- No component of the path is a symbolic link. -/
def Linkless (lstat : List String → Lstat) (path : String) : Prop := hasSymlinkTraversal lstat path = .ok false

theorem exactPath_eq_ok {p : Prop} [Decidable p] {u : Unit} :
    exactPath lstat p path refusal = .ok u ↔ ¬ p ∧ Linkless lstat path := by
  unfold exactPath Linkless
  rcases hasSymlinkTraversal lstat path with e | link
  · simp
  · cases link <;> simp

theorem pathEntryExists_eq_ok : pathEntryExists lstat path = .ok false ↔ lstat (components path) = .missing := by
  unfold pathEntryExists
  cases lstat (components path) <;> simp

theorem forM_eq_ok {α κ : Type} {f : α → Except κ Unit} {l : List α} {u : Unit} :
    l.forM f = .ok u ↔ ∀ a ∈ l, f a = .ok () := by
  induction l with
  | nil => exact ⟨fun _ => nofun, fun _ => rfl⟩
  | cons a l ih =>
    rw [List.forall_mem_cons]
    show (f a >>= fun _ => l.forM f) = .ok u ↔ _
    rw [bind_eq_ok]
    constructor
    · rintro ⟨⟨⟩, ha, hl⟩
      exact ⟨ha, ih.1 hl⟩
    · rintro ⟨ha, hl⟩
      exact ⟨(), ha, ih.2 hl⟩

/-- A loop that collects distinct keys. -/
theorem foldlM_distinct {α κ : Type} {f : List String → α → Except κ (List String)} {key : α → String}
    {good : α → Prop} (hf : ∀ seen a seen', f seen a = .ok seen' ↔ good a ∧ key a ∉ seen ∧ seen' = seen ++ [key a])
    {l : List α} {seen : List String} (hs : seen.Nodup) : l.foldlM f seen = .ok result ↔
      (∀ a ∈ l, good a) ∧ (seen ++ l.map key).Nodup ∧ result = seen ++ l.map key := by
  induction l generalizing seen with
  | nil =>
    rw [List.foldlM_nil, pure_eq_ok]
    simp [hs, eq_comm]
  | cons a l ih =>
    rw [List.foldlM_cons, bind_eq_ok, List.forall_mem_cons, List.map_cons]
    have hperm : (seen ++ key a :: l.map key).Nodup ↔ key a ∉ seen ∧ ((seen ++ [key a]) ++ l.map key).Nodup := by
      rw [List.append_assoc, List.singleton_append, iff_and_self, List.nodup_append]
      rintro ⟨-, -, hne⟩ hmem
      exact hne _ hmem _ List.mem_cons_self rfl
    have hnodup : key a ∉ seen → (seen ++ [key a]).Nodup := by
      intro ha
      rw [List.nodup_append]
      refine ⟨hs, List.nodup_singleton _, ?_⟩
      rintro x hx y hy rfl
      rw [List.mem_singleton.1 hy] at hx
      exact ha hx
    constructor
    · rintro ⟨seen', ha, hl⟩
      obtain ⟨hgood, hnew, rfl⟩ := (hf _ _ _).1 ha
      obtain ⟨hall, hdistinct, rfl⟩ := (ih (hnodup hnew)).1 hl
      exact ⟨⟨hgood, hall⟩, hperm.2 ⟨hnew, hdistinct⟩, by simp⟩
    · rintro ⟨⟨hgood, hall⟩, hdistinct, rfl⟩
      obtain ⟨hnew, hdistinct⟩ := hperm.1 hdistinct
      exact ⟨_, (hf _ _ _).2 ⟨hgood, hnew, rfl⟩, (ih (hnodup hnew)).2 ⟨hall, hdistinct, by simp⟩⟩

/-- A classification names an exact path and has an approved label. -/
def Classifies (lstat : List String → Lstat) (item : RepositoryDirtyBorrowClassification) : Prop :=
  isApprovedClassification item.classification = true ∧ validRepositoryRelativePath item.path = true ∧
    Linkless lstat item.path

theorem addClassification_eq_ok : addClassification lstat classified item = .ok result ↔
    Classifies lstat item ∧ item.path ∉ classified ∧ result = classified ++ [item.path] := by
  simp only [addClassification, bind_eq_ok, exactPath_eq_ok, throwIf_eq_ok, pure_eq_ok, not_or, Bool.not_eq_false,
    Classifies, exists_and_left, exists_const, eq_comm (a := result)]
  tauto

theorem checkEntry_eq_ok {u : Unit} : checkEntry lstat classified entry = .ok u ↔
    entry.path ∈ classified ∧ ∀ path ∈ entryPaths entry, Linkless lstat path := by
  simp only [checkEntry, bind_eq_ok, throwIf_eq_ok, not_not, forM_eq_ok, exactPath_eq_ok, not_false_eq_true, true_and,
    exists_and_left, exists_const]

/-- The path is valid, without glob syntax, new and not current. -/
def New (lstat : List String → Lstat) (currentPaths : List String) (path : String) : Prop :=
  validRepositoryRelativePath path = true ∧ containsGlobSyntax path = false ∧
    lstat (components path) = .missing ∧ path ∉ currentPaths

theorem addPlanned_eq_ok : addPlanned lstat currentPaths planned path = .ok result ↔
    (New lstat currentPaths path ∧ Linkless lstat path) ∧ path ∉ planned ∧ result = planned ++ [path] := by
  simp only [addPlanned, bind_eq_ok, exactPath_eq_ok, throwIf_eq_ok, pure_eq_ok, not_or, Bool.not_eq_false,
    Bool.not_eq_true, New, ← pathEntryExists_eq_ok, exists_and_left, exists_const, eq_comm (a := result)]
  constructor
  · rintro ⟨⟨h1, h2, h3⟩, present, h4, ⟨h5, h6⟩, h7, h8⟩
    rw [h5] at h4
    exact ⟨⟨⟨h1, h2, h4, h3⟩, h6⟩, h7, h8⟩
  · rintro ⟨⟨⟨h1, h2, h4, h3⟩, h6⟩, h7, h8⟩
    exact ⟨⟨h1, h2, h3⟩, false, h4, ⟨rfl, h6⟩, h7, h8⟩

/-! ## The scope of a snapshot -/

/-- A complete dirty snapshot whose paths are valid and lead through no symbolic link. -/
structure DirtySnapshot (sha256 : Bytes → Sha256) (lstat : List String → Lstat) where
  snapshot : RepositoryGitSnapshot
  entries : List RepositoryGitStatusEntry
  statusEntries : snapshot.statusEntries = some entries
  complete : isCompleteGitSnapshot sha256 snapshot = true
  dirty : snapshot.dirty = true
  exact : ∀ e ∈ entries, ∀ path ∈ entryPaths e, validRepositoryRelativePath path = true ∧ Linkless lstat path

/-- Each distinct current path has exactly one approved label, and no other path has one. -/
structure Classified (entries : List RepositoryGitStatusEntry)
    (classifications : List RepositoryDirtyBorrowClassification) : Prop where
  approved : ∀ item ∈ classifications, isApprovedClassification item.classification = true
  once : (classifications.map (·.path)).Nodup
  current : ∀ path, path ∈ classifications.map (·.path) ↔ path ∈ entries.map (·.path)

/-- The planned paths are new and distinct. -/
def PlannedNew (lstat : List String → Lstat) (entries : List RepositoryGitStatusEntry) (planned : List String) : Prop :=
  (∀ path ∈ planned, New lstat (entries.flatMap entryPaths) path) ∧ planned.Nodup

/-- The sorted set of the paths. -/
structure SortedSet (paths result : List String) : Prop where
  sorted : result.Pairwise fun s t => stringLe s t = true
  distinct : result.Nodup
  mem : ∀ path, path ∈ result ↔ path ∈ paths

abbrev CanonicalRoot := {root : String // normalizedAbsolute root = true}

/-- The scope is exactly the classified work, for every list of classifications. -/
structure ScopeExact (root : CanonicalRoot) (d : DirtySnapshot sha256 lstat) (planned : List String) : Prop where
  accepted : ∀ classifications,
    (∃ result, validateRepositoryDirtyBorrowScope lstat sha256 root.1 d.snapshot classifications planned = .ok result) ↔
      Classified d.entries classifications ∧ PlannedNew lstat d.entries planned
  scope : ∀ classifications result,
    validateRepositoryDirtyBorrowScope lstat sha256 root.1 d.snapshot classifications planned = .ok result →
      SortedSet (d.entries.flatMap entryPaths ++ planned) result
  /-- Some list of classifications is accepted. -/
  some_accepted : PlannedNew lstat d.entries planned → ∃ classifications result,
    validateRepositoryDirtyBorrowScope lstat sha256 root.1 d.snapshot classifications planned = .ok result

variable {root : CanonicalRoot} {d : DirtySnapshot sha256 lstat}

theorem stringLe_iff {s t : String} : stringLe s t = true ↔ utf16Units s ≤ utf16Units t := by
  rw [stringLe, Bool.not_eq_true', ← Bool.not_eq_true, List.lex_eq_true_iff_lt, not_lt]

theorem sortStrings_dedup (paths : List String) : SortedSet paths (sortStrings paths.dedup) where
  sorted := by
    refine List.pairwise_mergeSort ?_ ?_ paths.dedup
    · intro a b c hab hbc
      exact stringLe_iff.2 (le_trans (stringLe_iff.1 hab) (stringLe_iff.1 hbc))
    · intro a b
      rw [Bool.or_eq_true, stringLe_iff, stringLe_iff]
      exact le_total _ _
  distinct := ((List.mergeSort_perm _ _).nodup_iff).2 paths.nodup_dedup
  mem path := by rw [sortStrings, (List.mergeSort_perm _ _).mem_iff, List.mem_dedup]

/-- When a scope is accepted, and what it is. -/
theorem validate_eq_ok :
    validateRepositoryDirtyBorrowScope lstat sha256 root.1 d.snapshot classifications planned = .ok result ↔
      (classifications.length = d.entries.length ∧ (∀ item ∈ classifications, Classifies lstat item) ∧
        (classifications.map (·.path)).Nodup ∧ ∀ e ∈ d.entries, e.path ∈ classifications.map (·.path)) ∧
      (PlannedNew lstat d.entries planned ∧ ∀ path ∈ planned, Linkless lstat path) ∧
      result = sortStrings (d.entries.flatMap entryPaths ++ planned).dedup := by
  have hroot : assertCanonicalRoot root.1 = .ok root.1 := if_pos root.2
  have hclassify (classified : List String) : classifications.foldlM (addClassification lstat) [] = .ok classified ↔
      (∀ item ∈ classifications, Classifies lstat item) ∧ (classifications.map (·.path)).Nodup ∧
        classified = classifications.map (·.path) :=
    @foldlM_distinct _ _ _ (addClassification lstat) (·.path) _ (fun _ _ _ => addClassification_eq_ok) _ _ List.nodup_nil
  have hplan (new : List String) : planned.foldlM (addPlanned lstat (d.entries.flatMap entryPaths)) [] = .ok new ↔
      (∀ path ∈ planned, New lstat (d.entries.flatMap entryPaths) path ∧ Linkless lstat path) ∧
        (planned.map id).Nodup ∧ new = planned.map id :=
    @foldlM_distinct _ _ _ _ id _ (fun _ _ _ => addPlanned_eq_ok) _ _ List.nodup_nil
  have hexact : ∀ e ∈ d.entries, ∀ path ∈ entryPaths e, Linkless lstat path :=
    fun e he path hp => (d.exact e he path hp).2
  have hready : ¬ (isCompleteGitSnapshot sha256 d.snapshot = false ∨ d.snapshot.dirty = false) := by
    rw [d.complete, d.dirty]
    decide
  rw [List.map_id] at hplan
  simp only [validateRepositoryDirtyBorrowScope, hroot, ok_bind, throwIf_neg hready, d.statusEntries, Option.getD_some,
    bind_eq_ok, throwIf_eq_ok, not_not, exists_and_left, exists_const, hclassify, hplan, forM_eq_ok, checkEntry_eq_ok,
    pure_eq_ok, PlannedNew, eq_comm (a := result)]
  constructor
  · rintro ⟨hlen, _, ⟨hgood, honce, rfl⟩, hentries, -, _, ⟨hnew, hdistinct, rfl⟩, hresult⟩
    refine ⟨⟨hlen, hgood, honce, fun e he => (hentries e he).1⟩, ⟨⟨?_, hdistinct⟩, ?_⟩, hresult⟩
    · exact fun path hp => (hnew path hp).1
    · exact fun path hp => (hnew path hp).2
  · rintro ⟨⟨hlen, hgood, honce, hentries⟩, ⟨⟨hnew, hdistinct⟩, hlinks⟩, hresult⟩
    refine ⟨hlen, _, ⟨hgood, honce, rfl⟩, fun e he => ⟨hentries e he, hexact e he⟩, ?_, planned, ⟨?_, hdistinct, rfl⟩,
      hresult⟩
    · rw [List.length_map, hlen]
    · exact fun path hp => ⟨hnew path hp, hlinks path hp⟩

/-- The current path of an entry is exact. -/
theorem current_exact {path : String} (h : path ∈ d.entries.map (·.path)) :
    validRepositoryRelativePath path = true ∧ Linkless lstat path := by
  obtain ⟨e, he, rfl⟩ := List.mem_map.1 h
  exact d.exact e he e.path List.mem_cons_self

/-- A label for each of the distinct current paths. -/
def classifyAll (entries : List RepositoryGitStatusEntry) : List RepositoryDirtyBorrowClassification :=
  (entries.map (·.path)).dedup.map fun path => ⟨path, "active-ticket-preserved"⟩

theorem classifyAll_paths : (classifyAll entries).map (·.path) = (entries.map (·.path)).dedup := by
  rw [classifyAll, List.map_map]
  exact List.map_id _

theorem classifyAll_classified : Classified entries (classifyAll entries) where
  approved := by
    intro item hi
    obtain ⟨path, -, rfl⟩ := List.mem_map.1 hi
    exact (by decide : isApprovedClassification "active-ticket-preserved" = true)
  once := by
    rw [classifyAll_paths]
    exact List.nodup_dedup _
  current := by
    intro path
    rw [classifyAll_paths, List.mem_dedup]

/-- Distinct current paths, each with one label. -/
theorem classified_iff (hd : (d.entries.map (·.path)).Nodup) :
    (classifications.length = d.entries.length ∧ (∀ item ∈ classifications, Classifies lstat item) ∧
      (classifications.map (·.path)).Nodup ∧ ∀ e ∈ d.entries, e.path ∈ classifications.map (·.path)) ↔
      Classified d.entries classifications := by
  constructor
  · rintro ⟨hlen, hgood, honce, hall⟩
    refine ⟨fun item hi => (hgood item hi).1, honce, ?_⟩
    have hsub : d.entries.map (·.path) ⊆ classifications.map (·.path) := by
      intro path hp
      obtain ⟨e, he, rfl⟩ := List.mem_map.1 hp
      exact hall e he
    have hperm := (hd.subperm hsub).perm_of_length_le (by rw [List.length_map, List.length_map, hlen])
    exact fun path => hperm.mem_iff.symm
  · rintro ⟨happroved, honce, hcurrent⟩
    have hperm : (classifications.map (·.path)).Perm (d.entries.map (·.path)) :=
      (List.perm_ext_iff_of_nodup honce hd).2 hcurrent
    refine ⟨by simpa using hperm.length_eq, ?_, honce, ?_⟩
    · intro item hi
      exact ⟨happroved item hi, current_exact ((hcurrent _).1 (List.mem_map_of_mem hi))⟩
    · intro e he
      exact (hcurrent _).2 (List.mem_map_of_mem he)

/-- With several records for one path no list with one label for each path is accepted. -/
theorem distinct_of_accepted (h : ScopeExact root d planned) (hp : PlannedNew lstat d.entries planned) :
    (d.entries.map (·.path)).Nodup ∧ ∀ path ∈ planned, Linkless lstat path := by
  obtain ⟨result, hresult⟩ := (h.accepted (classifyAll d.entries)).2 ⟨classifyAll_classified, hp⟩
  obtain ⟨⟨hlen, -⟩, ⟨-, hlinks⟩, -⟩ := validate_eq_ok.1 hresult
  refine ⟨?_, hlinks⟩
  have hlen : (d.entries.map (·.path)).dedup.length = (d.entries.map (·.path)).length := by
    rw [← classifyAll_paths, List.length_map, List.length_map, hlen]
  rw [← (List.dedup_sublist _).eq_of_length hlen]
  exact List.nodup_dedup _

/-- **The scope is exactly the classified work if and only if** the paths of the records are distinct and no
    planned path leads through a symbolic link, unless the planned paths are refused anyway. -/
theorem scope_exact_iff (root : CanonicalRoot) (d : DirtySnapshot sha256 lstat) (planned : List String) :
    ScopeExact root d planned ↔ (PlannedNew lstat d.entries planned →
      (d.entries.map (·.path)).Nodup ∧ ∀ path ∈ planned, Linkless lstat path) := by
  constructor
  · exact distinct_of_accepted
  · intro h
    have haccepted (classifications) : (∃ result, validateRepositoryDirtyBorrowScope lstat sha256 root.1 d.snapshot
        classifications planned = .ok result) ↔
          Classified d.entries classifications ∧ PlannedNew lstat d.entries planned := by
      constructor
      · rintro ⟨result, hresult⟩
        obtain ⟨hclassified, ⟨hnew, -⟩, -⟩ := validate_eq_ok.1 hresult
        exact ⟨(classified_iff (h hnew).1).1 hclassified, hnew⟩
      · rintro ⟨hclassified, hnew⟩
        obtain ⟨hdistinct, hlinks⟩ := h hnew
        exact ⟨_, validate_eq_ok.2 ⟨(classified_iff hdistinct).2 hclassified, ⟨hnew, hlinks⟩, rfl⟩⟩
    refine ⟨haccepted, ?_, ?_⟩
    · rintro classifications result hresult
      obtain ⟨-, -, rfl⟩ := validate_eq_ok.1 hresult
      exact sortStrings_dedup _
    · intro hnew
      exact ⟨_, (haccepted _).2 ⟨classifyAll_classified, hnew⟩⟩

/-! ## A path with two records -/

namespace Sample

/-- After `git rm --cached a`. -/
def raw : Bytes := utf8 "1 D. N... 100644 000000 000000 e69de29 0000000 a\x00? a\x00"

theorem digest_ok : shaOk 64 (String.ofList (List.replicate 64 '0')) = true := by decide +kernel

def digest : Sha256 := ⟨_, digest_ok⟩

def worktree (path : List String) : Lstat := if path = ["a"] then .entry false else .missing

def records : List RepositoryGitStatusEntry :=
  [⟨1, .ordinary, "D.", "a", "YQ==", none⟩, ⟨2, .untracked, "??", "a", "YQ==", none⟩]

def snapshot : RepositoryGitSnapshot :=
  ⟨"main", "e69de29", 1, 0, 1, true, "", some (base64Text raw), some 2, some records, some digest.1⟩

theorem snapshot_complete : isCompleteGitSnapshot (fun _ => digest) snapshot = true := by decide +kernel

theorem records_exact : ∀ e ∈ records, ∀ path ∈ entryPaths e,
    validRepositoryRelativePath path = true ∧ Linkless worktree path := by
  have ha : validRepositoryRelativePath "a" = true ∧ Linkless worktree "a" := ⟨by decide +kernel, rfl⟩
  simpa [records, entryPaths] using ha

def dirty : DirtySnapshot (fun _ => digest) worktree :=
  ⟨snapshot, records, rfl, snapshot_complete, rfl, records_exact⟩

theorem root_ok : normalizedAbsolute "/" = true := by decide +kernel

/-- A deleted index entry and an untracked file of the same name. -/
theorem two_records_one_path : ¬ ∀ (sha256 : Bytes → Sha256) (lstat : List String → Lstat) (root : CanonicalRoot)
    (d : DirtySnapshot sha256 lstat) (planned : List String), ScopeExact root d planned := by
  intro h
  have hdistinct := (distinct_of_accepted (h _ _ ⟨"/", root_ok⟩ dirty []) ⟨nofun, List.nodup_nil⟩).1
  exact absurd hdistinct (by decide)

end Sample

end PaPlatform.Admission.DirtyScope
