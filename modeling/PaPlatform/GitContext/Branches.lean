/-
  The branches of the Git context (`pi-extension/git-context-state.ts`): they are listed
  by their full ref names, and chosen by their short names.

  A listed branch can be chosen exactly if no local branch has the short name of a
  remote-tracking one.
-/
import PaPlatform.Lib.Guard
import PaPlatform.Lib.Separated
import PaPlatform.Lib.UnitsOrder

namespace PaPlatform.GitContext

open Js Units Comparator Separated Guard

/-! ## Listing -/

inductive BranchKind where
  | local_ | remote
  deriving DecidableEq

structure GitBranch where
  name : Units
  fullName : Units
  kind : BranchKind
  current : Bool
  deriving DecidableEq

def heads : Units := units "refs/heads/"

def remotes : Units := units "refs/remotes/"

/-- `s.endsWith("/HEAD")`. -/
def endsWithHead (s : Units) : Bool := (units "/HEAD").isSuffixOf s

def branchFromFullName (fullName : Units) (activeBranch : Option Units) : Option GitBranch :=
  if heads.isPrefixOf fullName then
    let name := fullName.drop heads.length
    if name = [] then none else some ⟨name, heads ++ name, .local_, activeBranch == some name⟩
  else if remotes.isPrefixOf fullName then
    let name := fullName.drop remotes.length
    if name = [] ∨ endsWithHead name = true then none else some ⟨name, remotes ++ name, .remote, false⟩
  else none

structure SymbolicDefault where
  refName : Units
  target : Units
  deriving DecidableEq

/-- What a line adds to `branches` or to `symbolicDefaults`. -/
inductive Entry where
  | branch (b : GitBranch)
  | symbolic (s : SymbolicDefault)
  | nothing

def Entry.branch? : Entry → Option GitBranch
  | branch b => some b
  | _ => none

def Entry.symbolic? : Entry → Option SymbolicDefault
  | symbolic s => some s
  | _ => none

/-- The entry of a ref. -/
def entryOf (activeBranch : Option Units) (fullName symbolicTarget : Units) : Entry :=
  if symbolicTarget ≠ [] then
    if remotes.isPrefixOf fullName ∧ endsWithHead fullName = true then .symbolic ⟨fullName, symbolicTarget⟩ else .nothing
  else (branchFromFullName fullName activeBranch).elim .nothing .branch

/-- `rawLine.endsWith("\r") ? rawLine.slice(0, -1) : rawLine`. -/
def withoutReturn (rawLine : Units) : Units := if rawLine.getLast? = some 0x0d then rawLine.dropLast else rawLine

/-- One line of the output; it throws for a line without a separator. -/
def readLine (activeBranch : Option Units) (rawLine : Units) : Except Unit Entry :=
  let line := withoutReturn rawLine
  if line = [] then .ok .nothing
  else if line.contains 0 then
    .ok (entryOf activeBranch (line.takeWhile (· != 0)) ((line.dropWhile (· != 0)).drop 1))
  else .error ()

def compareText (left right : Units) : ℤ := compareUnits left right

/-- The order of the branches: local ones first, each kind by name. -/
def compareBranches (left right : GitBranch) : ℤ :=
  if left.kind = right.kind then compareText left.name right.name else if left.kind = .local_ then -1 else 1

def originHead : Units := units "refs/remotes/origin/HEAD"

def originRank (s : SymbolicDefault) : ℕ := if s.refName = originHead then 0 else 1

/-- The order of the remote heads: that of `origin` first. -/
def compareDefaults (left right : SymbolicDefault) : ℤ :=
  let origin : ℤ := originRank left - originRank right
  if origin ≠ 0 then origin else compareText left.refName right.refName

/-- `items.sort(compare)`. -/
def sortBy {α : Type} (compare : α → α → ℤ) (items : List α) : List α := items.mergeSort fun a b => compare a b ≤ 0

structure EnumeratedRefs where
  branches : List GitBranch
  detectedDefault : Option Units

def enumerate (entries : List Entry) : EnumeratedRefs :=
  let branches := sortBy compareBranches (entries.filterMap (·.branch?))
  let symbolicDefaults := sortBy compareDefaults (entries.filterMap (·.symbolic?))
  ⟨branches, symbolicDefaults.findSome? fun s => (branches.find? (·.fullName == s.target)).map (·.name)⟩

/-- Parse only local and locally present remote-tracking refs. -/
def parseGitBranches (output : Units) (activeBranch : Option Units) : Except Unit EnumeratedRefs :=
  ((output.splitOn 10).mapM (readLine activeBranch)).map enumerate

/-! ## Choosing -/

inductive GitReferenceSource where
  | explicit | saved | default | develop | originDevelop
  deriving DecidableEq

structure ReferenceInput where
  explicitReference : Option Units
  savedReference : Option Units
  detectedDefault : Option Units

structure ResolvedGitReference where
  branch : Option GitBranch
  source : Option GitReferenceSource
  missingExplicit : Bool
  deriving DecidableEq

def findName (branches : List GitBranch) (name : Option Units) : Option GitBranch :=
  name.bind fun name => branches.find? (·.name == name)

def resolveGitReference (branches : List GitBranch) (input : ReferenceInput) : ResolvedGitReference :=
  if input.explicitReference ≠ none then
    let branch := findName branches input.explicitReference
    ⟨branch, branch.map fun _ => .explicit, branch.isNone⟩
  else
    let choices := [(input.savedReference, GitReferenceSource.saved), (input.detectedDefault, .default),
      (some (units "develop"), .develop), (some (units "origin/develop"), .originDevelop)]
    match choices.findSome? fun c => (findName branches c.1).map fun b => (b, c.2) with
    | some (b, source) => ⟨some b, some source, false⟩
    | none => ⟨none, none, false⟩

/-! ## Refs -/

/-- A ref of `refs/heads` or `refs/remotes`, and what it points to if it is symbolic.  Names have no
    control characters. -/
structure GitRef where
  name : Units
  symref : Units
  named : heads.isPrefixOf name = true ∨ remotes.isPrefixOf name = true
  printable : ∀ u ∈ name ++ symref, 0x20 ≤ u

/-- The refs of a repository. -/
structure GitRefs where
  list : List GitRef
  distinct : (list.map (·.name)).Nodup

/-- The output of `git for-each-ref --format=%(refname)%00%(symref)`. -/
def encodeRefs (refs : GitRefs) : Units := (refs.list.map fun r => r.name ++ 0 :: r.symref).flatMap (· ++ [10])

/-- A branch is listed under this full name. -/
def Listed (refs : GitRefs) (fullName : Units) : Prop :=
  ∃ r ∈ refs.list, r.name = fullName ∧ r.symref = [] ∧ (branchFromFullName fullName none).isSome = true

/-- No local branch has the short name of a listed remote-tracking branch. -/
def NoCollision (refs : GitRefs) : Prop :=
  ∀ name, Listed refs (heads ++ name) → ¬ Listed refs (remotes ++ name)

/-- The symbolic `HEAD` of a remote whose branch is listed. -/
def UsableHead (refs : GitRefs) (head : GitRef) : Prop :=
  head ∈ refs.list ∧ remotes.isPrefixOf head.name = true ∧ endsWithHead head.name = true ∧ head.symref ≠ [] ∧
    Listed refs head.symref

/-- The head that is preferred: that of `origin`, or else the first by name. -/
def PreferredHead (refs : GitRefs) (head : GitRef) : Prop :=
  UsableHead refs head ∧ ∀ other, UsableHead refs other →
    head.name = originHead ∨ (other.name ≠ originHead ∧ ¬ other.name < head.name)

/-- The branch can be chosen by its name, explicitly or as the saved reference. -/
def Choosable (branches : List GitBranch) (b : GitBranch) : Prop :=
  (∀ input, input.explicitReference = some b.name → (resolveGitReference branches input).branch = some b) ∧
    ∀ input, input.explicitReference = none → input.savedReference = some b.name →
      (resolveGitReference branches input).branch = some b

/-- The detected default is the branch of the preferred head. -/
def DefaultResolves (refs : GitRefs) (e : EnumeratedRefs) : Prop :=
  ∀ head, PreferredHead refs head → ∃ name b, e.detectedDefault = some name ∧
    (resolveGitReference e.branches ⟨none, none, some name⟩).branch = some b ∧ b.fullName = head.symref



/-! ## Reading the listing -/

variable {refs : GitRefs} {r head : GitRef} {active : Option Units} {name fullName : Units} {b b' : GitBranch}
  {entries : List Entry} {s : SymbolicDefault}

theorem readLine_ref (r : GitRef) (active : Option Units) :
    readLine active (r.name ++ 0 :: r.symref) = .ok (entryOf active r.name r.symref) := by
  have hn : ∀ u ∈ r.name, u ≠ 0 := by
    rintro u hu rfl
    exact absurd (r.printable 0 (List.mem_append_left _ hu)) (by decide)
  have hr : (r.name ++ 0 :: r.symref).getLast? ≠ some 0x0d := by
    intro hl
    rcases List.mem_append.1 (List.mem_of_getLast? hl) with hm | hm
    · exact absurd (r.printable _ (List.mem_append_left _ hm)) (by decide)
    · rcases List.mem_cons.1 hm with h0 | hm
      · exact absurd h0 (by decide)
      · exact absurd (r.printable _ (List.mem_append_right _ hm)) (by decide)
  have ht : ∀ u ∈ r.name, (u != 0) = true := fun u hu => bne_iff_ne.2 (hn u hu)
  unfold readLine withoutReturn
  rw [if_neg hr]
  show (if r.name ++ 0 :: r.symref = [] then _ else _) = _
  rw [if_neg (by simp), if_pos (by simp), List.takeWhile_append_of_pos ht, List.dropWhile_append_of_pos ht]
  simp

/-- What the refs enumerate: the empty text after the last line adds nothing. -/
def enumerated (refs : GitRefs) (active : Option Units) : EnumeratedRefs :=
  enumerate (refs.list.map (fun r : GitRef => entryOf active r.name r.symref) ++ [.nothing])

theorem parseGitBranches_refs (refs : GitRefs) (active : Option Units) :
    parseGitBranches (encodeRefs refs) active = .ok (enumerated refs active) := by
  have hlines : ∀ line ∈ refs.list.map (fun r : GitRef => r.name ++ 0 :: r.symref), (10 : UInt16) ∉ line := by
    intro line hline h
    rcases List.mem_map.1 hline with ⟨r, -, rfl⟩
    rcases List.mem_append.1 h with hm | hm
    · exact absurd (r.printable _ (List.mem_append_left _ hm)) (by decide)
    · rcases List.mem_cons.1 hm with h0 | hm
      · exact absurd h0 (by decide)
      · exact absurd (r.printable _ (List.mem_append_right _ hm)) (by decide)
  have hread : ∀ l : List GitRef, ((l.map fun r : GitRef => r.name ++ 0 :: r.symref) ++ [[]]).mapM (readLine active) =
      .ok (l.map (fun r : GitRef => entryOf active r.name r.symref) ++ [.nothing]) := by
    intro l
    induction l with
    | nil => rfl
    | cons r l ih =>
      rw [List.map_cons, List.cons_append, List.mapM_cons, readLine_ref, ih]
      rfl
  unfold parseGitBranches encodeRefs
  rw [splitOn_terminated hlines, hread]
  rfl

theorem entry_branch : (entryOf active fullName name).branch? = some b ↔
    name = [] ∧ branchFromFullName fullName active = some b := by
  unfold entryOf
  by_cases hname : name = []
  · rw [if_neg (by simpa using hname)]
    cases branchFromFullName fullName active <;> simp [Entry.branch?, hname]
  · rw [if_pos hname]
    split_ifs <;> simp [Entry.branch?, hname]

theorem entry_symbolic : (entryOf active fullName name).symbolic? = some s ↔
    name ≠ [] ∧ (remotes.isPrefixOf fullName = true ∧ endsWithHead fullName = true) ∧ s = ⟨fullName, name⟩ := by
  unfold entryOf
  by_cases hname : name = []
  · rw [if_neg (by simpa using hname)]
    cases branchFromFullName fullName active <;> simp [Entry.symbolic?, hname]
  · rw [if_pos hname]
    split_ifs with h
    · simp [Entry.symbolic?, hname, h, eq_comm]
    · constructor
      · intro hs
        exact absurd hs (by simp [Entry.symbolic?])
      · rintro ⟨-, h', -⟩
        exact absurd h' h

/-- The branches are those of the refs. -/
theorem mem_branches : b ∈ (enumerated refs active).branches ↔
    ∃ r ∈ refs.list, r.symref = [] ∧ branchFromFullName r.name active = some b := by
  show b ∈ List.mergeSort _ _ ↔ _
  rw [List.mem_mergeSort, List.mem_filterMap]
  constructor
  · rintro ⟨entry, hentry, hb⟩
    rcases List.mem_append.1 hentry with h | h
    · rcases List.mem_map.1 h with ⟨r, hr, rfl⟩
      exact ⟨r, hr, entry_branch.1 hb⟩
    · rw [List.mem_singleton.1 h] at hb
      exact absurd hb (by simp [Entry.branch?])
  · rintro ⟨r, hr, h⟩
    exact ⟨_, List.mem_append_left _ (List.mem_map_of_mem hr), entry_branch.2 h⟩

/-- The remote heads, in their order. -/
def remoteHeads (refs : GitRefs) (active : Option Units) : List SymbolicDefault :=
  sortBy compareDefaults
    ((refs.list.map (fun r : GitRef => entryOf active r.name r.symref) ++ [Entry.nothing]).filterMap (·.symbolic?))

theorem mem_remoteHeads : s ∈ remoteHeads refs active ↔ ∃ r ∈ refs.list, r.symref ≠ [] ∧
    (remotes.isPrefixOf r.name = true ∧ endsWithHead r.name = true) ∧ s = ⟨r.name, r.symref⟩ := by
  show s ∈ List.mergeSort _ _ ↔ _
  rw [List.mem_mergeSort, List.mem_filterMap]
  constructor
  · rintro ⟨entry, hentry, hs⟩
    rcases List.mem_append.1 hentry with h | h
    · rcases List.mem_map.1 h with ⟨r, hr, rfl⟩
      exact ⟨r, hr, entry_symbolic.1 hs⟩
    · rw [List.mem_singleton.1 h] at hs
      exact absurd hs (by simp [Entry.symbolic?])
  · rintro ⟨r, hr, h⟩
    exact ⟨_, List.mem_append_left _ (List.mem_map_of_mem hr), entry_symbolic.2 h⟩

/-- The key of a remote head. -/
def defaultKey (s : SymbolicDefault) : ℕ ×ₗ List ℕ := toLex (originRank s, textKey s.refName)

theorem compareDefaults_decided : DecidedBy compareDefaults defaultKey := by
  intro l r
  refine Decides.lex ?_ (compareUnits_decides l.refName r.refName)
  unfold Decides originRank
  split_ifs <;> simp

theorem remoteHeads_sorted : (remoteHeads refs active).Pairwise fun s t => defaultKey s ≤ defaultKey t :=
  compareDefaults_decided.sorted _

/-! ## Names -/

theorem heads_ne_remotes (a b : Units) : heads ++ a ≠ remotes ++ b := by
  intro h
  have ht := congrArg (List.take 6) h
  rw [List.take_append_of_le_length (by decide), List.take_append_of_le_length (by decide)] at ht
  exact absurd ht (by decide)

theorem branch_heads (name : Units) : branchFromFullName (heads ++ name) active =
    if name = [] then none else some ⟨name, heads ++ name, .local_, active == some name⟩ := by
  unfold branchFromFullName
  rw [if_pos (List.isPrefixOf_iff_prefix.2 (List.prefix_append _ _)), List.drop_left]

theorem branch_remotes (name : Units) : branchFromFullName (remotes ++ name) active =
    if name = [] ∨ endsWithHead name = true then none else some ⟨name, remotes ++ name, .remote, false⟩ := by
  unfold branchFromFullName
  rw [if_neg, if_pos (List.isPrefixOf_iff_prefix.2 (List.prefix_append _ _)), List.drop_left]
  intro h
  rcases List.isPrefixOf_iff_prefix.1 h with ⟨t, ht⟩
  exact heads_ne_remotes t name ht

/-- A listed branch is named by what follows its prefix. -/
theorem branch_named (h : branchFromFullName fullName active = some b) :
    b.fullName = fullName ∧ (b.kind = .local_ ∧ fullName = heads ++ b.name ∨
      b.kind = .remote ∧ fullName = remotes ++ b.name) := by
  by_cases hh : heads.isPrefixOf fullName = true
  · rcases List.isPrefixOf_iff_prefix.1 hh with ⟨t, rfl⟩
    rw [branch_heads] at h
    split_ifs at h
    rw [← Option.some.inj h]
    exact ⟨rfl, Or.inl ⟨rfl, rfl⟩⟩
  · by_cases hr : remotes.isPrefixOf fullName = true
    · rcases List.isPrefixOf_iff_prefix.1 hr with ⟨t, rfl⟩
      rw [branch_remotes] at h
      split_ifs at h
      rw [← Option.some.inj h]
      exact ⟨rfl, Or.inr ⟨rfl, rfl⟩⟩
    · unfold branchFromFullName at h
      rw [if_neg hh, if_neg hr] at h
      exact absurd h (by simp)

/-- Which refs are listed does not depend on the active branch. -/
theorem listed_active (active : Option Units) (fullName : Units) :
    (branchFromFullName fullName active).isSome = (branchFromFullName fullName none).isSome := by
  by_cases hh : heads.isPrefixOf fullName = true
  · rcases List.isPrefixOf_iff_prefix.1 hh with ⟨t, rfl⟩
    rw [branch_heads, branch_heads]
    split_ifs <;> rfl
  · unfold branchFromFullName
    rw [if_neg hh, if_neg hh]

theorem listed_iff (active : Option Units) : Listed refs fullName ↔ ∃ b ∈ (enumerated refs active).branches, b.fullName = fullName := by
  constructor
  · rintro ⟨r, hr, rfl, hs, h⟩
    rw [← listed_active active] at h
    rcases Option.isSome_iff_exists.1 h with ⟨b, hb⟩
    exact ⟨b, mem_branches.2 ⟨r, hr, hs, hb⟩, (branch_named hb).1⟩
  · rintro ⟨b, hb, rfl⟩
    rcases mem_branches.1 hb with ⟨r, hr, hs, h⟩
    refine ⟨r, hr, (branch_named h).1.symm, hs, ?_⟩
    rw [← (branch_named h).1.symm, ← listed_active active, h]
    rfl

theorem listed_branch (hb : b ∈ (enumerated refs active).branches) : Listed refs b.fullName :=
  (listed_iff active).2 ⟨b, hb, rfl⟩

theorem fullName_of_branch (hb : b ∈ (enumerated refs active).branches) :
    b.kind = .local_ ∧ b.fullName = heads ++ b.name ∨ b.kind = .remote ∧ b.fullName = remotes ++ b.name := by
  rcases mem_branches.1 hb with ⟨r, -, -, h⟩
  rw [(branch_named h).1]
  exact (branch_named h).2

theorem branch_eq (hb : b ∈ (enumerated refs active).branches) (hb' : b' ∈ (enumerated refs active).branches)
    (h : b.fullName = b'.fullName) : b = b' := by
  rcases mem_branches.1 hb with ⟨r, -, -, hr⟩
  rcases mem_branches.1 hb' with ⟨r', -, -, hr'⟩
  rw [(branch_named hr).1, (branch_named hr').1] at h
  rw [h, hr'] at hr
  exact (Option.some.inj hr).symm

/-- Short names are distinct exactly if no local branch has that of a remote-tracking one. -/
theorem names_distinct_iff (active : Option Units) : (∀ b ∈ (enumerated refs active).branches, ∀ b' ∈ (enumerated refs active).branches,
    b.name = b'.name → b = b') ↔ NoCollision refs := by
  constructor
  · rintro h name hl hr
    rcases (listed_iff active).1 hl with ⟨b, hb, hname⟩
    rcases (listed_iff active).1 hr with ⟨b', hb', hname'⟩
    have hbn : b.name = name := by
      rcases fullName_of_branch hb with ⟨-, h⟩ | ⟨-, h⟩
      · exact List.append_cancel_left (h.symm.trans hname)
      · exact absurd (hname.symm.trans h) (heads_ne_remotes _ _)
    have hbn' : b'.name = name := by
      rcases fullName_of_branch hb' with ⟨-, h⟩ | ⟨-, h⟩
      · exact absurd (h.symm.trans hname') (heads_ne_remotes _ _)
      · exact List.append_cancel_left (h.symm.trans hname')
    have heq := h b hb b' hb' (hbn.trans hbn'.symm)
    rw [heq, hname'] at hname
    exact heads_ne_remotes _ _ hname.symm
  · rintro h b hb b' hb' hn
    have hl := listed_branch hb
    have hl' := listed_branch hb'
    rcases fullName_of_branch hb with ⟨-, hf⟩ | ⟨-, hf⟩ <;> rcases fullName_of_branch hb' with ⟨-, hf'⟩ | ⟨-, hf'⟩
    · exact branch_eq hb hb' (by rw [hf, hf', hn])
    · rw [hf] at hl
      rw [hf', ← hn] at hl'
      exact absurd hl' (h _ hl)
    · rw [hf, hn] at hl
      rw [hf'] at hl'
      exact absurd hl (h _ hl')
    · exact branch_eq hb hb' (by rw [hf, hf', hn])


/-! ## Choices -/

variable {branches : List GitBranch} {e : EnumeratedRefs}

theorem resolve_explicit (saved detected : Option Units) (name : Units) :
    (resolveGitReference branches ⟨some name, saved, detected⟩).branch = findName branches (some name) := rfl

theorem resolve_saved (h : findName branches (some name) = some b) (detected : Option Units) :
    (resolveGitReference branches ⟨none, some name, detected⟩).branch = some b := by
  unfold resolveGitReference
  rw [if_neg (by simp)]
  simp [h]

theorem resolve_detected (h : findName branches (some name) = some b) :
    (resolveGitReference branches ⟨none, none, some name⟩).branch = some b := by
  have hn : findName branches none = none := rfl
  unfold resolveGitReference
  rw [if_neg (by simp)]
  simp [hn, h]

theorem choosable_iff : Choosable branches b ↔ findName branches (some b.name) = some b := by
  constructor
  · rintro ⟨h, -⟩
    exact h ⟨some b.name, none, none⟩ rfl
  · rintro h
    constructor
    · rintro ⟨explicit, saved, detected⟩ rfl
      exact h
    · rintro ⟨explicit, saved, detected⟩ rfl rfl
      exact resolve_saved h detected

/-- Every branch is the first of its name exactly if names are distinct. -/
theorem first_iff_distinct : (∀ b ∈ branches, findName branches (some b.name) = some b) ↔
    ∀ b ∈ branches, ∀ b' ∈ branches, b.name = b'.name → b = b' := by
  constructor
  · rintro h b hb b' hb' hn
    have hb := h b hb
    rw [hn, h b' hb'] at hb
    exact (Option.some.inj hb).symm
  · rintro h b hb
    show branches.find? (fun c => c.name == b.name) = some b
    cases hf : branches.find? (fun c => c.name == b.name) with
    | none => exact absurd (List.find?_eq_none.1 hf b hb) (by simp)
    | some c =>
      rw [h c (List.mem_of_find?_eq_some hf) b hb (by simpa using List.find?_some hf)]

theorem choosable_iff_noCollision (active : Option Units) :
    (∀ b ∈ (enumerated refs active).branches, Choosable (enumerated refs active).branches b) ↔ NoCollision refs := by
  rw [← names_distinct_iff active, ← first_iff_distinct]
  simp only [choosable_iff]

/-! ## The default -/

/-- The name of the branch a head points to. -/
def targetName (branches : List GitBranch) (s : SymbolicDefault) : Option Units :=
  (branches.find? (·.fullName == s.target)).map (·.name)

theorem detectedDefault_eq : (enumerated refs active).detectedDefault =
    (remoteHeads refs active).findSome? (targetName (enumerated refs active).branches) := rfl

theorem targetName_isSome : (targetName (enumerated refs active).branches s).isSome = true ↔ Listed refs s.target := by
  rw [listed_iff active]
  unfold targetName
  rw [Option.isSome_map, List.find?_isSome]
  simp

theorem targetName_some (h : targetName (enumerated refs active).branches s = some name) :
    ∃ b ∈ (enumerated refs active).branches, b.fullName = s.target ∧ b.name = name := by
  rcases Option.map_eq_some_iff.1 h with ⟨b, hb, rfl⟩
  exact ⟨b, List.mem_of_find?_eq_some hb, by simpa using List.find?_some hb, rfl⟩

/-- A usable head is the only ref of its name. -/
theorem ref_eq {r r' : GitRef} (hr : r ∈ refs.list) (hr' : r' ∈ refs.list) (h : r.name = r'.name) : r = r' :=
  List.inj_on_of_nodup_map refs.distinct hr hr' h

theorem usable_iff (active : Option Units) : UsableHead refs r ↔ r ∈ refs.list ∧ (⟨r.name, r.symref⟩ : SymbolicDefault) ∈ remoteHeads refs active ∧
    (targetName (enumerated refs active).branches ⟨r.name, r.symref⟩).isSome = true := by
  rw [targetName_isSome, mem_remoteHeads]
  constructor
  · rintro ⟨hr, hp, he, hs, hl⟩
    exact ⟨hr, ⟨r, hr, hs, ⟨hp, he⟩, rfl⟩, hl⟩
  · rintro ⟨hr, ⟨r', hr', hs, ⟨hp, he⟩, heq⟩, hl⟩
    rw [SymbolicDefault.mk.injEq] at heq
    rw [← heq.1] at hp he
    rw [← heq.2] at hs
    exact ⟨hr, hp, he, hs, hl⟩

/-- The keys of the heads follow the preference. -/
theorem preferred_eq {head other : GitRef}
    (hk : defaultKey ⟨other.name, other.symref⟩ ≤ defaultKey ⟨head.name, head.symref⟩)
    (h : head.name = originHead ∨ (other.name ≠ originHead ∧ ¬ other.name < head.name)) : other.name = head.name := by
  have hrank : ∀ s : SymbolicDefault, originRank s = if s.refName = originHead then 0 else 1 := fun s => rfl
  rw [defaultKey, defaultKey, Prod.Lex.toLex_le_toLex, hrank, hrank] at hk
  by_cases ho : other.name = originHead
  · rcases h with h | ⟨h, -⟩
    · rw [ho, h]
    · exact absurd ho h
  · rcases h with h | ⟨-, h⟩
    · simp [ho, h] at hk
    · by_cases hh : head.name = originHead
      · simp [ho, hh] at hk
      · simp only [if_neg ho, if_neg hh, lt_irrefl, false_or, true_and] at hk
        rw [← textKey_lt, not_lt] at h
        exact textKey_injective (le_antisymm hk h)

/-- The default is that of the preferred head. -/
theorem detected_of_preferred (active : Option Units) (h : PreferredHead refs head) : ∃ b ∈ (enumerated refs active).branches,
    (enumerated refs active).detectedDefault = some b.name ∧ b.fullName = head.symref := by
  rcases (usable_iff active).1 h.1 with ⟨hmem, hin, hsome⟩
  have hex : ((remoteHeads refs active).findSome? (targetName (enumerated refs active).branches)).isSome = true :=
    List.findSome?_isSome_iff.2 ⟨_, hin, hsome⟩
  rcases Option.isSome_iff_exists.1 hex with ⟨name, hname⟩
  rcases findSome_sorted remoteHeads_sorted hin hsome hname with ⟨s, hs, hf, hk⟩
  rcases mem_remoteHeads.1 hs with ⟨r, hr, hsym, hp, rfl⟩
  have hu : UsableHead refs r := (usable_iff active).2 ⟨hr, hs, by rw [hf]; rfl⟩
  have heq : r = head := ref_eq hr hmem (preferred_eq hk (h.2 r hu))
  rcases targetName_some hf with ⟨b, hb, hfull, rfl⟩
  refine ⟨b, hb, hname, ?_⟩
  rw [hfull, heq]

/-- Every listed branch can be chosen by its name and the detected default is the branch of the
    preferred remote head, exactly if no local branch has the name of a remote-tracking one. -/
theorem branches_choosable_iff (refs : GitRefs) (active : Option Units) :
    ∃ e, parseGitBranches (encodeRefs refs) active = .ok e ∧
      (((∀ b ∈ e.branches, Choosable e.branches b) ∧ DefaultResolves refs e) ↔ NoCollision refs) := by
  refine ⟨enumerated refs active, parseGitBranches_refs refs active, ?_⟩
  constructor
  · rintro ⟨h, -⟩
    exact (choosable_iff_noCollision active).1 h
  · rintro h
    have hc := (choosable_iff_noCollision active).2 h
    refine ⟨hc, ?_⟩
    rintro head hhead
    rcases detected_of_preferred active hhead with ⟨b, hb, hd, hfull⟩
    exact ⟨b.name, b, hd, resolve_detected (choosable_iff.1 (hc b hb)), hfull⟩

def ownMain : Units := units "refs/heads/origin/main"

def remoteMain : Units := units "refs/remotes/origin/main"

theorem ownMain_named : heads.isPrefixOf ownMain = true ∨ remotes.isPrefixOf ownMain = true := Or.inl (by decide)

theorem remoteMain_named : heads.isPrefixOf remoteMain = true ∨ remotes.isPrefixOf remoteMain = true :=
  Or.inr (by decide)

theorem ownMain_printable : ∀ u ∈ ownMain ++ [], 0x20 ≤ u := by
  simp [ownMain, units, utf16Units]

theorem remoteMain_printable : ∀ u ∈ remoteMain ++ [], 0x20 ≤ u := by
  simp [remoteMain, units, utf16Units]

theorem mains_distinct : [ownMain, remoteMain].Nodup := by decide

/-- A local branch `origin/main` beside that of `origin`. -/
def collidingRefs : GitRefs where
  list := [⟨ownMain, [], ownMain_named, ownMain_printable⟩, ⟨remoteMain, [], remoteMain_named, remoteMain_printable⟩]
  distinct := mains_distinct

theorem collidingRefs_not_choosable : ¬ ∀ (refs : GitRefs) (active : Option Units) (e : EnumeratedRefs),
    parseGitBranches (encodeRefs refs) active = .ok e →
      (∀ b ∈ e.branches, Choosable e.branches b) ∧ DefaultResolves refs e := by
  intro h
  have hc := (h collidingRefs none _ (parseGitBranches_refs collidingRefs none)).1
  have hl : Listed collidingRefs (heads ++ units "origin/main") := ⟨_, List.mem_cons_self, rfl, rfl, by decide⟩
  have hr : Listed collidingRefs (remotes ++ units "origin/main") :=
    ⟨_, List.mem_cons_of_mem _ List.mem_cons_self, rfl, rfl, by decide⟩
  exact (choosable_iff_noCollision none).1 hc _ hl hr

end PaPlatform.GitContext
