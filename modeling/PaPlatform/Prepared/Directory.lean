/-
  The directory of `ProtectedWorkflowStore` (`deploy/prepared-workflow.ts`),
  with what a crash can leave of it.

  A publication writes a temporary name, links the record name to it, unlinks
  the temporary name and syncs the directory.  Between link and unlink the
  record has two names and cannot be read.  An entry is durable once the
  directory was synced after its last change; a loss of power may undo the
  changes of the others.
-/
import PaPlatform.Deploy.Records

namespace PaPlatform.Prepared

open Js

structure File where
  value : Json
  /-- Whether the temporary name still exists. -/
  linked : Bool
  durable : Bool

structure Directory where
  files : List (RecordName × File)
  /-- The number of names that are not records. -/
  others : ℕ

namespace Directory

variable (d : Directory) (name : RecordName)

def file? : Option File := d.files.lookup name

/-- `read`: only a file with one name can be read. -/
def read : Option Json := (d.file? name).bind fun f => if f.linked then none else some f.value

def names : List RecordName := d.files.map (·.1)

/-- The number of names in the directory. -/
def count : ℕ := d.files.length + d.others

/-- A change of the entries that leaves their names. -/
def mapFiles (g : RecordName → File → File) : Directory :=
  { d with files := d.files.map fun (name, f) => (name, g name f) }

/-- `fsyncSync(directory)`. -/
def sync : Directory := d.mapFiles fun _ f => { f with durable := true }

/-- The temporary file is complete. -/
def addTemporary : Directory := { d with others := d.others + 1 }

/-- `linkSync(temporary, target)`. -/
def link (value : Json) : Directory := { d with files := d.files ++ [(name, ⟨value, true, false⟩)] }

/-- `unlinkSync(temporary)`. -/
def unlink : Directory :=
  { d.mapFiles fun other f => if other = name then { f with linked := false } else f with
    others := d.others - 1 }

/-- What a loss of power leaves of an entry: a durable one, and of any other
    nothing, or the entry with one name or with two. -/
def remains (kept : RecordName → Option Bool) (entry : RecordName × File) :
    Option (RecordName × File) :=
  if entry.2.durable then some entry
  else (kept entry.1).map fun linked => (entry.1, { entry.2 with linked })

def losePower (kept : RecordName → Option Bool) : Directory :=
  { d with files := d.files.filterMap (remains kept) }

variable {d name} {g : RecordName → File → File} {value : Json} {other : RecordName} {f : File}

/-! ## Lemmas -/

theorem lookup_map {l : List (RecordName × File)} :
    (l.map fun p => (p.1, g p.1 p.2)).lookup name = (l.lookup name).map (g name) := by
  induction l with
  | nil => rfl
  | cons p l ih =>
    obtain ⟨n, f⟩ := p
    by_cases hn : name = n
    · subst hn
      simp [List.lookup]
    · have hne : (name == n) = false := beq_eq_false_iff_ne.2 hn
      simp only [List.map_cons, List.lookup, hne, ih]

@[simp] theorem file?_mapFiles : (d.mapFiles g).file? name = (d.file? name).map (g name) := lookup_map

@[simp] theorem names_mapFiles : (d.mapFiles g).names = d.names := by
  simp [names, mapFiles, Function.comp_def]

@[simp] theorem count_mapFiles : (d.mapFiles g).count = d.count := by simp [count, mapFiles]

@[simp] theorem names_sync : d.sync.names = d.names := names_mapFiles

@[simp] theorem count_sync : d.sync.count = d.count := count_mapFiles

@[simp] theorem file?_sync : d.sync.file? name = (d.file? name).map ({ · with durable := true }) :=
  file?_mapFiles

@[simp] theorem read_sync : d.sync.read name = d.read name := by
  unfold read
  rw [file?_sync]
  cases d.file? name <;> rfl

theorem file?_eq_none : d.file? name = none ↔ name ∉ d.names := by
  simp only [file?, names, List.lookup_eq_none_iff, List.mem_map, not_exists, not_and]
  constructor
  · rintro h p hp rfl
    simpa using h p hp
  · intro h p hp
    simpa using fun heq => h p hp heq.symm

theorem file?_isSome : (d.file? name).isSome ↔ name ∈ d.names := by
  rw [Option.isSome_iff_ne_none, ne_eq, file?_eq_none, not_not]

theorem mem_names_of_read (h : d.read name = some value) : name ∈ d.names := by
  rw [← file?_isSome]
  unfold read at h
  cases hf : d.file? name with
  | none => simp [hf] at h
  | some f => rfl

theorem read_of_file? (h : d.file? name = some f) (hl : f.linked = false) :
    d.read name = some f.value := by
  simp [read, h, hl]

/-- A durable file with one name, which nothing can take away. -/
def Settled (d : Directory) (name : RecordName) (value : Json) : Prop :=
  ∃ f, d.file? name = some f ∧ f.value = value ∧ f.linked = false ∧ f.durable = true

theorem Settled.read (h : d.Settled name value) : d.read name = some value := by
  obtain ⟨f, hf, rfl, hl, -⟩ := h
  exact read_of_file? hf hl

/-- The settled files of `d` are settled in `d'`. -/
def Keeps (d d' : Directory) : Prop := ∀ name value, d.Settled name value → d'.Settled name value

theorem Keeps.refl : d.Keeps d := fun _ _ h => h

theorem Keeps.trans {d₁ d₂ d₃ : Directory} (h : d₁.Keeps d₂) (h' : d₂.Keeps d₃) : d₁.Keeps d₃ :=
  fun name value hs => h' name value (h name value hs)

theorem keeps_sync : d.Keeps d.sync := by
  rintro name value ⟨f, hf, hv, hl, hd⟩
  exact ⟨{ f with durable := true }, by rw [file?_sync, hf]; rfl, hv, hl, rfl⟩

theorem keeps_addTemporary : d.Keeps d.addTemporary := Keeps.refl

theorem file?_link (hn : name ∉ d.names) : (d.link name value).file? other =
    if other = name then some ⟨value, true, false⟩ else d.file? other := by
  unfold link file?
  rw [List.lookup_append]
  split_ifs with h
  · subst h
    rw [show d.files.lookup other = none from file?_eq_none.2 hn]
    simp
  · simp [List.lookup, beq_eq_false_iff_ne.2 h]

theorem keeps_link (hn : name ∉ d.names) : d.Keeps (d.link name value) := by
  rintro other v ⟨f, hf, hrest⟩
  have hne : other ≠ name := by
    rintro rfl
    rw [file?_eq_none.2 hn] at hf
    cases hf
  exact ⟨f, by rw [file?_link hn, if_neg hne, hf], hrest⟩

theorem file?_unlink : (d.unlink name).file? other =
    (d.file? other).map fun f => if other = name then { f with linked := false } else f :=
  lookup_map (g := fun other f => if other = name then { f with linked := false } else f)

theorem keeps_unlink : d.Keeps (d.unlink name) := by
  rintro other v ⟨f, hf, hv, hl, hd⟩
  refine ⟨_, by rw [file?_unlink, hf]; rfl, ?_⟩
  split_ifs <;> exact ⟨hv, by simp [hl], hd⟩

theorem remains_name {kept : RecordName → Option Bool} {p q : RecordName × File}
    (h : remains kept p = some q) : q.1 = p.1 := by
  unfold remains at h
  split_ifs at h
  · rw [← Option.some.inj h]
  · obtain ⟨_, -, rfl⟩ := Option.map_eq_some_iff.1 h
    rfl

theorem lookup_remains {kept : RecordName → Option Bool} {l : List (RecordName × File)}
    (h : l.lookup name = some f) (hd : f.durable = true) :
    (l.filterMap (remains kept)).lookup name = some f := by
  induction l with
  | nil => cases h
  | cons p l ih =>
    obtain ⟨n, g⟩ := p
    by_cases hn : name = n
    · subst hn
      obtain rfl : g = f := by simpa [List.lookup] using h
      simp [remains, hd]
    · have hne : (name == n) = false := beq_eq_false_iff_ne.2 hn
      simp only [List.lookup, hne] at h
      rw [List.filterMap_cons]
      cases hq : remains kept (n, g) with
      | none => exact ih h
      | some q =>
        have hq1 : (name == q.1) = false := by rw [remains_name hq]; exact hne
        simp only [List.lookup, hq1]
        exact ih h

/-- **Settled files survive a loss of power.** -/
theorem keeps_losePower {kept : RecordName → Option Bool} : d.Keeps (d.losePower kept) := by
  rintro other v ⟨f, hf, hv, hl, hd⟩
  exact ⟨f, lookup_remains hf hd, hv, hl, hd⟩

/-- The directory after a publication that returns. -/
def published (d : Directory) (name : RecordName) (value : Json) : Directory :=
  ((d.addTemporary.link name value).unlink name).sync

theorem file?_published (hn : name ∉ d.names) : (d.published name value).file? other =
    if other = name then some ⟨value, false, true⟩
    else (d.file? other).map ({ · with durable := true }) := by
  have hn' : name ∉ d.addTemporary.names := hn
  unfold published
  rw [file?_sync, file?_unlink, file?_link hn']
  split_ifs with h
  · rfl
  · cases hf : d.addTemporary.file? other with
    | none =>
      have hf' : d.file? other = none := hf
      simp [hf']
    | some f =>
      have hf' : d.file? other = some f := hf
      simp [hf']

theorem names_published : (d.published name value).names = d.names ++ [name] := by
  unfold published unlink
  rw [names_sync]
  simp [names, mapFiles, link, addTemporary, Function.comp_def]

theorem count_published : (d.published name value).count = d.count + 1 := by
  unfold published unlink
  rw [count_sync]
  simp only [count, mapFiles, link, addTemporary, List.length_map, List.length_append,
    List.length_singleton]
  omega

theorem keeps_published (hn : name ∉ d.names) : d.Keeps (d.published name value) :=
  ((keeps_addTemporary.trans (keeps_link (d := d.addTemporary) hn)).trans keeps_unlink).trans keeps_sync

theorem read_published (hn : name ∉ d.names) : (d.published name value).read other =
    if other = name then some value else d.read other := by
  unfold read
  rw [file?_published hn]
  split_ifs with h
  · rfl
  · cases d.file? other <;> rfl

/-- Every entry is durable. -/
def AllDurable (d : Directory) : Prop := ∀ name f, d.file? name = some f → f.durable = true

theorem allDurable_sync : d.sync.AllDurable := by
  intro name f hf
  rw [file?_sync] at hf
  obtain ⟨g, -, rfl⟩ := Option.map_eq_some_iff.1 hf
  rfl

theorem AllDurable.settled (h : d.AllDurable) (hr : d.read name = some value) :
    d.Settled name value := by
  unfold read at hr
  obtain ⟨f, hf, hl⟩ := Option.bind_eq_some_iff.1 hr
  split_ifs at hl with hlinked
  exact ⟨f, hf, Option.some.inj hl, by simpa using hlinked, h name f hf⟩

end Directory

end PaPlatform.Prepared
