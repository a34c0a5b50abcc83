import Repoint.FileSystem.Location
import Repoint.Sorting

/-!
# File systems

A finite map from locations to entries. Of a file's permission bits only the owner's matter. A
directory's are kept and copied but never looked at: directories that cannot be listed, searched or
written to are left out, with their errors.
-/

namespace Repoint

/-! ## Entries -/

structure File where
  data : Bytes
  /-- The permission bits, with set-user-id, set-group-id and sticky. -/
  mode : Nat
  /-- The number that all names of the file share, when it has more than one (hard links). Writing
  through one of them writes all, and replacing one leaves the others alone. -/
  twin : Option Nat := none
  deriving DecidableEq

/-- The permission bit, a power of two, is set. -/
def hasBit (mode bit : Nat) : Bool := mode / bit % 2 = 1

def File.isReadable (f : File) : Bool := hasBit f.mode 0o400

def File.isWritable (f : File) : Bool := hasBit f.mode 0o200

inductive Entry where
  | file (f : File)
  | directory (mode : Nat)
  | link (target : Bytes)
  | pipe (mode : Nat)
  deriving DecidableEq

def Entry.isDirectory : Entry → Bool
  | .directory _ => true
  | _ => false

@[simp]
theorem Entry.isDirectory_directory (mode : Nat) : (directory mode).isDirectory = true := rfl

@[simp]
theorem Entry.isDirectory_file (f : File) : (file f).isDirectory = false := rfl

@[simp]
theorem Entry.isDirectory_link (target : Bytes) : (link target).isDirectory = false := rfl

@[simp]
theorem Entry.isDirectory_pipe (mode : Nat) : (pipe mode).isDirectory = false := rfl

def Entry.mapFile (change : File → File) : Entry → Entry
  | .file f => .file (change f)
  | e => e

/-! ## The map -/

structure FileSystem where
  /-- All entries but the root, which is always a directory. -/
  entries : List (Location × Entry)
  rootMode : Nat
  /-- Where relative paths start. -/
  workingDirectory : Location
  /-- A location holds one entry. -/
  unique : (entries.map (·.1)).Nodup
  /-- Every entry lies in a directory. -/
  nested : ∀ p ∈ entries, p.1.parent = .root ∨ ∃ mode, (p.1.parent, .directory mode) ∈ entries

namespace FileSystem

def get? (fs : FileSystem) (location : Location) : Option Entry :=
  if location = .root then some (.directory fs.rootMode) else fs.entries.lookup location

def IsDirectory (fs : FileSystem) (location : Location) : Prop :=
  ∃ mode, fs.get? location = some (.directory mode)

theorem isDirectory_iff {fs : FileSystem} {location : Location} :
    fs.IsDirectory location ↔ (fs.get? location).any (·.isDirectory) = true := by
  unfold IsDirectory
  cases fs.get? location with
  | none => simp
  | some e => cases e <;> simp

instance (fs : FileSystem) (location : Location) : Decidable (fs.IsDirectory location) :=
  decidable_of_iff' _ isDirectory_iff

theorem mem_of_lookup {entries : List (Location × Entry)} {location : Location} {e : Entry}
    (h : entries.lookup location = some e) : (location, e) ∈ entries := by
  induction entries with
  | nil => simp at h
  | cons first rest ih =>
    obtain ⟨l, x⟩ := first
    rw [List.lookup_cons] at h
    split at h
    · next heq => simp_all
    · exact List.mem_cons_of_mem _ (ih h)

theorem lookup_of_mem {entries : List (Location × Entry)} {location : Location} {e : Entry}
    (hunique : (entries.map (·.1)).Nodup) (h : (location, e) ∈ entries) :
    entries.lookup location = some e := by
  induction entries with
  | nil => cases h
  | cons first rest ih =>
    obtain ⟨l, x⟩ := first
    rw [List.map_cons, List.nodup_cons] at hunique
    rw [List.lookup_cons]
    rcases List.mem_cons.mp h with heq | hrest
    · simp_all
    · have hne : location ≠ l := by
        rintro rfl
        exact hunique.1 (List.mem_map.mpr ⟨_, hrest, rfl⟩)
      rw [beq_false_of_ne hne]
      exact ih hunique.2 hrest

theorem mem_of_get? {fs : FileSystem} {location : Location} {e : Entry}
    (hroot : location ≠ .root) (h : fs.get? location = some e) : (location, e) ∈ fs.entries := by
  rw [get?, if_neg hroot] at h
  exact mem_of_lookup h

@[simp]
theorem get?_root (fs : FileSystem) : fs.get? .root = some (.directory fs.rootMode) := rfl

theorem isDirectory_root (fs : FileSystem) : fs.IsDirectory .root := ⟨_, fs.get?_root⟩

theorem isDirectory_of_mem {fs : FileSystem} {location : Location} {mode : Nat}
    (h : (location, .directory mode) ∈ fs.entries) : fs.IsDirectory location := by
  by_cases hroot : location = .root
  · exact hroot ▸ fs.isDirectory_root
  · refine ⟨mode, ?_⟩
    rw [get?, if_neg hroot, lookup_of_mem fs.unique h]

theorem isDirectory_parent {fs : FileSystem} {location : Location} {e : Entry}
    (h : fs.get? location = some e) : fs.IsDirectory location.parent := by
  by_cases hroot : location = .root
  · subst hroot
    exact fs.isDirectory_root
  · rcases fs.nested _ (mem_of_get? hroot h) with hparent | ⟨mode, hparent⟩
    · exact hparent ▸ fs.isDirectory_root
    · exact isDirectory_of_mem hparent

theorem IsDirectory.parent {fs : FileSystem} {location : Location}
    (h : fs.IsDirectory location) : fs.IsDirectory location.parent := by
  obtain ⟨mode, hget⟩ := h
  exact isDirectory_parent hget

theorem IsDirectory.ne_link {fs : FileSystem} {location : Location} (h : fs.IsDirectory location)
    (text : Bytes) : fs.get? location ≠ some (.link text) := by
  obtain ⟨mode, hget⟩ := h
  simp [hget]

/-- The names in a directory, in byte order. -/
def names (fs : FileSystem) (directory : Location) : List Name :=
  sortBy Name.le <| fs.entries.filterMap fun (location, _) =>
    if location.isIn directory then location.name? else none

/-! ## Changing entries -/

/-- Another entry can come to the location: it lies in a directory, and is not one itself. -/
def hasPlace (fs : FileSystem) (location : Location) : Prop :=
  ¬ fs.IsDirectory location ∧ fs.IsDirectory location.parent

instance (fs : FileSystem) (location : Location) : Decidable (fs.hasPlace location) :=
  inferInstanceAs (Decidable (_ ∧ _))

/-- Puts an entry at a location, in the place of the one that is there. Without a place for it, nothing
happens. -/
def put (fs : FileSystem) (location : Location) (e : Entry) : FileSystem :=
  if hplace : fs.hasPlace location then
    if hmem : location ∈ fs.entries.map (·.1) then
      { fs with
        entries := fs.entries.map fun (l, x) => (l, if l = location then e else x)
        unique := by
          rw [List.map_map]
          exact fs.unique
        nested := by
          intro p hp
          obtain ⟨⟨l, x⟩, hx, rfl⟩ := List.mem_map.mp hp
          rcases fs.nested _ hx with hparent | ⟨mode, hparent⟩
          · exact .inl hparent
          · have hne : l.parent ≠ location := fun h => hplace.1 (h ▸ isDirectory_of_mem hparent)
            exact .inr ⟨mode, List.mem_map.mpr ⟨_, hparent, by simp [hne]⟩⟩ }
    else
      { fs with
        entries := fs.entries ++ [(location, e)]
        unique := by
          rw [List.map_append, List.nodup_append]
          refine ⟨fs.unique, by simp, ?_⟩
          intro a ha b hb hab
          simp only [List.map_cons, List.map_nil, List.mem_singleton] at hb
          exact hmem (hb ▸ hab ▸ ha)
        nested := by
          intro p hp
          rcases List.mem_append.mp hp with hp | hp
          · exact (fs.nested p hp).imp_right fun ⟨mode, h⟩ => ⟨mode, List.mem_append_left _ h⟩
          · rw [List.mem_singleton] at hp
            subst hp
            by_cases hroot : location.parent = .root
            · exact .inl hroot
            · obtain ⟨mode, hparent⟩ := hplace.2
              exact .inr ⟨mode, List.mem_append_left _ (mem_of_get? hroot hparent)⟩ }
  else fs

/-- Takes an entry away. A directory stays. -/
def erase (fs : FileSystem) (location : Location) : FileSystem :=
  if hdir : fs.IsDirectory location then fs
  else
    { fs with
      entries := fs.entries.filter fun (l, _) => l ≠ location
      unique := List.Nodup.sublist (List.filter_sublist.map _) fs.unique
      nested := by
        intro p hp
        rcases fs.nested p (List.mem_filter.mp hp).1 with hparent | ⟨mode, hparent⟩
        · exact .inl hparent
        · have hne : p.1.parent ≠ location := fun h => hdir (h ▸ isDirectory_of_mem hparent)
          exact .inr ⟨mode, List.mem_filter.mpr ⟨hparent, by simpa using hne⟩⟩ }

/-- Changes files in place. -/
def mapFiles (fs : FileSystem) (change : Location → File → File) : FileSystem :=
  { fs with
    entries := fs.entries.map fun (l, x) => (l, x.mapFile (change l))
    unique := by
      rw [List.map_map]
      exact fs.unique
    nested := by
      intro p hp
      obtain ⟨⟨l, x⟩, hx, rfl⟩ := List.mem_map.mp hp
      exact (fs.nested _ hx).imp_right fun ⟨mode, h⟩ => ⟨mode, List.mem_map.mpr ⟨_, h, rfl⟩⟩ }

/-! ### What is found afterwards -/

theorem lookup_map_self {entries : List (Location × Entry)} {location : Location} (e : Entry)
    (h : location ∈ entries.map (·.1)) :
    (entries.map fun (l, x) => (l, if l = location then e else x)).lookup location = some e := by
  induction entries with
  | nil => simp at h
  | cons first rest ih =>
    obtain ⟨l, x⟩ := first
    by_cases heq : l = location
    · simp [heq]
    · have hrest : location ∈ rest.map (·.1) := by
        rcases List.mem_cons.mp h with h | h
        · exact absurd h.symm heq
        · exact h
      rw [List.map_cons, List.lookup_cons, beq_false_of_ne (fun h => heq h.symm)]
      exact ih hrest

theorem lookup_map_of_ne {entries : List (Location × Entry)} {location other : Location}
    (e : Entry) (h : other ≠ location) :
    (entries.map fun (l, x) => (l, if l = location then e else x)).lookup other =
      entries.lookup other := by
  induction entries with
  | nil => rfl
  | cons first rest ih =>
    obtain ⟨l, x⟩ := first
    rw [List.map_cons, List.lookup_cons, List.lookup_cons, ih]
    by_cases heq : other = l
    · have : l ≠ location := heq ▸ h
      simp [heq, this]
    · simp [beq_false_of_ne heq]

theorem lookup_eq_none {entries : List (Location × Entry)} {location : Location}
    (h : location ∉ entries.map (·.1)) : entries.lookup location = none := by
  cases hl : entries.lookup location with
  | none => rfl
  | some e => exact absurd (List.mem_map.mpr ⟨_, mem_of_lookup hl, rfl⟩) h

theorem get?_put_self {fs : FileSystem} {location : Location} (e : Entry)
    (h : fs.hasPlace location) : (fs.put location e).get? location = some e := by
  have hroot : location ≠ .root := fun hroot => h.1 (hroot ▸ fs.isDirectory_root)
  unfold put get?
  rw [dif_pos h, if_neg hroot]
  split
  · next hmem => exact lookup_map_self e hmem
  · next hmem => simp [List.lookup_append, lookup_eq_none hmem]

@[simp]
theorem rootMode_put {fs : FileSystem} {location : Location} {e : Entry} :
    (fs.put location e).rootMode = fs.rootMode := by
  unfold put
  split
  · split <;> rfl
  · rfl

theorem get?_put_of_ne (fs : FileSystem) {location other : Location} (e : Entry)
    (h : other ≠ location) : (fs.put location e).get? other = fs.get? other := by
  by_cases hroot : other = .root
  · rw [hroot, get?_root, get?_root, rootMode_put]
  · rw [get?, get?, if_neg hroot, if_neg hroot, put]
    split
    · split
      · exact lookup_map_of_ne e h
      · simp [List.lookup_append, List.lookup_cons, beq_false_of_ne h]
    · rfl

/-- The two entries are names of one file. -/
def isTwin (f g : File) : Bool := f.twin.isSome && f.twin = g.twin

/-- Changes a file, through all its names. -/
def changeFile (fs : FileSystem) (location : Location) (change : File → File) : FileSystem :=
  match fs.get? location with
  | some (.file f) => fs.mapFiles fun l g => if l = location ∨ isTwin f g then change g else g
  | _ => fs

/-! ## Measures of a file system -/

def directories (fs : FileSystem) : List Location :=
  .root :: (fs.entries.filter (·.2.isDirectory)).map (·.1)

theorem mem_directories {fs : FileSystem} {location : Location}
    (h : fs.IsDirectory location) : location ∈ fs.directories := by
  obtain ⟨mode, hget⟩ := h
  by_cases hroot : location = .root
  · simp [directories, hroot]
  · refine List.mem_cons_of_mem _ (List.mem_map.mpr ⟨(location, .directory mode), ?_, rfl⟩)
    exact List.mem_filter.mpr ⟨mem_of_get? hroot hget, rfl⟩

/-- No entry lies deeper than this. -/
def height (fs : FileSystem) : Nat := fs.entries.foldr (fun p deepest => max p.1.depth deepest) 0

theorem depth_le_height {fs : FileSystem} {location : Location} {e : Entry}
    (h : (location, e) ∈ fs.entries) : location.depth ≤ fs.height := by
  unfold height
  generalize fs.entries = entries at h
  induction entries with
  | nil => simp at h
  | cons first rest ih =>
    rw [List.foldr_cons]
    rcases List.mem_cons.mp h with rfl | h
    · exact Nat.le_max_left _ _
    · exact Nat.le_trans (ih h) (Nat.le_max_right _ _)

theorem depth_le_height_of_get? {fs : FileSystem} {location : Location} {e : Entry}
    (h : fs.get? location = some e) : location.depth ≤ fs.height := by
  by_cases hroot : location = .root
  · rw [hroot]
    exact Nat.zero_le _
  · exact depth_le_height (mem_of_get? hroot h)

end FileSystem

end Repoint
