import Mathlib.Data.List.Sort
import Repoint.FileSystem.Operation
import Repoint.Proofs.FileSystem.Naming

/-!
# What a change leaves alone
-/

namespace Repoint.FileSystem

variable {fs fs' : FileSystem} {location directory temp : Location} {e : Entry} {f g : File}
  {path : Path}

theorem eq_of_entries (hentries : fs.entries = fs'.entries) (hroot : fs.rootMode = fs'.rootMode)
    (hdirectory : fs.workingDirectory = fs'.workingDirectory) : fs = fs' := by
  obtain ⟨entries, rootMode, workingDirectory, hunique, hnested⟩ := fs
  obtain ⟨entries', rootMode', workingDirectory', hunique', hnested'⟩ := fs'
  subst hentries
  subst hroot
  subst hdirectory
  rfl

@[simp]
theorem workingDirectory_put : (fs.put location e).workingDirectory = fs.workingDirectory := by
  unfold put
  split
  · split <;> rfl
  · rfl

theorem isSome_get?_iff (hroot : location ≠ .root) :
    (fs.get? location).isSome ↔ location ∈ fs.entries.map (·.1) := by
  constructor
  · intro h
    obtain ⟨e, he⟩ := Option.isSome_iff_exists.mp h
    exact List.mem_map.mpr ⟨_, mem_of_get? hroot he, rfl⟩
  · intro h
    obtain ⟨⟨l, x⟩, hx, rfl⟩ := List.mem_map.mp h
    rw [get?, if_neg hroot, lookup_of_mem fs.unique hx]
    rfl

/-! ## An entry in the place of another -/

theorem entries_put (hplace : fs.hasPlace location) (h : (fs.get? location).isSome) (e : Entry) :
    (fs.put location e).entries =
      fs.entries.map fun (l, x) => (l, if l = location then e else x) := by
  have hroot : location ≠ .root := fun hroot => hplace.1 (hroot ▸ fs.isDirectory_root)
  rw [put, dif_pos hplace, dif_pos ((isSome_get?_iff hroot).mp h)]

theorem isDirectory_put_file {place : Location} (hplace : fs.hasPlace location) (g : File) :
    (fs.put location (.file g)).IsDirectory place ↔ fs.IsDirectory place := by
  by_cases heq : place = location
  · subst heq
    have hafter : ¬ (fs.put place (.file g)).IsDirectory place := by
      simp [isDirectory_iff, get?_put_self _ hplace]
    exact iff_of_false hafter hplace.1
  · rw [IsDirectory, IsDirectory, get?_put_of_ne _ _ heq]

theorem hasPlace_put_file {place : Location} (hplace : fs.hasPlace location) (g : File)
    (h : fs.hasPlace place) : (fs.put location (.file g)).hasPlace place :=
  ⟨mt (isDirectory_put_file hplace g).mp h.1, (isDirectory_put_file hplace g).mpr h.2⟩

theorem isSome_get?_put {place : Location} (h : (fs.get? place).isSome) :
    ((fs.put location e).get? place).isSome := by
  by_cases heq : place = location
  · subst heq
    by_cases hplace : fs.hasPlace place
    · simp [get?_put_self _ hplace]
    · rw [put, dif_neg hplace]
      exact h
  · rwa [get?_put_of_ne _ _ heq]

theorem put_put (hplace : fs.hasPlace location) (h : (fs.get? location).isSome) (g : File)
    (e : Entry) : (fs.put location (.file g)).put location e = fs.put location e := by
  apply eq_of_entries
  · rw [entries_put (hasPlace_put_file hplace g hplace) (isSome_get?_put h), entries_put hplace h,
      entries_put hplace h, List.map_map]
    apply List.map_congr_left
    intro p _
    by_cases heq : p.1 = location <;> simp [heq]
  · simp only [rootMode_put]
  · simp only [workingDirectory_put]

theorem put_comm {place : Location} (hne : place ≠ location) (hlocation : fs.hasPlace location)
    (hplace : fs.hasPlace place) (h : (fs.get? location).isSome) (h' : (fs.get? place).isSome)
    (g g' : File) :
    (fs.put location (.file g)).put place (.file g') =
      (fs.put place (.file g')).put location (.file g) := by
  apply eq_of_entries
  · rw [entries_put (hasPlace_put_file hlocation g hplace) (isSome_get?_put h'),
      entries_put hlocation h, entries_put (hasPlace_put_file hplace g' hlocation) (isSome_get?_put h),
      entries_put hplace h', List.map_map, List.map_map]
    apply List.map_congr_left
    intro p _
    by_cases heq : p.1 = location
    · simp [heq, hne.symm]
    · simp [heq]
  · simp only [rootMode_put]
  · simp only [workingDirectory_put]

/-! ## The same locations -/

/-- The same locations hold entries, in the same order. -/
structure SameLocations (fs fs' : FileSystem) : Prop where
  locations : fs'.entries.map (·.1) = fs.entries.map (·.1)
  rootMode : fs'.rootMode = fs.rootMode
  workingDirectory : fs'.workingDirectory = fs.workingDirectory
  /-- An entry at the root is never looked at, so this cannot be told from what is found there. -/
  atRoot : fs'.entries.lookup .root = fs.entries.lookup .root

theorem SameLocations.refl (fs : FileSystem) : fs.SameLocations fs := ⟨rfl, rfl, rfl, rfl⟩

theorem SameLocations.put (h : fs.SameLocations fs') (hplace : fs'.hasPlace location)
    (hsome : (fs'.get? location).isSome) (e : Entry) : fs.SameLocations (fs'.put location e) := by
  have hroot : Location.root ≠ location := by
    rintro rfl
    exact hplace.1 fs'.isDirectory_root
  refine ⟨?_, rootMode_put.trans h.rootMode, workingDirectory_put.trans h.workingDirectory, ?_⟩
  · rw [entries_put hplace hsome, List.map_map, ← h.locations]
    rfl
  · rw [entries_put hplace hsome, lookup_map_of_ne e hroot, h.atRoot]

theorem filterMap_lookup {entries : List (Location × Entry)} (h : (entries.map (·.1)).Nodup) :
    (entries.map (·.1)).filterMap (fun l => (entries.lookup l).map fun e => (l, e)) = entries := by
  rw [List.filterMap_map]
  have hsome : ∀ p ∈ entries,
      ((fun l => (entries.lookup l).map fun e => (l, e)) ∘ fun p => p.1) p = some p := by
    rintro ⟨l, e⟩ hp
    simp [lookup_of_mem h hp]
  rw [List.filterMap_congr hsome, List.filterMap_some]

theorem SameLocations.eq_of_get? {base : FileSystem} (h : base.SameLocations fs)
    (h' : base.SameLocations fs') (hget : ∀ location, fs.get? location = fs'.get? location) :
    fs = fs' := by
  have hlookup : ∀ location, fs.entries.lookup location = fs'.entries.lookup location := by
    intro location
    by_cases hroot : location = .root
    · rw [hroot, h.atRoot, h'.atRoot]
    · have heq := hget location
      rwa [get?, get?, if_neg hroot, if_neg hroot] at heq
  apply eq_of_entries
  · rw [← filterMap_lookup fs.unique, ← filterMap_lookup fs'.unique, h.locations, h'.locations]
    simp only [hlookup]
  · rw [h.rootMode, h'.rootMode]
  · rw [h.workingDirectory, h'.workingDirectory]

/-! ## Names in a directory -/

/-- The model's own sorting, which can be computed with, is the library's. -/
theorem sortBy_eq {α : Type} (le : α → α → Bool) (l : List α) :
    sortBy le l = l.insertionSort (fun a b => le a b) := by
  have hinsert : ∀ a (l : List α), insertBy le a l = l.orderedInsert (fun a b => le a b) a := by
    intro a l
    induction l with
    | nil => rfl
    | cons b rest ih => rw [insertBy, List.orderedInsert_cons, ih]
  induction l with
  | nil => rfl
  | cons a rest ih => rw [sortBy, List.insertionSort_cons, ih, hinsert]

theorem mem_names {name : Name} :
    name ∈ fs.names directory ↔ (fs.get? (directory.child name)).isSome := by
  rw [names, sortBy_eq, List.mem_insertionSort, List.mem_filterMap, isSome_get?_iff (directory.child_ne_root name),
    List.mem_map]
  constructor
  · rintro ⟨⟨l, x⟩, hx, hname⟩
    dsimp only at hname
    split at hname
    · next hin =>
      obtain ⟨other, rfl⟩ := Location.isIn_iff.mp hin
      cases hname
      exact ⟨_, hx, rfl⟩
    · simp at hname
  · rintro ⟨⟨l, x⟩, hx, rfl⟩
    refine ⟨_, hx, ?_⟩
    dsimp only
    rw [if_pos (Location.isIn_iff.mpr ⟨name, rfl⟩)]
    rfl

theorem names_put (h : (fs.get? location).isSome) :
    (fs.put location e).names directory = fs.names directory := by
  unfold put
  split
  · next hplace =>
    have hroot : location ≠ .root := fun hroot => hplace.1 (hroot ▸ fs.isDirectory_root)
    rw [dif_pos ((isSome_get?_iff hroot).mp h)]
    simp only [names, List.filterMap_map]
    rfl
  · rfl

/-! ## A file at a free location -/

/-- The location is free, and lies in a directory. -/
structure IsFree (fs : FileSystem) (location : Location) : Prop where
  free : fs.get? location = none
  inside : fs.IsDirectory location.parent

theorem IsFree.hasPlace (h : fs.IsFree temp) : fs.hasPlace temp :=
  ⟨by simp [isDirectory_iff, h.free], h.inside⟩

theorem IsFree.ne_root (h : fs.IsFree temp) : temp ≠ .root := by
  rintro rfl
  simpa using h.free

theorem IsFree.not_mem (h : fs.IsFree temp) : temp ∉ fs.entries.map (·.1) := by
  rw [← isSome_get?_iff h.ne_root, h.free]
  simp

theorem IsFree.entries_put (h : fs.IsFree temp) (e : Entry) :
    (fs.put temp e).entries = fs.entries ++ [(temp, e)] := by
  rw [put, dif_pos h.hasPlace, dif_neg h.not_mem]

theorem IsFree.get?_put (h : fs.IsFree temp) (e : Entry) : (fs.put temp e).get? temp = some e :=
  get?_put_self e h.hasPlace

theorem IsFree.erase_put (h : fs.IsFree temp) (f : File) : (fs.put temp (.file f)).erase temp = fs := by
  have hkeep : ∀ p ∈ fs.entries, decide (p.1 ≠ temp) = true := by
    intro p hp
    rw [decide_eq_true_iff]
    rintro rfl
    exact h.not_mem (List.mem_map.mpr ⟨p, hp, rfl⟩)
  rw [erase, dif_neg (by simp [isDirectory_iff, h.get?_put])]
  apply eq_of_entries
  · change (fs.put temp (.file f)).entries.filter _ = _
    rw [h.entries_put, List.filter_append, List.filter_eq_self.mpr hkeep]
    simp
  · simp
  · simp

theorem IsFree.changeFile_put (h : fs.IsFree temp) (hf : f.twin = none) (change : File → File) :
    (fs.put temp (.file f)).changeFile temp change = fs.put temp (.file (change f)) := by
  rw [changeFile, h.get?_put]
  apply eq_of_entries
  · have hkeep : ∀ p ∈ fs.entries,
        (p.1, p.2.mapFile fun g => if p.1 = temp ∨ isTwin f g then change g else g) = id p := by
      rintro ⟨l, x⟩ hp
      have hne : l ≠ temp := by
        rintro rfl
        exact h.not_mem (List.mem_map.mpr ⟨_, hp, rfl⟩)
      cases x <;> simp [Entry.mapFile, hne, isTwin, hf]
    change (fs.put temp (.file f)).entries.map _ = _
    rw [h.entries_put, h.entries_put, List.map_append, List.map_congr_left hkeep, List.map_id]
    simp [Entry.mapFile]
  · change (fs.put temp (.file f)).rootMode = _
    simp
  · change (fs.put temp (.file f)).workingDirectory = _
    simp

theorem exists_of_tempLocation (h : fs.tempLocation path = .ok temp) :
    ∃ directory name, temp = directory.child name ∧ (∃ mode, fs.stat path = .ok (directory, .directory mode)) ∧
      name ∉ fs.names directory := by
  unfold tempLocation at h
  split at h
  · simp at h
  · obtain ⟨⟨directory, x⟩, hstat, h⟩ := bind_eq_ok.mp h
    split at h
    · next place heq =>
      cases heq
      split at h
      · next name hname =>
        cases h
        exact ⟨directory, name, rfl, ⟨_, hstat⟩, freeName?_not_mem hname⟩
      · simp at h
    · simp at h

theorem isFree_of_tempLocation (h : fs.tempLocation path = .ok temp) : fs.IsFree temp := by
  obtain ⟨directory, name, rfl, ⟨mode, hstat⟩, hnot⟩ := exists_of_tempLocation h
  constructor
  · rw [mem_names] at hnot
    simpa using hnot
  · rw [Location.parent_child]
    exact ⟨mode, get?_of_stat hstat⟩

/-! ## More entries than before -/

/-- Everything that is there is still there. -/
def Extends (fs fs' : FileSystem) : Prop :=
  fs'.workingDirectory = fs.workingDirectory ∧
    ∀ location e, fs.get? location = some e → fs'.get? location = some e

theorem IsFree.extends_put (h : fs.IsFree temp) (e : Entry) : fs.Extends (fs.put temp e) := by
  refine ⟨workingDirectory_put, ?_⟩
  intro location x hget
  rw [get?_put_of_ne, hget]
  rintro rfl
  simp [h.free] at hget

theorem Extends.isDirectory (hext : fs.Extends fs') (h : fs.IsDirectory location) :
    fs'.IsDirectory location := by
  obtain ⟨mode, hget⟩ := h
  exact ⟨mode, hext.2 _ _ hget⟩

theorem Extends.follow {last : LastName} {n : Nat} {steps : List PathStep} (hext : fs.Extends fs')
    (hlast : last ≠ .creation) (h : fs.follow last n directory steps = .ok location) :
    fs'.follow last n directory steps = .ok location := by
  induction n, directory, steps using stepInduction fs with
  | arrived n place =>
    rw [follow_nil] at h ⊢
    exact h
  | blocked n place step rest hdir =>
    rw [follow_of_not_directory hdir] at h
    cases h
  | stay n place rest hdir ih =>
    rw [follow_stay hdir] at h
    rw [follow_stay (hext.isDirectory hdir)]
    exact ih h
  | up n place rest hdir ih =>
    rw [follow_up hdir] at h
    rw [follow_up (hext.isDirectory hdir)]
    exact ih h
  | tooLong n place rest hdir =>
    rw [follow_tooLong hdir] at h
    cases h
  | missing n place name rest hdir hget =>
    rw [follow_missing hdir hget, if_neg (fun hend => hlast hend.2)] at h
    cases h
  | down n place name e rest hdir hget hlink ih =>
    rw [follow_down hdir hget hlink] at h
    rw [follow_down (hext.isDirectory hdir) (hext.2 _ _ hget) hlink]
    exact ih h
  | spent place name text rest hdir hget =>
    by_cases hend : last = .entry ∧ rest = []
    · obtain ⟨rfl, rfl⟩ := hend
      rw [follow_entry_last hdir hget] at h
      rw [follow_entry_last (hext.isDirectory hdir) (hext.2 _ _ hget)]
      exact h
    · rw [follow_link_zero hdir hget (fun h h' => hend ⟨h, h'⟩)] at h
      cases h
  | link n place name text rest hdir hget ih =>
    by_cases hend : last = .entry ∧ rest = []
    · obtain ⟨rfl, rfl⟩ := hend
      rw [follow_entry_last hdir hget] at h
      rw [follow_entry_last (hext.isDirectory hdir) (hext.2 _ _ hget)]
      exact h
    · have hrest : last = .entry → rest ≠ [] := fun h h' => hend ⟨h, h'⟩
      rw [follow_link hdir hget hrest] at h
      rw [follow_link (hext.isDirectory hdir) (hext.2 _ _ hget) hrest]
      split at h
      · cases h
      · next hne =>
        rw [if_neg hne]
        exact ih h

theorem Extends.resolve {last : LastName} (hext : fs.Extends fs') (hlast : last ≠ .creation)
    (h : fs.resolve last path = .ok location) : fs'.resolve last path = .ok location := by
  obtain ⟨⟨⟩, hcheck, hfollow⟩ := bind_eq_ok.mp h
  refine bind_eq_ok.mpr ⟨(), hcheck, ?_⟩
  rw [hext.1]
  exact hext.follow hlast hfollow

theorem Extends.stat (hext : fs.Extends fs') (h : fs.stat path = .ok (location, e)) :
    fs'.stat path = .ok (location, e) := by
  obtain ⟨hcheck, hto, hget⟩ := stat_eq_ok_iff.mp h
  have hresolve := hext.resolve (by simp) (resolve_target_eq_ok_iff.mpr ⟨hcheck, hto⟩)
  obtain ⟨-, hto'⟩ := resolve_target_eq_ok_iff.mp hresolve
  exact stat_eq_ok_iff.mpr ⟨hcheck, hto', hext.2 _ _ hget⟩

theorem Extends.lstat (hext : fs.Extends fs') (h : fs.lstat path = .ok (location, e)) :
    fs'.lstat path = .ok (location, e) := by
  obtain ⟨hresolve, hget⟩ := lstat_eq_ok_iff.mp h
  exact lstat_eq_ok_iff.mpr ⟨hext.resolve (by simp) hresolve, hext.2 _ _ hget⟩

end Repoint.FileSystem
