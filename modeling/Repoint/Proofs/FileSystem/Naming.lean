import Repoint.Proofs.FileSystem.Following

/-!
# What a path names

A path leads to a location, its last link followed, and names an entry of a directory, a link there not
followed.
-/

namespace Repoint

/-! ## Pieces -/

theorem splitOn_append_cons (separator : UInt8) (a b : Bytes) :
    splitOn separator (a ++ separator :: b) = splitOn separator a ++ splitOn separator b := by
  induction a with
  | nil => simp [splitOn]
  | cons x a ih =>
    rw [List.cons_append, splitOn, splitOn, ih]
    split
    · rfl
    · cases h : splitOn separator a with
      | nil => exact absurd h (splitOn_ne_nil separator a)
      | cons piece others => rfl

theorem splitOn_of_not_mem {separator : UInt8} {a : Bytes} (h : separator ∉ a) :
    splitOn separator a = [a] := by
  induction a with
  | nil => rfl
  | cons x a ih =>
    rw [List.mem_cons, not_or] at h
    rw [splitOn, if_neg (Ne.symm h.1), ih h.2]

theorem splitOn_eq (separator : UInt8) (text : Bytes) :
    splitOn separator text = List.splitOn separator text := by
  unfold List.splitOn
  induction text with
  | nil => rfl
  | cons b rest ih =>
    rw [splitOn, List.splitOnP_cons_eq_if_modifyHead, ih]
    simp only [beq_iff_eq]
    congr 1
    cases h : List.splitOnP (· == separator) rest with
    | nil => exact absurd h (List.splitOnP_ne_nil _ _)
    | cons piece others => rfl

theorem splitOn_joinWith {separator : UInt8} {pieces : List Bytes} (hne : pieces ≠ [])
    (h : ∀ piece ∈ pieces, separator ∉ piece) :
    splitOn separator (joinWith separator pieces) = pieces := by
  rw [splitOn_eq, joinWith, List.splitOn_intercalate separator h hne]

theorem joinWith_splitOn (separator : UInt8) (text : Bytes) :
    joinWith separator (splitOn separator text) = text := by
  rw [splitOn_eq, joinWith, List.intercalate_splitOn]

namespace PathStep

theorem ofPiece_name (name : Name) : ofPiece name.bytes = .down name := by
  obtain ⟨bytes, hname⟩ := name
  obtain ⟨hne, hdot, hdotDot, -⟩ := id hname
  simp [ofPiece, Path.isIdle, hne, hdot, hdotDot, Name.ofBytes?, hname]

theorem eq_bytes_of_ofPiece {piece : Bytes} {name : Name} (h : ofPiece piece = .down name) :
    piece = name.bytes := by
  unfold ofPiece Name.ofBytes? at h
  split at h
  · cases h
  · split at h
    · cases h
    · split at h
      · next heq =>
        split at heq
        · cases heq
          cases h
          rfl
        · cases heq
      · cases h

end PathStep

namespace Path

theorem steps_ne_nil (path : Path) : path.steps ≠ [] := by
  simp [steps, pieces, splitOn_ne_nil]

theorem pieces_join {directory : Path} {name : Bytes} (hdirectory : directory ≠ [])
    (hname : slash ∉ name) :
    ∃ before, (directory.join name).pieces = before ++ [name] ∧
      (directory.pieces = before ∨ directory.pieces = before ++ [[]]) := by
  by_cases hlast : directory.getLast? = some slash
  · obtain ⟨front, rfl⟩ := List.getLast?_eq_some_iff.mp hlast
    refine ⟨splitOn slash front, ?_, .inr (splitOn_append_cons slash front [])⟩
    rw [join, if_pos (.inr hlast), List.append_assoc, List.singleton_append, pieces,
      splitOn_append_cons, splitOn_of_not_mem hname]
  · refine ⟨directory.pieces, ?_, .inl rfl⟩
    rw [join, if_neg (not_or.mpr ⟨hdirectory, hlast⟩), pieces, splitOn_append_cons,
      splitOn_of_not_mem hname]
    rfl

theorem steps_join {directory : Path} (name : Name) (hdirectory : directory ≠ []) :
    ∃ before, (directory.join name.bytes).steps = before ++ [.down name] ∧
      (directory.steps = before ∨ directory.steps = before ++ [.stay]) := by
  obtain ⟨before, hjoin, hpieces⟩ := pieces_join hdirectory name.isName.2.2.2.1
  refine ⟨before.map PathStep.ofPiece, ?_, ?_⟩
  · rw [steps, hjoin, List.map_append, List.map_singleton, PathStep.ofPiece_name]
  · rcases hpieces with h | h
    · exact .inl (by rw [steps, h])
    · exact .inr (by rw [steps, h, List.map_append]; rfl)

theorem join_ne_nil {directory : Path} (name : Bytes) (hdirectory : directory ≠ []) :
    directory.join name ≠ [] := by
  unfold join
  split <;> simp [hdirectory]

theorem isAbsolute_join {directory : Path} (name : Bytes) (hdirectory : directory ≠ []) :
    (directory.join name).isAbsolute = directory.isAbsolute := by
  cases directory with
  | nil => exact absurd rfl hdirectory
  | cons b rest =>
    unfold join isAbsolute
    split <;> simp

theorem isIdle_name (name : Name) : isIdle name.bytes = false := by
  obtain ⟨hne, hdot, -⟩ := name.isName
  simp [isIdle, hne, hdot]

theorem pieces_of_steps {path : Path} {before : List PathStep} {name : Name}
    (h : path.steps = before ++ [.down name]) :
    ∃ front, path.pieces = front ++ [name.bytes] ∧ front.map PathStep.ofPiece = before := by
  obtain ⟨front, back, hpieces, hfront, hback⟩ := List.map_eq_append_iff.mp h
  obtain ⟨piece, rfl, hpiece⟩ := List.map_eq_singleton_iff.mp hback
  rw [PathStep.eq_bytes_of_ofPiece hpiece] at hpieces
  exact ⟨front, hpieces, hfront⟩

theorem fileName?_of_steps {path : Path} {before : List PathStep} {name : Name}
    (h : path.steps = before ++ [.down name]) : path.fileName? = some name.bytes := by
  obtain ⟨front, hpieces, -⟩ := pieces_of_steps h
  have hdotDot := name.isName.2.2.1
  cases front with
  | nil => simp [fileName?, trailing, hpieces, isIdle_name, hdotDot]
  | cons first front => simp [fileName?, trailing, hpieces, isIdle_name, hdotDot]

end Path

namespace FileSystem

variable {fs : FileSystem} {path directoryPath : Path} {location target directory : Location}
  {name : Name} {e : Entry} {k : Nat}

/-! ## Where a path leads -/

/-- A path leads to a location over no more links than are followed for one path. -/
def LeadsTo (fs : FileSystem) (path : Path) (location : Location) : Prop :=
  ∃ k ≤ maxLinks, fs.Leads k (startOf path fs.workingDirectory) path.steps location

theorem resolve_target_eq_ok_iff :
    fs.resolve .target path = .ok location ↔ checkPath path = .ok () ∧ fs.LeadsTo path location := by
  rw [LeadsTo, ← follow_target_eq_ok_iff, resolve, bind_eq_ok]
  constructor
  · rintro ⟨⟨⟩, hcheck, hfollow⟩
    exact ⟨hcheck, hfollow⟩
  · rintro ⟨hcheck, hfollow⟩
    exact ⟨(), hcheck, hfollow⟩

theorem stat_eq_ok_iff :
    fs.stat path = .ok (location, e) ↔
      checkPath path = .ok () ∧ fs.LeadsTo path location ∧ fs.get? location = some e := by
  rw [← and_assoc, ← resolve_target_eq_ok_iff, stat, bind_eq_ok]
  constructor
  · rintro ⟨place, hresolve, h⟩
    split at h
    · next hget =>
      cases h
      exact ⟨hresolve, hget⟩
    · cases h
  · rintro ⟨hresolve, hget⟩
    refine ⟨location, hresolve, ?_⟩
    rw [hget]
    rfl

theorem lstat_eq_ok_iff :
    fs.lstat path = .ok (target, e) ↔
      fs.resolve .entry path = .ok target ∧ fs.get? target = some e := by
  rw [lstat, bind_eq_ok]
  constructor
  · rintro ⟨place, hresolve, h⟩
    split at h
    · next hget =>
      cases h
      exact ⟨hresolve, hget⟩
    · cases h
  · rintro ⟨hresolve, hget⟩
    refine ⟨target, hresolve, ?_⟩
    rw [hget]
    rfl

theorem read_of_stat {f : File} (h : fs.stat path = .ok (location, .file f)) :
    fs.read path = if f.isReadable then .ok f.data else .error .denied := by
  rw [read, h]
  rfl

theorem read_eq_ok_iff {f : File} {data : Bytes} (h : fs.stat path = .ok (location, .file f)) :
    fs.read path = .ok data ↔ f.isReadable ∧ f.data = data := by
  rw [read_of_stat h]
  split <;> simp [*]

theorem LeadsTo.get?_target (h : fs.LeadsTo path location) :
    ∃ e, fs.get? location = some e ∧ e.isLink = false := by
  obtain ⟨k, -, hleads⟩ := h
  -- A path has a first step, and this step needs a directory to start from.
  cases hsteps : path.steps with
  | nil => exact absurd hsteps path.steps_ne_nil
  | cons step rest =>
    rw [hsteps] at hleads
    have hstart : fs.IsDirectory (startOf path fs.workingDirectory) := by
      cases hleads <;> assumption
    obtain ⟨mode, hget⟩ := hstart
    exact hleads.get?_target hget rfl

theorem LeadsTo.unique {location' : Location} (h : fs.LeadsTo path location)
    (h' : fs.LeadsTo path location') : location = location' := by
  obtain ⟨k, -, hleads⟩ := h
  obtain ⟨k', -, hleads'⟩ := h'
  exact hleads.unique hleads'

/-! ## The entry that a path names -/

/-- A path ends in a name, and leads to a directory before it. -/
def NamesEntry (fs : FileSystem) (path : Path) (directory : Location) (name : Name) : Prop :=
  ∃ k before, k ≤ maxLinks ∧ path.steps = before ++ [.down name] ∧
    fs.Leads k (startOf path fs.workingDirectory) before directory ∧
    fs.IsDirectory directory

theorem NamesEntry.lstat_eq_ok (h : fs.NamesEntry path directory name)
    (hcheck : checkPath path = .ok ()) (hget : fs.get? (directory.child name) = some e) :
    fs.lstat path = .ok (directory.child name, e) := by
  obtain ⟨k, before, hk, hsteps, hleads, hdir⟩ := h
  have hfollow := hleads.follow_append .entry [.down name] (by simp) maxLinks
  rw [if_pos hk, follow_entry_last hdir hget, ← hsteps] at hfollow
  exact lstat_eq_ok_iff.mpr ⟨bind_eq_ok.mpr ⟨(), hcheck, hfollow⟩, hget⟩

theorem NamesEntry.leadsTo (h : fs.NamesEntry path directory name)
    (hget : fs.get? (directory.child name) = some e) (hlink : e.isLink = false) :
    fs.LeadsTo path (directory.child name) := by
  obtain ⟨k, before, hk, hsteps, hleads, hdir⟩ := h
  have hfollow := hleads.follow_append .target [.down name] nofun maxLinks
  rw [if_pos hk, follow_down hdir hget hlink, follow_nil, ← hsteps] at hfollow
  exact follow_target_eq_ok_iff.mp hfollow

theorem NamesEntry.leads_of_leadsTo (h : fs.NamesEntry path directory name)
    (hto : fs.LeadsTo path target) : ∃ k, fs.Leads k directory [.down name] target := by
  obtain ⟨k, before, hk, hsteps, hleads, hdir⟩ := h
  have hfollow := follow_target_eq_ok_iff.mpr hto
  rw [hsteps, hleads.follow_append .target _ nofun, if_pos hk] at hfollow
  obtain ⟨k', -, hlast⟩ := follow_target_eq_ok_iff.mp hfollow
  exact ⟨k', hlast⟩

theorem NamesEntry.unique {directory' : Location} {name' : Name}
    (h : fs.NamesEntry path directory name) (h' : fs.NamesEntry path directory' name') :
    directory = directory' ∧ name = name' := by
  obtain ⟨k, before, -, hsteps, hleads, -⟩ := h
  obtain ⟨k', before', -, hsteps', hleads', -⟩ := h'
  rw [hsteps] at hsteps'
  obtain ⟨rfl, hname⟩ := List.append_inj' hsteps' rfl
  simp only [List.cons.injEq, PathStep.down.injEq, and_true] at hname
  exact ⟨hleads.unique hleads', hname⟩

theorem LeadsTo.namesEntry {before : List PathStep} (h : fs.LeadsTo path location)
    (hsteps : path.steps = before ++ [.down name]) :
    ∃ directory e, fs.NamesEntry path directory name ∧
      fs.get? (directory.child name) = some e := by
  have hfollow := follow_target_eq_ok_iff.mpr h
  rw [hsteps] at hfollow
  obtain ⟨k, place, hk, hleads, hlast⟩ :=
    exists_leads_of_follow_append (fun h => absurd rfl h) hfollow
  have hdir := isDirectory_of_follow_cons hlast
  cases hget : fs.get? (place.child name) with
  | none =>
    rw [follow_missing hdir hget] at hlast
    simp at hlast
  | some e => exact ⟨place, e, ⟨k, before, hk, hsteps, hleads, hdir⟩, hget⟩

theorem exists_namesEntry_of_resolve {last : LastName} (hlast : last ≠ .creation)
    (h : fs.resolve last path = .ok target) (hdir : ¬ fs.IsDirectory target) :
    ∃ directory name e, fs.NamesEntry path directory name ∧
      fs.get? (directory.child name) = some e := by
  obtain ⟨⟨⟩, -, hfollow⟩ := bind_eq_ok.mp h
  obtain ⟨before, step, hsteps⟩ : ∃ before step, path.steps = before ++ [step] :=
    ⟨_, _, (List.dropLast_concat_getLast path.steps_ne_nil).symm⟩
  rw [hsteps] at hfollow
  obtain ⟨k, place, hk, hleads, hstep⟩ := exists_leads_of_follow_append (fun _ => by simp) hfollow
  have hplace := isDirectory_of_follow_cons hstep
  cases step with
  | stay =>
    rw [follow_stay hplace, follow_nil, Except.ok.injEq] at hstep
    exact absurd (hstep ▸ hplace) hdir
  | up =>
    rw [follow_up hplace, follow_nil, Except.ok.injEq] at hstep
    exact absurd (hstep ▸ hplace.parent) hdir
  | tooLong =>
    rw [follow_tooLong hplace] at hstep
    simp at hstep
  | down name =>
    cases hget : fs.get? (place.child name) with
    | none =>
      rw [follow_missing hplace hget, if_neg (by simp [hlast])] at hstep
      simp at hstep
    | some e => exact ⟨place, name, e, ⟨k, before, hk, hsteps, hleads, hplace⟩, hget⟩

theorem exists_namesEntry_of_stat {f : File} (h : fs.stat path = .ok (location, .file f)) :
    ∃ directory name e, fs.NamesEntry path directory name ∧
      fs.get? (directory.child name) = some e := by
  obtain ⟨hcheck, hto, hget⟩ := stat_eq_ok_iff.mp h
  apply exists_namesEntry_of_resolve (by simp) (resolve_target_eq_ok_iff.mpr ⟨hcheck, hto⟩)
  simp [isDirectory_iff, hget]

theorem exists_lstat_of_stat (h : fs.stat path = .ok (location, e)) :
    ∃ target x, fs.lstat path = .ok (target, x) := by
  obtain ⟨hcheck, hto, -⟩ := stat_eq_ok_iff.mp h
  have hfollow := follow_target_eq_ok_iff.mpr hto
  obtain ⟨before, step, hsteps⟩ : ∃ before step, path.steps = before ++ [step] :=
    ⟨_, _, (List.dropLast_concat_getLast path.steps_ne_nil).symm⟩
  rw [hsteps] at hfollow
  obtain ⟨k, place, hk, hleads, hstep⟩ :=
    exists_leads_of_follow_append (fun h => absurd rfl h) hfollow
  have hplace := isDirectory_of_follow_cons hstep
  have hresolve : fs.resolve .entry path = fs.follow .entry (maxLinks - k) place [step] := by
    have hentry := hleads.follow_append .entry [step] (by simp) maxLinks
    rw [if_pos hk, ← hsteps] at hentry
    rw [resolve, hcheck, ← hentry]
    rfl
  cases step with
  | stay =>
    rw [follow_stay hplace, follow_nil] at hresolve
    obtain ⟨mode, hget⟩ := hplace
    exact ⟨place, _, lstat_eq_ok_iff.mpr ⟨hresolve, hget⟩⟩
  | up =>
    rw [follow_up hplace, follow_nil] at hresolve
    obtain ⟨mode, hget⟩ := hplace.parent
    exact ⟨place.parent, _, lstat_eq_ok_iff.mpr ⟨hresolve, hget⟩⟩
  | tooLong =>
    rw [follow_tooLong hplace] at hstep
    cases hstep
  | down name =>
    cases hget : fs.get? (place.child name) with
    | none =>
      rw [follow_missing hplace hget, if_neg (by simp)] at hstep
      cases hstep
    | some x =>
      rw [follow_entry_last hplace hget] at hresolve
      exact ⟨place.child name, x, lstat_eq_ok_iff.mpr ⟨hresolve, hget⟩⟩

theorem namesEntry_of_lstat (h : fs.lstat path = .ok (target, e)) (he : e.isDirectory = false) :
    checkPath path = .ok () ∧ fs.get? target = some e ∧
      ∃ directory name, target = directory.child name ∧ fs.NamesEntry path directory name := by
  obtain ⟨hresolve, hget⟩ := lstat_eq_ok_iff.mp h
  obtain ⟨⟨⟩, hcheck, -⟩ := bind_eq_ok.mp hresolve
  have hdir : ¬ fs.IsDirectory target := by simpa [isDirectory_iff, hget] using he
  obtain ⟨directory, name, x, hnames, hx⟩ := exists_namesEntry_of_resolve (by simp) hresolve hdir
  have hlstat := hnames.lstat_eq_ok hcheck hx
  rw [h, Except.ok.injEq, Prod.mk.injEq] at hlstat
  exact ⟨hcheck, hget, directory, name, hlstat.1, hnames⟩

/-- The path ends in the name of a file, not of a link to one. -/
def NamesFile (fs : FileSystem) (path : Path) (location : Location) (f : File) : Prop :=
  ∃ directory name, location = directory.child name ∧ fs.NamesEntry path directory name ∧
    fs.get? location = some (.file f)

theorem NamesFile.stat_eq_ok {f : File} (h : fs.NamesFile path location f)
    (hcheck : checkPath path = .ok ()) : fs.stat path = .ok (location, .file f) := by
  obtain ⟨directory, name, rfl, hnames, hget⟩ := h
  exact stat_eq_ok_iff.mpr ⟨hcheck, hnames.leadsTo hget rfl, hget⟩

theorem namesFile_of_lstat {f : File} (h : fs.lstat path = .ok (location, .file f)) :
    checkPath path = .ok () ∧ fs.NamesFile path location f := by
  obtain ⟨hcheck, hget, directory, name, rfl, hnames⟩ := namesEntry_of_lstat h rfl
  exact ⟨hcheck, directory, name, rfl, hnames, hget⟩

theorem LeadsTo.namesEntry_join (h : fs.LeadsTo directoryPath directory)
    (hpath : directoryPath ≠ []) (hdir : fs.IsDirectory directory) (name : Name) :
    fs.NamesEntry (directoryPath.join name.bytes) directory name := by
  obtain ⟨k, hk, hleads⟩ := h
  obtain ⟨before, hjoin, hsteps⟩ := Path.steps_join name hpath
  have hstart : startOf (directoryPath.join name.bytes) fs.workingDirectory =
      startOf directoryPath fs.workingDirectory := by
    rw [startOf, startOf, Path.isAbsolute_join name.bytes hpath]
  rw [NamesEntry, hstart]
  rcases hsteps with hsteps | hsteps
  · exact ⟨k, before, hk, hjoin, hsteps ▸ hleads, hdir⟩
  · -- After a slash at the end of the directory's path nothing is left to do.
    have hfollow := hleads.follow_eq_ok hk
    rw [hsteps, follow_append_stay hdir] at hfollow
    obtain ⟨k', hk', hbefore⟩ := follow_target_eq_ok_iff.mp hfollow
    exact ⟨k', before, hk', hjoin, hbefore, hdir⟩

end FileSystem

end Repoint
