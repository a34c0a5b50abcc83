import Repoint.Proofs.Discovery.Followed
import Repoint.Proofs.FileSystem.Parent
import Repoint.Proofs.Replace

/-!
# Build files are replaced in their own directory

A path that is found ends in the name of a build file, however its root is spelled.
-/

namespace Repoint

open FileSystem

variable {fs : FileSystem} {temp location : Location} {f : File} {path part : Path} {name : Name}
  {before : List PathStep} {follow : Bool} {roots files : List Path}

/-! ## Paths that are found -/

theorem exists_down_of_discover (h : (discover follow roots fs).result = .ok files) :
    ∀ path ∈ files, ∃ root names location e, fs.stat root = .ok (location, e) ∧
      path = root.down names := by
  intro path hpath
  obtain ⟨root, -, found, hfound, hpath⟩ := exists_root_of_discover h path hpath
  rcases discoverRoot_eq_ok_iff.mp hfound with ⟨-, rfl⟩ | ⟨location, e, hstat, hstopped, rfl⟩
  · simp at hpath
  · cases follow with
    | false =>
      obtain ⟨buildFiles, hlists⟩ := walkRoot_lists hstat hstopped
      rw [hlists.found_eq_down] at hpath
      obtain ⟨b, -, rfl⟩ := List.mem_map.mp hpath
      exact ⟨root, b.names, location, e, hstat, rfl⟩
    | true =>
      obtain ⟨reached, hreached⟩ := walkRoot_reached hstat hstopped
      rw [hreached.found_eq] at hpath
      obtain ⟨names, -, rfl⟩ := List.mem_map.mp hpath
      exact ⟨root, names, location, e, hstat, rfl⟩

namespace Path

theorem zero_not_mem_join {directory : Path} (h : 0 ∉ directory) (name : Name) :
    0 ∉ directory.join name.bytes := by
  have hname := name.isName.2.2.2.2.1
  have hslash : (0 : UInt8) ≠ slash := by decide
  unfold join
  split <;> simp [h, hname, hslash]

theorem zero_not_mem_down {root : Path} (h : 0 ∉ root) (names : List Name) :
    0 ∉ root.down names := by
  induction names generalizing root with
  | nil => exact h
  | cons name names ih => exact ih (zero_not_mem_join h name)

theorem down_ne_nil {root : Path} (h : root ≠ []) (names : List Name) : root.down names ≠ [] := by
  induction names generalizing root with
  | nil => exact h
  | cons name names ih => exact ih (join_ne_nil _ h)

theorem exists_steps_down {root : Path} (h : root ≠ []) {names : List Name} (hne : names ≠ []) :
    ∃ before name, (root.down names).steps = before ++ [.down name] := by
  obtain ⟨above, name, rfl⟩ := names.eq_nil_or_concat.resolve_left hne
  rw [List.concat_eq_append, down_append]
  obtain ⟨before, hsteps, -⟩ := steps_join name (down_ne_nil h above)
  exact ⟨before, name, hsteps⟩

end Path

theorem checkPath_of_discover (h : (discover follow roots fs).result = .ok files)
    (hpath : path ∈ files) (hlength : path.length < pathLimit) : checkPath path = .ok () := by
  obtain ⟨root, names, location, e, hstat, rfl⟩ := exists_down_of_discover h path hpath
  obtain ⟨hzero, hne, -⟩ := checkPath_eq_ok_iff.mp (stat_eq_ok_iff.mp hstat).1
  exact checkPath_eq_ok_iff.mpr
    ⟨Path.zero_not_mem_down hzero names, Path.down_ne_nil hne names, hlength⟩

theorem exists_steps_of_discover (h : (discover follow roots fs).result = .ok files)
    (hpath : path ∈ files) : ∃ before name, path.steps = before ++ [.down name] := by
  have hfound := isFound_of_discover h path hpath
  obtain ⟨root, names, location, e, hstat, rfl⟩ := exists_down_of_discover h path hpath
  have hcheck := (stat_eq_ok_iff.mp hstat).1
  by_cases hne : names = []
  · -- The root is the file itself, and it can be followed.
    subst hne
    obtain ⟨place, f, hfile⟩ := hfound.stat hcheck
    obtain ⟨directory, name, -, ⟨k, before, -, hsteps, -, -⟩, -⟩ := exists_namesEntry_of_stat hfile
    exact ⟨before, name, hsteps⟩
  · exact Path.exists_steps_down (checkPath_eq_ok_iff.mp hcheck).2.1 hne

theorem endsInBuildFile_of_discover (h : (discover follow roots fs).result = .ok files)
    (hpath : path ∈ files) :
    ∃ before name, path.steps = before ++ [.down name] ∧ name.bytes = buildFileName := by
  obtain ⟨before, name, hsteps⟩ := exists_steps_of_discover h hpath
  refine ⟨before, name, hsteps, ?_⟩
  have hnamed := (isFound_of_discover h path hpath).named
  simpa [Path.namesBuildFile, Path.fileName?_of_steps hsteps] using hnamed

/-! ## Where a replacement takes place -/

theorem replaceable_of_stat (hsteps : path.steps = before ++ [.down name])
    (hpart : path.directory? = some part) (hstat : fs.stat path = .ok (location, .file f)) :
    ∃ directory mode, fs.stat part = .ok (directory, .directory mode) ∧
      fs.replaceable path = .ok (directory.child name) := by
  obtain ⟨hcheck, hto, hget⟩ := stat_eq_ok_iff.mp hstat
  obtain ⟨directory, e, hnames, hentry⟩ := hto.namesEntry hsteps
  obtain ⟨mode, hdirectory⟩ := hnames.stat_directory? hcheck hpart
  refine ⟨directory, mode, hdirectory, hnames.replaceable_eq_ok hcheck hentry ?_⟩
  cases e with
  | directory _ =>
    rw [hto.unique (hnames.leadsTo hentry rfl), hentry] at hget
    cases hget
  | _ => rfl

theorem parent_of_tempLocation {bits : Nat} (hsteps : path.steps = before ++ [.down name])
    (hpart : path.directory? = some part) (hmode : fs.mode path = .ok bits)
    (htemp : fs.tempLocation part = .ok temp) :
    (∃ mode, fs.stat part = .ok (temp.parent, .directory mode)) ∧
      ∃ e, fs.lstat path = .ok (temp.parent.child name, e) := by
  obtain ⟨⟨location, x⟩, hstat, -⟩ := bind_eq_ok.mp hmode
  obtain ⟨hcheck, hto, -⟩ := stat_eq_ok_iff.mp hstat
  obtain ⟨directory, e, hnames, hentry⟩ := hto.namesEntry hsteps
  obtain ⟨mode, hdirectory⟩ := hnames.stat_directory? hcheck hpart
  obtain ⟨place, tempName, rfl, ⟨mode', hplace⟩, -⟩ := exists_of_tempLocation htemp
  obtain ⟨rfl, -⟩ := Prod.mk.inj (Except.ok.inj (hdirectory.symm.trans hplace))
  rw [Location.parent_child]
  exact ⟨⟨mode, hdirectory⟩, e, hnames.lstat_eq_ok hcheck hentry⟩

theorem operations_of_replaceFile {disk : Disk} {data : Bytes}
    (hsteps : path.steps = before ++ [.down name]) (hpart : path.directory? = some part)
    (hok : (replaceFile disk path data fs).result = .ok ()) :
    ∃ temp mode bits, fs.stat part = .ok (temp.parent, .directory mode) ∧
      (replaceFile disk path data fs).operations =
        [.create temp, .write temp data, .sync temp, .setMode temp bits,
          .rename temp (temp.parent.child name)] := by
  rcases replaceFile_operations disk path data fs with
    ⟨part', bits, temp, target, hpart', hmode, htemp, -, hreplace, houtcome⟩ |
    ⟨-, operations, e, -, houtcome⟩
  · obtain rfl := Option.some.inj (hpart.symm.trans hpart')
    obtain ⟨⟨mode, hdirectory⟩, e, hlstat⟩ := parent_of_tempLocation hsteps hpart hmode htemp
    obtain ⟨e', hlstat', -⟩ := lstat_of_replaceable hreplace
    obtain ⟨rfl, -⟩ := Prod.mk.inj (Except.ok.inj (hlstat.symm.trans hlstat'))
    rw [houtcome]
    exact ⟨temp, mode, bits, hdirectory, rfl⟩
  · simp [houtcome] at hok

/-- **The parent of a build file's path.** A path that is found has a parent, which leads to the
directory of the entry that a file moved onto the path takes the place of. The temporary file is made
there, and moved within that directory. -/
theorem discover_parent (follow : Bool) (roots files : List Path) (fs : FileSystem)
    (h : (discover follow roots fs).result = .ok files) (path : Path) (hpath : path ∈ files) :
    ∃ parent part name, path.parent? = some parent ∧
      part = (if parent = [] then Path.dot else parent) ∧ name.bytes = buildFileName ∧
      (path.length < pathLimit → ∃ directory mode,
        fs.stat part = .ok (directory, .directory mode) ∧
        fs.replaceable path = .ok (directory.child name)) ∧
      ∀ disk data now,
        (∀ other, (replaceFile disk path data now).result ≠ .error (.noParent other)) ∧
        (∀ temp, .create temp ∈ (replaceFile disk path data now).operations →
          (∃ mode, now.stat part = .ok (temp.parent, .directory mode)) ∧
            ∃ e, now.lstat path = .ok (temp.parent.child name, e)) ∧
        ((replaceFile disk path data now).result = .ok () →
          ∃ temp mode bits, now.stat part = .ok (temp.parent, .directory mode) ∧
            (replaceFile disk path data now).operations =
              [.create temp, .write temp data, .sync temp, .setMode temp bits,
                .rename temp (temp.parent.child name)]) := by
  obtain ⟨before, name, hsteps, hname⟩ := endsInBuildFile_of_discover h hpath
  obtain ⟨front, hpieces, -⟩ := Path.pieces_of_steps hsteps
  obtain ⟨part, hpart, -⟩ := Path.exists_directory? hpieces
  obtain ⟨parent, hparent, hdot⟩ := Option.map_eq_some_iff.mp hpart
  refine ⟨parent, part, name, hparent, hdot.symm, hname, ?_, ?_⟩
  · intro hlength
    have hcheck := checkPath_of_discover h hpath hlength
    obtain ⟨location, f, hstat⟩ := (isFound_of_discover h path hpath).stat hcheck
    exact replaceable_of_stat hsteps hpart hstat
  · intro disk data now
    refine ⟨?_, ?_, operations_of_replaceFile hsteps hpart⟩
    · intro other herror
      rcases replaceFile_error hpart herror with
        ⟨_, he⟩ | he | he | ⟨_, he⟩ | ⟨_, _, he⟩ | ⟨_, he⟩ <;> cases he
    · intro temp hcreate
      obtain ⟨⟨mode, hmode⟩, htemp⟩ := tempLocation_of_create hpart hcreate
      exact parent_of_tempLocation hsteps hpart hmode htemp

/-- The root goes through a link and back up, with slashes and a `.` in between. The path found below it
names a link. -/
theorem discover_parent_sampleTree :
    let root := ascii "top/.//app/..//"
    let path := ascii "top/.//app/..//app/CMakeLists.txt"
    let parent := ascii "top/.//app/..//app"
    let app := (Location.root.child ⟨ascii "src", by decide⟩).child ⟨ascii "app", by decide⟩
    let entry := app.child ⟨buildFileName, by decide⟩
    let data := ascii "project(app)"
    let found := [ascii "top/.//app/..//CMakeLists.txt", path,
      ascii "top/.//app/..//lib/CMakeLists.txt"]
    (discover true [root] sampleTree).result = .ok found ∧ path ∈ found ∧
    path.length < pathLimit ∧ Path.parent? path = some parent ∧
    sampleTree.stat parent = .ok (app, .directory 0o755) ∧
    sampleTree.replaceable path = .ok entry ∧
    (∀ disk data now other, (replaceFile disk path data now).result ≠ .error (.noParent other)) ∧
    (replaceFile {} path data sampleTree).result = .ok () ∧
    ∃ temp mode, temp.parent = app ∧ (replaceFile {} path data sampleTree).operations =
      [.create temp, .write temp data, .sync temp, .setMode temp mode, .rename temp entry] := by
  intro root path parent app entry data found
  have hfound : (discover true [root] sampleTree).result = .ok found := by decide +kernel
  have hpath : path ∈ found := by decide
  have hlength : path.length < pathLimit := by decide
  have hparent : Path.parent? path = some parent := by decide
  have hstat : sampleTree.stat parent = .ok (app, .directory 0o755) := by decide +kernel
  have hok : (replaceFile {} path data sampleTree).result = .ok () := by decide +kernel
  obtain ⟨parent', part, name, hparent', rfl, hname, hentry, hreplace⟩ :=
    discover_parent true [root] found sampleTree hfound path hpath
  obtain rfl : parent = parent' := Option.some.inj (hparent.symm.trans hparent')
  rw [if_neg (by decide)] at hentry hreplace
  obtain rfl : name = ⟨buildFileName, by decide⟩ := Name.eq_of_bytes hname
  obtain ⟨directory, _, hdirectory, htarget⟩ := hentry hlength
  obtain ⟨rfl, -⟩ := Prod.mk.inj (Except.ok.inj (hstat.symm.trans hdirectory))
  obtain ⟨temp, _, bits, htemp, hops⟩ := (hreplace {} data sampleTree).2.2 hok
  obtain ⟨hbeside, -⟩ := Prod.mk.inj (Except.ok.inj (hstat.symm.trans htemp))
  exact ⟨hfound, hpath, hlength, hparent, hstat, htarget,
    fun disk data now => (hreplace disk data now).1, hok, temp, bits, hbeside.symm,
    by rw [hops, ← hbeside]⟩

end Repoint
