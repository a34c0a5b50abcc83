import Repoint.Proofs.Discovery.Listing
import Repoint.Proofs.Run.Patching

/-!
# What a run leaves alone

A file that is due when its turn comes was due before the run.
-/

namespace Repoint

open FileSystem

variable {fs fs' : FileSystem} {path : Path} {location : Location} {f : File} {options : Options}
  {roots files : List Path}

/-! ## One entry -/

/-- The path names the entry at the location, and leads to a file with something to change. -/
structure FileSystem.IsDueAt (fs : FileSystem) (path : Path) (location : Location) (f : File) :
    Prop where
  names : ∃ directory name, location = directory.child name ∧ fs.NamesEntry path directory name
  stat : ∃ place, fs.stat path = .ok (place, .file f)
  readable : f.isReadable
  unmarked : ¬ AllMarked f.data

theorem FileSystem.Repoints.isFound {follow : Bool} (h : Repoints follow fs fs')
    (hfound : fs.IsFound path) : fs'.IsFound path := by
  refine ⟨hfound.named, fun hcheck => ?_⟩
  obtain ⟨place, f, hstat⟩ := hfound.stat hcheck
  rcases h.stat_of_ok hstat with hafter | ⟨g, place', -, hafter⟩
  · exact ⟨_, _, hafter⟩
  · exact ⟨_, _, hafter⟩

theorem FileSystem.Repoints.isDueAt {follow : Bool} (h : Repoints follow fs fs')
    (hfound : fs.IsFound path) (hdue : fs'.IsDueAt path location f) : fs.IsDueAt path location f := by
  obtain ⟨⟨directory, name, rfl, hnames⟩, ⟨place, hafter⟩, hreadable, hunmarked⟩ := hdue
  obtain ⟨place', g, hstat⟩ := hfound.stat (stat_eq_ok_iff.mp hafter).1
  obtain ⟨directory', name', e, hnames', -⟩ := exists_namesEntry_of_stat hstat
  obtain ⟨rfl, rfl⟩ := (h.namesEntry hnames').unique hnames
  have hfile : g = f := by
    rcases h.stat_of_ok hstat with hsame | ⟨g', place'', heq, hsame⟩
    · rw [hafter, Except.ok.injEq, Prod.mk.injEq, Entry.file.injEq] at hsame
      exact hsame.2.symm
    · rw [hafter, Except.ok.injEq, Prod.mk.injEq, Entry.file.injEq] at hsame
      rw [hsame.2] at hunmarked
      exact absurd (allMarked_repoint g'.data) hunmarked
  subst hfile
  exact ⟨⟨directory', name', rfl, hnames'⟩, ⟨place', hstat⟩, hreadable, hunmarked⟩

namespace FileSystem.IsDueAt

theorem lstat (h : fs.IsDueAt path location f) :
    ∃ e, fs.lstat path = .ok (location, e) ∧ fs.get? location = some e ∧
      (e = .file f ∨ e.isLink) := by
  obtain ⟨⟨directory, name, rfl, hnames⟩, ⟨place, hstat⟩, -, -⟩ := h
  obtain ⟨hcheck, hto, hget⟩ := stat_eq_ok_iff.mp hstat
  have hleads : fs.LeadsToFile directory name place f := ⟨hnames.leads_of_leadsTo hto, hget⟩
  rcases hleads.get?_entry with hentry | ⟨text, hentry⟩
  · exact ⟨_, hnames.lstat_eq_ok hcheck hentry, hentry, .inl rfl⟩
  · exact ⟨_, hnames.lstat_eq_ok hcheck hentry, hentry, .inr rfl⟩

theorem name_eq (h : fs.IsDueAt path location f) (hnamed : path.namesBuildFile) :
    ∃ name, location.name? = some name ∧ name.bytes = buildFileName := by
  obtain ⟨⟨directory, name, rfl, k, before, -, hsteps, -, -⟩, -, -, -⟩ := h
  refine ⟨name, rfl, ?_⟩
  simpa [Path.namesBuildFile, Path.fileName?_of_steps hsteps] using hnamed

theorem exists_buildFile (h : fs.IsDueAt path location f)
    (hfiles : (discover false roots fs).result = .ok files) (hpath : path ∈ files) :
    ∃ root ∈ roots, ∃ b, fs.IsBuildFileOf root b ∧ b.place.location = location ∧
      fs.get? location = some (.file b.file) := by
  obtain ⟨root, hroot, b, hb, rfl⟩ := exists_buildFile_of_discover hfiles path hpath
  obtain ⟨⟨directory, name, rfl, hnames⟩, -, -, -⟩ := h
  obtain ⟨directory', name', hlocation, hnames', hget⟩ := hb.namesFile
  obtain ⟨rfl, rfl⟩ := hnames'.unique hnames
  exact ⟨root, hroot, b, hb, hlocation, hlocation ▸ hget⟩

end FileSystem.IsDueAt

/-! ## All files -/

theorem patchFiles_changes (hfiles : ∀ path ∈ files, fs.IsFound path) (location : Location) :
    ((patchFiles options files).stateAfter fs).get? location = fs.get? location ∨
      ∃ path ∈ files, ∃ f, fs.IsDueAt path location f ∧
        ((patchFiles options files).stateAfter fs).get? location = some (.file f.repointed) := by
  induction files generalizing fs with
  | nil => exact .inl rfl
  | cons path rest ih =>
    have hrest : ∀ p ∈ rest, fs.IsFound p := fun p hp => hfiles p (List.mem_cons_of_mem _ hp)
    rcases patchFile_cases options path fs with ⟨⟨e, hresult⟩, -⟩ |
      ⟨data, -, -, hresult, hafter⟩ |
      ⟨directory, name, place, f, -, hunmarked, hreadable, hstat, hnames, hleads, hresult, hafter⟩
    · rw [(patchFiles_cons_of_error rest hresult).2]
      exact .inl rfl
    · rw [(patchFiles_cons rest hresult).2, hafter]
      refine (ih hrest).imp_right ?_
      rintro ⟨p, hp, hchange⟩
      exact ⟨p, List.mem_cons_of_mem _ hp, hchange⟩
    · rw [(patchFiles_cons rest hresult).2, hafter]
      have hstep : Repoints true fs (fs.put (directory.child name) (.file f.repointed)) :=
        .intro hleads nofun
      rcases ih fun p hp => hstep.isFound (hrest p hp) with hsame | ⟨p, hp, g, hdue, hchanged⟩
      · rw [hsame]
        by_cases heq : location = directory.child name
        · subst heq
          exact .inr ⟨path, List.mem_cons_self, f,
            ⟨⟨directory, name, rfl, hnames⟩, ⟨place, hstat⟩, hreadable, hunmarked⟩,
            hleads.get?_put_self _⟩
        · exact .inl (get?_put_of_ne _ _ heq)
      · exact .inr ⟨p, List.mem_cons_of_mem _ hp, g, hstep.isDueAt (hrest p hp) hdue, hchanged⟩

theorem stateAfter_patchFiles_of_dryRun (hdry : options.dryRun = true) (files : List Path)
    (fs : FileSystem) : (patchFiles options files).stateAfter fs = fs := by
  induction files with
  | nil => rfl
  | cons path rest ih =>
    rcases patchFile_cases options path fs with ⟨⟨e, hresult⟩, -⟩ |
      ⟨data, -, -, hresult, hafter⟩ | ⟨directory, name, place, f, hwet, -⟩
    · exact (patchFiles_cons_of_error rest hresult).2
    · rw [(patchFiles_cons rest hresult).2, hafter, ih]
    · simp [hdry] at hwet

/-! ## The whole run -/

theorem stateAfter_run_of_dryRun (hdry : options.dryRun = true) (roots : List Path)
    (fs : FileSystem) : (run options roots).stateAfter fs = fs := by
  cases hfiles : (discover options.followLinks roots fs).result with
  | error e => exact (run_of_discover_error hfiles).2
  | ok files =>
    rw [(run_of_discover options hfiles).2]
    exact stateAfter_patchFiles_of_dryRun hdry files fs

theorem run_changes (options : Options) (roots : List Path) (fs : FileSystem) (location : Location) :
    ((run options roots).stateAfter fs).get? location = fs.get? location ∨
      ∃ files, (discover options.followLinks roots fs).result = .ok files ∧
        ∃ path ∈ files, ∃ f, fs.IsDueAt path location f ∧
          ((run options roots).stateAfter fs).get? location = some (.file f.repointed) := by
  cases hfiles : (discover options.followLinks roots fs).result with
  | error e =>
    rw [(run_of_discover_error hfiles).2]
    exact .inl rfl
  | ok files =>
    rw [(run_of_discover options hfiles).2]
    refine (patchFiles_changes (isFound_of_discover hfiles) location).imp_right ?_
    rintro ⟨path, hpath, hchange⟩
    exact ⟨files, rfl, path, hpath, hchange⟩

theorem isSome_get?_run (options : Options) (roots : List Path) (fs : FileSystem)
    (location : Location) :
    (((run options roots).stateAfter fs).get? location).isSome = (fs.get? location).isSome := by
  rcases run_changes options roots fs location with hsame | ⟨files, -, path, -, f, hdue, hchanged⟩
  · rw [hsame]
  · obtain ⟨e, -, hget, -⟩ := hdue.lstat
    rw [hchanged, hget]
    rfl

theorem run_changes_unfollowed (hfollow : options.followLinks = false) (roots : List Path)
    (fs : FileSystem) (location : Location) :
    ((run options roots).stateAfter fs).get? location = fs.get? location ∨
      ∃ root ∈ roots, ∃ b, fs.IsBuildFileOf root b ∧ b.place.location = location ∧
        fs.get? location = some (.file b.file) := by
  refine (run_changes options roots fs location).imp_right ?_
  rintro ⟨files, hfiles, path, hpath, f, hdue, -⟩
  rw [hfollow] at hfiles
  exact hdue.exists_buildFile hfiles hpath

theorem exists_of_run_changes
    (h : ((run options roots).stateAfter fs).get? location ≠ fs.get? location) :
    (∃ name, location.name? = some name ∧ name.bytes = buildFileName) ∧
      ∃ path e place f, fs.lstat path = .ok (location, e) ∧ fs.stat path = .ok (place, .file f) ∧
        fs.read path = .ok f.data ∧ (e = .file f ∨ options.followLinks = true ∧ e.isLink = true) ∧
        ((run options roots).stateAfter fs).get? location = some (.file f.repointed) := by
  obtain ⟨files, hfiles, path, hpath, f, hdue, hchanged⟩ :=
    (run_changes options roots fs location).resolve_left h
  refine ⟨hdue.name_eq (isFound_of_discover hfiles path hpath).named, path, ?_⟩
  obtain ⟨e, hlstat, hget, hentry⟩ := hdue.lstat
  obtain ⟨place, hstat⟩ := hdue.stat
  refine ⟨e, place, f, hlstat, hstat, (read_eq_ok_iff hstat).mpr ⟨hdue.readable, rfl⟩, ?_, hchanged⟩
  cases hfollow : options.followLinks with
  | true => exact hentry.imp_right fun hlink => ⟨rfl, hlink⟩
  | false =>
    -- Without links to follow, what was replaced was found as a file.
    obtain ⟨root, -, b, -, -, hfile⟩ :=
      (run_changes_unfollowed hfollow roots fs location).resolve_left h
    rw [hget, Option.some.injEq] at hfile
    subst hfile
    simpa [Entry.isLink] using hentry

/-- **Frame.** However a run ends, there are the same entries as before. One that differs has the name
of a build file, and is a file with the rule applied to what was read through it before. -/
theorem run_frame (options : Options) (roots : List Path) (fs : FileSystem) :
    (∀ location, (((run options roots).stateAfter fs).get? location).isSome =
      (fs.get? location).isSome) ∧
    (∀ location, ((run options roots).stateAfter fs).get? location ≠ fs.get? location →
      (∃ name, location.name? = some name ∧ name.bytes = buildFileName) ∧
      ∃ path e place f, fs.lstat path = .ok (location, e) ∧ fs.stat path = .ok (place, .file f) ∧
        fs.read path = .ok f.data ∧ (e = .file f ∨ options.followLinks = true ∧ e.isLink = true) ∧
        ((run options roots).stateAfter fs).get? location =
          some (.file { data := (repoint f.data).bytes, mode := f.mode })) ∧
    (options.dryRun = true → (run options roots).stateAfter fs = fs) ∧
    (options.followLinks = false →
      (∀ location, ((run options roots).stateAfter fs).get? location ≠ fs.get? location →
        ∃ root ∈ roots, ∃ b, fs.IsBuildFileOf root b ∧ b.place.location = location) ∧
      ∀ location text, fs.get? location = some (.link text) →
        ((run options roots).stateAfter fs).get? location = some (.link text)) := by
  refine ⟨isSome_get?_run options roots fs, fun _ => exists_of_run_changes,
    fun hdry => stateAfter_run_of_dryRun hdry roots fs, fun hfollow => ⟨?_, ?_⟩⟩
  · intro location hne
    obtain ⟨root, hroot, b, hb, hlocation, -⟩ :=
      (run_changes_unfollowed hfollow roots fs location).resolve_left hne
    exact ⟨root, hroot, b, hb, hlocation⟩
  · intro location text hlink
    rcases run_changes_unfollowed hfollow roots fs location with hsame | ⟨root, -, b, -, -, hfile⟩
    · rw [hsame, hlink]
    · simp [hlink] at hfile

/-- Both runs patch the first file and fail at the longer one, which the first comes to through the
link. The link is as it was. -/
theorem run_frame_unevenTree :
    let top := Location.root.child ⟨ascii "src", by decide⟩
    let first := top.child ⟨buildFileName, by decide⟩
    let link := (top.child ⟨ascii "app", by decide⟩).child ⟨buildFileName, by decide⟩
    let text := ascii "../lib/CMakeLists.txt"
    let followed := run { followLinks := true, disk := { writeLimit := some 40 } } [ascii "top"]
    let unfollowed := run { disk := { writeLimit := some 40 } } [ascii "src"]
    (followed unevenTree).result = .error (.writeTemp (ascii "top/app/CMakeLists.txt")) ∧
    (followed.stateAfter unevenTree).get? first ≠ unevenTree.get? first ∧
    (∃ path e place f, unevenTree.lstat path = .ok (first, e) ∧
      unevenTree.stat path = .ok (place, .file f) ∧ unevenTree.read path = .ok f.data ∧
      (followed.stateAfter unevenTree).get? first =
        some (.file { data := (repoint f.data).bytes, mode := f.mode })) ∧
    (unfollowed unevenTree).result = .error (.writeTemp (ascii "src/lib/CMakeLists.txt")) ∧
    (unfollowed.stateAfter unevenTree).get? first ≠ unevenTree.get? first ∧
    (∃ root ∈ [ascii "src"], ∃ b, unevenTree.IsBuildFileOf root b ∧ b.place.location = first) ∧
    (unfollowed.stateAfter unevenTree).get? link = some (.link text) := by
  intro top first link text followed unfollowed
  have hfollowed : (followed.stateAfter unevenTree).get? first ≠ unevenTree.get? first := by
    decide +kernel
  have hunfollowed : (unfollowed.stateAfter unevenTree).get? first ≠ unevenTree.get? first := by
    decide +kernel
  have hlink : unevenTree.get? link = some (.link text) := by decide +kernel
  obtain ⟨-, hchanged, -⟩ :=
    run_frame { followLinks := true, disk := { writeLimit := some 40 } } [ascii "top"] unevenTree
  obtain ⟨-, -, -, hbelow⟩ := run_frame { disk := { writeLimit := some 40 } } [ascii "src"] unevenTree
  obtain ⟨-, path, e, place, f, hlstat, hstat, hread, -, hnow⟩ := hchanged first hfollowed
  exact ⟨by decide +kernel, hfollowed, ⟨path, e, place, f, hlstat, hstat, hread, hnow⟩,
    by decide +kernel, hunfollowed, (hbelow rfl).1 first hunfollowed, (hbelow rfl).2 link text hlink⟩

end Repoint
