import Repoint.Proofs.Discovery.Walk
import Repoint.Proofs.FileSystem.Repointing
import Repoint.Proofs.Replace
import Repoint.Run

/-!
# Patching one file after another

Files that are patched in turn are steps of `Repoints`, and are marked in the end.
-/

namespace Repoint

open FileSystem

variable {fs : FileSystem} {path : Path} {options : Options} {files : List Path}

/-! ## Reading -/

theorem not_changed_iff {data : Bytes} : (!(repoint data).changed) = true ↔ AllMarked data := by
  rw [← repoint_replacements_eq_zero_iff, Repointed.changed, Bool.not_eq_true',
    decide_eq_false_iff_not, Nat.pos_iff_ne_zero, not_not]

theorem exists_file_of_read {data : Bytes} (hread : fs.read path = .ok data)
    (hdata : ¬ AllMarked data) :
    ∃ location f, fs.stat path = .ok (location, .file f) ∧ f.isReadable ∧ f.data = data := by
  obtain ⟨⟨location, e⟩, hstat, h⟩ := bind_eq_ok.mp hread
  have hnil : AllMarked [] := allMarked_iff.mpr eligible_nil
  cases e with
  | file f => exact ⟨location, f, hstat, (read_eq_ok_iff hstat).mp hread⟩
  | directory mode => simp at h
  | link text =>
    cases h
    exact absurd hnil hdata
  | pipe mode =>
    cases h
    exact absurd hnil hdata

theorem exists_leadsToFile {data : Bytes} {target location : Location} {e x : Entry}
    (hread : fs.read path = .ok data) (hdata : ¬ AllMarked data)
    (hlstat : fs.lstat path = .ok (target, e)) (hne : e.isDirectory = false)
    (hstat : fs.stat path = .ok (location, x)) :
    ∃ directory name f, target = directory.child name ∧ x = .file f ∧ f.isReadable ∧ f.data = data ∧
      fs.NamesEntry path directory name ∧ fs.LeadsToFile directory name location f := by
  obtain ⟨place, f, hfile, hreadable, rfl⟩ := exists_file_of_read hread hdata
  rw [hstat, Except.ok.injEq, Prod.mk.injEq] at hfile
  obtain ⟨rfl, rfl⟩ := hfile
  obtain ⟨-, -, directory, name, rfl, hnames⟩ := namesEntry_of_lstat hlstat hne
  obtain ⟨-, hto, hget⟩ := stat_eq_ok_iff.mp hstat
  exact ⟨directory, name, f, rfl, rfl, hreadable, rfl, hnames, hnames.leads_of_leadsTo hto, hget⟩

/-! ## One file -/

/-- What is reported of a file that held these bytes. -/
def FilePatch.ofData (path : Path) (data : Bytes) (written : Bool) : FilePatch :=
  { path, replacements := (repoint data).replacements, linesChanged := (repoint data).linesChanged,
    written }

theorem patchFile_cases (options : Options) (path : Path) (fs : FileSystem) :
    ((∃ e, (patchFile options path fs).result = .error e) ∧
      (patchFile options path).stateAfter fs = fs) ∨
    (∃ data, fs.read path = .ok data ∧ (AllMarked data ∨ options.dryRun = true) ∧
      (patchFile options path fs).result = .ok (.ofData path data false) ∧
      (patchFile options path).stateAfter fs = fs) ∨
    (∃ directory name location f, options.dryRun = false ∧ ¬ AllMarked f.data ∧ f.isReadable ∧
      fs.stat path = .ok (location, .file f) ∧ fs.NamesEntry path directory name ∧
      fs.LeadsToFile directory name location f ∧
      (patchFile options path fs).result = .ok (.ofData path f.data true) ∧
      (patchFile options path).stateAfter fs =
        fs.put (directory.child name) (.file f.repointed)) := by
  unfold patchFile
  cases hread : fs.read path with
  | error cause =>
    rw [Job.inspect_bind_of_error hread, Job.stateAfter_inspect_bind_of_error hread]
    exact .inl ⟨⟨_, rfl⟩, rfl⟩
  | ok data =>
    rw [Job.inspect_bind_of_ok hread, Job.stateAfter_inspect_bind_of_ok hread]
    dsimp only
    by_cases hmarked : AllMarked data
    · rw [if_pos (not_changed_iff.mpr hmarked)]
      exact .inr (.inl ⟨data, rfl, .inl hmarked, rfl, rfl⟩)
    · rw [if_neg (mt not_changed_iff.mp hmarked)]
      by_cases hdry : options.dryRun = true
      · rw [if_pos hdry]
        exact .inr (.inl ⟨data, rfl, .inr hdry, rfl, rfl⟩)
      · rw [if_neg hdry]
        rcases replaceFile_cases options.disk path (repoint data).bytes fs with
          ⟨-, hresult, target, e, location, x, hlstat, hne, hstat, hafter⟩ | ⟨-, ⟨e, hresult⟩, hafter⟩
        · obtain ⟨directory, name, f, rfl, rfl, hreadable, rfl, hnames, hleads⟩ :=
            exists_leadsToFile hread hmarked hlstat hne hstat
          rw [Job.bind_of_ok hresult, Job.stateAfter_bind_of_ok hresult]
          exact .inr (.inr ⟨directory, name, location, f, by simpa using hdry, hmarked, hreadable,
            hstat, hnames, hleads, rfl, hafter⟩)
        · rw [Job.bind_of_error hresult, Job.stateAfter_bind_of_error hresult]
          exact .inl ⟨⟨e, rfl⟩, hafter⟩

/-! ## All files -/

theorem patchFiles_nil : (patchFiles options [] fs).result = .ok [] ∧
    (patchFiles options []).stateAfter fs = fs := ⟨rfl, rfl⟩

theorem patchFiles_cons (rest : List Path) {patch : FilePatch}
    (h : (patchFile options path fs).result = .ok patch) :
    (patchFiles options (path :: rest) fs).result =
        (patchFiles options rest ((patchFile options path).stateAfter fs)).result.map (patch :: ·) ∧
      (patchFiles options (path :: rest)).stateAfter fs =
        (patchFiles options rest).stateAfter ((patchFile options path).stateAfter fs) := by
  rw [patchFiles, Job.bind_of_ok h, Job.stateAfter_bind_of_ok h]
  exact ⟨rfl, rfl⟩

theorem patchFiles_cons_of_error (rest : List Path) {e : Error}
    (h : (patchFile options path fs).result = .error e) :
    (patchFiles options (path :: rest) fs).result = .error e ∧
      (patchFiles options (path :: rest)).stateAfter fs = fs := by
  rw [patchFiles, Job.bind_of_error h, Job.stateAfter_bind_of_error h]
  refine ⟨rfl, ?_⟩
  rcases patchFile_cases options path fs with ⟨-, hafter⟩ | ⟨data, -, -, hresult, -⟩ |
    ⟨directory, name, location, f, -, -, -, -, -, -, hresult, -⟩
  · exact hafter
  · simp [hresult] at h
  · simp [hresult] at h

theorem exists_of_patchFiles_cons {rest : List Path} {patches : List FilePatch}
    (h : (patchFiles options (path :: rest) fs).result = .ok patches) :
    ∃ patch more, (patchFile options path fs).result = .ok patch ∧
      (patchFiles options rest ((patchFile options path).stateAfter fs)).result = .ok more ∧
      patches = patch :: more := by
  rw [patchFiles] at h
  obtain ⟨patch, hpatch, hrest⟩ := Job.result_bind_eq_ok.mp h
  obtain ⟨more, hmore, rfl⟩ := Job.result_map_eq_ok.mp hrest
  exact ⟨patch, more, hpatch, hmore, rfl⟩

theorem patchFile_of_marked (options : Options) {data : Bytes} (hread : fs.read path = .ok data)
    (hmarked : AllMarked data) :
    (patchFile options path fs).result = .ok (.ofData path data false) ∧
      (patchFile options path).stateAfter fs = fs := by
  unfold patchFile
  rw [Job.inspect_bind_of_ok hread, Job.stateAfter_inspect_bind_of_ok hread]
  dsimp only
  rw [if_pos (not_changed_iff.mpr hmarked)]
  exact ⟨rfl, rfl⟩

theorem patchFiles_of_readsMarked (options : Options)
    (h : ∀ path ∈ files, fs.ReadsMarked path) :
    ∃ patches, (patchFiles options files fs).result = .ok patches ∧
      (∀ patch ∈ patches, patch.replacements = 0) ∧
      (patchFiles options files).stateAfter fs = fs := by
  induction files with
  | nil => exact ⟨[], patchFiles_nil.1, by simp, patchFiles_nil.2⟩
  | cons path rest ih =>
    obtain ⟨data, hread, hmarked⟩ := h path List.mem_cons_self
    obtain ⟨patches, hresult, hzero, hafter⟩ := ih fun p hp => h p (List.mem_cons_of_mem _ hp)
    obtain ⟨hpatch, hsame⟩ := patchFile_of_marked options hread hmarked
    obtain ⟨hcons, hstate⟩ := patchFiles_cons rest hpatch
    rw [hsame, hresult] at hcons
    rw [hsame, hafter] at hstate
    refine ⟨_, hcons, ?_, hstate⟩
    intro patch hmem
    rcases List.mem_cons.mp hmem with rfl | hmem
    · exact repoint_replacements_eq_zero_iff.mpr hmarked
    · exact hzero patch hmem

/-- A patch that succeeds is a step of `Repoints` or none, and the file is marked after it. -/
theorem patchFile_repoints {patch : FilePatch} (hdry : options.dryRun = false)
    (hfile : options.followLinks = false → ∃ location f, fs.NamesFile path location f)
    (h : (patchFile options path fs).result = .ok patch) :
    Relation.ReflGen (Repoints options.followLinks) fs ((patchFile options path).stateAfter fs) ∧
      ((patchFile options path).stateAfter fs).ReadsMarked path := by
  rcases patchFile_cases options path fs with ⟨⟨e, hresult⟩, -⟩ |
    ⟨data, hread, hmarked, -, hafter⟩ |
    ⟨directory, name, location, f, -, hmarked, hreadable, hstat, hnames, hleads, -, hafter⟩
  · simp [hresult] at h
  · rw [hafter]
    refine ⟨.refl, data, hread, ?_⟩
    simpa [hdry] using hmarked
  · rw [hafter]
    refine ⟨.single (.intro hleads ?_), _, ?_, allMarked_repoint f.data⟩
    · intro hfollow
      obtain ⟨place, g, directory', name', rfl, hentry, hget⟩ := hfile hfollow
      obtain ⟨rfl, rfl⟩ := hnames.unique hentry
      rcases hleads.cases with heq | ⟨text, k, hlink, -, -⟩
      · exact heq
      · simp [hget] at hlink
    · exact hleads.read_put_self hnames hstat hreadable

theorem patchFiles_repoints {patches : List FilePatch} (hdry : options.dryRun = false)
    (hfiles : options.followLinks = false → ∀ path ∈ files, ∃ location f, fs.NamesFile path location f)
    (h : (patchFiles options files fs).result = .ok patches) :
    Relation.ReflTransGen (Repoints options.followLinks) fs
        ((patchFiles options files).stateAfter fs) ∧
      ∀ path ∈ files, ((patchFiles options files).stateAfter fs).ReadsMarked path := by
  induction files generalizing fs patches with
  | nil =>
    rw [patchFiles_nil.2]
    exact ⟨.refl, by simp⟩
  | cons path rest ih =>
    obtain ⟨patch, more, hpatch, hmore, -⟩ := exists_of_patchFiles_cons h
    rw [(patchFiles_cons rest hpatch).2]
    obtain ⟨hfirst, hmarked⟩ :=
      patchFile_repoints hdry (fun hfollow => hfiles hfollow path List.mem_cons_self) hpatch
    have hrest : options.followLinks = false →
        ∀ p ∈ rest, ∃ location f,
          ((patchFile options path).stateAfter fs).NamesFile p location f := by
      intro hfollow p hp
      exact invariant_of_repoints (fun _ _ hstep => hstep.namesFile) hfirst.to_reflTransGen
        (hfiles hfollow p (List.mem_cons_of_mem _ hp))
    obtain ⟨hsteps, hall⟩ := ih hrest hmore
    refine ⟨hfirst.to_reflTransGen.trans hsteps, ?_⟩
    intro p hp
    rcases List.mem_cons.mp hp with rfl | hp
    · -- The patches that come after it leave a marked file marked.
      exact invariant_of_repoints (fun _ _ hstep => hstep.readsMarked) hsteps hmarked
    · exact hall p hp

/-! ## The whole run -/

theorem run_of_discover (options : Options) {roots : List Path}
    (h : (discover options.followLinks roots fs).result = .ok files) :
    (run options roots fs).result =
        (patchFiles options files fs).result.map (fun patches =>
          { scanned := files.length, patches := patches.filter (0 < ·.replacements) }) ∧
      (run options roots).stateAfter fs = (patchFiles options files).stateAfter fs := by
  rw [run, Job.bind_of_ok h, Job.stateAfter_bind_of_ok h, stateAfter_discover]
  cases hpatches : (patchFiles options files fs).result with
  | error e =>
    rw [Job.bind_of_error hpatches, Job.stateAfter_bind_of_error hpatches]
    exact ⟨rfl, rfl⟩
  | ok patches =>
    rw [Job.bind_of_ok hpatches, Job.stateAfter_bind_of_ok hpatches]
    exact ⟨rfl, rfl⟩

theorem run_of_discover_error {roots : List Path} {e : Error}
    (h : (discover options.followLinks roots fs).result = .error e) :
    (run options roots fs).result = .error e ∧ (run options roots).stateAfter fs = fs := by
  rw [run, Job.bind_of_error h, Job.stateAfter_bind_of_error h, stateAfter_discover]
  exact ⟨rfl, rfl⟩

theorem exists_of_run {roots : List Path} {report : Report}
    (h : (run options roots fs).result = .ok report) :
    ∃ files patches, (discover options.followLinks roots fs).result = .ok files ∧
      (patchFiles options files fs).result = .ok patches ∧
      report = { scanned := files.length, patches := patches.filter (0 < ·.replacements) } := by
  obtain ⟨files, hfiles, -⟩ := Job.result_bind_eq_ok.mp h
  rw [(run_of_discover options hfiles).1] at h
  obtain ⟨patches, hpatches, hreport⟩ := map_eq_ok.mp h
  exact ⟨files, patches, hfiles, hpatches, hreport.symm⟩

end Repoint
