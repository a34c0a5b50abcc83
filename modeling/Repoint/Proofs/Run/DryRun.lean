import Repoint.Proofs.Run.Crash
import Repoint.Proofs.Run.Effect
import Repoint.Proofs.Run.Frame

/-!
# A dry run and the real one

The real run reads what its own patches have left, and so reports fewer patches than the dry run.
-/

namespace Repoint

open FileSystem

variable {fs now : FileSystem} {path : Path} {options real dry : Options} {roots files : List Path}
  {patches told : List FilePatch}

/-- What a dry run reports of the same file. -/
def FilePatch.unwritten (patch : FilePatch) : FilePatch := { patch with written := false }

/-! ## Reading -/

theorem exists_read_of_patchFile {patch : FilePatch}
    (h : (patchFile options path fs).result = .ok patch) :
    ∃ data written, fs.read path = .ok data ∧ patch = .ofData path data written := by
  rcases patchFile_cases options path fs with ⟨⟨e, hresult⟩, -⟩ | ⟨data, hread, -, hresult, -⟩ |
    ⟨directory, name, location, f, -, -, hreadable, hstat, -, -, hresult, -⟩
  · simp [hresult] at h
  · rw [hresult, Except.ok.injEq] at h
    exact ⟨data, false, hread, h.symm⟩
  · rw [hresult, Except.ok.injEq] at h
    exact ⟨f.data, true, (read_eq_ok_iff hstat).mpr ⟨hreadable, rfl⟩, h.symm⟩

theorem read_before_patches {data : Bytes} (hsteps : Relation.ReflTransGen (Repoints true) fs now)
    (hfound : fs.IsFound path) (hread : now.read path = .ok data) :
    ∃ before, fs.read path = .ok before ∧ (data = before ∨ AllMarked data) := by
  obtain ⟨⟨place, e⟩, hstat, -⟩ := bind_eq_ok.mp hread
  obtain ⟨location, f, hbefore⟩ := hfound.stat (stat_eq_ok_iff.mp hstat).1
  have hcopy : now.LeadsToCopy path f := OnTheWay.leadsToCopy ⟨now, hsteps, .inl rfl⟩ hbefore
  rcases hcopy.read hbefore with hsame | hmarked
  · exact ⟨data, hsame ▸ hread, .inl rfl⟩
  · obtain ⟨before, hdata, rfl⟩ := map_eq_ok.mp (hmarked.symm.trans hread)
    exact ⟨before, hdata, .inr (allMarked_repoint before)⟩

/-! ## Files that are only read -/

theorem patchFile_of_dryRun {data : Bytes} (hdry : options.dryRun = true)
    (hread : fs.read path = .ok data) :
    (patchFile options path fs).result = .ok (.ofData path data false) ∧
      (patchFile options path).stateAfter fs = fs := by
  unfold patchFile
  rw [Job.inspect_bind_of_ok hread, Job.stateAfter_inspect_bind_of_ok hread]
  dsimp only
  by_cases hmarked : AllMarked data
  · rw [if_pos (not_changed_iff.mpr hmarked)]
    exact ⟨rfl, rfl⟩
  · rw [if_neg (mt not_changed_iff.mp hmarked), if_pos hdry]
    exact ⟨rfl, rfl⟩

theorem patchFiles_of_dryRun (hdry : options.dryRun = true) :
    (patchFiles options files fs).result = .ok told ↔
      List.Forall₂ (fun path patch => ∃ data, fs.read path = .ok data ∧
        patch = .ofData path data false) files told := by
  induction files generalizing told with
  | nil =>
    rw [patchFiles_nil.1, List.forall₂_nil_left_iff, Except.ok.injEq, eq_comm]
  | cons path rest ih =>
    rw [List.forall₂_cons_left_iff]
    constructor
    · intro h
      obtain ⟨patch, more, hpatch, hmore, rfl⟩ := exists_of_patchFiles_cons h
      obtain ⟨data, written, hread, -⟩ := exists_read_of_patchFile hpatch
      obtain ⟨hresult, hsame⟩ := patchFile_of_dryRun hdry hread
      rw [hresult, Except.ok.injEq] at hpatch
      rw [hsame] at hmore
      exact ⟨patch, more, ⟨data, hread, hpatch.symm⟩, ih.mp hmore, rfl⟩
    · rintro ⟨patch, more, ⟨data, hread, rfl⟩, hmore, rfl⟩
      obtain ⟨hresult, hsame⟩ := patchFile_of_dryRun hdry hread
      rw [(patchFiles_cons rest hresult).1, hsame, ih.mpr hmore]
      rfl

/-! ## Side by side -/

theorem replacements_ofData_pos_iff {data : Bytes} {written : Bool} :
    0 < (FilePatch.ofData path data written).replacements ↔ ¬ AllMarked data := by
  rw [← repoint_replacements_eq_zero_iff, Nat.pos_iff_ne_zero]
  rfl

theorem patchFiles_sublist (hdry : dry.dryRun = true) (hfound : ∀ path ∈ files, fs.IsFound path)
    (hsteps : Relation.ReflTransGen (Repoints true) fs now)
    (h : (patchFiles real files now).result = .ok patches) :
    ∃ told, (patchFiles dry files fs).result = .ok told ∧
      ((patches.filter (0 < ·.replacements)).map FilePatch.unwritten).Sublist
        (told.filter (0 < ·.replacements)) := by
  simp only [patchFiles_of_dryRun hdry]
  -- The real run has come as far as `now`, and the dry run still sees what was there before.
  induction files generalizing now patches with
  | nil =>
    obtain rfl : [] = patches := Except.ok.inj h
    exact ⟨[], .nil, .slnil⟩
  | cons path rest ih =>
    obtain ⟨patch, more, hpatch, hmore, rfl⟩ := exists_of_patchFiles_cons h
    obtain ⟨data, written, hread, rfl⟩ := exists_read_of_patchFile hpatch
    obtain ⟨before, hbefore, hdata⟩ := read_before_patches hsteps (hfound path List.mem_cons_self) hread
    obtain ⟨told, htold, hsub⟩ := ih (fun p hp => hfound p (List.mem_cons_of_mem _ hp))
      (hsteps.trans (patchFile_steps real path now)) hmore
    refine ⟨.ofData path before false :: told, .cons ⟨before, hbefore, rfl⟩ htold, ?_⟩
    by_cases hmarked : AllMarked data
    · -- The real run has nothing to report here, whatever the dry run says.
      rw [List.filter_cons_of_neg (by simpa [replacements_ofData_pos_iff] using hmarked)]
      exact hsub.trans ((List.sublist_cons_self _ _).filter _)
    · obtain rfl := hdata.resolve_right hmarked
      rw [List.filter_cons_of_pos (by simpa [replacements_ofData_pos_iff] using hmarked),
        List.filter_cons_of_pos (by simpa [replacements_ofData_pos_iff] using hmarked),
        List.map_cons]
      exact hsub.cons_cons _

theorem patchFiles_unwritten {buildFiles : List BuildFile} (hreal : real.dryRun = false)
    (hdry : dry.dryRun = true)
    (hnames : ∀ b ∈ buildFiles, fs.NamesFile b.place.path b.place.location b.file)
    (hdistinct : buildFiles.Pairwise fun a b => a.place.location ≠ b.place.location)
    (h : (patchFiles real (buildFiles.map (·.place.path)) fs).result = .ok patches)
    (htold : (patchFiles dry (buildFiles.map (·.place.path)) fs).result = .ok told) :
    patches.map FilePatch.unwritten = told := by
  obtain ⟨rfl, -, -⟩ := patchFiles_effect hreal hnames hdistinct h
  have hread := List.forall₂_map_left_iff.mp ((patchFiles_of_dryRun hdry).mp htold)
  have hsame := (List.forall₂_and_left _ _).mpr ⟨hnames, hread⟩
  rw [List.map_map, ← List.forall₂_eq_eq_eq, List.forall₂_map_left_iff]
  refine hsame.imp ?_
  rintro b patch ⟨hfile, data, hdata, rfl⟩
  obtain ⟨⟨place, e⟩, hstat, -⟩ := bind_eq_ok.mp hdata
  obtain ⟨-, rfl⟩ := (read_eq_ok_iff (hfile.stat_eq_ok (stat_eq_ok_iff.mp hstat).1)).mp hdata
  rfl

theorem filter_map_unwritten (patches : List FilePatch) :
    (patches.map FilePatch.unwritten).filter (0 < ·.replacements) =
      (patches.filter (0 < ·.replacements)).map FilePatch.unwritten :=
  List.filter_map

/-! ## Runs without a patch -/

theorem readsMarked_of_patchFiles (h : (patchFiles options files fs).result = .ok patches)
    (hzero : ∀ patch ∈ patches, patch.replacements = 0) : ∀ path ∈ files, fs.ReadsMarked path := by
  induction files generalizing patches with
  | nil => simp
  | cons path rest ih =>
    obtain ⟨patch, more, hpatch, hmore, rfl⟩ := exists_of_patchFiles_cons h
    obtain ⟨hfirst, hrest⟩ := List.forall_mem_cons.mp hzero
    obtain ⟨data, written, hread, rfl⟩ := exists_read_of_patchFile hpatch
    have hmarked : AllMarked data := repoint_replacements_eq_zero_iff.mp hfirst
    rw [(patchFile_of_marked options hread hmarked).2] at hmore
    exact List.forall_mem_cons.mpr ⟨⟨data, hread, hmarked⟩, ih hmore hrest⟩

theorem filter_replacements_eq_nil_iff :
    patches.filter (0 < ·.replacements) = [] ↔ ∀ patch ∈ patches, patch.replacements = 0 := by
  simp [List.filter_eq_nil_iff]

theorem run_without_patches_iff :
    (∃ report, (run options roots fs).result = .ok report ∧ report.patches = []) ↔
      ∃ files, (discover options.followLinks roots fs).result = .ok files ∧
        ∀ path ∈ files, fs.ReadsMarked path := by
  constructor
  · rintro ⟨report, h, hnone⟩
    obtain ⟨files, patches, hfiles, hpatches, rfl⟩ := exists_of_run h
    exact ⟨files, hfiles, readsMarked_of_patchFiles hpatches
      (filter_replacements_eq_nil_iff.mp hnone)⟩
  · rintro ⟨files, hfiles, hmarked⟩
    obtain ⟨patches, hpatches, hzero, -⟩ := patchFiles_of_readsMarked options hmarked
    rw [(run_of_discover options hfiles).1, hpatches]
    exact ⟨_, rfl, filter_replacements_eq_nil_iff.mpr hzero⟩

theorem stateAfter_run_of_readsMarked
    (hfiles : (discover options.followLinks roots fs).result = .ok files)
    (hmarked : ∀ path ∈ files, fs.ReadsMarked path) : (run options roots).stateAfter fs = fs := by
  obtain ⟨-, -, -, hsame⟩ := patchFiles_of_readsMarked options hmarked
  rw [(run_of_discover options hfiles).2, hsame]

/-! ## The whole run -/

theorem run_sublist (real dry : Options) {report : Report} (hdry : dry.dryRun = true)
    (hfollow : dry.followLinks = real.followLinks) (h : (run real roots fs).result = .ok report) :
    ∃ told, (run dry roots fs).result = .ok told ∧ told.scanned = report.scanned ∧
      (report.patches.map FilePatch.unwritten).Sublist told.patches := by
  obtain ⟨files, patches, hfiles, hpatches, rfl⟩ := exists_of_run h
  obtain ⟨told, htold, hsub⟩ :=
    patchFiles_sublist hdry (isFound_of_discover hfiles) .refl hpatches
  rw [(run_of_discover dry (hfollow ▸ hfiles)).1, htold]
  exact ⟨_, rfl, rfl, hsub⟩

theorem run_unwritten (real dry : Options) {root : Path} {report answer : Report}
    (hreal : real.dryRun = false) (hdry : dry.dryRun = true) (hfollow : real.followLinks = false)
    (hfollow' : dry.followLinks = false) (h : (run real [root] fs).result = .ok report)
    (hanswer : (run dry [root] fs).result = .ok answer) :
    report.patches.map FilePatch.unwritten = answer.patches := by
  obtain ⟨files, patches, hfiles, hpatches, rfl⟩ := exists_of_run h
  obtain ⟨files', told, hfiles', htold, rfl⟩ := exists_of_run hanswer
  rw [hfollow] at hfiles
  rw [hfollow', hfiles, Except.ok.injEq] at hfiles'
  subst hfiles'
  obtain ⟨buildFiles, hlists⟩ := discoverRoot_lists (discover_singleton_eq_ok_iff.mp hfiles)
  obtain rfl := hlists.found_eq
  have hnames : ∀ b ∈ buildFiles, fs.NamesFile b.place.path b.place.location b.file := by
    intro b hb
    exact ((hlists.mem_iff b).mp hb).namesFile
  rw [← patchFiles_unwritten hreal hdry hnames hlists.distinct hpatches htold]
  exact (filter_map_unwritten patches).symm

/-- **Dry run.** A dry run changes nothing, and reports every patch that the real run makes, and no
other with one root and links not followed. -/
theorem run_dryRun (options : Options) (roots : List Path) (fs : FileSystem) :
    let real := run { options with dryRun := false } roots
    let dry := run { options with dryRun := true } roots
    dry.stateAfter fs = fs ∧
    (∀ report, (real fs).result = .ok report →
      ∃ told, (dry fs).result = .ok told ∧ told.scanned = report.scanned ∧
        (report.patches.map FilePatch.unwritten).Sublist told.patches ∧
        (roots.length = 1 → options.followLinks = false →
          report.patches.map FilePatch.unwritten = told.patches)) ∧
    (∀ told, (dry fs).result = .ok told → told.patches = [] →
      (∃ report, (real fs).result = .ok report ∧ report.patches = []) ∧ real.stateAfter fs = fs) ∧
    (∀ told report, (dry fs).result = .ok told → told.patches ≠ [] →
      (real fs).result = .ok report → report.patches ≠ []) := by
  intro real dry
  refine ⟨stateAfter_run_of_dryRun rfl roots fs, ?_, ?_, ?_⟩
  · intro report h
    obtain ⟨told, htold, hscanned, hsub⟩ :=
      run_sublist { options with dryRun := false } { options with dryRun := true } rfl rfl h
    refine ⟨told, htold, hscanned, hsub, ?_⟩
    intro hone hfollow
    obtain ⟨root, rfl⟩ := List.length_eq_one_iff.mp hone
    exact run_unwritten { options with dryRun := false } { options with dryRun := true } rfl rfl
      hfollow hfollow h htold
  · intro told htold hnone
    obtain ⟨files, hfiles, hmarked⟩ := run_without_patches_iff.mp ⟨told, htold, hnone⟩
    exact ⟨run_without_patches_iff.mpr ⟨files, hfiles, hmarked⟩,
      stateAfter_run_of_readsMarked hfiles hmarked⟩
  · intro told report htold hsome h hnone
    have hmarked := run_without_patches_iff.mp ⟨report, h, hnone⟩
    obtain ⟨told', htold', hnone'⟩ :
        ∃ told, (dry fs).result = .ok told ∧ told.patches = [] := run_without_patches_iff.mpr hmarked
    rw [htold', Except.ok.injEq] at htold
    exact hsome (htold ▸ hnone')

/-- With links followed and a root inside the other, the dry run comes to the file below `src/lib` twice,
and the real run has patched it when it comes there again. -/
theorem run_dryRun_sampleTree :
    let report : Report :=
      { scanned := 4
        patches :=
          [⟨ascii "top/CMakeLists.txt", 1, 1, true⟩, ⟨ascii "top/app/CMakeLists.txt", 1, 1, true⟩,
            ⟨ascii "top/lib/CMakeLists.txt", 1, 1, true⟩] }
    let one : Report :=
      { scanned := 2
        patches :=
          [⟨ascii "top/CMakeLists.txt", 1, 1, true⟩, ⟨ascii "top/lib/CMakeLists.txt", 1, 1, true⟩] }
    let patched := (run {} [ascii "top"]).stateAfter sampleTree
    (run { followLinks := true } [ascii "top", ascii "src/lib"] sampleTree).result = .ok report ∧
    (∃ told,
      (run { followLinks := true, dryRun := true } [ascii "top", ascii "src/lib"] sampleTree).result =
        .ok told ∧ told.scanned = report.scanned ∧
      (report.patches.map FilePatch.unwritten).Sublist told.patches) ∧
    (run {} [ascii "top"] sampleTree).result = .ok one ∧
    (∃ told, (run { dryRun := true } [ascii "top"] sampleTree).result = .ok told ∧
      one.patches.map FilePatch.unwritten = told.patches ∧ told.patches ≠ [] ∧ one.patches ≠ []) ∧
    (run { dryRun := true } [ascii "top"] patched).result = .ok { scanned := 2, patches := [] } ∧
    (∃ none, (run {} [ascii "top"] patched).result = .ok none ∧ none.patches = []) ∧
    (run {} [ascii "top"]).stateAfter patched = patched := by
  intro report one patched
  have hmany : (run { followLinks := true } [ascii "top", ascii "src/lib"] sampleTree).result =
      .ok report := by decide +kernel
  have hone : (run {} [ascii "top"] sampleTree).result = .ok one := by decide +kernel
  have hnone : (run { dryRun := true } [ascii "top"] patched).result =
      .ok { scanned := 2, patches := [] } := by decide +kernel
  obtain ⟨-, hfollowed, -, -⟩ :=
    run_dryRun { followLinks := true } [ascii "top", ascii "src/lib"] sampleTree
  obtain ⟨-, hsingle, -, hboth⟩ := run_dryRun {} [ascii "top"] sampleTree
  obtain ⟨-, -, hempty, -⟩ := run_dryRun {} [ascii "top"] patched
  obtain ⟨told, htold, hscanned, hsub, -⟩ := hfollowed report hmany
  obtain ⟨single, hsingle, -, -, hequal⟩ := hsingle one hone
  have hequal := hequal rfl rfl
  have hsome : single.patches ≠ [] := by simp [← hequal, one]
  obtain ⟨hreport, hsame⟩ := hempty _ hnone rfl
  exact ⟨hmany, ⟨told, htold, hscanned, hsub⟩, hone,
    ⟨single, hsingle, hequal, hsome, hboth single one hsingle hsome hone⟩, hnone, hreport, hsame⟩

end Repoint
