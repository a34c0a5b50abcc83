import Mathlib.Algebra.BigOperators.Group.Finset.Basic
import Repoint.Proofs.Discovery.Blocks
import Repoint.Proofs.Program.Check
import Repoint.Proofs.Run.Bounds

/-!
# How often a file is counted

A file is found once for each root that it belongs to.
-/

namespace Repoint

open FileSystem

variable {fs : FileSystem} {options : Options} {roots found : List Path} {path : Path}
  {location : Location} {f : File} {files : List BuildFile} {patches : List FilePatch}

/-! ## Roots with files in common -/

/-- No build file belongs to both roots. -/
def FileSystem.ShareNothing (fs : FileSystem) (root other : Path) : Prop :=
  ∀ b c, fs.IsBuildFileOf root b → fs.IsBuildFileOf other c → b.place.location ≠ c.place.location

theorem exists_filesOf_of_discover (h : (discover false roots fs).result = .ok found) :
    ∃ filesOf : Path → List BuildFile, found = (roots.flatMap filesOf).map (·.place.path) ∧
      ∀ root ∈ roots, ListsRoot fs root (foundAt false fs root) (filesOf root) := by
  have hroots : ∀ root ∈ roots, ∃ files, ListsRoot fs root (foundAt false fs root) files := by
    intro root hroot
    obtain ⟨block, hblock⟩ := discover_succeeds_iff.mp ⟨found, h⟩ root hroot
    have hat : foundAt false fs root = block := by rw [foundAt, hblock]
    rw [hat]
    exact discoverRoot_lists hblock
  choose! filesOf hlists using hroots
  refine ⟨filesOf, ?_, hlists⟩
  rw [discover_eq_flatMap h, List.map_flatMap]
  exact List.flatMap_congr fun root hroot => (hlists root hroot).found_eq

theorem distinct_flatMap_iff {filesOf : Path → List BuildFile}
    (hlists : ∀ root ∈ roots, ListsRoot fs root (foundAt false fs root) (filesOf root)) :
    (roots.flatMap filesOf).Pairwise (fun a b => a.place.location ≠ b.place.location) ↔
      roots.Pairwise fs.ShareNothing := by
  rw [List.pairwise_flatMap]
  have hwithin : ∀ root ∈ roots,
      (filesOf root).Pairwise fun a b => a.place.location ≠ b.place.location :=
    fun root hroot => (hlists root hroot).distinct
  constructor
  · rintro ⟨-, hacross⟩
    apply hacross.imp_of_mem
    intro root other hroot hother hne b c hb hc
    exact hne b ((hlists root hroot).mem_iff b |>.mpr hb) c ((hlists other hother).mem_iff c |>.mpr hc)
  · intro hshare
    refine ⟨hwithin, hshare.imp_of_mem ?_⟩
    intro root other hroot hother hnothing b hb c hc
    exact hnothing b c ((hlists root hroot).mem_iff b |>.mp hb) ((hlists other hother).mem_iff c |>.mp hc)

/-! ## What a run reports of different files -/

theorem FileSystem.NamesFile.data_eq {data : Bytes} (h : fs.NamesFile path location f)
    (hread : fs.read path = .ok data) : data = f.data := by
  obtain ⟨⟨place, e⟩, hstat, -⟩ := bind_eq_ok.mp hread
  exact ((read_eq_ok_iff (h.stat_eq_ok (stat_eq_ok_iff.mp hstat).1)).mp hread).2.symm

theorem filter_patches_of_distinct
    (hnames : ∀ b ∈ files, fs.NamesFile b.place.path b.place.location b.file)
    (hdistinct : files.Pairwise fun a b => a.place.location ≠ b.place.location)
    (h : (patchFiles options (files.map (·.place.path)) fs).result = .ok patches) :
    patches.filter (0 < ·.replacements) =
      (files.filter (·.file.IsDue)).map fun b =>
        .ofData b.place.path b.file.data (!options.dryRun) := by
  cases hdry : options.dryRun with
  | false =>
    obtain ⟨rfl, -, -⟩ := patchFiles_effect hdry hnames hdistinct h
    exact filter_patches files
  | true =>
    have hread := List.forall₂_map_left_iff.mp ((patchFiles_of_dryRun hdry).mp h)
    have hpatches : files.map (fun b => .ofData b.place.path b.file.data false) = patches := by
      rw [← List.forall₂_eq_eq_eq, List.forall₂_map_left_iff]
      refine ((List.forall₂_and_left _ _).mpr ⟨hnames, hread⟩).imp ?_
      rintro b patch ⟨hfile, data, hdata, rfl⟩
      rw [hfile.data_eq hdata]
    rw [← hpatches, List.filter_map]
    congr 1
    apply List.filter_congr
    intro b _
    simp [FilePatch.ofData, replacements_pos_iff]

/-! ## Counting -/

/-- How many references the file at a location has to change. -/
def FileSystem.pendingAt (fs : FileSystem) (location : Location) : Nat :=
  match fs.get? location with
  | some (.file f) => (eligible f.data).card
  | _ => 0

theorem FileSystem.NamesFile.pendingAt_eq (h : fs.NamesFile path location f) :
    fs.pendingAt location = (repoint f.data).replacements := by
  obtain ⟨directory, name, rfl, -, hget⟩ := h
  rw [replacements_eq_card, pendingAt, hget]

/-- Every one of these files is counted once: each as one that was visited, those with references to
change as pending, and each of these references. -/
structure Report.CountsOnce (report : Report) (fs : FileSystem) (visited : Finset Location) : Prop where
  scanned_eq : report.scanned = visited.card
  pending_eq : report.patches.length = (visited.filter (0 < fs.pendingAt ·)).card
  total_eq : report.total.toNat = (∑ location ∈ visited, fs.pendingAt location) % 2 ^ 64

theorem filter_pendingAt (hnames : ∀ b ∈ files, fs.NamesFile b.place.path b.place.location b.file) :
    (files.map (·.place.location)).toFinset.filter (0 < fs.pendingAt ·) =
      ((files.filter (·.file.IsDue)).map (·.place.location)).toFinset := by
  have hpending : ∀ b ∈ files, 0 < fs.pendingAt b.place.location ↔ b.file.IsDue := by
    intro b hb
    rw [(hnames b hb).pendingAt_eq, replacements_pos_iff]
  ext location
  simp only [Finset.mem_filter, List.mem_toFinset, List.mem_map, List.mem_filter, decide_eq_true_eq]
  constructor
  · rintro ⟨⟨b, hb, rfl⟩, hpos⟩
    exact ⟨b, ⟨hb, (hpending b hb).mp hpos⟩, rfl⟩
  · rintro ⟨b, ⟨hb, hdue⟩, rfl⟩
    exact ⟨⟨b, hb, rfl⟩, (hpending b hb).mpr hdue⟩

theorem countsOnce_of_distinct
    (hnames : ∀ b ∈ files, fs.NamesFile b.place.path b.place.location b.file)
    (hdistinct : files.Pairwise fun a b => a.place.location ≠ b.place.location)
    (h : (patchFiles options (files.map (·.place.path)) fs).result = .ok patches) :
    Report.CountsOnce { scanned := files.length, patches := patches.filter (0 < ·.replacements) } fs
      (files.map (·.place.location)).toFinset := by
  have hnodup : (files.map (·.place.location)).Nodup := List.pairwise_map.mpr hdistinct
  -- Different places stay different when the files with nothing to change are left out.
  have hdue : ((files.filter (·.file.IsDue)).map (·.place.location)).Nodup :=
    hnodup.sublist (List.filter_sublist.map _)
  rw [filter_patches_of_distinct hnames hdistinct h]
  refine ⟨?_, ?_, ?_⟩
  · rw [List.toFinset_card_of_nodup hnodup, List.length_map]
  · rw [filter_pendingAt hnames, List.toFinset_card_of_nodup hdue, List.length_map, List.length_map]
  · have hsum : ∑ location ∈ (files.map (·.place.location)).toFinset, fs.pendingAt location =
        ((files.filter (·.file.IsDue)).map fun b => (repoint b.file.data).replacements).sum := by
      rw [← Finset.sum_filter_of_ne fun location _ hne => Nat.pos_of_ne_zero hne, filter_pendingAt hnames,
        List.sum_toFinset _ hdue, List.map_map]
      congr 1
      apply List.map_congr_left
      intro b hb
      exact (hnames b (List.mem_of_mem_filter hb)).pendingAt_eq
    rw [Report.total, toNat_totalReplacements, List.map_map, hsum]
    rfl

/-! ## Checking -/

/-- The program is called to check these roots without following links. The run ends with this report,
and its patches can be written if that is asked for. -/
def Invocation.Checks (invocation : Invocation) (roots : List Path) (fs : FileSystem)
    (report : Report) : Prop :=
  ∃ settings, Settings.parse invocation.arguments = .ok settings ∧ settings.has .check ∧
    ¬ settings.has .followSymlinks ∧ settings.roots = roots ∧
    (run settings.options roots fs).result = .ok report ∧
    (settings.write report.patches { room := invocation.room }).2 = none

theorem Invocation.Checks.exists_run {invocation : Invocation} {report : Report}
    (h : invocation.Checks roots fs report) :
    ∃ options : Options, options.followLinks = false ∧ (run options roots fs).result = .ok report := by
  obtain ⟨settings, -, -, hfollow, -, hrun, -⟩ := h
  exact ⟨settings.options, by simpa [Settings.options] using hfollow, hrun⟩

theorem Invocation.Checks.suffix_stderr {invocation : Invocation} {report : Report}
    (h : invocation.Checks roots fs report) (hpending : report.patches ≠ []) :
    errorText (pendingMessage report) ++ [newline] <:+ (program invocation fs).stderr := by
  obtain ⟨settings, hparse, hcheck, -, rfl, hrun, hwrite⟩ := h
  have hfinish : (settings.finish { room := invocation.room } (.ok report)).2 =
      some (.pending report) := by
    simp only [Settings.finish]
    split
    · next heq => simp [heq] at hwrite
    · rw [if_pos ⟨hcheck, hpending⟩]
  rw [program_of_parse hparse]
  simp only [Settings.execute, hrun, hfinish, Failure.message, List.append_assoc]
  exact List.suffix_append _ _

/-! ## Counted once -/

/-- **Counting.** A run counts each file once exactly when no two of the roots have a file in common. -/
theorem files_counted_once (roots : List Path) (fs : FileSystem) (found : List Path)
    (h : (discover false roots fs).result = .ok found) :
    ∃ filesOf : Path → List BuildFile,
      found = (roots.flatMap filesOf).map (·.place.path) ∧
      (∀ root ∈ roots, (∀ b, b ∈ filesOf root ↔ fs.IsBuildFileOf root b) ∧
        ((filesOf root).map (·.place.location)).Nodup) ∧
      (((roots.flatMap filesOf).map (·.place.location)).Nodup ↔ roots.Pairwise fs.ShareNothing) ∧
      (roots.Pairwise fs.ShareNothing → ∃ visited : Finset Location,
        (∀ location, location ∈ visited ↔
          ∃ root ∈ roots, ∃ b, fs.IsBuildFileOf root b ∧ b.place.location = location) ∧
        (∀ options report, options.followLinks = false → (run options roots fs).result = .ok report →
          report.CountsOnce fs visited) ∧
        ∀ invocation report, Invocation.Checks invocation roots fs report →
          report.CountsOnce fs visited ∧
          (report.patches ≠ [] →
            errorText (pendingMessage report) ++ [newline] <:+ (program invocation fs).stderr)) := by
  obtain ⟨filesOf, rfl, hlists⟩ := exists_filesOf_of_discover h
  refine ⟨filesOf, rfl, ?_, ?_, ?_⟩
  · intro root hroot
    exact ⟨(hlists root hroot).mem_iff, List.pairwise_map.mpr (hlists root hroot).distinct⟩
  · rw [← distinct_flatMap_iff hlists]
    exact List.pairwise_map
  · intro hshare
    have hnames : ∀ b ∈ roots.flatMap filesOf, fs.NamesFile b.place.path b.place.location b.file := by
      intro b hb
      obtain ⟨root, hroot, hb⟩ := List.mem_flatMap.mp hb
      exact ((hlists root hroot).mem_iff b |>.mp hb).namesFile
    have hcounts : ∀ (options : Options) (report : Report), options.followLinks = false →
        (run options roots fs).result = .ok report →
        report.CountsOnce fs ((roots.flatMap filesOf).map (·.place.location)).toFinset := by
      intro options report hfollow hrun
      obtain ⟨files, patches, hfiles, hpatches, rfl⟩ := exists_of_run hrun
      rw [hfollow, h, Except.ok.injEq] at hfiles
      subst hfiles
      rw [List.length_map]
      exact countsOnce_of_distinct hnames ((distinct_flatMap_iff hlists).mpr hshare) hpatches
    refine ⟨_, ?_, hcounts, ?_⟩
    · intro location
      simp only [List.mem_toFinset, List.mem_map, List.mem_flatMap]
      constructor
      · rintro ⟨b, ⟨root, hroot, hb⟩, rfl⟩
        exact ⟨root, hroot, b, (hlists root hroot).mem_iff b |>.mp hb, rfl⟩
      · rintro ⟨root, hroot, b, hb, rfl⟩
        exact ⟨b, ⟨root, hroot, (hlists root hroot).mem_iff b |>.mpr hb⟩, rfl⟩
    · intro invocation report hchecks
      obtain ⟨options, hfollow, hrun⟩ := hchecks.exists_run
      exact ⟨hcounts options report hfollow hrun, hchecks.suffix_stderr⟩

theorem files_counted_once_hyphenTree :
    let roots := [ascii "src/a", ascii "src/a-b"]
    let check : Invocation := { arguments := ascii "--check" :: roots }
    let report : Report :=
      { scanned := 2
        patches :=
          [⟨ascii "src/a/CMakeLists.txt", 1, 1, false⟩, ⟨ascii "src/a-b/CMakeLists.txt", 1, 1, false⟩] }
    (discover false roots hyphenTree).result =
        .ok [ascii "src/a/CMakeLists.txt", ascii "src/a-b/CMakeLists.txt"] ∧
      roots.Pairwise hyphenTree.ShareNothing ∧ check.Checks roots hyphenTree report ∧
      ∃ visited : Finset Location, visited.card = 2 ∧
        (∀ location, location ∈ visited ↔
          ∃ root ∈ roots, ∃ b, hyphenTree.IsBuildFileOf root b ∧ b.place.location = location) ∧
        (visited.filter (0 < hyphenTree.pendingAt ·)).card = 2 ∧
        errorText (pendingMessage report) ++ [newline] <:+ (program check hyphenTree).stderr := by
  intro roots check report
  have hfound : (discover false roots hyphenTree).result =
      .ok [ascii "src/a/CMakeLists.txt", ascii "src/a-b/CMakeLists.txt"] := by decide +kernel
  have hcheck : check.Checks roots hyphenTree report :=
    ⟨{ paths := roots, flags := [.check] }, by decide +kernel, rfl, by decide, by decide,
      by decide +kernel, rfl⟩
  let src := Location.root.child ⟨ascii "src", by decide⟩
  have hfirst : hyphenTree.stat (ascii "src/a") =
      .ok (src.child ⟨ascii "a", by decide⟩, .directory 0o755) := by decide +kernel
  have hsecond : hyphenTree.stat (ascii "src/a-b") =
      .ok (src.child ⟨ascii "a-b", by decide⟩, .directory 0o755) := by decide +kernel
  have hshare : roots.Pairwise hyphenTree.ShareNothing := by
    refine List.pairwise_pair.mpr ?_
    intro b c hb hc heq
    obtain ⟨-, hb⟩ := (isBuildFileOf_of_directory hfirst).mp hb
    obtain ⟨-, hc⟩ := (isBuildFileOf_of_directory hsecond).mp hc
    have hnames := congrArg Location.names heq
    rw [hb, hc, Place.names_below, Place.names_below] at hnames
    -- The names of the two directories differ, whatever comes below them.
    have htops := List.append_inj_right' hnames rfl
    exact absurd htops (by decide)
  obtain ⟨filesOf, -, -, -, hcounted⟩ := files_counted_once roots hyphenTree _ hfound
  obtain ⟨visited, hvisited, -, hchecks⟩ := hcounted hshare
  obtain ⟨hcounts, hstderr⟩ := hchecks check report hcheck
  exact ⟨hfound, hshare, hcheck, visited, hcounts.scanned_eq.symm, hvisited, hcounts.pending_eq.symm,
    hstderr (by decide)⟩

/-- A root that is given twice has its one file found, and told of, twice. -/
theorem file_counted_twice :
    let roots := [ascii "src/a", ascii "src/a"]
    let location := ((Location.root.child ⟨ascii "src", by decide⟩).child ⟨ascii "a", by decide⟩).child
      ⟨buildFileName, by decide⟩
    (discover false roots hyphenTree).result =
        .ok [ascii "src/a/CMakeLists.txt", ascii "src/a/CMakeLists.txt"] ∧
      hyphenTree.pendingAt location = 1 ∧
      (∃ patches, (run { dryRun := true } roots hyphenTree).result = .ok { scanned := 2, patches }) ∧
      (program { arguments := ascii "--check" :: roots } hyphenTree).stderr =
        ascii "error: 2 files still reference " ++ sourceDir ++
          ascii " outside the submodule (2 occurrences)\n" := by
  let patch : FilePatch := ⟨ascii "src/a/CMakeLists.txt", 1, 1, false⟩
  exact ⟨by decide +kernel, by decide +kernel, ⟨[patch, patch], by decide +kernel⟩, by decide +kernel⟩

end Repoint
