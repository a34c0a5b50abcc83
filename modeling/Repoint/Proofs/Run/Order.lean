import Mathlib.Data.List.Perm.Basic
import Repoint.Proofs.Discovery.Blocks
import Repoint.Proofs.FileSystem.Passing
import Repoint.Proofs.Run.Crash
import Repoint.Proofs.Run.Frame
import Repoint.Proofs.Run.Idempotence

/-!
# The order of the roots

What a path reads after a run can be told from the file system before it and the set of the files.
-/

namespace Repoint

open FileSystem

variable {fs fs' : FileSystem} {path other : Path} {options : Options}
  {roots roots' files files' : List Path} {patches : List FilePatch} {directory location : Location}
  {name : Name} {f : File} {e : Entry} {follow : Bool}

/-! ## Paths that come by files -/

/-- A path comes by the entry that one of the files names. -/
def FileSystem.ComesByOneOf (fs : FileSystem) (path : Path) (files : List Path) : Prop :=
  ∃ other ∈ files, ∃ directory name, fs.NamesEntry other directory name ∧
    fs.ComesBy path (directory.child name)

/-- The path names an entry that leads to a file. -/
def FileSystem.NamesFileOrLink (fs : FileSystem) (path : Path) : Prop :=
  ∃ directory name location f, fs.NamesEntry path directory name ∧
    fs.LeadsToFile directory name location f

theorem namesFileOrLink_of_stat (h : fs.stat path = .ok (location, .file f)) :
    fs.NamesFileOrLink path := by
  obtain ⟨directory, name, -, hnames, -⟩ := exists_namesEntry_of_stat h
  obtain ⟨-, hto, hget⟩ := stat_eq_ok_iff.mp h
  exact ⟨directory, name, location, f, hnames, hnames.leads_of_leadsTo hto, hget⟩

theorem FileSystem.LeadsToFile.namesFileOrLink_put (h : fs.LeadsToFile directory name location f)
    (g : File) (hnames : fs.NamesFileOrLink path) :
    (fs.put (directory.child name) (.file g)).NamesFileOrLink path := by
  obtain ⟨directory', name', location', f', hentry, h'⟩ := hnames
  obtain ⟨location'', f'', h''⟩ := h.leadsToFile_put g h'
  exact ⟨directory', name', location'', f'', h.namesEntry_put g hentry, h''⟩

theorem FileSystem.LeadsToFile.comesByOneOf_of_put (h : fs.LeadsToFile directory name location f)
    {g : File} {place : Location} (hfiles : ∀ other ∈ files, fs.NamesFileOrLink other)
    (hstat : fs.stat path = .ok (place, e))
    (hcomes : (fs.put (directory.child name) (.file g)).ComesByOneOf path files) :
    fs.ComesByOneOf path files := by
  obtain ⟨other, hother, directory', name', hnames', hcomes⟩ := hcomes
  obtain ⟨directory'', name'', location'', f'', hnames, h''⟩ := hfiles other hother
  obtain ⟨rfl, rfl⟩ := (h.namesEntry_put g hnames).unique hnames'
  exact ⟨other, hother, directory'', name'', hnames, h.comesBy_of_put h'' hstat hcomes⟩

theorem stat_patchFiles_of_not_comesBy {place : Location}
    (hfiles : ∀ other ∈ files, fs.NamesFileOrLink other) (hstat : fs.stat path = .ok (place, e))
    (hnot : ¬ fs.ComesByOneOf path files) (h : (patchFiles options files fs).result = .ok patches) :
    ((patchFiles options files).stateAfter fs).stat path = .ok (place, e) := by
  induction files generalizing fs patches with
  | nil => exact hstat
  | cons first rest ih =>
    obtain ⟨-, hrest⟩ := List.forall_mem_cons.mp hfiles
    have hnot' : ¬ fs.ComesByOneOf path rest := by
      rintro ⟨other, hother, hcomes⟩
      exact hnot ⟨other, List.mem_cons_of_mem _ hother, hcomes⟩
    obtain ⟨patch, more, hpatch, hmore, -⟩ := exists_of_patchFiles_cons h
    rw [(patchFiles_cons rest hpatch).2]
    rcases patchFile_cases options first fs with ⟨⟨e, hresult⟩, -⟩ | ⟨data, -, -, -, hafter⟩ |
      ⟨directory, name, location, f, -, -, -, -, hnames, hleads, -, hafter⟩
    · simp [hresult] at hpatch
    · rw [hafter] at hmore ⊢
      exact ih hrest hstat hnot' hmore
    · rw [hafter] at hmore ⊢
      refine ih ?_ ?_ ?_ hmore
      · intro other hother
        exact hleads.namesFileOrLink_put _ (hrest other hother)
      · apply hleads.stat_put_of_not_comesBy _ hstat
        intro hcomes
        exact hnot ⟨first, List.mem_cons_self, directory, name, hnames, hcomes⟩
      · exact mt (hleads.comesByOneOf_of_put hrest hstat) hnot'

/-! ## Paths that come by a file that is marked in the end -/

/-- The path leads to a file that is marked, or comes by an entry that leads to a file. -/
structure FileSystem.MarkedOrComesBy (fs : FileSystem) (path : Path) (directory : Location)
    (name : Name) : Prop where
  leads : ∃ location f, fs.LeadsToFile directory name location f
  stat : ∃ place g, fs.stat path = .ok (place, .file g) ∧
    (AllMarked g.data ∨ fs.ComesBy path (directory.child name))

theorem FileSystem.Repoints.markedOrComesBy (h : Repoints follow fs fs')
    (hkept : fs.MarkedOrComesBy path directory name) : fs'.MarkedOrComesBy path directory name := by
  obtain ⟨⟨location, f, hleads⟩, place, g, hstat, hcases⟩ := hkept
  obtain @⟨directory', name', location', f', h', -⟩ := h
  refine ⟨h'.leadsToFile_put _ hleads, ?_⟩
  rcases h'.stat_put f'.repointed hstat with hsame | ⟨-, hafter⟩
  · refine ⟨place, g, hsame, ?_⟩
    rcases hcases with hmarked | hcomes
    · exact .inl hmarked
    · rcases h'.comesBy_put hleads hstat f'.repointed hcomes with hcomes' | hafter
      · exact .inr hcomes'
      · rw [hsame, Except.ok.injEq, Prod.mk.injEq, Entry.file.injEq] at hafter
        rw [hafter.2]
        exact .inl (allMarked_repoint f'.data)
  · exact ⟨_, _, hafter, .inl (allMarked_repoint f'.data)⟩

theorem FileSystem.ReadsMarked.allMarked (hmarked : fs.ReadsMarked path)
    (hnames : fs.NamesEntry path directory name) (hleads : fs.LeadsToFile directory name location f) :
    AllMarked f.data := by
  obtain ⟨data, hread, hdata⟩ := hmarked
  obtain ⟨⟨there, x⟩, hstat, -⟩ := bind_eq_ok.mp hread
  obtain ⟨-, hto, hget⟩ := stat_eq_ok_iff.mp hstat
  obtain ⟨k, hthere⟩ := hnames.leads_of_leadsTo hto
  obtain ⟨k', hlocation⟩ := hleads.leads
  obtain rfl := hthere.unique hlocation
  rw [hleads.file, Option.some.injEq] at hget
  subst hget
  obtain ⟨-, rfl⟩ := (read_eq_ok_iff hstat).mp hread
  exact hdata

theorem allMarked_of_comesBy {now : FileSystem} {place : Location}
    (hsteps : Relation.ReflTransGen (Repoints follow) fs now) (hmarked : now.ReadsMarked other)
    (hnames : fs.NamesEntry other directory name) (hleads : fs.LeadsToFile directory name location f)
    (hstat : fs.stat path = .ok (place, e)) (hcomes : fs.ComesBy path (directory.child name)) :
    ∃ place' g, now.stat path = .ok (place', .file g) ∧ AllMarked g.data := by
  obtain rfl := hcomes.eq_file hleads hstat
  obtain ⟨⟨location', f', hleads'⟩, place', g, hstat', hcases⟩ :
      now.MarkedOrComesBy path directory name :=
    invariant_of_repoints (fun _ _ hstep => hstep.markedOrComesBy) hsteps
      ⟨⟨location, f, hleads⟩, place, f, hstat, .inr hcomes⟩
  refine ⟨place', g, hstat', ?_⟩
  rcases hcases with hdone | hcomes'
  · exact hdone
  · -- The path leads to the same file as the entry.
    have hfile := hcomes'.eq_file hleads' hstat'
    rw [Entry.file.injEq] at hfile
    rw [hfile]
    have hentry : now.NamesEntry other directory name :=
      invariant_of_repoints (fun _ _ hstep => hstep.namesEntry) hsteps hnames
    exact hmarked.allMarked hentry hleads'

/-! ## What paths lead to after a run -/

theorem namesFileOrLink_of_discover {now : FileSystem}
    (hfiles : (discover follow roots fs).result = .ok files)
    (hmarked : ∀ path ∈ files, now.ReadsMarked path) : ∀ path ∈ files, fs.NamesFileOrLink path := by
  intro path hpath
  obtain ⟨data, hread, -⟩ := hmarked path hpath
  obtain ⟨⟨place, x⟩, hstat, -⟩ := bind_eq_ok.mp hread
  obtain ⟨location, f, hbefore⟩ :=
    (isFound_of_discover hfiles path hpath).stat (stat_eq_ok_iff.mp hstat).1
  exact namesFileOrLink_of_stat hbefore

theorem stat_after_patchFiles (hdry : options.dryRun = false)
    (hfiles : (discover options.followLinks roots fs).result = .ok files)
    (h : (patchFiles options files fs).result = .ok patches)
    (hstat : fs.stat path = .ok (location, .file f)) :
    ∃ place g, ((patchFiles options files).stateAfter fs).stat path = .ok (place, .file g) ∧
      g.mode = f.mode ∧
      (fs.ComesByOneOf path files → g.data = (repoint f.data).bytes) ∧
      (¬ fs.ComesByOneOf path files → g.data = f.data) := by
  obtain ⟨hsteps, hmarked⟩ :=
    repoints_of_discover hdry hfiles (List.Subset.refl files) h
  have hnames := namesFileOrLink_of_discover hfiles hmarked
  obtain ⟨place, g, hafter, hmode, hdata⟩ :=
    (patchFiles_throughout options files fs).atEnd.leadsToCopy hstat
  refine ⟨place, g, hafter, hmode, ?_, ?_⟩
  · rintro ⟨other, hother, directory, name, hentry, hcomes⟩
    obtain ⟨directory', name', location', f', hentry', hleads⟩ := hnames other hother
    obtain ⟨rfl, rfl⟩ := hentry.unique hentry'
    obtain ⟨place', g', hafter', hdone⟩ :=
      allMarked_of_comesBy hsteps (hmarked other hother) hentry hleads hstat hcomes
    rw [hafter, Except.ok.injEq, Prod.mk.injEq, Entry.file.injEq] at hafter'
    rw [← hafter'.2] at hdone
    -- Marked bytes that were left as they are come out of the rule as they are.
    rcases hdata with hsame | hrepointed
    · rw [hsame] at hdone ⊢
      exact (repoint_bytes_eq_iff.mpr hdone).symm
    · exact hrepointed
  · intro hnot
    have hsame := stat_patchFiles_of_not_comesBy hnames hstat hnot h
    rw [hafter, Except.ok.injEq, Prod.mk.injEq, Entry.file.injEq] at hsame
    rw [hsame.2]

/-! ## The files that are found -/

theorem discover_perm (hperm : roots.Perm roots')
    (h : (discover follow roots fs).result = .ok files)
    (h' : (discover follow roots' fs).result = .ok files') : files.Perm files' := by
  rw [discover_eq_flatMap h, discover_eq_flatMap h']
  exact hperm.flatMap_right _

theorem comesByOneOf_congr (h : files.Perm files') :
    fs.ComesByOneOf path files ↔ fs.ComesByOneOf path files' := by
  unfold FileSystem.ComesByOneOf
  simp only [h.mem_iff]

/-! ## Links not followed -/

theorem FileSystem.IsDueAt.get?_eq (hdue : fs.IsDueAt path location f)
    (hfiles : (discover false roots fs).result = .ok files) (hpath : path ∈ files) :
    fs.get? location = some (.file f) := by
  obtain ⟨root, -, b, -, -, hfile⟩ := hdue.exists_buildFile hfiles hpath
  obtain ⟨e, -, hget, hentry⟩ := hdue.lstat
  rw [hfile, Option.some.injEq] at hget
  subst hget
  rcases hentry with hentry | hlink
  · rw [hfile, hentry]
  · simp [Entry.isLink] at hlink

theorem get?_patchFiles_of_isDueAt (hdry : options.dryRun = false)
    (hfollow : options.followLinks = false) (hfiles : (discover false roots fs).result = .ok files)
    (h : (patchFiles options files fs).result = .ok patches) (hpath : path ∈ files)
    (hdue : fs.IsDueAt path location f) :
    ((patchFiles options files).stateAfter fs).get? location = some (.file f.repointed) := by
  have hfile := hdue.get?_eq hfiles hpath
  have hcases : ((patchFiles options files).stateAfter fs).get? location = fs.get? location ∨ _ :=
    patchFiles_changes (isFound_of_discover hfiles) location
  rcases hcases with hsame | ⟨path', hpath', f', hdue', hchanged⟩
  · -- A file that is left as it was would still be due.
    obtain ⟨hsteps, hmarked⟩ :=
      repoints_of_discover hdry (hfollow.symm ▸ hfiles) (List.Subset.refl files) h
    obtain ⟨directory, name, rfl, hnames⟩ := hdue.names
    have hentry := invariant_of_repoints (fun _ _ hstep => hstep.namesEntry) hsteps hnames
    have hget := hsame.trans hfile
    have hleads := hentry.leads_of_leadsTo (hentry.leadsTo hget rfl)
    exact absurd ((hmarked path hpath).allMarked hentry ⟨hleads, hget⟩) hdue.unmarked
  · have hfile' := hdue'.get?_eq hfiles hpath'
    rw [hfile, Option.some.injEq, Entry.file.injEq] at hfile'
    rw [hchanged, hfile']

theorem get?_patchFiles_of_not_isDueAt (options : Options)
    (hfiles : (discover follow roots fs).result = .ok files)
    (hnot : ∀ path ∈ files, ∀ f, ¬ fs.IsDueAt path location f) :
    ((patchFiles options files).stateAfter fs).get? location = fs.get? location := by
  refine (patchFiles_changes (isFound_of_discover hfiles) location).resolve_right ?_
  rintro ⟨path, hpath, f, hdue, -⟩
  exact hnot path hpath f hdue

theorem stateAfter_patchFiles_of_perm {more : List FilePatch} (hdry : options.dryRun = false)
    (hfollow : options.followLinks = false) (hperm : files.Perm files')
    (hfiles : (discover false roots fs).result = .ok files)
    (hfiles' : (discover false roots' fs).result = .ok files')
    (h : (patchFiles options files fs).result = .ok patches)
    (h' : (patchFiles options files' fs).result = .ok more) :
    (patchFiles options files).stateAfter fs = (patchFiles options files').stateAfter fs := by
  obtain ⟨hsteps, -⟩ :=
    repoints_of_discover hdry (hfollow.symm ▸ hfiles) (List.Subset.refl files) h
  obtain ⟨hsteps', -⟩ :=
    repoints_of_discover hdry (hfollow.symm ▸ hfiles') (List.Subset.refl files') h'
  have hkeeps : ∀ now now', Repoints options.followLinks now now' → fs.SameLocations now →
      fs.SameLocations now' := fun _ _ hstep => hstep.sameLocations
  refine (invariant_of_repoints hkeeps hsteps (.refl fs)).eq_of_get?
    (invariant_of_repoints hkeeps hsteps' (.refl fs)) ?_
  intro location
  by_cases hdue : ∃ path ∈ files, ∃ f, fs.IsDueAt path location f
  · obtain ⟨path, hpath, f, hdue⟩ := hdue
    rw [get?_patchFiles_of_isDueAt hdry hfollow hfiles h hpath hdue,
      get?_patchFiles_of_isDueAt hdry hfollow hfiles' h' (hperm.mem_iff.mp hpath) hdue]
  · have hnot : ∀ path ∈ files, ∀ f, ¬ fs.IsDueAt path location f :=
      fun path hpath f hdue' => hdue ⟨path, hpath, f, hdue'⟩
    rw [get?_patchFiles_of_not_isDueAt options hfiles hnot,
      get?_patchFiles_of_not_isDueAt options hfiles' fun path hpath =>
        hnot path (hperm.mem_iff.mpr hpath)]

/-! ## The whole run -/

/-- **The order of the roots.** After two runs that succeed with the roots in another order, every path
that led to a file reads the same. When links are not followed, both end with the same file system. -/
theorem run_order (options : Options) (roots roots' : List Path) (fs : FileSystem)
    (report report' : Report) (hdry : options.dryRun = false) (hperm : roots.Perm roots')
    (h : (run options roots fs).result = .ok report)
    (h' : (run options roots' fs).result = .ok report') :
    let after := (run options roots).stateAfter fs
    let after' := (run options roots').stateAfter fs
    report.scanned = report'.scanned ∧
    (∀ path location f, fs.stat path = .ok (location, .file f) →
      ∃ place place' g g', after.stat path = .ok (place, .file g) ∧
        after'.stat path = .ok (place', .file g') ∧ g.data = g'.data ∧ g.mode = g'.mode ∧
        after.read path = after'.read path) ∧
    (options.followLinks = false → after = after') := by
  intro after after'
  obtain ⟨files, patches, hfiles, hpatches, rfl⟩ := exists_of_run h
  obtain ⟨files', patches', hfiles', hpatches', rfl⟩ := exists_of_run h'
  have hfound := discover_perm hperm hfiles hfiles'
  have hafter : after = (patchFiles options files).stateAfter fs := (run_of_discover options hfiles).2
  have hafter' : after' = (patchFiles options files').stateAfter fs :=
    (run_of_discover options hfiles').2
  rw [hafter, hafter']
  refine ⟨hfound.length_eq, ?_, ?_⟩
  · intro path location f hstat
    obtain ⟨place, g, hg, hmode, hcomes, hnot⟩ :=
      stat_after_patchFiles hdry hfiles hpatches hstat
    obtain ⟨place', g', hg', hmode', hcomes', hnot'⟩ :=
      stat_after_patchFiles hdry hfiles' hpatches' hstat
    rw [← comesByOneOf_congr hfound] at hcomes' hnot'
    have hdata : g.data = g'.data := by
      by_cases hway : fs.ComesByOneOf path files
      · rw [hcomes hway, hcomes' hway]
      · rw [hnot hway, hnot' hway]
    have hmodes : g.mode = g'.mode := hmode.trans hmode'.symm
    refine ⟨place, place', g, g', hg, hg', hdata, hmodes, ?_⟩
    rw [read_of_stat hg, read_of_stat hg', File.isReadable, File.isReadable, hdata, hmodes]
  · intro hfollow
    rw [hfollow] at hfiles hfiles'
    exact stateAfter_patchFiles_of_perm hdry hfollow hfound hfiles hfiles' hpatches hpatches'

/-- With links followed, the link is a file after the first order, which comes to it first, and is
still a link after the second, which comes to the file first. Either way the same is read through
it. -/
theorem run_order_sampleTree :
    let options : Options := { followLinks := true }
    let app := ascii "src/app"
    let lib := ascii "src/lib"
    let link := ascii "src/app/CMakeLists.txt"
    let file := ascii "src/lib/CMakeLists.txt"
    let after := (run options [app, lib]).stateAfter sampleTree
    let after' := (run options [lib, app]).stateAfter sampleTree
    (run options [app, lib] sampleTree).result =
      .ok { scanned := 2, patches := [⟨link, 1, 1, true⟩, ⟨file, 1, 1, true⟩] } ∧
    (run options [lib, app] sampleTree).result =
      .ok { scanned := 2, patches := [⟨file, 1, 1, true⟩] } ∧
    (after.lstat link).map (·.2.isLink) = .ok false ∧
    (after'.lstat link).map (·.2.isLink) = .ok true ∧
    after.read link = after'.read link ∧
    (run {} [ascii "top", lib]).stateAfter sampleTree =
      (run {} [lib, ascii "top"]).stateAfter sampleTree := by
  intro options app lib link file after after'
  have h : (run options [app, lib] sampleTree).result =
      .ok { scanned := 2, patches := [⟨link, 1, 1, true⟩, ⟨file, 1, 1, true⟩] } := by decide +kernel
  have h' : (run options [lib, app] sampleTree).result =
      .ok { scanned := 2, patches := [⟨file, 1, 1, true⟩] } := by decide +kernel
  have htop : (run {} [ascii "top", lib] sampleTree).result =
      .ok { scanned := 3, patches := [⟨ascii "top/CMakeLists.txt", 1, 1, true⟩,
        ⟨ascii "top/lib/CMakeLists.txt", 1, 1, true⟩] } := by decide +kernel
  have htop' : (run {} [lib, ascii "top"] sampleTree).result =
      .ok { scanned := 3, patches := [⟨file, 1, 1, true⟩,
        ⟨ascii "top/CMakeLists.txt", 1, 1, true⟩] } := by decide +kernel
  have hstat : ∃ location f, sampleTree.stat link = .ok (location, .file f) :=
    ⟨(Location.root.child ⟨ascii "src", by decide⟩).child ⟨ascii "lib", by decide⟩ |>.child
      ⟨buildFileName, by decide⟩,
      { data := sourceDir ++ ascii "/cmake", mode := 0o640, twin := some 0 }, by decide +kernel⟩
  obtain ⟨location, f, hstat⟩ := hstat
  obtain ⟨-, hread, -⟩ :=
    run_order options [app, lib] [lib, app] sampleTree _ _ rfl (.swap lib app []) h h'
  obtain ⟨-, -, -, -, -, -, -, -, hread⟩ := hread link location f hstat
  obtain ⟨-, -, hsame⟩ := run_order {} [ascii "top", lib] [lib, ascii "top"] sampleTree _ _ rfl
    (.swap lib (ascii "top") []) htop htop'
  exact ⟨h, h', by decide +kernel, by decide +kernel, hread, hsame rfl⟩

end Repoint
