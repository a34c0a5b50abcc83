import Repoint.Proofs.Discovery.Listing
import Repoint.Proofs.Discovery.Stability
import Repoint.Proofs.Run.Patching

/-!
# Running twice

Every patch keeps what discovery sees, and leaves marked files marked.
-/

namespace Repoint

open FileSystem

variable {options : Options} {roots files : List Path} {fs : FileSystem} {patches : List FilePatch}

theorem repoints_of_discover {visited : List Path} (hdry : options.dryRun = false)
    (hfiles : (discover options.followLinks roots fs).result = .ok files) (hvisited : visited ⊆ files)
    (hpatches : (patchFiles options visited fs).result = .ok patches) :
    Relation.ReflTransGen (Repoints options.followLinks) fs
        ((patchFiles options visited).stateAfter fs) ∧
      ∀ path ∈ visited, ((patchFiles options visited).stateAfter fs).ReadsMarked path := by
  have hnames : options.followLinks = false →
      ∀ path ∈ visited, ∃ location f, fs.NamesFile path location f := by
    intro hfollow path hpath
    rw [hfollow] at hfiles
    exact namesFile_of_discover hfiles path (hvisited hpath)
  exact patchFiles_repoints hdry hnames hpatches

theorem discover_after_patches {visited : List Path} (hdry : options.dryRun = false)
    (hfiles : (discover options.followLinks roots fs).result = .ok files) (hvisited : visited ⊆ files)
    (hpatches : (patchFiles options visited fs).result = .ok patches) :
    (discover options.followLinks roots ((patchFiles options visited).stateAfter fs)).result =
        .ok files ∧
      ∀ path ∈ visited, ((patchFiles options visited).stateAfter fs).ReadsMarked path := by
  obtain ⟨hsteps, hmarked⟩ := repoints_of_discover hdry hfiles hvisited hpatches
  refine ⟨?_, hmarked⟩
  exact invariant_of_repoints (fun _ _ hstep => discover_of_repoints hstep) hsteps hfiles

theorem discover_after_patchFiles (hdry : options.dryRun = false)
    (hfiles : (discover options.followLinks roots fs).result = .ok files)
    (hpatches : (patchFiles options files fs).result = .ok patches) :
    (discover options.followLinks roots ((patchFiles options files).stateAfter fs)).result =
        .ok files ∧
      ∀ path ∈ files, ((patchFiles options files).stateAfter fs).ReadsMarked path :=
  discover_after_patches hdry hfiles (List.Subset.refl files) hpatches

/-- **Idempotence.** After a run that succeeds, a second one finds the same files, patches none of them
and leaves everything as it is. -/
theorem run_twice (options : Options) (roots : List Path) (fs : FileSystem) (report : Report)
    (hdry : options.dryRun = false) (h : (run options roots fs).result = .ok report) :
    ∃ files again,
      (discover options.followLinks roots fs).result = .ok files ∧
      (discover options.followLinks roots ((run options roots).stateAfter fs)).result = .ok files ∧
      (run options roots ((run options roots).stateAfter fs)).result = .ok again ∧
      again.scanned = report.scanned ∧ again.patches = [] ∧
      (run options roots).stateAfter ((run options roots).stateAfter fs) =
        (run options roots).stateAfter fs := by
  obtain ⟨files, patches, hfiles, hpatches, rfl⟩ := exists_of_run h
  obtain ⟨hagain, hmarked⟩ := discover_after_patchFiles hdry hfiles hpatches
  rw [(run_of_discover options hfiles).2]
  obtain ⟨none, hresult, hzero, hsame⟩ := patchFiles_of_readsMarked options hmarked
  rw [(run_of_discover options hagain).1, (run_of_discover options hagain).2, hresult, hsame]
  refine ⟨files, _, hfiles, hagain, rfl, rfl, ?_, rfl⟩
  rw [List.filter_eq_nil_iff]
  intro patch hpatch
  simp [hzero patch hpatch]

theorem run_twice_sampleTree :
    let options : Options := { followLinks := true }
    let roots := [ascii "top", ascii "src/lib"]
    let after := (run options roots).stateAfter sampleTree
    let report : Report :=
      { scanned := 4
        patches :=
          [⟨ascii "top/CMakeLists.txt", 1, 1, true⟩, ⟨ascii "top/app/CMakeLists.txt", 1, 1, true⟩,
            ⟨ascii "top/lib/CMakeLists.txt", 1, 1, true⟩] }
    (run options roots sampleTree).result = .ok report ∧
      ∃ files again,
        (discover true roots sampleTree).result = .ok files ∧
        (discover true roots after).result = .ok files ∧
        (run options roots after).result = .ok again ∧
        again.scanned = report.scanned ∧ again.patches = [] ∧
        (run options roots).stateAfter after = after := by
  intro options roots after report
  have hresult : (run options roots sampleTree).result = .ok report := by decide +kernel
  exact ⟨hresult, run_twice options roots sampleTree report rfl hresult⟩

end Repoint
