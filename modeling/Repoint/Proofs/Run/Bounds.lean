import Mathlib.Algebra.BigOperators.Ring.List
import Mathlib.Algebra.Order.BigOperators.Group.List
import Mathlib.Algebra.Order.Ring.Nat
import Repoint.Proofs.Run.DryRun

/-!
# The bounds of a report

There is at most one reference for every nineteen bytes.
-/

namespace Repoint

open FileSystem

variable {fs : FileSystem} {path : Path} {options : Options} {files : List Path} {data : Bytes}
  {reads : List Bytes} {patches : List FilePatch}

/-! ## One text -/

theorem count_repointLine_le (text : Bytes) :
    sourceDir.length * (repointLine text).count ≤ text.length := by
  induction text using referenceInduction with
  | nil => simp
  | reference after ih =>
    -- A reference is taken whole, so each one that is counted has bytes of its own.
    rw [List.length_append]
    by_cases hm : marker <+: after
    · rw [repointLine_marked hm]
      exact ih.trans (Nat.le_add_left _ _)
    · rw [repointLine_unmarked hm, Nat.mul_succ, Nat.add_comm]
      exact Nat.add_le_add_left ih _
  | byte b rest h ih =>
    rw [repointLine_cons h, List.length_cons]
    exact ih.trans (Nat.le_succ _)

theorem replacements_eq_card (text : Bytes) : (repoint text).replacements = (eligible text).card := by
  rw [(repoint_eq_repointLine text).2, repointLine_eq_insertAt]

theorem one_le_linesChanged {text : Bytes} (hdue : (eligible text).Nonempty) :
    1 ≤ (repoint text).linesChanged := by
  rw [linesChanged_eq_card]
  exact Finset.card_pos.mpr (hdue.image _)

theorem linesChanged_le_replacements (text : Bytes) :
    (repoint text).linesChanged ≤ (repoint text).replacements := by
  rw [linesChanged_eq_card, replacements_eq_card]
  exact Finset.card_image_le

theorem replacements_le_length (text : Bytes) : 19 * (repoint text).replacements ≤ text.length := by
  rw [(repoint_eq_repointLine text).2, ← length_sourceDir]
  exact count_repointLine_le text

theorem linesChanged_le_length (text : Bytes) : (repoint text).linesChanged ≤ (lines text).length := by
  have hle := List.countP_le_length (p := (0 < ·.count)) (l := (lines text).map repointLine)
  rwa [List.length_map] at hle

/-- The counts of a patch are within the bounds that the bytes of the file set. -/
structure FilePatch.IsWithin (patch : FilePatch) (data : Bytes) : Prop where
  one_le_linesChanged : 1 ≤ patch.linesChanged
  linesChanged_le_replacements : patch.linesChanged ≤ patch.replacements
  replacements_le : 19 * patch.replacements ≤ data.length
  linesChanged_le_lines : patch.linesChanged ≤ (lines data).length

theorem isWithin_ofData (hdue : (eligible data).Nonempty) (path : Path) (written : Bool) :
    (FilePatch.ofData path data written).IsWithin data where
  one_le_linesChanged := one_le_linesChanged hdue
  linesChanged_le_replacements := linesChanged_le_replacements data
  replacements_le := replacements_le_length data
  linesChanged_le_lines := linesChanged_le_length data

/-! ## One file after another -/

/-- What is read when files are patched in turn: each of them as the patches before it have left it. -/
inductive ReadsInTurn (options : Options) : FileSystem → List Path → List Bytes → Prop
  | nil {fs : FileSystem} : ReadsInTurn options fs [] []
  | cons {fs : FileSystem} {path : Path} {files : List Path} {data : Bytes} {reads : List Bytes}
      (hread : fs.read path = .ok data)
      (hmore : ReadsInTurn options ((patchFile options path).stateAfter fs) files reads) :
      ReadsInTurn options fs (path :: files) (data :: reads)

theorem ReadsInTurn.length_eq (h : ReadsInTurn options fs files reads) :
    files.length = reads.length := by
  induction h with
  | nil => rfl
  | cons hread hmore ih => rw [List.length_cons, List.length_cons, ih]

/-- The files with something to change, each with what was read there. -/
def dueReads (files : List Path) (reads : List Bytes) : List (Path × Bytes) :=
  (files.zip reads).filter fun read => (eligible read.2).Nonempty

theorem patchFile_of_eligible {patch : FilePatch} (h : (patchFile options path fs).result = .ok patch) :
    ∃ data, fs.read path = .ok data ∧
      (if (eligible data).Nonempty then patch = .ofData path data (!options.dryRun)
        else patch.replacements = 0) := by
  rcases patchFile_cases options path fs with ⟨⟨e, hresult⟩, -⟩ |
    ⟨data, hread, hidle, hresult, -⟩ |
    ⟨directory, name, location, f, hdry, hdue, hreadable, hstat, -, -, hresult, -⟩
  · simp [hresult] at h
  · obtain rfl := Except.ok.inj (hresult.symm.trans h)
    refine ⟨data, hread, ?_⟩
    rw [allMarked_iff, ← Finset.not_nonempty_iff_eq_empty] at hidle
    split
    · next hdue => rw [hidle.resolve_left (not_not_intro hdue), Bool.not_true]
    · next hdue => simp [FilePatch.ofData, replacements_eq_card, Finset.not_nonempty_iff_eq_empty.mp hdue]
  · obtain rfl := Except.ok.inj (hresult.symm.trans h)
    rw [allMarked_iff, ← ne_eq, ← Finset.nonempty_iff_ne_empty] at hdue
    refine ⟨f.data, (read_eq_ok_iff hstat).mpr ⟨hreadable, rfl⟩, ?_⟩
    rw [if_pos hdue, hdry, Bool.not_false]

theorem exists_reads_of_patchFiles (h : (patchFiles options files fs).result = .ok patches) :
    ∃ reads, ReadsInTurn options fs files reads ∧
      patches.filter (0 < ·.replacements) =
        (dueReads files reads).map fun read => .ofData read.1 read.2 (!options.dryRun) := by
  induction files generalizing fs patches with
  | nil =>
    obtain rfl : [] = patches := Except.ok.inj h
    exact ⟨[], .nil, rfl⟩
  | cons path rest ih =>
    obtain ⟨patch, more, hpatch, hmore, rfl⟩ := exists_of_patchFiles_cons h
    obtain ⟨data, hread, heq⟩ := patchFile_of_eligible hpatch
    -- The other files are read as this patch has left them.
    obtain ⟨reads, hreads, htail⟩ := ih hmore
    refine ⟨data :: reads, .cons hread hreads, ?_⟩
    rw [dueReads, List.zip_cons_cons]
    split at heq
    · next hdue =>
      have hpos : 0 < patch.replacements := by
        rw [heq, FilePatch.ofData, replacements_eq_card]
        exact Finset.card_pos.mpr hdue
      rw [List.filter_cons_of_pos (by simpa using hpos), List.filter_cons_of_pos (by simpa using hdue),
        List.map_cons, htail, heq]
      rfl
    · next hdue =>
      rw [List.filter_cons_of_neg (by simp [heq]), List.filter_cons_of_neg (by simpa using hdue), htail]
      rfl

/-! ## Totals -/

theorem toNat_totalReplacements (patches : List FilePatch) :
    (totalReplacements patches).toNat = (patches.map (·.replacements)).sum % 2 ^ 64 := by
  induction patches with
  | nil => rfl
  | cons patch rest ih =>
    have hcons : totalReplacements (patch :: rest) =
        patch.replacements.toUInt64 + totalReplacements rest := rfl
    rw [hcons, UInt64.toNat_add, ih, List.map_cons, List.sum_cons]
    simp

theorem sum_replacements_le (hlength : files.length = reads.length) (written : Bool) :
    19 * (((dueReads files reads).map fun read => FilePatch.ofData read.1 read.2 written).map
      (·.replacements)).sum ≤ (reads.map List.length).sum := by
  have hbytes : reads.map List.length = (files.zip reads).map (·.2.length) := by
    conv_lhs => rw [← List.map_snd_zip hlength.ge, List.map_map]
    rfl
  rw [List.map_map, ← List.sum_map_mul_left, hbytes]
  calc ((dueReads files reads).map fun read =>
          19 * (FilePatch.ofData read.1 read.2 written).replacements).sum
      ≤ ((dueReads files reads).map (·.2.length)).sum := by
        apply List.sum_le_sum
        intro read hread
        have hdue := List.of_mem_filter hread
        exact (isWithin_ofData (of_decide_eq_true hdue) read.1 written).replacements_le
    _ ≤ ((files.zip reads).map (·.2.length)).sum := by
        exact (List.filter_sublist.map _).sum_le_sum fun _ _ => Nat.zero_le _

/-! ## The whole run -/

/-- **Bounds.** A run reads each file that was found in its turn, and reports those that had something
to change then, within their bounds. The total is exact unless 2^64 bytes were read. -/
theorem run_bounds (options : Options) (roots : List Path) (fs : FileSystem) (report : Report)
    (h : (run options roots fs).result = .ok report) :
    ∃ files reads, (discover options.followLinks roots fs).result = .ok files ∧
      ReadsInTurn options fs files reads ∧
      report.scanned = files.length ∧
      (report.patches.map (·.path)).Sublist files ∧
      List.Forall₂ (fun patch read => patch.path = read.1 ∧ patch.written = !options.dryRun ∧
        patch.IsWithin read.2) report.patches (dueReads files reads) ∧
      19 * report.total.toNat ≤ (reads.map List.length).sum ∧
      ((reads.map List.length).sum < 2 ^ 64 →
        report.total.toNat = (report.patches.map (·.replacements)).sum) := by
  obtain ⟨files, patches, hfiles, hpatches, rfl⟩ := exists_of_run h
  obtain ⟨reads, hreads, heq⟩ := exists_reads_of_patchFiles hpatches
  have hsum := sum_replacements_le hreads.length_eq (!options.dryRun)
  refine ⟨files, reads, hfiles, hreads, rfl, ?_⟩
  simp only [Report.total, toNat_totalReplacements, heq]
  refine ⟨?_, ?_, ?_, ?_⟩
  · have hpaths : ((dueReads files reads).map Prod.fst).Sublist ((files.zip reads).map Prod.fst) :=
      List.filter_sublist.map _
    rw [List.map_fst_zip hreads.length_eq.le] at hpaths
    rw [List.map_map]
    exact hpaths
  · rw [List.forall₂_map_left_iff, List.forall₂_same]
    intro read hread
    have hdue := List.of_mem_filter hread
    exact ⟨rfl, rfl, isWithin_ofData (of_decide_eq_true hdue) read.1 _⟩
  · exact (Nat.mul_le_mul_left 19 (Nat.mod_le _ _)).trans hsum
  · intro hlt
    exact Nat.mod_eq_of_lt (by omega)

theorem run_bounds_sampleTree :
    let options : Options := { followLinks := true }
    let roots := [ascii "top", ascii "src/lib"]
    let report : Report :=
      { scanned := 4
        patches :=
          [⟨ascii "top/CMakeLists.txt", 1, 1, true⟩, ⟨ascii "top/app/CMakeLists.txt", 1, 1, true⟩,
            ⟨ascii "top/lib/CMakeLists.txt", 1, 1, true⟩] }
    (run options roots sampleTree).result = .ok report ∧
      ∃ files reads, (discover true roots sampleTree).result = .ok files ∧
        ReadsInTurn options sampleTree files reads ∧ files.length = 4 ∧
        (report.patches.map (·.path)).Sublist files ∧
        List.Forall₂ (fun patch read => patch.path = read.1 ∧ patch.written = true ∧
          patch.IsWithin read.2) report.patches (dueReads files reads) ∧
        19 * 3 ≤ (reads.map List.length).sum := by
  intro options roots report
  have hrun : (run options roots sampleTree).result = .ok report := by decide +kernel
  obtain ⟨files, reads, hfiles, hreads, hscanned, hpaths, hpatches, htotal, -⟩ :=
    run_bounds options roots sampleTree report hrun
  exact ⟨hrun, files, reads, hfiles, hreads, hscanned.symm, hpaths, hpatches, htotal⟩

end Repoint
