import Repoint.Proofs.Run.DryRun

/-!
# What is told about a file

What is told about a file, held against what is read under its path before and after.
-/

namespace Repoint

open FileSystem

variable {fs after : FileSystem} {path : Path} {options : Options} {data : Bytes} {dryRun : Bool}

/-- What a patch says about a file is what was read there before and is read there after. -/
structure FilePatch.IsTrue (patch : FilePatch) (dryRun : Bool) (data : Bytes)
    (before after : FileSystem) : Prop where
  readBefore : before.read patch.path = .ok data
  readAfter : after.read patch.path = .ok (if dryRun then data else (repoint data).bytes)
  replacements_eq : patch.replacements = (repoint data).replacements
  linesChanged_eq : patch.linesChanged = (repoint data).linesChanged
  written_iff_differs : patch.written = true ↔ after.read patch.path ≠ before.read patch.path
  written_iff_eligible : patch.written = true ↔ dryRun = false ∧ ∃ i, IsEligible data i
  same_of_not_written : patch.written = false → after = before

/-! ## Files that are left alone and files that are replaced -/

theorem isTrue_of_idle (hread : fs.read path = .ok data) (hidle : AllMarked data ∨ dryRun = true) :
    (FilePatch.ofData path data false).IsTrue dryRun data fs fs where
  readBefore := hread
  readAfter := by
    rw [FilePatch.ofData, hread]
    split
    · rfl
    · next hdry => rw [repoint_bytes_eq_iff.mpr (hidle.resolve_right hdry)]
  replacements_eq := rfl
  linesChanged_eq := rfl
  written_iff_differs := by simp [FilePatch.ofData]
  written_iff_eligible := by
    rw [← not_allMarked_iff]
    rcases hidle with hmarked | hdry
    · simp [FilePatch.ofData, hmarked]
    · simp [FilePatch.ofData, hdry]
  same_of_not_written _ := rfl

theorem isTrue_of_replaced (hread : fs.read path = .ok data) (hdue : ¬ AllMarked data)
    (hafter : after.read path = .ok (repoint data).bytes) :
    (FilePatch.ofData path data true).IsTrue false data fs after where
  readBefore := hread
  readAfter := hafter
  replacements_eq := rfl
  linesChanged_eq := rfl
  written_iff_differs := by
    have hdiffers : (repoint data).bytes ≠ data := mt repoint_bytes_eq_iff.mp hdue
    simp [FilePatch.ofData, hread, hafter, hdiffers]
  written_iff_eligible := by
    rw [← not_allMarked_iff]
    simp [FilePatch.ofData, hdue]
  same_of_not_written := nofun

/-! ## When a file can be patched -/

theorem patchFile_of_due (hread : fs.read path = .ok data) (hdue : ¬ AllMarked data)
    (hdry : options.dryRun = false) :
    (patchFile options path fs).result =
      (replaceFile options.disk path (repoint data).bytes fs).result.map
        fun _ => .ofData path data true := by
  unfold patchFile
  rw [Job.inspect_bind_of_ok hread]
  dsimp only
  rw [if_neg (mt not_changed_iff.mp hdue), if_neg (by simp [hdry])]
  cases hresult : (replaceFile options.disk path (repoint data).bytes fs).result with
  | error e =>
    rw [Job.bind_of_error hresult]
    rfl
  | ok =>
    rw [Job.bind_of_ok hresult]
    rfl

theorem patchFile_succeeds_iff :
    (∃ patch, (patchFile options path fs).result = .ok patch) ↔
      ∃ data, fs.read path = .ok data ∧ (AllMarked data ∨ options.dryRun = true ∨
        fs.AllowsReplacement options.disk path (repoint data).bytes) := by
  constructor
  · rintro ⟨patch, h⟩
    obtain ⟨data, written, hread, -⟩ := exists_read_of_patchFile h
    refine ⟨data, hread, ?_⟩
    by_contra hnot
    rw [not_or, not_or, Bool.not_eq_true] at hnot
    obtain ⟨hdue, hdry, hblocked⟩ := hnot
    rw [patchFile_of_due hread hdue hdry] at h
    obtain ⟨⟨⟩, hreplaced, -⟩ := map_eq_ok.mp h
    exact hblocked (replaceFile_eq_ok_iff.mp hreplaced)
  · rintro ⟨data, hread, hcan⟩
    by_cases hmarked : AllMarked data
    · exact ⟨_, (patchFile_of_marked options hread hmarked).1⟩
    · cases hdry : options.dryRun with
      | true => exact ⟨_, (patchFile_of_dryRun hdry hread).1⟩
      | false =>
        have hallowed := (hcan.resolve_left hmarked).resolve_left (by simp [hdry])
        rw [patchFile_of_due hread hmarked hdry, replaceFile_eq_ok_iff.mpr hallowed]
        exact ⟨_, rfl⟩

/-! ## The whole account -/

/-- **Account.** A patch that fails changes nothing. When it succeeds, what is told about the file is
true, and a file that was replaced has nothing left to change. -/
theorem patchFile_account (options : Options) (path : Path) (fs : FileSystem) :
    let after := (patchFile options path).stateAfter fs
    ((∃ patch, (patchFile options path fs).result = .ok patch) ↔
      ∃ data, fs.read path = .ok data ∧ (AllMarked data ∨ options.dryRun = true ∨
        fs.AllowsReplacement options.disk path (repoint data).bytes)) ∧
    (∀ e, (patchFile options path fs).result = .error e → after = fs) ∧
    ∀ patch, (patchFile options path fs).result = .ok patch →
      patch.path = path ∧ (∃ data, patch.IsTrue options.dryRun data fs after) ∧
      (patch.written = true → ∀ again : Options,
        (patchFile again path after).result = .ok ⟨path, 0, 0, false⟩ ∧
          (patchFile again path).stateAfter after = after) := by
  intro after
  refine ⟨patchFile_succeeds_iff, ?_⟩
  rcases patchFile_cases options path fs with ⟨⟨e, hresult⟩, hafter⟩ |
    ⟨data, hread, hidle, hresult, hafter⟩ |
    ⟨directory, name, location, f, hdry, hdue, hreadable, hstat, hnames, hleads, hresult, hafter⟩
  · exact ⟨fun _ _ => hafter, by simp [hresult]⟩
  · refine ⟨by simp [hresult], ?_⟩
    intro patch h
    obtain rfl := Except.ok.inj (hresult.symm.trans h)
    have hsame : after = fs := hafter
    rw [hsame]
    exact ⟨rfl, ⟨data, isTrue_of_idle hread hidle⟩, nofun⟩
  · refine ⟨by simp [hresult], ?_⟩
    intro patch h
    obtain rfl := Except.ok.inj (hresult.symm.trans h)
    have hread : fs.read path = .ok f.data := (read_eq_ok_iff hstat).mpr ⟨hreadable, rfl⟩
    have hreadAfter : after.read path = .ok (repoint f.data).bytes :=
      (congrArg (·.read path) hafter).trans (hleads.read_put_self hnames hstat hreadable)
    refine ⟨rfl, ⟨f.data, hdry ▸ isTrue_of_replaced hread hdue hreadAfter⟩, fun _ again => ?_⟩
    obtain ⟨hagain, hsame⟩ := patchFile_of_marked again hreadAfter (allMarked_repoint f.data)
    rw [hagain, hsame, FilePatch.ofData, repoint_repoint]
    exact ⟨rfl, rfl⟩

theorem patchFile_account_sampleTree :
    let link := ascii "src/app/CMakeLists.txt"
    let data := sourceDir ++ ascii "/cmake"
    let after := (patchFile {} link).stateAfter sampleTree
    let dry : Options := { dryRun := true }
    let short : Options := { disk := { writeLimit := some 33 } }
    (patchFile {} link sampleTree).result = .ok ⟨link, 1, 1, true⟩ ∧
      (∃ data, FilePatch.IsTrue ⟨link, 1, 1, true⟩ false data sampleTree after) ∧
      (patchFile short link after).result = .ok ⟨link, 0, 0, false⟩ ∧
      (patchFile short link).stateAfter after = after ∧
    sampleTree.read link = .ok data ∧
      (patchFile dry link sampleTree).result = .ok ⟨link, 1, 1, false⟩ ∧
      (∃ data, FilePatch.IsTrue ⟨link, 1, 1, false⟩ true data sampleTree
        ((patchFile dry link).stateAfter sampleTree)) ∧
    (patchFile short link sampleTree).result = .error (.writeTemp link) ∧
      (patchFile short link).stateAfter sampleTree = sampleTree := by
  intro link data after dry short
  have hreal : (patchFile {} link sampleTree).result = .ok ⟨link, 1, 1, true⟩ := by decide +kernel
  have hdry : (patchFile dry link sampleTree).result = .ok ⟨link, 1, 1, false⟩ := by decide +kernel
  have hshort : (patchFile short link sampleTree).result = .error (.writeTemp link) := by
    decide +kernel
  obtain ⟨-, -, hok⟩ := patchFile_account {} link sampleTree
  obtain ⟨-, -, hokDry⟩ := patchFile_account dry link sampleTree
  obtain ⟨-, herror, -⟩ := patchFile_account short link sampleTree
  obtain ⟨-, htrue, hagain⟩ := hok _ hreal
  exact ⟨hreal, htrue, (hagain rfl short).1, (hagain rfl short).2, by decide +kernel, hdry,
    (hokDry _ hdry).2.1, hshort, herror _ hshort⟩

end Repoint
