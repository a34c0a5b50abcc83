import Repoint.Proofs.Run.Idempotence

/-!
# A run that fails, and another one after it

Another run passes over the files that are patched already and goes on with the others.
-/

namespace Repoint

open FileSystem

variable {fs : FileSystem} {path : Path} {options : Options} {roots files : List Path} {e : Error}
  {patches : List FilePatch}

/-! ## A disk that takes everything

A run that succeeds does the same on such a disk.
-/

namespace Job

variable {α β : Type} {first first' : Job α} {next next' : α → Job β}

theorem stateAfter_congr (h : first' fs = first fs) :
    first'.stateAfter fs = first.stateAfter fs := by
  rw [stateAfter, h, stateAfter]

theorem bind_congr (h : first' fs = first fs)
    (hnext : ∀ a, (first fs).result = .ok a →
      next' a (first.stateAfter fs) = next a (first.stateAfter fs)) :
    (first' >>= next') fs = (first >>= next) fs := by
  cases hresult : (first fs).result with
  | error e => rw [bind_of_error hresult, bind_of_error (h ▸ hresult), h]
  | ok a =>
    rw [bind_of_ok hresult, bind_of_ok (h ▸ hresult), stateAfter_congr h, h, hnext a hresult]

end Job

/-- The same on a disk that takes everything. -/
def Options.unhindered (options : Options) : Options := { options with disk := {} }

theorem patchFile_unhindered {patch : FilePatch}
    (h : (patchFile options path fs).result = .ok patch) :
    patchFile options.unhindered path fs = patchFile options path fs := by
  unfold patchFile at h ⊢
  refine Job.bind_congr rfl ?_
  intro data hread
  obtain ⟨data', hread', h⟩ := Job.result_bind_eq_ok.mp h
  obtain rfl : data' = data := Except.ok.inj (hread'.symm.trans hread)
  dsimp only at h ⊢
  by_cases hsame : (!(repoint data').changed) = true
  · rw [if_pos hsame, if_pos hsame]
  · rw [if_neg hsame] at h
    rw [if_neg hsame, if_neg hsame]
    by_cases hdry : options.dryRun = true
    · have hdry' : options.unhindered.dryRun = true := hdry
      rw [if_pos hdry, if_pos hdry']
    · have hdry' : ¬ options.unhindered.dryRun = true := hdry
      rw [if_neg hdry] at h
      rw [if_neg hdry, if_neg hdry']
      obtain ⟨_, hreplace, -⟩ := Job.result_bind_eq_ok.mp h
      obtain ⟨-, -, -, -, htakes, -⟩ := replaceFile_eq_ok_iff.mp hreplace
      rw [replaceFile_of_takes htakes]
      rfl

theorem patchFiles_unhindered (h : (patchFiles options files fs).result = .ok patches) :
    patchFiles options.unhindered files fs = patchFiles options files fs := by
  induction files generalizing fs patches with
  | nil => rfl
  | cons path rest ih =>
    obtain ⟨patch, more, hpatch, hmore, -⟩ := exists_of_patchFiles_cons h
    refine Job.bind_congr (patchFile_unhindered hpatch) ?_
    intro patch' _
    change Job.map _ _ _ = Job.map _ _ _
    simp only [Job.map, ih hmore]

theorem run_unhindered {report : Report} (h : (run options roots fs).result = .ok report) :
    run options.unhindered roots fs = run options roots fs := by
  obtain ⟨files, patches, hfiles, hpatches, -⟩ := exists_of_run h
  refine Job.bind_congr rfl ?_
  intro files' hfiles'
  obtain rfl : files = files' := Except.ok.inj (hfiles.symm.trans hfiles')
  rw [stateAfter_discover]
  exact Job.bind_congr (patchFiles_unhindered hpatches) fun _ _ => rfl

/-! ## Some files before others -/

theorem patchFiles_append (rest : List Path)
    (h : (patchFiles options files fs).result = .ok patches) :
    (patchFiles options (files ++ rest) fs).result =
        (patchFiles options rest ((patchFiles options files).stateAfter fs)).result.map
          (patches ++ ·) ∧
      (patchFiles options (files ++ rest)).stateAfter fs =
        (patchFiles options rest).stateAfter ((patchFiles options files).stateAfter fs) := by
  induction files generalizing fs patches with
  | nil =>
    obtain rfl : [] = patches := Except.ok.inj h
    rw [patchFiles_nil.2, List.nil_append]
    refine ⟨?_, rfl⟩
    cases (patchFiles options rest fs).result <;> rfl
  | cons path files ih =>
    obtain ⟨patch, more, hpatch, hmore, rfl⟩ := exists_of_patchFiles_cons h
    obtain ⟨hresult, hafter⟩ := ih hmore
    rw [List.cons_append, (patchFiles_cons _ hpatch).1, (patchFiles_cons _ hpatch).2,
      (patchFiles_cons _ hpatch).2, hresult, hafter]
    refine ⟨?_, rfl⟩
    cases (patchFiles options rest _).result <;> rfl

theorem exists_of_patchFiles_error (h : (patchFiles options files fs).result = .error e) :
    ∃ done failed rest patches, files = done ++ failed :: rest ∧
      (patchFiles options done fs).result = .ok patches ∧
      (patchFile options failed ((patchFiles options done).stateAfter fs)).result = .error e ∧
      (patchFiles options files).stateAfter fs = (patchFiles options done).stateAfter fs := by
  induction files generalizing fs with
  | nil => simp [patchFiles_nil.1] at h
  | cons path files ih =>
    cases hpatch : (patchFile options path fs).result with
    | error cause =>
      obtain ⟨hresult, hafter⟩ := patchFiles_cons_of_error files hpatch
      obtain rfl : cause = e := by simpa [hresult] using h
      exact ⟨[], path, files, [], rfl, patchFiles_nil.1, hpatch, hafter⟩
    | ok patch =>
      rw [(patchFiles_cons files hpatch).1] at h
      obtain ⟨done, failed, rest, patches, rfl, hdone, hfailed, hafter⟩ := ih (map_eq_error.mp h)
      obtain ⟨hresult, hstate⟩ := patchFiles_cons done hpatch
      refine ⟨path :: done, failed, rest, patch :: patches, rfl, ?_, ?_, ?_⟩
      · rw [hresult, hdone]
        rfl
      · rw [hstate]
        exact hfailed
      · rw [hstate, (patchFiles_cons _ hpatch).2]
        exact hafter

/-! ## Going on -/

theorem patchFiles_resume {done rest : List Path} {all : List FilePatch} {stop : FileSystem}
    (hdone : (patchFiles options done fs).result = .ok patches)
    (hstop : (patchFiles options done).stateAfter fs = stop)
    (hmarked : ∀ path ∈ done, stop.ReadsMarked path)
    (h : (patchFiles options (done ++ rest) stop).result = .ok all) :
    ∃ whole, (patchFiles options (done ++ rest) fs).result = .ok whole ∧
      (patchFiles options (done ++ rest)).stateAfter fs =
        (patchFiles options (done ++ rest)).stateAfter stop := by
  -- The second pass over the first files leaves them as they are.
  obtain ⟨passed, hpassed, -, hsame⟩ := patchFiles_of_readsMarked options hmarked
  obtain ⟨hagain, hend⟩ := patchFiles_append rest hpassed
  obtain ⟨hwhole, hend'⟩ := patchFiles_append rest hdone
  rw [hsame] at hagain hend
  rw [hstop] at hwhole hend'
  rw [hagain] at h
  obtain ⟨more, hmore, -⟩ := map_eq_ok.mp h
  rw [hwhole, hend', hend, hmore]
  exact ⟨patches ++ more, rfl, rfl⟩

theorem run_resume {done rest : List Path} {disk : Disk} {again : Report}
    (hdry : options.dryRun = false)
    (hfiles : (discover options.followLinks roots fs).result = .ok (done ++ rest))
    (hdone : (patchFiles options done fs).result = .ok patches)
    (h : (run { options with disk := disk } roots
      ((patchFiles options done).stateAfter fs)).result = .ok again) :
    (discover options.followLinks roots ((patchFiles options done).stateAfter fs)).result =
        .ok (done ++ rest) ∧
      ∃ whole, (run options.unhindered roots fs).result = .ok whole ∧
        (run options.unhindered roots).stateAfter fs =
          (run { options with disk := disk } roots).stateAfter
            ((patchFiles options done).stateAfter fs) := by
  obtain ⟨hsame, hmarked⟩ :=
    discover_after_patches hdry hfiles (List.subset_append_left done rest) hdone
  obtain ⟨files, all, hfiles', hall, -⟩ := exists_of_run h
  obtain rfl : files = done ++ rest := Except.ok.inj (hfiles'.symm.trans hsame)
  have hdone' := patchFiles_unhindered hdone
  have hall' : patchFiles options.unhindered (done ++ rest) ((patchFiles options done).stateAfter fs) =
      patchFiles { options with disk := disk } (done ++ rest)
        ((patchFiles options done).stateAfter fs) := patchFiles_unhindered hall
  obtain ⟨whole, hwhole, hend⟩ := patchFiles_resume (hdone' ▸ hdone) (Job.stateAfter_congr hdone')
    hmarked (hall' ▸ hall)
  obtain ⟨hresult, hafter⟩ := run_of_discover options.unhindered hfiles
  rw [hresult, hwhole, hafter, hend, Job.stateAfter_congr hall', (run_of_discover _ hfiles').2]
  exact ⟨hsame, _, rfl, rfl⟩

/-! ## The whole run -/

theorem exists_of_run_error (h : (run options roots fs).result = .error e) :
    (discover options.followLinks roots fs).result = .error e ∧
        (run options roots).stateAfter fs = fs ∨
      ∃ done failed rest patches,
        (discover options.followLinks roots fs).result = .ok (done ++ failed :: rest) ∧
        (patchFiles options done fs).result = .ok patches ∧
        (patchFile options failed ((patchFiles options done).stateAfter fs)).result = .error e ∧
        (run options roots).stateAfter fs = (patchFiles options done).stateAfter fs := by
  cases hfiles : (discover options.followLinks roots fs).result with
  | error cause =>
    obtain ⟨hresult, hafter⟩ := run_of_discover_error hfiles
    rw [hresult] at h
    obtain rfl : cause = e := Except.error.inj h
    exact .inl ⟨rfl, hafter⟩
  | ok files =>
    obtain ⟨hresult, hafter⟩ := run_of_discover options hfiles
    rw [hresult] at h
    obtain ⟨done, failed, rest, patches, rfl, hdone, hfailed, hstop⟩ :=
      exists_of_patchFiles_error (map_eq_error.mp h)
    exact .inr ⟨done, failed, rest, patches, rfl, hdone, hfailed, hafter.trans hstop⟩

/-- **Abort and resume.** A run that fails has patched the files before the one it failed at, and
nothing else has changed. A run from there that gets through ends where a run from the beginning does.
-/
theorem run_abort_resume (options : Options) (roots : List Path) (fs : FileSystem) (e : Error)
    (hdry : options.dryRun = false) (h : (run options roots fs).result = .error e) :
    ((discover options.followLinks roots fs).result = .error e ∧
        (run options roots).stateAfter fs = fs ∨
      ∃ done failed rest patches,
        (discover options.followLinks roots fs).result = .ok (done ++ failed :: rest) ∧
        (patchFiles options done fs).result = .ok patches ∧
        (patchFile options failed ((patchFiles options done).stateAfter fs)).result = .error e ∧
        (run options roots).stateAfter fs = (patchFiles options done).stateAfter fs) ∧
    ∀ disk again,
      (run { options with disk := disk } roots ((run options roots).stateAfter fs)).result =
        .ok again →
      (∃ files, (discover options.followLinks roots fs).result = .ok files ∧
        (discover options.followLinks roots ((run options roots).stateAfter fs)).result = .ok files) ∧
      (∃ whole, (run { options with disk := {} } roots fs).result = .ok whole) ∧
      ∀ disk' whole, (run { options with disk := disk' } roots fs).result = .ok whole →
        (run { options with disk := disk' } roots).stateAfter fs =
          (run { options with disk := disk } roots).stateAfter
            ((run options roots).stateAfter fs) := by
  have hcases := exists_of_run_error h
  refine ⟨hcases, ?_⟩
  intro disk again hagain
  rcases hcases with ⟨hnone, hsame⟩ | ⟨done, failed, rest, patches, hfiles, hdone, -, hstop⟩
  · -- Nothing that a second run could find has come up.
    rw [hsame] at hagain
    obtain ⟨files, -, hfiles, -⟩ := exists_of_run hagain
    exact absurd (hnone.symm.trans hfiles) (by simp)
  · rw [hstop] at hagain ⊢
    obtain ⟨hstill, whole, hwhole, hend⟩ := run_resume hdry hfiles hdone hagain
    refine ⟨⟨_, hfiles, hstill⟩, ⟨whole, hwhole⟩, ?_⟩
    intro disk' whole' hwhole'
    rw [← hend]
    exact (Job.stateAfter_congr (run_unhindered hwhole')).symm

/-- The first run has no room for what is to take the place of the link. The second run passes over the
file that the first has patched. -/
theorem run_abort_resume_unevenTree :
    let options : Options := { followLinks := true, disk := { writeLimit := some 40 } }
    let unhindered : Options := { followLinks := true }
    let roots := [ascii "top"]
    let e : Error := .writeTemp (ascii "top/app/CMakeLists.txt")
    let stop := (run options roots).stateAfter unevenTree
    let later : List FilePatch :=
      [⟨ascii "top/app/CMakeLists.txt", 1, 1, true⟩, ⟨ascii "top/lib/CMakeLists.txt", 1, 1, true⟩]
    (run options roots unevenTree).result = .error e ∧
    (∃ done failed rest patches,
      (discover true roots unevenTree).result = .ok (done ++ failed :: rest) ∧
      (patchFiles options done unevenTree).result = .ok patches ∧
      (patchFile options failed ((patchFiles options done).stateAfter unevenTree)).result = .error e ∧
      stop = (patchFiles options done).stateAfter unevenTree) ∧
    (run unhindered roots stop).result = .ok { scanned := 3, patches := later } ∧
    (run unhindered roots unevenTree).result =
      .ok { scanned := 3, patches := ⟨ascii "top/CMakeLists.txt", 1, 1, true⟩ :: later } ∧
    (∃ files, (discover true roots unevenTree).result = .ok files ∧
      (discover true roots stop).result = .ok files) ∧
    (run unhindered roots).stateAfter unevenTree = (run unhindered roots).stateAfter stop := by
  intro options unhindered roots e stop later
  have hfail : (run options roots unevenTree).result = .error e := by decide +kernel
  have hagain : (run unhindered roots stop).result = .ok { scanned := 3, patches := later } := by
    decide +kernel
  have hwhole : (run unhindered roots unevenTree).result =
      .ok { scanned := 3, patches := ⟨ascii "top/CMakeLists.txt", 1, 1, true⟩ :: later } := by
    decide +kernel
  have hfound : ¬ (discover true roots unevenTree).result = .error e := by decide +kernel
  obtain ⟨hcases, hresume⟩ := run_abort_resume options roots unevenTree e rfl hfail
  obtain ⟨hfiles, -, hend⟩ := hresume {} _ hagain
  exact ⟨hfail, hcases.resolve_left fun hnone => hfound hnone.1, hagain, hwhole, hfiles,
    hend {} _ hwhole⟩

end Repoint
