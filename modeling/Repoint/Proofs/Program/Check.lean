import Repoint.Program
import Repoint.Proofs.CommandLine
import Repoint.Proofs.Run.DryRun
import Repoint.Proofs.Run.Idempotence

/-!
# Checking
-/

namespace Repoint

open FileSystem

variable {fs : FileSystem} {settings : Settings} {invocation : Invocation} {sink : Sink}
  {result : Except Error Report}

/-! ## Writing about nothing -/

theorem Settings.write_nil (settings : Settings) (hroom : sink.room = .unlimited) :
    (settings.write [] sink).2 = none := by
  unfold write
  split
  · rfl
  · split
    · exact congrArg Prod.snd (Sink.render_unlimited hroom _)
    · split
      · exact congrArg Prod.snd (Sink.render_unlimited hroom _)
      · rfl

theorem Settings.finish_check_eq_none_iff (hcheck : settings.has .check)
    (hroom : sink.room = .unlimited) :
    (settings.finish sink result).2 = none ↔
      ∃ report, result = .ok report ∧ report.patches = [] := by
  cases result with
  | error e => simp [finish]
  | ok report =>
    simp only [finish, hcheck, true_and, Except.ok.injEq, exists_eq_left']
    constructor
    · intro h
      split at h
      · cases h
      · split at h
        · cases h
        · next hnone => exact not_not.mp hnone
    · intro hnone
      have hwrite := settings.write_nil hroom
      rw [hnone]
      split
      · next e heq => simp [heq] at hwrite
      · rw [if_neg (by simp)]

/-! ## The exit code -/

theorem program_of_parse (hparse : Settings.parse invocation.arguments = .ok settings)
    (fs : FileSystem) : program invocation fs = settings.execute invocation fs := by
  simp only [program, hparse]

theorem code_execute (settings : Settings) (invocation : Invocation) (fs : FileSystem) :
    (settings.execute invocation fs).code =
      if (settings.finish { room := invocation.room }
        (run settings.options settings.roots fs).result).2.isSome then 1 else 0 := rfl

theorem code_execute_eq_zero_iff :
    (settings.execute invocation fs).code = 0 ↔
      (settings.finish { room := invocation.room }
        (run settings.options settings.roots fs).result).2 = none := by
  simp [code_execute]

theorem code_check_eq_zero_iff (hparse : Settings.parse invocation.arguments = .ok settings)
    (hcheck : settings.has .check) (hroom : invocation.room = .unlimited) :
    (program invocation fs).code = 0 ↔
      ∃ files, (discover (settings.has .followSymlinks) settings.roots fs).result = .ok files ∧
        ∀ path ∈ files, fs.ReadsMarked path := by
  rw [program_of_parse hparse, code_execute_eq_zero_iff,
    Settings.finish_check_eq_none_iff hcheck hroom, run_without_patches_iff]
  rfl

theorem exists_report_of_code (hparse : Settings.parse invocation.arguments = .ok settings)
    (hcode : (program invocation fs).code = 0) :
    ∃ report, (run settings.options settings.roots fs).result = .ok report := by
  rw [program_of_parse hparse, code_execute_eq_zero_iff] at hcode
  cases hresult : (run settings.options settings.roots fs).result with
  | error e => simp [hresult, Settings.finish] at hcode
  | ok report => exact ⟨report, rfl⟩

/-! ## After a run -/

theorem readsMarked_after_run {options : Options} {roots : List Path} {report : Report}
    (hreal : options.dryRun = false) (h : (run options roots fs).result = .ok report) :
    ∃ files,
      (discover options.followLinks roots ((run options roots).stateAfter fs)).result = .ok files ∧
        ∀ path ∈ files, ((run options roots).stateAfter fs).ReadsMarked path := by
  obtain ⟨files, patches, hfiles, hpatches, -⟩ := exists_of_run h
  rw [(run_of_discover options hfiles).2]
  exact ⟨files, discover_after_patchFiles hreal hfiles hpatches⟩

/-- **Checking.** A check changes nothing, and exits with 0 exactly when the files are found, all of
them can be read, and every reference in them is marked. After a run that exits with 0 a check exits
with 0, too. -/
theorem check_exit_code (fs : FileSystem) :
    (∀ invocation settings, Settings.parse invocation.arguments = .ok settings →
      settings.has .check → invocation.room = .unlimited →
      fs.performAll (program invocation fs).operations = fs ∧
      ((program invocation fs).code = 0 ↔
        ∃ files, (discover (settings.has .followSymlinks) settings.roots fs).result = .ok files ∧
          ∀ path ∈ files, fs.ReadsMarked path) ∧
      ((program invocation fs).code ≠ 0 → (program invocation fs).code = 1)) ∧
    (∀ invocation settings, Settings.parse invocation.arguments = .ok settings →
      ¬ settings.has .check → ¬ settings.has .dryRun → (program invocation fs).code = 0 →
      let after := fs.performAll (program invocation fs).operations
      (∀ again settings', Settings.parse again.arguments = .ok settings' →
        settings'.has .check → settings'.roots = settings.roots →
        settings'.has .followSymlinks = settings.has .followSymlinks →
        again.room = .unlimited → (program again after).code = 0) ∧
      (program { invocation with
        arguments := ascii "--check" :: invocation.arguments, room := .unlimited } after).code = 0) := by
  constructor
  · intro invocation settings hparse hcheck hroom
    refine ⟨?_, code_check_eq_zero_iff hparse hcheck hroom, ?_⟩
    · rw [program_of_parse hparse]
      exact stateAfter_run_of_dryRun (by simp [Settings.options, hcheck]) settings.roots fs
    · rw [program_of_parse hparse, code_execute]
      split <;> simp
  · intro invocation settings hparse hcheck hdry hcode after
    have hafter : after = (run settings.options settings.roots).stateAfter fs := by
      unfold after
      rw [program_of_parse hparse]
      rfl
    have hreal : settings.options.dryRun = false := by simp [Settings.options, hcheck, hdry]
    obtain ⟨report, hreport⟩ := exists_report_of_code hparse hcode
    have hmarked := readsMarked_after_run hreal hreport
    rw [← hafter] at hmarked
    have hagain : ∀ again settings', Settings.parse again.arguments = .ok settings' →
        settings'.has .check → settings'.roots = settings.roots →
        settings'.has .followSymlinks = settings.has .followSymlinks →
        again.room = .unlimited → (program again after).code = 0 := by
      intro again settings' hparse' hcheck' hroots hfollow hroom
      apply (code_check_eq_zero_iff hparse' hcheck' hroom).mpr
      rw [hroots, hfollow]
      exact hmarked
    refine ⟨hagain, hagain _ _ (parse_check_cons hparse ?_) ?_ rfl ?_ rfl⟩
    · simpa [Settings.has] using hcheck
    · simp [Settings.has]
    · simp [Settings.has]

theorem check_exit_code_sampleTree :
    let check : Invocation := { arguments := [ascii "--check", ascii "--json", ascii "top"] }
    let patch : Invocation :=
      { arguments := [ascii "--follow-symlinks", ascii "-l", ascii "top", ascii "src/lib"]
        room := .bytes 100 }
    let again : Invocation :=
      { arguments :=
          [ascii "top", ascii "src/lib", ascii "--ndjson", ascii "--check", ascii "--follow-symlinks"] }
    let after := sampleTree.performAll (program patch sampleTree).operations
    sampleTree.performAll (program check sampleTree).operations = sampleTree ∧
    (program check sampleTree).code = 1 ∧
    ¬ (∃ files, (discover false [ascii "top"] sampleTree).result = .ok files ∧
      ∀ path ∈ files, sampleTree.ReadsMarked path) ∧
    (program patch sampleTree).code = 0 ∧
    (program again after).code = 0 ∧
    (program { arguments := ascii "--check" :: patch.arguments } after).code = 0 := by
  intro check patch again after
  obtain ⟨hchecks, hpatches⟩ := check_exit_code sampleTree
  have hcode : (program check sampleTree).code ≠ 0 := by decide +kernel
  have hpatch : (program patch sampleTree).code = 0 := by decide +kernel
  obtain ⟨hsame, hzero, hone⟩ := hchecks check
    { paths := [ascii "top"], flags := [.check, .json] } (by decide +kernel) rfl rfl
  obtain ⟨hagain, hfront⟩ := hpatches patch
    { paths := [ascii "top", ascii "src/lib"], flags := [.followSymlinks, .list] }
    (by decide +kernel) (by decide) (by decide) hpatch
  have hlater := hagain again
    { paths := [ascii "top", ascii "src/lib"], flags := [.ndjson, .check, .followSymlinks] }
    (by decide +kernel) rfl rfl rfl rfl
  exact ⟨hsame, hone hcode, mt hzero.mpr hcode, hpatch, hlater, hfront⟩

end Repoint
