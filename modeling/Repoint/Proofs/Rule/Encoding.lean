import Mathlib.Tactic.TFAE
import Repoint.Proofs.Rule.Scan
import Repoint.Proofs.Utf8

/-!
# The rule and UTF-8

References and markers are ASCII, so the machine stands between two characters before and after them.
-/

namespace Repoint

open Utf8

variable {state : Utf8.State}

/-! ## The machine along a text -/

theorem run_sourceDir_append (hstate : state.IsSound) (rest : Bytes) :
    Utf8.run state (sourceDir ++ rest) =
      if state = .boundary then Utf8.run .boundary rest else none :=
  run_ascii_append hstate (by decide) (by decide +kernel) rest

theorem run_marker_append (rest : Bytes) :
    Utf8.run .boundary (marker ++ rest) = Utf8.run .boundary rest :=
  run_boundary_ascii_append (by decide +kernel) rest

theorem run_repointLine (hstate : state.IsSound) (text : Bytes) :
    Utf8.run state (repointLine text).bytes = Utf8.run state text := by
  induction text using referenceInduction generalizing state with
  | nil => simp
  | reference after ih =>
    rw [run_sourceDir_append hstate, ← ih isSound_boundary]
    by_cases hm : marker <+: after
    · rw [repointLine_marked hm, run_sourceDir_append hstate]
    · rw [repointLine_unmarked hm, List.append_assoc, run_sourceDir_append hstate, run_marker_append]
  | byte b rest h ih =>
    rw [repointLine_cons h, run_cons, run_cons]
    cases hstep : step state b with
    | none => rfl
    | some next => exact ih (isSound_of_step hstep)

/-! ## Whole texts -/

/-- **UTF-8.** A text is UTF-8 after the rule exactly when it was before. -/
theorem valid_repoint (text : Bytes) :
    [Utf8.Valid (repoint text).bytes, Utf8.Valid text,
      (repoint text).bytes.toByteArray.IsValidUTF8, text.toByteArray.IsValidUTF8].TFAE := by
  tfae_have 1 ↔ 2 := by
    rw [Valid, Valid, (repoint_eq_repointLine text).1, run_repointLine isSound_boundary]
  tfae_have 1 ↔ 3 := valid_iff_isValidUTF8
  tfae_have 2 ↔ 4 := valid_iff_isValidUTF8
  tfae_finish

end Repoint
