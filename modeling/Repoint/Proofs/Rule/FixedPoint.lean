import Mathlib.Tactic.TFAE
import Repoint.Proofs.Rule.Insertion

/-!
# The rule applied twice
-/

namespace Repoint

/-! ## Texts with nothing to change -/

theorem allMarked_cons {b : UInt8} {rest : Bytes} (h : ¬ sourceDir <+: b :: rest) :
    AllMarked (b :: rest) ↔ AllMarked rest := by
  rw [allMarked_iff, allMarked_iff, eligible_cons h, Finset.image_eq_empty]

theorem allMarked_append_of_not_mem {p : Bytes} (hp : dollar ∉ p) (rest : Bytes) :
    AllMarked (p ++ rest) ↔ AllMarked rest := by
  rw [allMarked_iff, allMarked_iff, eligible_append_of_not_mem hp, Finset.image_eq_empty]

theorem allMarked_sourceDir_append (after : Bytes) :
    AllMarked (sourceDir ++ after) ↔ marker <+: after ∧ AllMarked after := by
  rw [allMarked_iff, allMarked_iff, eligible_sourceDir_append, Finset.union_eq_empty,
    Finset.image_eq_empty]
  by_cases hm : marker <+: after <;> simp [hm]

theorem repointLine_count_eq_zero_iff {text : Bytes} :
    (repointLine text).count = 0 ↔ AllMarked text := by
  rw [repointLine_eq_insertAt, allMarked_iff, Finset.card_eq_zero]

theorem repointLine_of_allMarked {text : Bytes} (h : AllMarked text) :
    repointLine text = ⟨text, 0, true⟩ := by
  rw [repointLine_eq_insertAt, allMarked_iff.mp h, Finset.image_empty, insertAt_empty,
    Finset.card_empty]
  rfl

/-! ## After the rule -/

theorem length_repointLine (text : Bytes) :
    (repointLine text).bytes.length = text.length + (repointLine text).count * marker.length := by
  induction text using referenceInduction with
  | nil => simp
  | reference after ih =>
    by_cases hm : marker <+: after
    · simp only [repointLine_marked hm, List.length_append, ih]
      omega
    · simp only [repointLine_unmarked hm, List.length_append, ih, Nat.succ_mul]
      omega
  | byte b rest h ih =>
    simp only [repointLine_cons h, List.length_cons, ih]
    omega

theorem prefix_repointLine_iff {p : Bytes} (hp : dollar ∉ p) (text : Bytes) :
    p <+: (repointLine text).bytes ↔ p <+: text := by
  induction p generalizing text with
  | nil => simp
  | cons x p ih =>
    rw [List.mem_cons, not_or] at hp
    cases text using referenceInduction with
    | nil => simp
    | reference after =>
      have hx : ∀ rest, ¬ x :: p <+: sourceDir ++ rest := by
        intro rest
        rw [sourceDir_eq_cons, List.cons_append, List.cons_prefix_cons]
        exact fun h => hp.1 h.1.symm
      by_cases hm : marker <+: after
      · simp only [repointLine_marked hm, hx]
      · simp only [repointLine_unmarked hm, List.append_assoc, hx]
    | byte b rest h =>
      simp only [repointLine_cons h, List.cons_prefix_cons, ih hp.2]

theorem not_sourceDir_prefix_cons_repointLine {b : UInt8} {rest : Bytes}
    (h : ¬ sourceDir <+: b :: rest) : ¬ sourceDir <+: b :: (repointLine rest).bytes := by
  rw [sourceDir_eq_cons, List.cons_prefix_cons, prefix_repointLine_iff dollar_not_mem_afterDollar,
    ← List.cons_prefix_cons, ← sourceDir_eq_cons]
  exact h

theorem allMarked_repointLine (text : Bytes) : AllMarked (repointLine text).bytes := by
  induction text using referenceInduction with
  | nil => simp [allMarked_iff]
  | reference after ih =>
    by_cases hm : marker <+: after
    · rw [repointLine_marked hm]
      exact (allMarked_sourceDir_append _).mpr
        ⟨(prefix_repointLine_iff dollar_not_mem_marker after).mpr hm, ih⟩
    · rw [repointLine_unmarked hm, List.append_assoc]
      refine (allMarked_sourceDir_append _).mpr ⟨List.prefix_append _ _, ?_⟩
      exact (allMarked_append_of_not_mem dollar_not_mem_marker _).mpr ih
  | byte b rest h ih =>
    rw [repointLine_cons h]
    exact (allMarked_cons (not_sourceDir_prefix_cons_repointLine h)).mpr ih

theorem repointLine_bytes_eq_iff {text : Bytes} :
    (repointLine text).bytes = text ↔ AllMarked text := by
  constructor
  · intro h
    have hlen := length_repointLine text
    rw [h, length_marker] at hlen
    exact repointLine_count_eq_zero_iff.mp (by omega)
  · intro h
    rw [repointLine_of_allMarked h]

/-! ## Whole texts -/

theorem repoint_replacements_eq_zero_iff {text : Bytes} :
    (repoint text).replacements = 0 ↔ AllMarked text := by
  rw [(repoint_eq_repointLine text).2, repointLine_count_eq_zero_iff]

theorem repoint_of_allMarked {text : Bytes} (h : AllMarked text) : repoint text = ⟨text, 0, 0⟩ := by
  obtain ⟨hbytes, hcount⟩ := repoint_eq_repointLine text
  have hlines := linesChanged_eq_card text
  rw [repointLine_of_allMarked h] at hbytes hcount
  rw [allMarked_iff.mp h, Finset.image_empty, Finset.card_empty] at hlines
  calc repoint text
      = ⟨(repoint text).bytes, (repoint text).replacements, (repoint text).linesChanged⟩ := rfl
    _ = ⟨text, 0, 0⟩ := by rw [hbytes, hcount, hlines]

theorem allMarked_repoint (text : Bytes) : AllMarked (repoint text).bytes := by
  rw [(repoint_eq_repointLine text).1]
  exact allMarked_repointLine text

theorem repoint_repoint (text : Bytes) :
    repoint (repoint text).bytes = ⟨(repoint text).bytes, 0, 0⟩ :=
  repoint_of_allMarked (allMarked_repoint text)

theorem repoint_bytes_eq_iff {text : Bytes} : (repoint text).bytes = text ↔ AllMarked text := by
  rw [(repoint_eq_repointLine text).1, repointLine_bytes_eq_iff]

/-- **Fixed points.** After the rule every reference is marked, and the rule finds nothing more to
change. -/
theorem repoint_fixed_points (text : Bytes) :
    (repoint (repoint text).bytes = ⟨(repoint text).bytes, 0, 0⟩ ∧
      AllMarked (repoint text).bytes ∧
      [(repoint text).replacements = 0, (repoint text).bytes = text, AllMarked text].TFAE) ∧
    (repointLine (repointLine text).bytes = ⟨(repointLine text).bytes, 0, true⟩ ∧
      AllMarked (repointLine text).bytes ∧
      [(repointLine text).count = 0, (repointLine text).bytes = text, AllMarked text,
        (repointLine text).borrowed = true].TFAE) := by
  refine ⟨⟨repoint_repoint text, allMarked_repoint text, ?_⟩,
    ⟨repointLine_of_allMarked (allMarked_repointLine text), allMarked_repointLine text, ?_⟩⟩
  · tfae_have 1 ↔ 3 := repoint_replacements_eq_zero_iff
    tfae_have 2 ↔ 3 := repoint_bytes_eq_iff
    tfae_finish
  · tfae_have 1 ↔ 3 := repointLine_count_eq_zero_iff
    tfae_have 2 ↔ 3 := repointLine_bytes_eq_iff
    tfae_have 4 ↔ 1 := by rw [borrowed_repointLine, decide_eq_true_iff]
    tfae_finish

end Repoint
