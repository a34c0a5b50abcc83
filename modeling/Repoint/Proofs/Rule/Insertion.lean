import Repoint.Proofs.Rule.Spec

/-!
# The rule writes markers in
-/

namespace Repoint

/-! ## References and bytes -/

theorem repointLine_eq_insertAt (text : Bytes) :
    repointLine text =
      ⟨insertAt marker ((eligible text).image (· + sourceDir.length)) text,
        (eligible text).card, (eligible text).card = 0⟩ := by
  induction text using referenceInduction with
  | nil => simp [insertAt]
  | reference after ih =>
    have hcard : ((eligible after).image (· + sourceDir.length)).card = (eligible after).card :=
      Finset.card_image_of_injective _ (add_left_injective _)
    rw [insertAt_append, eligible_sourceDir_append]
    by_cases hm : marker <+: after
    · rw [repointLine_marked hm, ih, if_pos hm, Finset.empty_union, hcard]
    · have hzero : 0 ∉ (eligible after).image (· + sourceDir.length) := by simp [length_sourceDir]
      rw [repointLine_unmarked hm, ih, if_neg hm, ← Finset.insert_eq, insertAt_insert_zero hzero,
        Finset.card_insert_of_notMem hzero, hcard, List.append_assoc]
      simp
  | byte b rest h ih =>
    have hshift : ((eligible rest).image (· + 1)).image (· + sourceDir.length) =
        ((eligible rest).image (· + sourceDir.length)).image (· + [b].length) := by
      rw [Finset.image_image, Finset.image_image]
      congr 1
    have hinsert := insertAt_append marker [b] rest ((eligible rest).image (· + sourceDir.length))
    rw [List.singleton_append, List.singleton_append] at hinsert
    rw [repointLine_cons h, ih, eligible_cons h, hshift, hinsert,
      Finset.card_image_of_injective _ (add_left_injective 1)]

/-! ## Lines -/

theorem image_lineOf_append_newline {line : Bytes} (h : newline ∉ line) (rest : Bytes) :
    (eligible (line ++ newline :: rest)).image (lineOf (line ++ newline :: rest)) =
      (if (eligible line).Nonempty then {0} else ∅) ∪
        ((eligible rest).image (lineOf rest)).image (· + 1) := by
  have hfirst : ∀ i ∈ eligible line, lineOf (line ++ newline :: rest) i = 0 := by
    intro i hi
    have hle := (mem_eligible.mp hi).add_length_le
    rw [lineOf, List.take_append_of_le_length (by omega)]
    exact List.count_eq_zero.mpr fun hmem => h (List.mem_of_mem_take hmem)
  have hrest : ∀ j, lineOf (line ++ newline :: rest) (j + (line.length + 1)) = lineOf rest j + 1 := by
    intro j
    rw [lineOf, lineOf, Nat.add_left_comm, List.take_length_add_append, List.take_succ_cons,
      List.count_append, List.count_eq_zero.mpr h, List.count_cons_self, Nat.zero_add]
  have hsplit : eligible (line ++ newline :: rest) =
      eligible line ∪ (eligible rest).image (· + (line.length + 1)) := by
    ext i
    simp [isEligible_append_newline]
  rw [hsplit, Finset.image_union, Finset.image_image, Finset.image_image]
  congr 1
  · by_cases hne : (eligible line).Nonempty
    · rw [if_pos hne, Finset.image_congr hfirst, Finset.image_const hne]
    · rw [if_neg hne, Finset.not_nonempty_iff_eq_empty.mp hne, Finset.image_empty]
  · congr 1
    funext j
    exact hrest j

theorem repointLine_count_newline (line : Bytes) :
    (repointLine (line ++ [newline])).count = (eligible line).card := by
  rw [repointLine_append_newline, repointLine_eq_insertAt line]
  simp

theorem linesChanged_eq_card (text : Bytes) :
    (repoint text).linesChanged = ((eligible text).image (lineOf text)).card := by
  induction text using lineInduction with
  | nil => rfl
  | last line h hne =>
    have hzero : ∀ i ∈ eligible line, lineOf line i = 0 := fun i _ =>
      List.count_eq_zero.mpr fun hmem => h (List.mem_of_mem_take hmem)
    rw [repoint_of_lines_eq (lines_of_not_mem h hne), repointLine_eq_insertAt,
      Finset.image_congr hzero]
    by_cases hsome : (eligible line).Nonempty
    · rw [Finset.image_const hsome, if_pos (Finset.card_pos.mpr hsome), Finset.card_singleton]
    · rw [Finset.not_nonempty_iff_eq_empty.mp hsome]
      rfl
  | line line rest h ih =>
    have hstep : (repoint (line ++ newline :: rest)).linesChanged =
        (if 0 < (eligible line).card then 1 else 0) + (repoint rest).linesChanged := by
      rw [repoint_append_newline, repoint_of_lines_eq (lines_newline_of_not_mem h),
        repointLine_count_newline]
    have hcard : (((eligible rest).image (lineOf rest)).image (· + 1)).card =
        ((eligible rest).image (lineOf rest)).card :=
      Finset.card_image_of_injective _ (add_left_injective 1)
    have hzero : 0 ∉ ((eligible rest).image (lineOf rest)).image (· + 1) := by simp
    rw [hstep, ih, image_lineOf_append_newline h]
    by_cases hsome : (eligible line).Nonempty
    · rw [if_pos hsome, if_pos (Finset.card_pos.mpr hsome), ← Finset.insert_eq,
        Finset.card_insert_of_notMem hzero, hcard, Nat.add_comm]
    · rw [if_neg hsome, if_neg (mt Finset.card_pos.mp hsome), Finset.empty_union, hcard,
        Nat.zero_add]

/-! ## The whole rule -/

/-- **Insertion.** The rule writes a marker after each reference that has none, changes nothing else,
and counts these references and their lines. -/
theorem repoint_eq_markers_inserted (text : Bytes) :
    repoint text =
      { bytes := insertAt marker ((eligible text).image (· + sourceDir.length)) text
        replacements := (eligible text).card
        linesChanged := ((eligible text).image (lineOf text)).card } := by
  obtain ⟨hbytes, hcount⟩ := repoint_eq_repointLine text
  rw [repointLine_eq_insertAt] at hbytes hcount
  calc repoint text
      = ⟨(repoint text).bytes, (repoint text).replacements, (repoint text).linesChanged⟩ := rfl
    _ = _ := by rw [hbytes, hcount, linesChanged_eq_card]

end Repoint
