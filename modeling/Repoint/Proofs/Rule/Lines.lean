import Repoint.Proofs.Rule.FixedPoint

/-!
# The rule and the lines of a text

No newline and no carriage return is in a reference or in a marker.
-/

namespace Repoint

/-! ## Bytes that the rule leaves alone -/

variable {c : UInt8} {text : Bytes}

theorem count_repointLine (hmarker : c ∉ marker) (text : Bytes) :
    (repointLine text).bytes.count c = text.count c := by
  induction text using referenceInduction with
  | nil => simp
  | reference after ih =>
    by_cases hm : marker <+: after
    · rw [repointLine_marked hm, List.count_append, List.count_append, ih]
    · rw [repointLine_unmarked hm, List.count_append, List.count_append, List.count_append,
        List.count_eq_zero.mpr hmarker, Nat.add_zero, ih]
  | byte b rest h ih => rw [repointLine_cons h, List.count_cons, List.count_cons, ih]

theorem newline_mem_repointLine_iff : newline ∈ (repointLine text).bytes ↔ newline ∈ text := by
  rw [← List.count_pos_iff, ← List.count_pos_iff, count_repointLine newline_not_mem_marker]

theorem repointLine_bytes_eq_nil_iff : (repointLine text).bytes = [] ↔ text = [] := by
  rw [← List.length_eq_zero_iff, ← List.length_eq_zero_iff]
  constructor
  · intro h
    rw [length_repointLine] at h
    omega
  · intro h
    rw [List.length_eq_zero_iff.mp h, repointLine_nil]
    rfl

theorem getLast?_repointLine_iff (hsource : c ∉ sourceDir) (hmarker : c ∉ marker) (text : Bytes) :
    (repointLine text).bytes.getLast? = some c ↔ text.getLast? = some c := by
  constructor
  · induction text using referenceInduction with
    | nil => simp
    | reference after ih =>
      intro h
      have hafter : (repointLine after).bytes.getLast? = some c := by
        by_cases hm : marker <+: after
        · rw [repointLine_marked hm, List.getLast?_append, Option.or_eq_some_iff] at h
          exact h.resolve_right fun hlast => hsource (List.mem_of_getLast? hlast.2)
        · rw [repointLine_unmarked hm, List.getLast?_append, Option.or_eq_some_iff] at h
          refine h.resolve_right fun hlast => ?_
          rcases List.mem_append.mp (List.mem_of_getLast? hlast.2) with hmem | hmem
          · exact hsource hmem
          · exact hmarker hmem
      rw [List.getLast?_append, ih hafter, Option.some_or]
    | byte b rest h ih =>
      rw [repointLine_cons h]
      cases rest with
      | nil => simp
      | cons x rest =>
        have hne : (repointLine (x :: rest)).bytes ≠ [] :=
          mt repointLine_bytes_eq_nil_iff.mp (List.cons_ne_nil x rest)
        rw [List.getLast?_cons_of_ne_nil hne, List.getLast?_cons_cons]
        exact ih
  · intro h
    obtain ⟨front, rfl⟩ := List.getLast?_eq_some_iff.mp h
    rw [repointLine_append_cons hsource hmarker, repointLine_nil, List.getLast?_append]
    rfl

/-! ## How a line ends -/

/-- The byte before the newline where a line ends in two bytes. -/
def carriageReturn : UInt8 := 0x0D

/-- How a line ends: in a carriage return and a newline, in a newline alone, or in neither. -/
def lineEnding (line : Bytes) : Bytes :=
  if line.getLast? ≠ some newline then []
  else if line.dropLast.getLast? = some carriageReturn then [carriageReturn, newline]
  else [newline]

theorem lineEnding_repointLine (line : Bytes) :
    lineEnding (repointLine line).bytes = lineEnding line := by
  by_cases hlast : line.getLast? = some newline
  · obtain ⟨front, rfl⟩ := List.getLast?_eq_some_iff.mp hlast
    have hfront : (repointLine front).bytes.getLast? = some carriageReturn ↔
        front.getLast? = some carriageReturn :=
      getLast?_repointLine_iff (by decide) (by decide) front
    rw [repointLine_append_newline, repointLine_nil]
    simp [lineEnding, hfront]
  · have hlast' := mt
      (getLast?_repointLine_iff newline_not_mem_sourceDir newline_not_mem_marker line).mp hlast
    rw [lineEnding, lineEnding, if_pos hlast, if_pos hlast']

/-! ## The lines of a text -/

theorem lines_repoint (text : Bytes) :
    lines (repoint text).bytes = (lines text).map fun line => (repointLine line).bytes := by
  induction text using lineInduction with
  | nil => rfl
  | last line h hne =>
    have hlines := lines_of_not_mem h hne
    rw [repoint_of_lines_eq hlines, hlines, List.map_singleton]
    exact lines_of_not_mem (mt newline_mem_repointLine_iff.mp h)
      (mt repointLine_bytes_eq_nil_iff.mp hne)
  | line line rest h ih =>
    have hafter := mt newline_mem_repointLine_iff.mp h
    have hline : (repointLine (line ++ [newline])).bytes = (repointLine line).bytes ++ [newline] := by
      rw [repointLine_append_newline, repointLine_nil]
    have hbytes : (repoint (line ++ newline :: rest)).bytes =
        (repointLine line).bytes ++ newline :: (repoint rest).bytes := by
      rw [repoint_append_newline, repoint_of_lines_eq (lines_newline_of_not_mem h), hline,
        List.append_assoc, List.singleton_append]
    rw [hbytes, lines_append_newline, lines_append_newline line, ih, lines_newline_of_not_mem hafter,
      lines_newline_of_not_mem h, List.map_append, List.map_singleton, hline]

/-! ## Cutting a text -/

/-- A text can be cut after this piece: the piece is empty or ends a line. -/
def EndsLine (piece : Bytes) : Prop := piece = [] ∨ piece.getLast? = some newline

instance (piece : Bytes) : Decidable (EndsLine piece) := inferInstanceAs (Decidable (_ ∨ _))

theorem repoint_append (h : EndsLine text) (rest : Bytes) :
    repoint (text ++ rest) =
      { bytes := (repoint text).bytes ++ (repoint rest).bytes
        replacements := (repoint text).replacements + (repoint rest).replacements
        linesChanged := (repoint text).linesChanged + (repoint rest).linesChanged } := by
  rcases h with rfl | h
  · simp
  · obtain ⟨front, rfl⟩ := List.getLast?_eq_some_iff.mp h
    rw [List.append_assoc, List.singleton_append, repoint_append_newline]

theorem repointLine_append (h : EndsLine text) (rest : Bytes) :
    repointLine (text ++ rest) =
      ⟨(repointLine text).bytes ++ (repointLine rest).bytes,
        (repointLine text).count + (repointLine rest).count,
        (repointLine text).borrowed && (repointLine rest).borrowed⟩ := by
  rcases h with rfl | h
  · simp
  · obtain ⟨front, rfl⟩ := List.getLast?_eq_some_iff.mp h
    rw [List.append_assoc, List.singleton_append, repointLine_append_newline,
      repointLine_append_newline front [], repointLine_nil]
    simp

theorem repointLine_flatten {pieces : List Bytes} (h : ∀ piece ∈ pieces.dropLast, EndsLine piece) :
    repointLine pieces.flatten =
      ⟨pieces.flatMap fun piece => (repointLine piece).bytes,
        pieces.foldr (fun piece n => (repointLine piece).count + n) 0,
        pieces.all fun piece => (repointLine piece).borrowed⟩ := by
  induction pieces with
  | nil => simp
  | cons piece rest ih =>
    cases rest with
    | nil => simp
    | cons next rest =>
      rw [List.dropLast_cons_cons, List.forall_mem_cons] at h
      rw [List.flatten_cons, repointLine_append h.1, ih h.2]
      rfl

theorem not_changed_repoint (text : Bytes) :
    (!(repoint text).changed) = (repointLine text).borrowed := by
  rw [Repointed.changed, (repoint_eq_repointLine text).2, borrowed_repointLine, ← decide_not]
  simp only [Nat.not_lt, Nat.le_zero]

/-- **Reading at once.** A text that is read as if it were one line changes as it does line by line. -/
theorem repointLine_whole (text : Bytes) :
    repointLine text =
      ⟨(repoint text).bytes, (repoint text).replacements, !(repoint text).changed⟩ ∧
    ∀ pieces : List Bytes, pieces.flatten = text → (∀ piece ∈ pieces.dropLast, EndsLine piece) →
      pieces.flatMap (fun piece => (repointLine piece).bytes) = (repoint text).bytes ∧
      pieces.foldr (fun piece n => (repointLine piece).count + n) 0 = (repoint text).replacements := by
  obtain ⟨hbytes, hcount⟩ := repoint_eq_repointLine text
  rw [hbytes, hcount, not_changed_repoint]
  refine ⟨rfl, ?_⟩
  rintro pieces rfl hcut
  rw [repointLine_flatten hcut]
  exact ⟨rfl, rfl⟩

theorem repointLine_whole_pieces :
    let line := sourceDir ++ [newline]
    let pieces := [line, [newline] ++ line, sourceDir ++ marker ++ sourceDir]
    let marked := sourceDir ++ marker
    let after := marked ++ [newline, newline] ++ marked ++ [newline] ++ marked ++ marked
    repointLine pieces.flatten = ⟨after, 3, false⟩ ∧ (repoint pieces.flatten).bytes = after ∧
      pieces.flatMap (fun piece => (repointLine piece).bytes) = (repoint pieces.flatten).bytes ∧
      pieces.foldr (fun piece n => (repointLine piece).count + n) 0 =
        (repoint pieces.flatten).replacements := by
  intro line pieces marked after
  have hafter : repointLine pieces.flatten = ⟨after, 3, false⟩ := by decide +kernel
  obtain ⟨hwhole, hpieces⟩ := repointLine_whole pieces.flatten
  rw [hafter, LineEdit.mk.injEq] at hwhole
  exact ⟨hafter, hwhole.1.symm, hpieces pieces rfl (by decide)⟩

/-- **Lines.** The lines of a text after the rule are its lines with the rule applied to each of them,
and every line ends as it did. -/
theorem repoint_line_by_line (text : Bytes) :
    lines (repoint text).bytes = (lines text).map (fun line => (repointLine line).bytes) ∧
    (∀ line ∈ lines text, lineEnding (repointLine line).bytes = lineEnding line) ∧
    ∀ rest, text = [] ∨ text.getLast? = some newline →
      repoint (text ++ rest) =
        { bytes := (repoint text).bytes ++ (repoint rest).bytes
          replacements := (repoint text).replacements + (repoint rest).replacements
          linesChanged := (repoint text).linesChanged + (repoint rest).linesChanged } :=
  ⟨lines_repoint text, fun line _ => lineEnding_repointLine line, fun rest h => repoint_append h rest⟩

theorem repoint_line_by_line_endings :
    let text := sourceDir ++ [carriageReturn, newline] ++ [newline]
    let rest := sourceDir ++ ascii "/c"
    text.getLast? = some newline ∧
    (lines (text ++ rest)).map lineEnding = [[carriageReturn, newline], [newline], []] ∧
    (lines (repoint (text ++ rest)).bytes).map lineEnding =
      [[carriageReturn, newline], [newline], []] ∧
    (repoint (text ++ rest)).bytes = (repoint text).bytes ++ (repoint rest).bytes ∧
    (repoint (text ++ rest)).linesChanged = 2 := by
  intro text rest
  have hends : text.getLast? = some newline := by decide
  have hbefore : (lines (text ++ rest)).map lineEnding =
      [[carriageReturn, newline], [newline], []] := by decide
  obtain ⟨hlines, hendings, -⟩ := repoint_line_by_line (text ++ rest)
  obtain ⟨-, -, happend⟩ := repoint_line_by_line text
  refine ⟨hends, hbefore, ?_, ?_, by decide +kernel⟩
  · rw [hlines, List.map_map, ← hbefore]
    exact List.map_congr_left hendings
  · rw [happend rest (.inr hends)]

end Repoint
