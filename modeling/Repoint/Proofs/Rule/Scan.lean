import Repoint.Rule

/-!
# Reading a text for references

What `repointLine` does, one case at a time. No two references overlap, and none holds a newline.
-/

namespace Repoint

/-! ## The texts of the rule -/

def dollar : UInt8 := 0x24

def afterDollar : Bytes := sourceDir.tail

theorem sourceDir_eq_cons : sourceDir = dollar :: afterDollar := by decide

theorem length_sourceDir : sourceDir.length = 19 := by decide

theorem length_marker : marker.length = 9 := by decide

theorem dollar_not_mem_afterDollar : dollar ∉ afterDollar := by decide

theorem dollar_not_mem_marker : dollar ∉ marker := by decide

theorem newline_not_mem_sourceDir : newline ∉ sourceDir := by decide

theorem newline_not_mem_marker : newline ∉ marker := by decide

theorem not_sourceDir_prefix_cons {b : UInt8} (rest : Bytes) (hb : b ≠ dollar) :
    ¬ sourceDir <+: b :: rest := by
  rw [sourceDir_eq_cons, List.cons_prefix_cons]
  exact fun h => hb h.1.symm

theorem prefix_append_cons_iff {c : UInt8} {p : Bytes} (hc : c ∉ p) (a b : Bytes) :
    p <+: a ++ c :: b ↔ p <+: a := by
  induction p generalizing a with
  | nil => simp
  | cons x p ih =>
    rw [List.mem_cons, not_or] at hc
    obtain ⟨hx, hp⟩ := hc
    cases a with
    | nil => simp [List.cons_prefix_cons, Ne.symm hx]
    | cons y a => rw [List.cons_append, List.cons_prefix_cons, List.cons_prefix_cons, ih hp]

/-! ## One reference or one byte at a time -/

@[elab_as_elim]
theorem referenceInduction {motive : Bytes → Prop} (nil : motive [])
    (reference : ∀ after, motive after → motive (sourceDir ++ after))
    (byte : ∀ b rest, ¬ sourceDir <+: b :: rest → motive rest → motive (b :: rest))
    (text : Bytes) : motive text := by
  induction hn : text.length using Nat.strongRecOn generalizing text with
  | ind n ih =>
    cases text with
    | nil => exact nil
    | cons b rest =>
      by_cases h : sourceDir <+: b :: rest
      · obtain ⟨after, heq⟩ := h
        have hlen := congrArg List.length heq
        rw [List.length_append, length_sourceDir] at hlen
        rw [← heq]
        exact reference after (ih after.length (by omega) after rfl)
      · exact byte b rest h (ih rest.length (by simp at hn; omega) rest rfl)

@[simp]
theorem markReferences_nil : markReferences [] = ([], 0) := by rw [markReferences]

theorem markReferences_cons {b : UInt8} {rest : Bytes} (h : ¬ sourceDir <+: b :: rest) :
    markReferences (b :: rest) = (b :: (markReferences rest).1, (markReferences rest).2) := by
  rw [markReferences, if_neg h]

theorem markReferences_sourceDir_append (after : Bytes) :
    markReferences (sourceDir ++ after) =
      if marker <+: after then (sourceDir ++ (markReferences after).1, (markReferences after).2)
      else (sourceDir ++ marker ++ (markReferences after).1, (markReferences after).2 + 1) := by
  have hdrop : (afterDollar ++ after).drop (sourceDir.length - 1) = after :=
    List.drop_left' (by decide)
  rw [sourceDir_eq_cons, List.cons_append, markReferences, ← List.cons_append, ← sourceDir_eq_cons,
    if_pos (List.prefix_append _ _), hdrop]

theorem markReferences_of_count_eq_zero {line : Bytes} (h : (markReferences line).2 = 0) :
    (markReferences line).1 = line := by
  induction line using referenceInduction with
  | nil => simp
  | reference after ih =>
    rw [markReferences_sourceDir_append] at h ⊢
    split at h
    · next hm => rw [if_pos hm, ih h]
    · cases h
  | byte b rest hb ih =>
    rw [markReferences_cons hb] at h ⊢
    rw [ih h]

theorem repointLine_eq (line : Bytes) :
    repointLine line =
      ⟨(markReferences line).1, (markReferences line).2, (markReferences line).2 = 0⟩ := by
  unfold repointLine
  dsimp only
  split
  · next h => simp [h, markReferences_of_count_eq_zero h]
  · next h => simp [h]

theorem borrowed_repointLine (line : Bytes) :
    (repointLine line).borrowed = decide ((repointLine line).count = 0) := by
  rw [repointLine_eq]

@[simp]
theorem repointLine_nil : repointLine [] = ⟨[], 0, true⟩ := by simp [repointLine_eq]

theorem repointLine_cons {b : UInt8} {rest : Bytes} (h : ¬ sourceDir <+: b :: rest) :
    repointLine (b :: rest) =
      ⟨b :: (repointLine rest).bytes, (repointLine rest).count, (repointLine rest).borrowed⟩ := by
  simp only [repointLine_eq, markReferences_cons h]

theorem repointLine_marked {after : Bytes} (h : marker <+: after) :
    repointLine (sourceDir ++ after) =
      ⟨sourceDir ++ (repointLine after).bytes, (repointLine after).count,
        (repointLine after).borrowed⟩ := by
  simp only [repointLine_eq, markReferences_sourceDir_append, if_pos h]

theorem repointLine_unmarked {after : Bytes} (h : ¬ marker <+: after) :
    repointLine (sourceDir ++ after) =
      ⟨sourceDir ++ marker ++ (repointLine after).bytes, (repointLine after).count + 1, false⟩ := by
  simp [repointLine_eq, markReferences_sourceDir_append, if_neg h]

theorem repointLine_append_of_not_mem {p : Bytes} (hp : dollar ∉ p) (rest : Bytes) :
    (repointLine (p ++ rest)).bytes = p ++ (repointLine rest).bytes := by
  induction p with
  | nil => rfl
  | cons b p ih =>
    rw [List.mem_cons, not_or] at hp
    rw [List.cons_append, repointLine_cons (not_sourceDir_prefix_cons _ (Ne.symm hp.1)), ih hp.2,
      List.cons_append]

/-! ## Cutting at a newline -/

theorem repointLine_append_cons {c : UInt8} (hsource : c ∉ sourceDir) (hmarker : c ∉ marker)
    (a b : Bytes) :
    repointLine (a ++ c :: b) =
      ⟨(repointLine a).bytes ++ c :: (repointLine b).bytes,
        (repointLine a).count + (repointLine b).count,
        (repointLine a).borrowed && (repointLine b).borrowed⟩ := by
  induction a using referenceInduction with
  | nil =>
    have hc : c ≠ dollar := by
      rintro rfl
      simp [sourceDir_eq_cons] at hsource
    simp [repointLine_cons (not_sourceDir_prefix_cons b hc)]
  | reference after ih =>
    rw [List.append_assoc]
    by_cases hm : marker <+: after
    · rw [repointLine_marked hm,
        repointLine_marked ((prefix_append_cons_iff hmarker after b).mpr hm), ih]
      simp
    · rw [repointLine_unmarked hm,
        repointLine_unmarked (mt (prefix_append_cons_iff hmarker after b).mp hm), ih]
      simp
      omega
  | byte x rest h ih =>
    have hx : ¬ sourceDir <+: x :: (rest ++ c :: b) :=
      mt (prefix_append_cons_iff hsource (x :: rest) b).mp h
    rw [List.cons_append, repointLine_cons hx, repointLine_cons h, ih]
    rfl

theorem repointLine_append_newline (a b : Bytes) :
    repointLine (a ++ newline :: b) =
      ⟨(repointLine a).bytes ++ newline :: (repointLine b).bytes,
        (repointLine a).count + (repointLine b).count,
        (repointLine a).borrowed && (repointLine b).borrowed⟩ :=
  repointLine_append_cons newline_not_mem_sourceDir newline_not_mem_marker a b

/-! ## Lines -/

theorem lines_append_newline (a b : Bytes) :
    lines (a ++ newline :: b) = lines (a ++ [newline]) ++ lines b := by
  induction a with
  | nil => simp [lines]
  | cons x a ih =>
    rw [List.cons_append, List.cons_append, lines, lines, ih]
    split
    · rfl
    · -- The lines of a text that ends in a newline are never none.
      cases h : lines (a ++ [newline]) with
      | nil => simpa [h] using flatten_lines (a ++ [newline])
      | cons line others => rfl

theorem lines_of_not_mem {line : Bytes} (h : newline ∉ line) (hne : line ≠ []) :
    lines line = [line] := by
  induction line with
  | nil => exact absurd rfl hne
  | cons x rest ih =>
    rw [List.mem_cons, not_or] at h
    obtain ⟨hx, hrest⟩ := h
    rw [lines, if_neg (Ne.symm hx)]
    cases rest with
    | nil => rfl
    | cons y rest => rw [ih hrest (List.cons_ne_nil y rest)]

theorem lines_newline_of_not_mem {line : Bytes} (h : newline ∉ line) :
    lines (line ++ [newline]) = [line ++ [newline]] := by
  induction line with
  | nil => rfl
  | cons x rest ih =>
    rw [List.mem_cons, not_or] at h
    obtain ⟨hx, hrest⟩ := h
    rw [List.cons_append, lines, if_neg (Ne.symm hx), ih hrest]

theorem lines_flatMap {α : Type} {line : α → Bytes} {items : List α}
    (h : ∀ item ∈ items, newline ∉ line item) :
    lines (items.flatMap fun item => line item ++ [newline]) =
      items.map fun item => line item ++ [newline] := by
  induction items with
  | nil => rfl
  | cons item items ih =>
    obtain ⟨hitem, hitems⟩ := List.forall_mem_cons.mp h
    rw [List.flatMap_cons, List.append_assoc, List.singleton_append, lines_append_newline,
      lines_newline_of_not_mem hitem, ih hitems]
    rfl

theorem length_le_count_newline {α : Type} (line : α → Bytes) (items : List α) :
    items.length ≤ (items.flatMap fun item => line item ++ [newline]).count newline := by
  induction items with
  | nil => exact Nat.le_refl 0
  | cons item items ih =>
    rw [List.flatMap_cons, List.count_append, List.count_append, List.count_singleton_self,
      List.length_cons]
    omega

theorem count_newline_eq_length_iff {α : Type} {line : α → Bytes} {items : List α} :
    (items.flatMap fun item => line item ++ [newline]).count newline = items.length ↔
      ∀ item ∈ items, newline ∉ line item := by
  induction items with
  | nil => simp
  | cons item items ih =>
    have hle := length_le_count_newline line items
    rw [List.forall_mem_cons, ← ih, ← List.count_eq_zero, List.flatMap_cons, List.count_append,
      List.count_append, List.count_singleton_self, List.length_cons]
    omega

@[elab_as_elim]
theorem lineInduction {motive : Bytes → Prop} (nil : motive [])
    (last : ∀ line, newline ∉ line → line ≠ [] → motive line)
    (line : ∀ line rest, newline ∉ line → motive rest → motive (line ++ newline :: rest))
    (text : Bytes) : motive text := by
  induction hn : text.length using Nat.strongRecOn generalizing text with
  | ind n ih =>
    by_cases hmem : newline ∈ text
    · obtain ⟨first, rest, rfl, hfirst⟩ := List.eq_append_cons_of_mem hmem
      exact line first rest hfirst (ih rest.length (by simp at hn; omega) rest rfl)
    · cases text with
      | nil => exact nil
      | cons b rest => exact last _ hmem (List.cons_ne_nil b rest)

/-! ## A whole text -/

theorem foldr_count_append (a b : List LineEdit) :
    (a ++ b).foldr (fun edit n => edit.count + n) 0 =
      a.foldr (fun edit n => edit.count + n) 0 + b.foldr (fun edit n => edit.count + n) 0 := by
  induction a with
  | nil => simp
  | cons edit a ih => simp only [List.cons_append, List.foldr_cons, ih, Nat.add_assoc]

@[simp]
theorem repoint_nil : repoint [] = ⟨[], 0, 0⟩ := rfl

theorem repoint_of_lines_eq {line : Bytes} (h : lines line = [line]) :
    repoint line =
      ⟨(repointLine line).bytes, (repointLine line).count,
        if 0 < (repointLine line).count then 1 else 0⟩ := by
  simp [repoint, h, List.countP_singleton]

theorem repoint_append_newline (a b : Bytes) :
    repoint (a ++ newline :: b) =
      { bytes := (repoint (a ++ [newline])).bytes ++ (repoint b).bytes
        replacements := (repoint (a ++ [newline])).replacements + (repoint b).replacements
        linesChanged := (repoint (a ++ [newline])).linesChanged + (repoint b).linesChanged } := by
  unfold repoint
  rw [lines_append_newline, List.map_append]
  simp only [List.flatMap_append, foldr_count_append, List.countP_append]

theorem repoint_eq_repointLine (text : Bytes) :
    (repoint text).bytes = (repointLine text).bytes ∧
      (repoint text).replacements = (repointLine text).count := by
  induction text using lineInduction with
  | nil => simp
  | last line h hne => simp [repoint_of_lines_eq (lines_of_not_mem h hne)]
  | line line rest h ih =>
    have hline := repointLine_append_newline line []
    rw [repoint_append_newline, repoint_of_lines_eq (lines_newline_of_not_mem h), hline,
      repointLine_append_newline, ih.1, ih.2]
    simp

end Repoint
