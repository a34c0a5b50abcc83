import Repoint.Proofs.Rule.FixedPoint

/-!
# Taking the markers out again

`unmark` leaves out the marker after each reference that has one, whoever wrote it.
-/

namespace Repoint

/-- Reads a text from left to right. Where a reference stands, it is taken whole, and one marker right
after it is left out if there is one. -/
def unmark : Bytes → Bytes
  | [] => []
  | b :: rest =>
    if sourceDir <+: b :: rest then
      let after := rest.drop (sourceDir.length - 1)
      sourceDir ++ unmark (if marker <+: after then after.drop marker.length else after)
    else b :: unmark rest
termination_by text => text.length
decreasing_by
  · simp only [List.length_cons]
    split <;> simp only [List.length_drop] <;> omega
  · simp

def NoneMarked (text : Bytes) : Prop :=
  ∀ i, sourceDir <+: text.drop i → ¬ marker <+: text.drop (i + sourceDir.length)

instance (text : Bytes) : Decidable (NoneMarked text) :=
  decidable_of_iff
    (∀ i < text.length,
      sourceDir <+: text.drop i → ¬ marker <+: text.drop (i + sourceDir.length))
    ⟨fun h i hi => h i (by
        have hle := length_le_of_prefix_drop hi (by decide)
        rw [length_sourceDir] at hle
        omega) hi,
      fun h i _ => h i⟩

variable {text after rest : Bytes}

/-! ## One reference or one byte at a time -/

@[simp]
theorem unmark_nil : unmark [] = [] := by rw [unmark]

theorem unmark_cons {b : UInt8} (h : ¬ sourceDir <+: b :: rest) :
    unmark (b :: rest) = b :: unmark rest := by
  rw [unmark, if_neg h]

theorem unmark_sourceDir_append (after : Bytes) :
    unmark (sourceDir ++ after) =
      sourceDir ++ unmark (if marker <+: after then after.drop marker.length else after) := by
  have hdrop : (afterDollar ++ after).drop (sourceDir.length - 1) = after :=
    List.drop_left' (by decide)
  rw [sourceDir_eq_cons, List.cons_append, unmark, ← List.cons_append, ← sourceDir_eq_cons,
    if_pos (List.prefix_append _ _), hdrop]

theorem unmark_marked (rest : Bytes) :
    unmark (sourceDir ++ (marker ++ rest)) = sourceDir ++ unmark rest := by
  rw [unmark_sourceDir_append, if_pos (List.prefix_append _ _), List.drop_left]

theorem unmark_unmarked (h : ¬ marker <+: after) :
    unmark (sourceDir ++ after) = sourceDir ++ unmark after := by
  rw [unmark_sourceDir_append, if_neg h]

theorem unmark_append_of_not_mem {p : Bytes} (hp : dollar ∉ p) (rest : Bytes) :
    unmark (p ++ rest) = p ++ unmark rest := by
  induction p with
  | nil => rfl
  | cons b p ih =>
    rw [List.mem_cons, not_or] at hp
    rw [List.cons_append, unmark_cons (not_sourceDir_prefix_cons _ (Ne.symm hp.1)), ih hp.2,
      List.cons_append]

/-! ## After the rule -/

theorem unmark_repointLine (text : Bytes) : unmark (repointLine text).bytes = unmark text := by
  induction text using referenceInduction with
  | nil => simp
  | reference after ih =>
    by_cases hm : marker <+: after
    · obtain ⟨rest, rfl⟩ := hm
      have hrest : unmark (repointLine rest).bytes = unmark rest := by
        rw [repointLine_append_of_not_mem dollar_not_mem_marker,
          unmark_append_of_not_mem dollar_not_mem_marker,
          unmark_append_of_not_mem dollar_not_mem_marker] at ih
        exact List.append_cancel_left ih
      rw [repointLine_marked (List.prefix_append _ _),
        repointLine_append_of_not_mem dollar_not_mem_marker, unmark_marked, unmark_marked, hrest]
    · rw [repointLine_unmarked hm, List.append_assoc, unmark_marked, unmark_unmarked hm, ih]
  | byte b rest h ih =>
    rw [repointLine_cons h, unmark_cons (not_sourceDir_prefix_cons_repointLine h), unmark_cons h, ih]

/-! ## Texts without a marker -/

theorem NoneMarked.of_append {a : Bytes} (h : NoneMarked (a ++ rest)) : NoneMarked rest := by
  intro i hi
  have hshift := h (a.length + i)
  rw [Nat.add_assoc, List.drop_length_add_append, List.drop_length_add_append] at hshift
  exact hshift hi

theorem NoneMarked.not_marker_prefix (h : NoneMarked (sourceDir ++ after)) : ¬ marker <+: after := by
  have hfirst := h 0 (List.prefix_append _ _)
  rwa [Nat.zero_add, List.drop_left] at hfirst

theorem unmark_of_noneMarked (h : NoneMarked text) : unmark text = text := by
  induction text using referenceInduction with
  | nil => simp
  | reference after ih => rw [unmark_unmarked h.not_marker_prefix, ih h.of_append]
  | byte b rest hb ih => rw [unmark_cons hb, ih (NoneMarked.of_append (a := [b]) h)]

/-! ## Back to the text before the rule -/

/-- **Reversal.** Taking the markers out after the rule gives what taking them out before it gives, so
the rule makes the same of no two texts in which no reference was marked. -/
theorem unmark_repoint (text : Bytes) :
    unmark (repoint text).bytes = unmark text ∧
    (NoneMarked text → unmark (repoint text).bytes = text) ∧
    ∀ other, NoneMarked text → NoneMarked other →
      (repoint text).bytes = (repoint other).bytes → text = other := by
  have hsame : ∀ text, unmark (repoint text).bytes = unmark text := by
    intro text
    rw [(repoint_eq_repointLine text).1, unmark_repointLine]
  refine ⟨hsame text, ?_, ?_⟩
  · intro h
    rw [hsame, unmark_of_noneMarked h]
  · intro other h hother heq
    calc text = unmark (repoint text).bytes := by rw [hsame, unmark_of_noneMarked h]
      _ = unmark (repoint other).bytes := by rw [heq]
      _ = other := by rw [hsame, unmark_of_noneMarked hother]

/-- A reference right after another one, one before the marker without its slash, and one before
all of the marker but its last byte. With that byte the reference is marked, and the rule, which then
leaves it alone, makes the same of two texts. -/
theorem unmark_repoint_adjacent :
    let text := sourceDir ++ sourceDir ++ submoduleDir ++ [newline] ++ sourceDir ++ ascii "/solidit"
    let after := sourceDir ++ marker ++ sourceDir ++ marker ++ submoduleDir ++ [newline] ++
      sourceDir ++ marker ++ ascii "/solidit"
    let other := sourceDir ++ [newline]
    NoneMarked text ∧ (repoint text).bytes = after ∧ unmark after = text ∧
      NoneMarked other ∧ (repoint text).bytes ≠ (repoint other).bytes ∧
      ¬ NoneMarked (sourceDir ++ marker) ∧
      (repoint (sourceDir ++ marker)).bytes = (repoint sourceDir).bytes ∧
      unmark (repoint (sourceDir ++ marker)).bytes = sourceDir := by
  intro text after other
  have htext : NoneMarked text := by decide +kernel
  have hafter : (repoint text).bytes = after := by decide +kernel
  have hother : NoneMarked other := by decide +kernel
  obtain ⟨-, hback, hinjective⟩ := unmark_repoint text
  refine ⟨htext, hafter, hafter ▸ hback htext, hother, ?_, by decide +kernel, by decide +kernel, ?_⟩
  · intro heq
    exact absurd (hinjective other htext hother heq) (by decide)
  · rw [(unmark_repoint (sourceDir ++ marker)).1]
    decide +kernel

end Repoint
