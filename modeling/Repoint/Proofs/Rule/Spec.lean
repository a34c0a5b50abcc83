import Mathlib.Algebra.Group.Nat.Defs
import Mathlib.Data.Finset.Card
import Mathlib.Data.Finset.Range
import Repoint.Proofs.Rule.Scan

/-!
# What the rule means

The rule said without reading from left to right.
-/

namespace Repoint

/-! ## References without a marker -/

/-- A reference stands at the offset, and no marker right after it. -/
def IsEligible (text : Bytes) (i : Nat) : Prop :=
  sourceDir <+: text.drop i ∧ ¬ marker <+: text.drop (i + sourceDir.length)

instance (text : Bytes) (i : Nat) : Decidable (IsEligible text i) :=
  inferInstanceAs (Decidable (_ ∧ _))

/-- The offsets of all references in a text that no marker follows. -/
def eligible (text : Bytes) : Finset Nat := {i ∈ Finset.range text.length | IsEligible text i}

def AllMarked (text : Bytes) : Prop :=
  ∀ i, sourceDir <+: text.drop i → marker <+: text.drop (i + sourceDir.length)

theorem length_le_of_prefix_drop {p text : Bytes} {i : Nat} (h : p <+: text.drop i) (hp : p ≠ []) :
    i + p.length ≤ text.length := by
  have hlen := h.length_le
  have hpos := List.length_pos_iff.mpr hp
  rw [List.length_drop] at hlen
  omega

theorem IsEligible.add_length_le {text : Bytes} {i : Nat} (h : IsEligible text i) :
    i + sourceDir.length ≤ text.length := length_le_of_prefix_drop h.1 (by decide)

@[simp]
theorem mem_eligible {text : Bytes} {i : Nat} : i ∈ eligible text ↔ IsEligible text i := by
  rw [eligible, Finset.mem_filter, Finset.mem_range, and_iff_right_iff_imp]
  intro h
  have hle := h.add_length_le
  rw [length_sourceDir] at hle
  omega

theorem allMarked_iff {text : Bytes} : AllMarked text ↔ eligible text = ∅ := by
  rw [Finset.eq_empty_iff_forall_notMem]
  simp only [mem_eligible, IsEligible, not_and, not_not, AllMarked]

theorem not_allMarked_iff {text : Bytes} : ¬ AllMarked text ↔ ∃ i, IsEligible text i := by
  simp only [AllMarked, IsEligible, not_forall, exists_prop]

/-! ### Along a text -/

@[simp]
theorem eligible_nil : eligible [] = ∅ := rfl

theorem isEligible_cons_succ {b : UInt8} {rest : Bytes} {i : Nat} :
    IsEligible (b :: rest) (i + 1) ↔ IsEligible rest i := by
  rw [IsEligible, IsEligible, List.drop_succ_cons, Nat.add_right_comm, List.drop_succ_cons]

theorem eligible_cons {b : UInt8} {rest : Bytes} (h : ¬ sourceDir <+: b :: rest) :
    eligible (b :: rest) = (eligible rest).image (· + 1) := by
  ext i
  rw [mem_eligible, Finset.mem_image]
  cases i with
  | zero => simp [IsEligible, h]
  | succ i => simp [isEligible_cons_succ]

theorem eligible_append_of_not_mem {p : Bytes} (hp : dollar ∉ p) (rest : Bytes) :
    eligible (p ++ rest) = (eligible rest).image (· + p.length) := by
  induction p with
  | nil => simp
  | cons b p ih =>
    rw [List.mem_cons, not_or] at hp
    rw [List.cons_append, eligible_cons (not_sourceDir_prefix_cons _ (Ne.symm hp.1)), ih hp.2,
      Finset.image_image]
    rfl

theorem eligible_sourceDir_append (after : Bytes) :
    eligible (sourceDir ++ after) =
      (if marker <+: after then ∅ else {0}) ∪ (eligible after).image (· + sourceDir.length) := by
  have hrest := eligible_append_of_not_mem dollar_not_mem_afterDollar after
  ext i
  rw [mem_eligible, Finset.mem_union, Finset.mem_image]
  cases i with
  | zero =>
    have hdrop : (sourceDir ++ after).drop (0 + sourceDir.length) = after := by
      rw [Nat.zero_add, List.drop_left]
    rw [IsEligible, hdrop]
    by_cases hm : marker <+: after <;> simp [hm, length_sourceDir]
  | succ i =>
    -- Past its dollar sign the reference starts no other one.
    rw [sourceDir_eq_cons, List.cons_append, isEligible_cons_succ, ← mem_eligible, hrest,
      Finset.mem_image]
    by_cases hm : marker <+: after <;> simp [hm, ← Nat.add_assoc]

theorem isEligible_append_newline {a b : Bytes} {i : Nat} :
    IsEligible (a ++ newline :: b) i ↔
      IsEligible a i ∨ ∃ j, IsEligible b j ∧ j + (a.length + 1) = i := by
  by_cases hi : i ≤ a.length
  · have hno : ¬ ∃ j, IsEligible b j ∧ j + (a.length + 1) = i := fun ⟨j, _, hj⟩ => by omega
    rw [or_iff_left hno, IsEligible, IsEligible, List.drop_append_of_le_length hi,
      prefix_append_cons_iff newline_not_mem_sourceDir, and_congr_right_iff]
    intro hp
    have hle := length_le_of_prefix_drop hp (by decide)
    rw [List.drop_append_of_le_length hle, prefix_append_cons_iff newline_not_mem_marker]
  · obtain ⟨j, rfl⟩ : ∃ j, i = a.length + (j + 1) := ⟨i - a.length - 1, by omega⟩
    have hno : ¬ IsEligible a (a.length + (j + 1)) := fun h => by
      have hle := h.add_length_le
      omega
    have hshift : IsEligible (a ++ newline :: b) (a.length + (j + 1)) ↔ IsEligible b j := by
      rw [IsEligible, Nat.add_assoc, List.drop_length_add_append, List.drop_length_add_append]
      exact isEligible_cons_succ
    rw [or_iff_right hno, hshift]
    constructor
    · intro h
      exact ⟨j, h, by omega⟩
    · rintro ⟨k, h, hk⟩
      obtain rfl : k = j := by omega
      exact h

/-! ## Lines -/

/-- The number of the line that an offset lies on: how many lines end before it. -/
def lineOf (text : Bytes) (i : Nat) : Nat := (text.take i).count newline

/-! ## Writing in -/

/-- The text with a piece written in before the byte at each of the offsets. The offset of the end is
the length of the text. -/
def insertAt (piece : Bytes) (offsets : Finset Nat) (text : Bytes) : Bytes :=
  (List.range (text.length + 1)).flatMap fun i =>
    (if i ∈ offsets then piece else []) ++ text[i]?.toList

theorem flatMap_range_getElem? (text : Bytes) (n : Nat) :
    (List.range n).flatMap (fun i => text[i]?.toList) = text.take n := by
  induction n with
  | zero => rfl
  | succ n ih => rw [List.range_succ, List.flatMap_append, ih, List.take_add_one]; simp

@[simp]
theorem insertAt_empty (piece text : Bytes) : insertAt piece ∅ text = text := by
  have h := flatMap_range_getElem? text (text.length + 1)
  rw [List.take_of_length_le (Nat.le_succ _)] at h
  simpa [insertAt] using h

theorem insertAt_append (piece a b : Bytes) (offsets : Finset Nat) :
    insertAt piece (offsets.image (· + a.length)) (a ++ b) = a ++ insertAt piece offsets b := by
  have hbefore : ∀ i < a.length, i ∉ offsets.image (· + a.length) := by
    intro i hi hmem
    obtain ⟨j, -, rfl⟩ := Finset.mem_image.mp hmem
    omega
  have hafter : ∀ i, a.length + i ∈ offsets.image (· + a.length) ↔ i ∈ offsets := by
    intro i
    rw [Nat.add_comm]
    exact (add_left_injective a.length).mem_finset_image
  have hfirst : (List.range a.length).flatMap (fun i =>
      (if i ∈ offsets.image (· + a.length) then piece else []) ++ (a ++ b)[i]?.toList) = a := by
    calc _ = (List.range a.length).flatMap (fun i => (a ++ b)[i]?.toList) := by
          simp only [List.flatMap_def]
          congr 1
          apply List.map_congr_left
          intro i hi
          rw [if_neg (hbefore i (List.mem_range.mp hi)), List.nil_append]
      _ = a := by rw [flatMap_range_getElem?, List.take_left]
  rw [insertAt, List.length_append, Nat.add_assoc, List.range_add, List.flatMap_append, hfirst,
    List.flatMap_map, insertAt]
  congr 2
  funext i
  simp only [hafter, List.getElem?_append_right (Nat.le_add_right a.length i),
    Nat.add_sub_cancel_left]

theorem insertAt_insert_zero {piece : Bytes} {offsets : Finset Nat} (h : 0 ∉ offsets)
    (text : Bytes) : insertAt piece (insert 0 offsets) text = piece ++ insertAt piece offsets text := by
  rw [insertAt, insertAt, List.range_succ_eq_map]
  simp [h, List.flatMap_map]

end Repoint
