import Repoint.Proofs.Report.RoundTrip

/-!
# A report in a buffer

An array is put together before any of it is written, and lines are written one by one.
-/

namespace Repoint

theorem Sink.render_buffer (n : Nat) (text : Bytes) :
    Sink.render { room := .bytes n } [text] =
      ({ written := text.take n, room := .bytes (n - text.length) },
        if text.length ≤ n then none else some (.write .bufferFull)) := by
  unfold render
  rw [writeAll_eq_write, List.flatten_singleton]
  simp only [write, List.nil_append]
  split <;> rfl

/-- **Output that does not fit.** What is written of a report is what fits of it, up to the first path
that is not UTF-8. -/
theorem report_in_buffer (patches : List FilePatch) (n : Nat) :
    let array := arrayText patches
    let front := linesText (patches.takeWhile fun patch => Utf8.Valid patch.path)
    writeArray patches { room := .bytes n } =
      (if ∀ patch ∈ patches, Utf8.Valid patch.path then
        ({ written := array.take n, room := .bytes (n - array.length) },
          if array.length ≤ n then none else some (.write .bufferFull))
      else ({ written := [], room := .bytes n }, some .notUtf8)) ∧
    writeEach patches { room := .bytes n } =
      ({ written := front.take n, room := .bytes (n - front.length) },
        if n < front.length then some (.write .bufferFull)
        else if ∀ patch ∈ patches, Utf8.Valid patch.path then none
        else some .notUtf8) := by
  intro array front
  constructor
  · rw [writeArray_eq, Sink.render_buffer]
  · rw [writeEach_eq, Sink.render_buffer]
    by_cases hfits : front.length ≤ n
    · rw [if_pos hfits, if_neg (Nat.not_lt.mpr hfits)]
    · rw [if_neg hfits, if_pos (Nat.not_le.mp hfits)]

-- The line of the first patch has 63 bytes, and the second path is not UTF-8.
example :
    let patches : List FilePatch := [⟨ascii "a", 1, 1, true⟩, ⟨[0xFF], 1, 1, true⟩]
    (writeEach patches { room := .bytes 62 }).2 = some (.write .bufferFull) ∧
      (writeEach patches { room := .bytes 63 }).2 = some .notUtf8 ∧
      writeArray patches { room := .bytes 0 } = ({ room := .bytes 0 }, some .notUtf8) := by
  decide +kernel

end Repoint
