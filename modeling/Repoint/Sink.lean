import Repoint.Bytes

/-!
# Where output goes

A sink takes bytes until it has no room for more.
-/

namespace Repoint

inductive Room where
  /-- Everything. -/
  | unlimited
  /-- This many bytes, in a buffer of fixed size. -/
  | bytes (left : Nat)
  /-- Nothing: a device that is full. -/
  | none
  deriving DecidableEq

inductive WriteError where
  | bufferFull
  | deviceFull
  deriving DecidableEq

def WriteError.message : WriteError → Bytes
  | .bufferFull => ascii "failed to write whole buffer"
  | .deviceFull => ascii "No space left on device (os error 28)"

/-- What has been written, and the room that is left. -/
structure Sink where
  written : Bytes := []
  room : Room := .unlimited
  deriving DecidableEq

/-- Writes the bytes that fit; an error when some did not. -/
def Sink.write (sink : Sink) (data : Bytes) : Sink × Option WriteError :=
  match sink.room with
  | .unlimited => ({ sink with written := sink.written ++ data }, none)
  | .bytes left =>
    ({ written := sink.written ++ data.take left, room := .bytes (left - data.length) },
      if data.length ≤ left then none else some .bufferFull)
  | .none => (sink, if data = [] then none else some .deviceFull)

/-- Writes one text after the other, up to the first that does not fit. -/
def Sink.writeAll (sink : Sink) : List Bytes → Sink × Option WriteError
  | [] => (sink, none)
  | data :: rest =>
    match sink.write data with
    | (sink, none) => sink.writeAll rest
    | failed => failed

@[simp]
theorem Sink.write_nil (sink : Sink) : sink.write [] = (sink, none) := by
  obtain ⟨written, room⟩ := sink
  cases room <;> simp [write]

theorem Sink.write_append (sink : Sink) (a b : Bytes) :
    sink.write (a ++ b) =
      match sink.write a with
      | (sink, none) => sink.write b
      | failed => failed := by
  obtain ⟨written, room⟩ := sink
  cases room with
  | unlimited => simp [write]
  | bytes left =>
    by_cases hfits : a.length ≤ left
    · have htake : (a ++ b).take left = a ++ b.take (left - a.length) := by
        rw [List.take_append, List.take_of_length_le hfits]
      have hlength : (a ++ b).length ≤ left ↔ b.length ≤ left - a.length := by
        rw [List.length_append]
        omega
      simp only [write, hfits, htake, hlength, List.take_of_length_le hfits, if_true]
      simp [Nat.sub_sub]
    · have hlong : ¬ (a ++ b).length ≤ left := by
        rw [List.length_append]
        omega
      have htake : (a ++ b).take left = a.take left := List.take_append_of_le_length (by omega)
      have hleft : left - (a ++ b).length = left - a.length := by
        rw [List.length_append]
        omega
      simp only [write, hfits, hlong, htake, hleft, if_false]
  | none =>
    by_cases hnil : a = []
    · simp [write, hnil]
    · simp [write, hnil]

theorem Sink.writeAll_eq_write (sink : Sink) (texts : List Bytes) :
    sink.writeAll texts = sink.write texts.flatten := by
  induction texts generalizing sink with
  | nil => simp [writeAll]
  | cons data rest ih =>
    rw [writeAll, List.flatten_cons, write_append]
    simp only [ih]

theorem Sink.writeAll_unlimited {sink : Sink} (hroom : sink.room = .unlimited) (texts : List Bytes) :
    sink.writeAll texts = ({ sink with written := sink.written ++ texts.flatten }, none) := by
  simp only [writeAll_eq_write, write, hroom]

end Repoint
