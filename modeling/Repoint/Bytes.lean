/-!
# Byte strings

Contents, paths, arguments and output. No text needs to be valid UTF-8.
-/

namespace Repoint

abbrev Bytes := List UInt8

/-- The bytes of a text that holds ASCII characters only. -/
def ascii (text : String) : Bytes := text.toList.map fun c => c.toNat.toUInt8

/-- The decimal digits of a number, without leading zeros. -/
def decimal (n : Nat) : Bytes := (Nat.toDigits 10 n).map fun c => c.toNat.toUInt8

/-! ## Lines -/

def newline : UInt8 := 0x0A

/-- The lines of a text, each with the newline that ends it. Only the last one may have none, and
the empty text has no line at all. -/
def lines : Bytes → List Bytes
  | [] => []
  | b :: rest =>
    if b = newline then [b] :: lines rest
    else match lines rest with
      | [] => [[b]]
      | line :: others => (b :: line) :: others

@[simp]
theorem flatten_lines (text : Bytes) : (lines text).flatten = text := by
  induction text with
  | nil => rfl
  | cons b rest ih =>
    rw [lines]
    split
    · simp [ih]
    · split
      · next h => simp [h] at ih; simp [← ih]
      · next h => simp [h] at ih; simp [← ih]

/-- The part of a text before its first newline, or before a carriage return and that newline. -/
def firstLine (text : Bytes) : Bytes :=
  let line := text.takeWhile (· ≠ newline)
  if line.length < text.length ∧ line.getLast? = some 0x0D then line.dropLast else line

/-! ## Splitting at a separator -/

/-- The pieces between the separators: one more than there are separators. -/
def splitOn (separator : UInt8) : Bytes → List Bytes
  | [] => [[]]
  | b :: rest =>
    if b = separator then [] :: splitOn separator rest
    else match splitOn separator rest with
      | [] => [[b]]
      | piece :: others => (b :: piece) :: others

theorem splitOn_ne_nil (separator : UInt8) (text : Bytes) : splitOn separator text ≠ [] := by
  cases text with
  | nil => simp [splitOn]
  | cons b rest =>
    rw [splitOn]
    split
    · simp
    · split <;> simp

/-- Pieces put together again, with the separator between them. -/
def joinWith (separator : UInt8) (pieces : List Bytes) : Bytes :=
  List.intercalate [separator] pieces

theorem not_mem_of_mem_splitOn {separator : UInt8} {text piece : Bytes}
    (h : piece ∈ splitOn separator text) : separator ∉ piece := by
  induction text generalizing piece with
  | nil => simp_all [splitOn]
  | cons b rest ih =>
    rw [splitOn] at h
    split at h
    · rcases List.mem_cons.mp h with rfl | h
      · simp
      · exact ih h
    · next hb =>
      split at h
      · simp only [List.mem_singleton] at h
        subst h
        simpa using fun e => hb e.symm
      · next first others heq =>
        rcases List.mem_cons.mp h with rfl | h
        · have := @ih first (by simp [heq])
          simp only [List.mem_cons, not_or]
          exact ⟨fun e => hb e.symm, this⟩
        · exact ih (by simp [heq, h])

/-! ## Case -/

/-- The lower-case form of an ASCII letter; every other byte is left alone. -/
def lowerByte (b : UInt8) : UInt8 := if 0x41 ≤ b ∧ b ≤ 0x5A then b + 0x20 else b

def lower (text : Bytes) : Bytes := text.map lowerByte

def isDigit (b : UInt8) : Bool := 0x30 ≤ b && b ≤ 0x39

/-- The number that decimal digits write, the most significant first. -/
def digitsValue (digits : Bytes) : Nat :=
  digits.foldl (fun value b => 10 * value + (b.toNat - 0x30)) 0

end Repoint
