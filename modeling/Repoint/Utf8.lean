import Repoint.Bytes

/-!
# UTF-8

A machine that reads one byte at a time. Overlong forms, surrogates and values above U+10FFFF are
refused by the ranges.
-/

namespace Repoint.Utf8

inductive State where
  /-- Between two characters. -/
  | boundary
  /-- Inside a character: the next byte lies between `low` and `high`, and `more` bytes follow it. -/
  | inside (more : Nat) (low high : UInt8)
  deriving DecidableEq

/-- What the first byte of a character asks of the bytes after it. -/
def lead (b : UInt8) : Option State :=
  if b < 0x80 then some .boundary
  else if b < 0xC2 then none
  else if b < 0xE0 then some (.inside 0 0x80 0xBF)
  else if b = 0xE0 then some (.inside 1 0xA0 0xBF)
  else if b = 0xED then some (.inside 1 0x80 0x9F)
  else if b < 0xF0 then some (.inside 1 0x80 0xBF)
  else if b = 0xF0 then some (.inside 2 0x90 0xBF)
  else if b < 0xF4 then some (.inside 2 0x80 0xBF)
  else if b = 0xF4 then some (.inside 2 0x80 0x8F)
  else none

/-- Reads one byte; `none` when it cannot stand there. -/
def step : State → UInt8 → Option State
  | .boundary, b => lead b
  | .inside more low high, b =>
    if low ≤ b ∧ b ≤ high then
      match more with
      | 0 => some .boundary
      | more + 1 => some (.inside more 0x80 0xBF)
    else none

/-- Where the machine ends after all the bytes; `none` when one of them is refused. -/
def run (state : State) (text : Bytes) : Option State := text.foldlM step state

def Valid (text : Bytes) : Prop := run .boundary text = some .boundary

instance (text : Bytes) : Decidable (Valid text) := inferInstanceAs (Decidable (_ = _))

/-! ## Showing any bytes as text -/

/-- U+FFFD, which stands for what cannot be shown. -/
def replacementCharacter : Bytes := [0xEF, 0xBF, 0xBD]

/-- Shows the rest of a text when `held` holds the bytes, in reverse, of a character that has begun.
A byte that cannot continue the character ends it, and is then read as the first of a new one. -/
def shownFrom (state : State) (held : Bytes) : Bytes → Bytes
  | [] => if held = [] then [] else replacementCharacter
  | b :: rest =>
    match step state b with
    | some .boundary => held.reverse ++ b :: shownFrom .boundary [] rest
    | some next => shownFrom next (b :: held) rest
    | none =>
      if held = [] then replacementCharacter ++ shownFrom .boundary [] rest
      else replacementCharacter ++
        match lead b with
        | some .boundary => b :: shownFrom .boundary [] rest
        | some next => shownFrom next [b] rest
        | none => replacementCharacter ++ shownFrom .boundary [] rest

/-- The text with each longest run of bytes that begins a character but does not finish it, and each
byte that cannot begin one, shown as U+FFFD. -/
def shown (text : Bytes) : Bytes := shownFrom .boundary [] text

/-! ## Characters -/

/-- Cuts a whole character off the front, with `held` the bytes of it read so far, in reverse. -/
def characterFrom (state : State) (held : Bytes) : Bytes → Option (Bytes × Bytes)
  | [] => none
  | b :: rest =>
    match step state b with
    | some .boundary => some ((b :: held).reverse, rest)
    | some next => characterFrom next (b :: held) rest
    | none => none

/-- The first character of a text and what follows it; `none` when no whole one stands there. -/
def character? (text : Bytes) : Option (Bytes × Bytes) := characterFrom .boundary [] text

theorem length_characterFrom {state : State} {held text first rest : Bytes}
    (h : characterFrom state held text = some (first, rest)) : rest.length < text.length := by
  induction text generalizing state held with
  | nil => simp [characterFrom] at h
  | cons b tail ih =>
    rw [characterFrom] at h
    split at h
    · simp only [Option.some.injEq, Prod.mk.injEq] at h
      simp [h.2]
    · have := ih h
      simp
      omega
    · simp at h

theorem length_character? {text first rest : Bytes} (h : character? text = some (first, rest)) :
    rest.length < text.length := length_characterFrom h

/-- The code point that the bytes of a character write. -/
def codePoint : Bytes → Nat
  | [] => 0
  | first :: rest =>
    let high :=
      if first < 0x80 then first.toNat
      else if first < 0xE0 then first.toNat % 0x20
      else if first < 0xF0 then first.toNat % 0x10
      else first.toNat % 0x08
    rest.foldl (fun code b => 0x40 * code + b.toNat % 0x40) high

/-- Reads the rest of a text when `held` holds the bytes, in reverse, of a character that has begun. -/
def decodeFrom (state : State) (held : Bytes) : Bytes → Option (List Char)
  | [] => if held = [] then some [] else none
  | b :: rest =>
    match step state b with
    | some .boundary =>
      (decodeFrom .boundary [] rest).map (Char.ofNat (codePoint (b :: held).reverse) :: ·)
    | some next => decodeFrom next (b :: held) rest
    | none => none

def decode? (text : Bytes) : Option (List Char) := decodeFrom .boundary [] text

def encode (code : Nat) : Bytes :=
  if code < 0x80 then [code.toUInt8]
  else if code < 0x800 then [(0xC0 + code / 0x40).toUInt8, (0x80 + code % 0x40).toUInt8]
  else if code < 0x10000 then
    [(0xE0 + code / 0x1000).toUInt8, (0x80 + code / 0x40 % 0x40).toUInt8,
      (0x80 + code % 0x40).toUInt8]
  else
    [(0xF0 + code / 0x40000).toUInt8, (0x80 + code / 0x1000 % 0x40).toUInt8,
      (0x80 + code / 0x40 % 0x40).toUInt8, (0x80 + code % 0x40).toUInt8]

end Repoint.Utf8
