import Repoint.Utf8

/-!
# JSON strings

A string is read into units, a byte or a `\u` code each, which are then put together. A surrogate
without its partner is refused.
-/

namespace Repoint.Json

/-! ## Writing -/

def hexDigit (n : Nat) : UInt8 := if n < 10 then (0x30 + n).toUInt8 else (0x57 + n).toUInt8

/-- A byte of a string, as it is written between the quotes. -/
def escape (b : UInt8) : Bytes :=
  if b = 0x22 then ascii "\\\""
  else if b = 0x5C then ascii "\\\\"
  else if b = 0x08 then ascii "\\b"
  else if b = 0x0C then ascii "\\f"
  else if b = 0x0A then ascii "\\n"
  else if b = 0x0D then ascii "\\r"
  else if b = 0x09 then ascii "\\t"
  else if b < 0x20 then ascii "\\u00" ++ [hexDigit (b.toNat / 16), hexDigit (b.toNat % 16)]
  else [b]

def quote (text : Bytes) : Bytes := 0x22 :: text.flatMap escape ++ [0x22]

/-! ## Reading -/

/-- How a text fails to be JSON. -/
inductive Fault where
  /-- Something stands where it cannot. -/
  | syntactic
  /-- The text ends too early. -/
  | ended
  deriving DecidableEq

/-- A piece of a string: a byte, or a `\u` code. -/
inductive TextUnit where
  | byte (b : UInt8)
  | code (n : Nat)
  deriving DecidableEq

/-- How a string ends: with its quote and the bytes after it, or before that with a fault. -/
inductive TextEnd where
  | closed (rest : Bytes)
  | broken (fault : Fault)

def hexValue? (b : UInt8) : Option Nat :=
  if 0x30 ≤ b ∧ b ≤ 0x39 then some (b.toNat - 0x30)
  else if 0x41 ≤ b ∧ b ≤ 0x46 then some (b.toNat - 0x37)
  else if 0x61 ≤ b ∧ b ≤ 0x66 then some (b.toNat - 0x57)
  else none

/-- The code that four hexadecimal digits write. -/
def codeValue? (a b c d : UInt8) : Option Nat := do
  return 0x1000 * (← hexValue? a) + 0x100 * (← hexValue? b) + 0x10 * (← hexValue? c)
    + (← hexValue? d)

/-- What a backslash and this byte stand for, unless a `\u` code follows. -/
def unescape? (b : UInt8) : Option UInt8 :=
  if b = 0x22 ∨ b = 0x5C ∨ b = 0x2F then some b
  else if b = 0x62 then some 0x08
  else if b = 0x66 then some 0x0C
  else if b = 0x6E then some 0x0A
  else if b = 0x72 then some 0x0D
  else if b = 0x74 then some 0x09
  else none

/-- The units of a string after its opening quote, and how it ends. -/
def units : Bytes → List TextUnit × TextEnd
  | [] => ([], .broken .ended)
  | b :: rest =>
    if b = 0x22 then ([], .closed rest)
    else if b = 0x5C then
      match rest with
      | [] => ([], .broken .ended)
      | 0x75 :: h₁ :: h₂ :: h₃ :: h₄ :: after =>
        match codeValue? h₁ h₂ h₃ h₄ with
        | some n => let (more, finish) := units after; (.code n :: more, finish)
        | none => ([], .broken .syntactic)
      | 0x75 :: _ => ([], .broken .ended)
      | e :: after =>
        match unescape? e with
        | some c => let (more, finish) := units after; (.byte c :: more, finish)
        | none => ([], .broken .syntactic)
    else if b < 0x20 then ([], .broken .syntactic)
    else let (more, finish) := units rest; (.byte b :: more, finish)

/-- A code that is the first half of a pair. -/
def isHighSurrogate (n : Nat) : Bool := 0xD800 ≤ n && n ≤ 0xDBFF

/-- A code that is the second half of a pair. -/
def isLowSurrogate (n : Nat) : Bool := 0xDC00 ≤ n && n ≤ 0xDFFF

/-- The bytes that the units stand for; `none` when half a pair stands alone. -/
def decodeUnits : List TextUnit → Option Bytes
  | [] => some []
  | .byte b :: rest => (decodeUnits rest).map (b :: ·)
  | .code n :: rest =>
    if isLowSurrogate n then none
    else if isHighSurrogate n then
      match rest with
      | .code m :: after =>
        if isLowSurrogate m then
          (decodeUnits after).map
            (Utf8.encode (0x10000 + 0x400 * (n - 0xD800) + (m - 0xDC00)) ++ ·)
        else none
      | _ => none
    else (decodeUnits rest).map (Utf8.encode n ++ ·)

/-- The text of a string whose quote was found. Half a pair, or bytes that are not UTF-8, make it
no text. -/
def closedText? (parts : List TextUnit) : Option Bytes :=
  (decodeUnits parts).filter fun text => Utf8.Valid text

/-- The units could be the beginning of a sound string: as they stand, or when the second half of a
pair comes next. -/
def canGoOn (parts : List TextUnit) : Bool :=
  (decodeUnits parts).isSome || (decodeUnits (parts ++ [.code 0xDC00])).isSome

/-- What a reader of the string finds wrong first when the string is not closed. -/
def brokenText (parts : List TextUnit) (fault : Fault) : Fault :=
  if canGoOn parts then fault else .syntactic

end Repoint.Json
