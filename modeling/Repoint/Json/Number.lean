import Repoint.Json.Text

/-!
# JSON numbers

A number is kept as it is written. Only a plain integer below 2^64 is a count; any other is a double.
-/

namespace Repoint.Json

/-- A number as it is written. -/
structure Number where
  negative : Bool
  /-- The digits before the point. -/
  whole : Bytes
  /-- The digits after the point, if there is one. -/
  fraction : Option Bytes
  /-- The exponent, if there is one: whether it is negative, and its digits. -/
  exponent : Option (Bool × Bytes)
  deriving DecidableEq

/-! ## Reading -/

/-- One digit or more, and what follows them. -/
def digits (text : Bytes) : Except Fault (Bytes × Bytes) :=
  match text with
  | [] => .error .ended
  | b :: _ =>
    if isDigit b then .ok (text.takeWhile isDigit, text.dropWhile isDigit) else .error .syntactic

/-- The digits before the point: a zero stands alone. -/
def wholeDigits (text : Bytes) : Except Fault (Bytes × Bytes) := do
  let (ds, rest) ← digits text
  if ds.head? = some 0x30 ∧ ds.length ≠ 1 then .error .syntactic else return (ds, rest)

/-- A point and the digits after it, if a point stands there. -/
def fractionDigits (text : Bytes) : Except Fault (Option Bytes × Bytes) :=
  match text with
  | 0x2E :: after => do
    let (ds, rest) ← digits after
    return (some ds, rest)
  | _ => return (none, text)

/-- The sign of an exponent, and what follows it. -/
def exponentSign : Bytes → Bool × Bytes
  | 0x2B :: after => (false, after)
  | 0x2D :: after => (true, after)
  | text => (false, text)

/-- The mark of an exponent, its sign and its digits, if the mark stands there. -/
def exponentDigits (text : Bytes) : Except Fault (Option (Bool × Bytes) × Bytes) :=
  match text with
  | [] => return (none, [])
  | b :: after =>
    if b = 0x65 ∨ b = 0x45 then do
      let (negative, after) := exponentSign after
      let (ds, rest) ← digits after
      return (some (negative, ds), rest)
    else return (none, text)

/-- A number without its sign, and what follows it. -/
def unsignedNumber (negative : Bool) (text : Bytes) : Except Fault (Number × Bytes) := do
  let (whole, rest) ← wholeDigits text
  let (fraction, rest) ← fractionDigits rest
  let (exponent, rest) ← exponentDigits rest
  return (⟨negative, whole, fraction, exponent⟩, rest)

def number (text : Bytes) : Except Fault (Number × Bytes) :=
  match text with
  | 0x2D :: after => unsignedNumber true after
  | _ => unsignedNumber false text

/-! ## The range of doubles -/

/-- The nearest number with 53 significant bits, the even one of two that are equally near. -/
def roundToDouble (n : Nat) : Nat :=
  if n < Nat.pow 2 53 then n
  else
    let unit := Nat.pow 2 (n.log2 - 52)
    let low := n / unit
    let up := unit < 2 * (n % unit) ∨ (unit = 2 * (n % unit) ∧ low % 2 = 1)
    (if up then low + 1 else low) * unit

/-- Numbers from here on are rounded to infinity. -/
def doubleLimit : Nat := Nat.pow 2 1024 - Nat.pow 2 970

/-- Integers and significands have to stay below this. -/
def significandLimit : Nat := Nat.pow 2 64

/-- Takes digits into a significand while they fit, and returns how many were left over. -/
def absorb (significand : Nat) : Bytes → Nat × Nat
  | [] => (significand, 0)
  | d :: rest =>
    let next := 10 * significand + (d.toNat - 0x30)
    if next < significandLimit then absorb next rest else (significand, rest.length + 1)

/-- The number as a significand times a power of ten. Digits before the point that do not fit count
in the power; digits after it that do not fit are dropped. -/
def Number.parts (n : Number) : Nat × Int :=
  let (significand, excess) := absorb 0 n.whole
  let ds := n.fraction.getD []
  let (significand, dropped) := absorb significand ds
  (significand, (excess : Int) - (ds.length - dropped : Nat))

/-- The largest power of ten that a double holds. -/
def maxPower : Int := 308

/-- An exponent has to stay below this to be read at all. -/
def exponentLimit : Nat := Nat.pow 2 31

/-- The product, as doubles multiply, is finite. -/
def isFiniteProduct (significand power : Nat) : Bool :=
  roundToDouble significand * roundToDouble (Nat.pow 10 power) < doubleLimit

/-- The number is in the range of doubles. Small numbers always are, since they round to zero. -/
def Number.isFinite (n : Number) : Bool :=
  let (significand, power) := n.parts
  let (negative, ds) := n.exponent.getD (false, [])
  let e := digitsValue ds
  if significand = 0 then true
  else if exponentLimit ≤ e then negative
  else
    let power := if negative then power - e else power + e
    if power < 0 then true
    else if maxPower < power then false
    else isFiniteProduct significand power.toNat

/-! ## Kinds of numbers -/

/-- What a number is to a reader that wants a count. -/
inductive NumberKind where
  /-- A plain integer below 2^64. -/
  | count (n : Nat)
  /-- A plain integer below zero and not below -2^63. -/
  | belowZero
  /-- Any other number in the range of doubles. -/
  | double
  deriving DecidableEq

/-- The kind of a number; `none` when it is out of range. -/
def Number.kind? (n : Number) : Option NumberKind :=
  let value := digitsValue n.whole
  let plain := n.fraction.isNone && n.exponent.isNone
  if plain && !n.negative && value < significandLimit then some (.count value)
  else if plain && n.negative && 0 < value && value ≤ Nat.pow 2 63 then some .belowZero
  else if n.isFinite then some .double
  else none

end Repoint.Json
