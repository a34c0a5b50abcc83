import Repoint.Bytes

/-!
# Text without control sequences

Control characters, and sequences that begin with an escape character, are left out.
-/

namespace Repoint.Terminal

inductive State where
  /-- Ordinary text. -/
  | text
  /-- A sequence of which only the escape character was read. -/
  | escape
  /-- A sequence of a few intermediate bytes and a final one. -/
  | escapeIntermediate
  /-- A control sequence: parameters up to a final byte. -/
  | control
  /-- The beginning of a device control string. -/
  | device
  /-- The parameters of a device control string. -/
  | deviceParameters
  /-- The intermediate bytes of a device control string. -/
  | deviceIntermediate
  /-- A string that goes on to its terminator. -/
  | string
  /-- A command of the operating system, which a bell ends too. -/
  | command
  deriving DecidableEq

/-- Between the two bytes, both included. -/
def within (low high b : UInt8) : Bool := low ≤ b && b ≤ high

/-- What the machine is inside of after an escape character and this byte. -/
def State.afterEscape (b : UInt8) : State :=
  if within 0x20 0x2F b then .escapeIntermediate
  else if b = 0x5B then .control
  else if b = 0x5D then .command
  else if b = 0x50 then .device
  else if b = 0x58 ∨ b = 0x5E ∨ b = 0x5F then .string
  else if within 0x30 0x7E b then .text
  else .escape

/-- Reads a byte. Cancel and substitute break off any sequence, and an escape character begins a new
one. -/
def State.next (state : State) (b : UInt8) : State :=
  if b = 0x18 ∨ b = 0x1A then .text
  else if b = 0x1B then .escape
  else match state with
    | .text => .text
    | .escape => .afterEscape b
    | .escapeIntermediate => if within 0x30 0x7E b then .text else .escapeIntermediate
    | .control => if within 0x40 0x7E b then .text else .control
    | .device =>
      if within 0x20 0x2F b then .deviceIntermediate
      else if within 0x30 0x3F b then .deviceParameters
      else if within 0x40 0x7E b then .string
      else .device
    | .deviceParameters =>
      if within 0x20 0x2F b then .deviceIntermediate
      else if within 0x3C 0x7E b then .string
      else .deviceParameters
    | .deviceIntermediate => if within 0x30 0x7E b then .string else .deviceIntermediate
    | .string => if b = 0x9C then .text else .string
    | .command => if b = 0x07 then .text else .command

/-- A tab, or the end of a line or a page: the control characters that are shown. -/
def isLayout (b : UInt8) : Bool := b = 0x09 || b = 0x0A || b = 0x0C || b = 0x0D

/-- The byte begins a character of more than one byte. -/
def isLead (b : UInt8) : Bool := within 0xC2 0xF4 b

/-- The byte is shown where the machine stands. Layout is shown also inside the shorter sequences. -/
def State.shows (state : State) (b : UInt8) : Bool :=
  match state with
  | .text => within 0x20 0x7E b || isLayout b || isLead b
  | .escape | .escapeIntermediate | .control => isLayout b
  | _ => false

/-- Shows the rest of a text. Once something is shown, everything is up to the next control character,
which is then read where the machine stood. -/
def plainFrom (showing : Bool) (state : State) : Bytes → Bytes
  | [] => []
  | b :: rest =>
    if showing ∧ 0x80 ≤ b then b :: plainFrom true .text rest
    else if showing ∧ State.text.shows b then b :: plainFrom true state rest
    else if !showing ∧ state.shows b then b :: plainFrom true (state.next b) rest
    else plainFrom false (state.next b) rest

/-- The text without control characters and control sequences, layout excepted. The text is UTF-8. -/
def plain (text : Bytes) : Bytes := plainFrom false .text text

end Repoint.Terminal
