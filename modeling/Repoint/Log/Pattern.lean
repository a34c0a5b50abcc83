import Repoint.Unicode.Alphabetic
import Repoint.Unicode.Space

/-!
# Patterns

A regular expression is checked and never matched, so of each part only its depth is kept. It stands in
braces, so a brace in it is a mistake.
-/

namespace Repoint.Pattern

/-- The depth of things that stand side by side. They count as one more when there are several. -/
def together : List Nat → Nat
  | [] => 0
  | [depth] => depth
  | depths => 1 + depths.foldl max 0

/-! ## Modes -/

/-- How a text is read. Flags change it up to the end of the group that they are in. -/
structure Modes where
  /-- Classes and word boundaries know all characters and not only those of ASCII. -/
  unicode : Bool := true
  /-- White space and comments are left out. -/
  spaced : Bool := false

/-- Leaves out white space, and comments up to the end of their line. -/
def skipFrom (comment : Bool) : List Char → List Char
  | [] => []
  | c :: rest =>
    if comment then skipFrom (c ≠ '\n') rest
    else if c = '#' then skipFrom true rest
    else if Unicode.isSpace c then skipFrom false rest
    else c :: rest

def Modes.skip (modes : Modes) (text : List Char) : List Char :=
  if modes.spaced then skipFrom false text else text

/-- The character that decides what the dash before it is. The sign of a comment is passed over, but
not the comment. -/
def Modes.peek (modes : Modes) (text : List Char) : Option Char :=
  if modes.spaced then
    match text.dropWhile Unicode.isSpace with
    | '#' :: rest => (rest.dropWhile Unicode.isSpace).head?
    | rest => rest.head?
  else text.head?

/-! ## Escapes -/

inductive Primitive where
  | character (c : Char)
  /-- A class that has a name, such as that of the digits. -/
  | namedClass
  /-- A condition on the place. -/
  | assertion

def hexValue? (c : Char) : Option Nat :=
  if c.isDigit then some (c.toNat - 0x30)
  else if 'a'.toNat ≤ c.toLower.toNat ∧ c.toLower.toNat ≤ 'f'.toNat then
    some (c.toLower.toNat - 'a'.toNat + 10)
  else none

/-- Reads a number of hexadecimal digits after a value that was read before. -/
def hexadecimal (modes : Modes) : Nat → Nat → List Char → Option (Nat × List Char)
  | 0, value, text => some (value, text)
  | digits + 1, value, text =>
    match modes.skip text with
    | [] => none
    | c :: rest =>
      match hexValue? c with
      | some digit => hexadecimal modes digits (16 * value + digit) rest
      | none => none

/-- Reads a character by its code point. Two digits write a byte when only ASCII is known, and the byte
has to be a character by itself. -/
def codePoint (modes : Modes) (digits : Nat) (text : List Char) :
    Option (Primitive × List Char) :=
  match hexadecimal modes digits 0 text with
  | none => none
  | some (value, rest) =>
    if !modes.unicode && digits == 2 && 0x80 ≤ value then none
    else if value.isValidChar then some (.character (Char.ofNat value), rest)
    else none

/-- The general categories with a name of one letter. -/
def categories : List Char := ['c', 'l', 'm', 'n', 'p', 's', 'z']

/-- Reads what follows a backslash. A word boundary that knows all characters cannot be decided one byte
at a time and is refused; so is the complement of a class when only ASCII is known, because it would
hold bytes that are no characters. -/
def escape (modes : Modes) : List Char → Option (Primitive × List Char)
  | [] => none
  | c :: rest =>
    match c with
    | 'x' => codePoint modes 2 rest
    | 'u' => codePoint modes 4 rest
    | 'U' => codePoint modes 8 rest
    | 'p' | 'P' =>
      match modes.skip rest with
      | [] => none
      | letter :: rest =>
        if modes.unicode && categories.contains letter.toLower then some (.namedClass, rest)
        else none
    | 'd' | 's' | 'w' => some (.namedClass, rest)
    | 'D' | 'S' | 'W' => if modes.unicode then some (.namedClass, rest) else none
    | 'b' | 'B' | '<' | '>' => if modes.unicode then none else some (.assertion, rest)
    | 'A' | 'z' => some (.assertion, rest)
    | 'a' => some (.character '\x07', rest)
    | 'f' => some (.character '\x0C', rest)
    | 't' => some (.character '\t', rest)
    | 'n' => some (.character '\n', rest)
    | 'r' => some (.character '\r', rest)
    | 'v' => some (.character '\x0B', rest)
    | _ =>
      if c.toNat < 0x80 && !c.isAlphanum then some (.character c, rest) else none

/-! ## Classes -/

def primitive (modes : Modes) : List Char → Option (Primitive × List Char)
  | [] => none
  | '\\' :: rest => escape modes rest
  | c :: rest => some (.character c, rest)

/-- It can be a member of a class. -/
def Primitive.inClass (modes : Modes) : Primitive → Bool
  | .character c => modes.unicode || c.toNat < 0x80
  | .namedClass => true
  | .assertion => false

/-- The two are the ends of a range. -/
def Primitive.span (modes : Modes) : Primitive → Primitive → Bool
  | .character first, .character last =>
    Primitive.inClass modes (.character last) && first.toNat ≤ last.toNat
  | _, _ => false

/-- Reads a member of a class: a range when a dash follows that is neither the last thing in the class
nor the first of two dashes. -/
def member (modes : Modes) (text : List Char) : Option (List Char) :=
  match primitive modes text with
  | none => none
  | some (first, rest) =>
    match modes.skip rest with
    | '-' :: after =>
      if modes.peek after = some ']' || modes.peek after = some '-' then
        if first.inClass modes then some ('-' :: after) else none
      else
        match primitive modes (modes.skip after) with
        | none => none
        | some (last, rest) => if first.span modes last then some rest else none
    | rest => if first.inClass modes then some rest else none

/-- The classes that can be named between colons. -/
def asciiClasses : List String :=
  ["alnum", "alpha", "ascii", "blank", "cntrl", "digit", "graph", "lower", "print", "punct", "space",
    "upper", "word", "xdigit"]

/-- Reads the name of a class between colons, after the bracket; also says whether its complement is
meant. -/
def asciiClass? : List Char → Option (Bool × List Char)
  | ':' :: text =>
    let complement := text.head? = some '^'
    let name := if complement then text.tail else text
    match name.dropWhile (· ≠ ':') with
    | ':' :: ']' :: rest =>
      if asciiClasses.contains (String.ofList (name.takeWhile (· ≠ ':'))) then
        some (complement, rest)
      else none
    | _ => none
  | _ => none

/-- A class that has begun. -/
structure OpenClass where
  /-- Nothing but dashes was read. -/
  fresh : Bool := true
  /-- The depth of what stands before the last operator, if there was one. -/
  left : Option Nat := none
  /-- The depths of the members after it. -/
  members : List Nat := []

namespace OpenClass

def add (started : OpenClass) (depth : Nat) : OpenClass :=
  { started with members := depth :: started.members }

def depth (started : OpenClass) : Nat :=
  match started.left with
  | none => together started.members
  | some left => 1 + max left (together started.members)

def operator (started : OpenClass) : OpenClass := { fresh := false, left := some started.depth }

end OpenClass

/-- Reads classes up to the end of the outermost one, with the classes around the current one in
`outer`. Dashes at the beginning of a class, and a closing bracket there, stand for themselves. -/
def classFrom (modes : Modes) :
    Nat → OpenClass → List OpenClass → List Char → Option (Nat × List Char)
  | 0, _, _, _ => none
  | fuel + 1, current, outer, text =>
    match modes.skip text with
    | [] => none
    | c :: rest =>
      if current.fresh && c = '-' then classFrom modes fuel (current.add 0) outer rest
      else if current.fresh && current.members.isEmpty && c = ']' then
        classFrom modes fuel { current.add 0 with fresh := false } outer rest
      else
        let current := { current with fresh := false }
        match c, rest with
        | '[', rest =>
          match asciiClass? rest with
          | some (complement, rest) =>
            if complement && !modes.unicode then none
            else classFrom modes fuel (current.add 0) outer rest
          | none =>
            match modes.skip rest with
            | '^' :: rest =>
              if modes.unicode then classFrom modes fuel {} (current :: outer) rest else none
            | rest => classFrom modes fuel {} (current :: outer) rest
        | ']', rest =>
          match outer with
          | [] => some (1 + current.depth, rest)
          | next :: others => classFrom modes fuel (next.add (1 + current.depth)) others rest
        | '&', '&' :: rest | '-', '-' :: rest | '~', '~' :: rest =>
          classFrom modes fuel current.operator outer rest
        | c, rest =>
          match member modes (c :: rest) with
          | some rest => classFrom modes fuel (current.add 0) outer rest
          | none => none

/-- Reads a class after its bracket: its depth, and what follows it. -/
def bracketClass (modes : Modes) (text : List Char) : Option (Nat × List Char) :=
  match modes.skip text with
  | '^' :: rest => if modes.unicode then classFrom modes (rest.length + 1) {} [] rest else none
  | rest => classFrom modes (rest.length + 1) {} [] rest

/-! ## Groups -/

/-- The letters of the flags, and the dash before those that are taken back. -/
def flagSigns : List Char := ['i', 'm', 's', 'U', 'u', 'R', 'x', '-']

/-- The flags are known and none is given twice; a dash has a flag after it. -/
def areFlags (flags : List Char) : Bool :=
  flags.all (fun c => flagSigns.contains c && flags.count c == 1) && flags.getLast? != some '-'

/-- What the flags make of one of them: a flag after a dash is taken back. -/
def setBy (flags : List Char) (flag : Char) (before : Bool) : Bool :=
  if (flags.takeWhile (· ≠ '-')).contains flag then true
  else if flags.contains flag then false
  else before

def Modes.set (modes : Modes) (flags : List Char) : Modes :=
  { unicode := setBy flags 'u' modes.unicode, spaced := setBy flags 'x' modes.spaced }

/-- A group can have this name. -/
def isGroupName : List Char → Bool
  | [] => false
  | c :: rest =>
    (c = '_' || Unicode.isAlphabetic c) &&
      rest.all fun c => ['_', '.', '[', ']'].contains c || Unicode.isAlphanumeric c

/-- What a parenthesis begins. -/
inductive Opening where
  /-- A group with modes of its own, and its name if it has one. -/
  | group (modes : Modes) (name : Option (List Char))
  /-- No group: the modes of the group around it are changed. -/
  | flags (modes : Modes)

/-- Reads a name up to the angle bracket that ends it. -/
def namedGroup (modes : Modes) (text : List Char) : Option (Opening × List Char) :=
  let name := text.takeWhile (· ≠ '>')
  match text.dropWhile (· ≠ '>') with
  | _ :: rest => if isGroupName name then some (.group modes (some name), rest) else none
  | [] => none

/-- Reads what follows an opening parenthesis. -/
def opening (modes : Modes) (text : List Char) : Option (Opening × List Char) :=
  match modes.skip text with
  | '?' :: 'P' :: '<' :: rest | '?' :: '<' :: rest => namedGroup modes rest
  | '?' :: rest =>
    let flags := rest.takeWhile fun c => c ≠ ':' ∧ c ≠ ')'
    if areFlags flags then
      match rest.drop flags.length with
      | [] => none
      | ':' :: rest => some (.group (modes.set flags) none, rest)
      | _ :: rest => if flags.isEmpty then none else some (.flags (modes.set flags), rest)
    else none
  | rest => some (.group modes none, rest)

/-! ## Patterns -/

inductive Item where
  /-- A change of modes, which cannot be repeated. -/
  | flags
  | part (depth : Nat)

def Item.depth : Item → Nat
  | .flags => 0
  | .part depth => depth

/-- The alternatives in a group, or in the whole pattern. -/
structure Choice where
  /-- The depths of those that are finished. -/
  finished : List Nat := []
  /-- The items of the current one, the last first. -/
  items : List Item := []

namespace Choice

def add (choice : Choice) (item : Item) : Choice := { choice with items := item :: choice.items }

def alternative (choice : Choice) : Choice :=
  { finished := together (choice.items.map (·.depth)) :: choice.finished }

def depth (choice : Choice) : Nat := together choice.alternative.finished

def repeatLast? (choice : Choice) : Option Choice :=
  match choice.items with
  | .part depth :: items => some { choice with items := .part (1 + depth) :: items }
  | _ => none

end Choice

structure Reading where
  choice : Choice := {}
  /-- The choices around it, the innermost first, each with the modes of its group. -/
  outer : List (Choice × Modes) := []
  modes : Modes := {}
  /-- The names of groups. -/
  names : List (List Char) := []

namespace Reading

def add (reading : Reading) (item : Item) : Reading :=
  { reading with choice := reading.choice.add item }

/-- Goes into a group, whose name has to be new, or changes the modes. -/
def enter? (reading : Reading) : Opening → Option Reading
  | .flags modes => some { reading.add .flags with modes }
  | .group modes name =>
    if name.any reading.names.contains then none
    else some
      { choice := {}
        outer := (reading.choice, reading.modes) :: reading.outer
        modes
        names := name.toList ++ reading.names }

def leave? (reading : Reading) : Option Reading :=
  match reading.outer with
  | [] => none
  | (choice, modes) :: outer =>
    some { reading with choice := choice.add (.part (1 + reading.choice.depth)), outer, modes }

/-- Reads what a character begins. A repetition can be followed by a question mark. -/
def step (reading : Reading) (c : Char) (rest : List Char) : Option (Reading × List Char) :=
  match c with
  | '(' => do
    let (opening, rest) ← opening reading.modes rest
    return (← reading.enter? opening, rest)
  | ')' => reading.leave?.map ((·, rest))
  | '|' => some ({ reading with choice := reading.choice.alternative }, rest)
  | '[' => (bracketClass reading.modes rest).map fun (depth, rest) =>
      (reading.add (.part depth), rest)
  | '?' | '*' | '+' => reading.choice.repeatLast?.map fun choice =>
      ({ reading with choice }, if rest.head? = some '?' then rest.tail else rest)
  | '\x7b' => none
  | '\\' => (escape reading.modes rest).map fun (_, rest) => (reading.add (.part 0), rest)
  | '.' => if reading.modes.unicode then some (reading.add (.part 0), rest) else none
  | _ => some (reading.add (.part 0), rest)

end Reading

/-- Reads the rest of a pattern: its depth. -/
def depthFrom : Nat → Reading → List Char → Option Nat
  | 0, _, _ => none
  | fuel + 1, reading, text =>
    match reading.modes.skip text with
    | [] => if reading.outer.isEmpty then some reading.choice.depth else none
    | c :: rest =>
      match reading.step c rest with
      | some (reading, rest) => depthFrom fuel reading rest
      | none => none

/-- The depth of a pattern; `none` when the text is none. Every step takes a character away. -/
def depth? (text : List Char) : Option Nat := depthFrom (text.length + 1) {} text

/-- A pattern may be this deep. -/
def deepest : Nat := 250

def isPattern (text : List Char) : Bool := (depth? text).any (· ≤ deepest)

end Repoint.Pattern
