import Repoint.Log
import Repoint.Log.Pattern

/-!
# Log filters

A filter is a list of directives, each a level for some events. Of those that fit an event the most
exact one counts. There are no spans here, so a directive for one is for no event.
-/

namespace Repoint

/-! ## Levels -/

/-- What a filter shows: events up to a level, or none. -/
abbrev Verbosity := Option Level

def Verbosity.shows (verbosity : Verbosity) (level : Level) : Bool :=
  match verbosity with
  | some most => level.rank ≤ most.rank
  | none => false

/-- The levels from the least telling to the most, with their names. -/
def verbosities : List (Bytes × Verbosity) :=
  [(ascii "off", none), (ascii "error", some .error), (ascii "warn", some .warn),
    (ascii "info", some .info), (ascii "debug", some .debug), (ascii "trace", some .trace)]

/-- Reads a natural number: digits, with a plus sign before them or not. -/
def natural? (text : Bytes) : Option Nat :=
  let digits := if text.head? = some 0x2B then text.tail else text
  if digits ≠ [] ∧ digits.all isDigit then some (digitsValue digits) else none

/-- Reads a level: its name in any case, or its number from 0 to 5. -/
def Verbosity.parse? (text : Bytes) : Option Verbosity :=
  match natural? text with
  | some n => (verbosities.map (·.2))[n]?
  | none => verbosities.lookup (lower text)

/-- Reads a level that may be left out, which shows everything. -/
def Verbosity.parseOrAll? (text : Bytes) : Option Verbosity :=
  if text = [] then some (some .trace) else Verbosity.parse? text

/-! ## Values -/

/-- A number with digits before or after a point, or both, and an exponent or not. -/
def isDecimal (text : List Char) : Bool :=
  let whole := text.takeWhile (·.isDigit)
  let afterWhole := text.dropWhile (·.isDigit)
  let afterPoint := if afterWhole.head? = some '.' then afterWhole.tail else afterWhole
  let fraction := if afterWhole.head? = some '.' then afterPoint.takeWhile (·.isDigit) else []
  let exponent := afterPoint.drop fraction.length
  !(whole.isEmpty && fraction.isEmpty) &&
    match exponent with
    | [] => true
    | mark :: digits =>
      let digits := if digits.head? = some '+' || digits.head? = some '-' then digits.tail else digits
      mark.toLower = 'e' && !digits.isEmpty && digits.all (·.isDigit)

/-- A number without its sign, or the name of a value that is none. -/
def isNumeral (text : List Char) : Bool :=
  isDecimal text || ["inf", "infinity", "nan"].contains (String.ofList (text.map (·.toLower)))

/-- A field can be asked for this value: a number, a truth value or a pattern. All but a number with a
plus sign are patterns too. -/
def isFieldValue (text : List Char) : Bool :=
  Pattern.isPattern text || (text.head? = some '+' && isNumeral text.tail)

/-! ## Scopes -/

/-- The events of a part that a directive is for. -/
inductive Scope where
  | all
  /-- Those with a field of this name. -/
  | withField (name : Bytes)
  /-- Those in a span: none. -/
  | inSpan
  deriving DecidableEq

/-- Every event has its message as a field, besides those that it is about. -/
def Scope.holds (scope : Scope) (event : Event) : Bool :=
  match scope with
  | .all => true
  | .withField name => name = ascii "message" || event.fields.any (·.1 = name)
  | .inSpan => false

/-- Reads a field: its name, and a value after an `=`, which makes it the field of a span. Another `=`
and what follows it are left out. -/
def Scope.ofField? (text : Bytes) : Option Scope :=
  match splitOn 0x3D text with
  | _ :: value :: _ =>
    if (Utf8.decode? value).any isFieldValue then some .inSpan else none
  | [name] => if name = [] then none else some (.withField name)
  | [] => none

/-! ## Directives -/

structure Directive where
  /-- The start of the names of the parts that the directive is for; without it, all parts. -/
  target : Option Bytes := none
  scope : Scope := .all
  verbosity : Verbosity
  deriving DecidableEq

namespace Directive

def trim (text : List Char) : List Char :=
  ((text.dropWhile Unicode.isSpace).reverse.dropWhile Unicode.isSpace).reverse

def beginsName (c : Char) : Bool :=
  c = '-' || c = ':' || c = '_' || Unicode.isAlphanumeric c

def cut (text : Bytes) (place length : Nat) : Bytes := (text.drop place).take length

/-- Reads what follows a scope at a place: nothing, or a level after an `=`. -/
def level? (text : Bytes) (place : Nat) (rest : Bytes) : Option Verbosity :=
  match rest with
  | [] => Verbosity.parseOrAll? []
  | 0x3D :: _ => Verbosity.parseOrAll? (text.drop (place + 1))
  | _ => none

/-- Reads a scope after its bracket, at a place, and the level: a span, a field in braces, or both. -/
def scoped? (target : Option Bytes) (text : Bytes) (place : Nat) (rest : Bytes) :
    Option Directive :=
  let span := rest.takeWhile fun b => b ≠ 0x5D ∧ b ≠ 0x7B
  let inner := place + span.length + 1
  match rest.drop span.length with
  | [] => none
  | 0x5D :: rest => do
    return { target, scope := .inSpan, verbosity := ← level? text inner rest }
  | _ :: rest => do
    let field := rest.takeWhile (· ≠ 0x7D)
    let scope ← Scope.ofField? (cut text inner field.length)
    match rest.drop field.length with
    | 0x7D :: 0x5D :: rest =>
      let verbosity ← level? text (inner + field.length + 2) rest
      return { target, scope := if span = [] then scope else .inSpan, verbosity }
    | _ => none

/-- Reads a directive: a level alone, a target alone, for which everything is shown, or a target, a scope
or both and a level after an `=`. The signs are found in the text without the white space at its ends,
but names and levels are cut out of the whole text at the same places, so white space in front shifts
them. -/
def parse? (text : Bytes) : Option Directive :=
  match trim ((Utf8.decode? text).getD []) with
  | [] => none
  | first :: others =>
    let body := (first :: others).flatMap fun c => Utf8.encode c.toNat
    let name := body.takeWhile fun b => b ≠ 0x3D ∧ b ≠ 0x5B
    if first = '[' then scoped? none text 1 body.tail
    else if !beginsName first then none
    else
      match body.drop name.length with
      | [] =>
        match Verbosity.parse? text with
        | some verbosity => some { verbosity }
        | none => some { target := some text, verbosity := some .trace }
      | 0x5B :: rest => scoped? (some (text.take name.length)) text (name.length + 1) rest
      | rest => do
        return { target := some (text.take name.length), verbosity := ← level? text name.length rest }

def fits (directive : Directive) (event : Event) : Bool :=
  directive.target.all (·.isPrefixOf event.source) && directive.scope.holds event

/-- The length of the target, which is longer than none also when it is empty. -/
def reach (directive : Directive) : Nat :=
  match directive.target with
  | some target => target.length + 1
  | none => 0

/-- The field that the directive asks for. -/
def field? (directive : Directive) : Option Bytes :=
  match directive.scope with
  | .withField name => some name
  | _ => none

/-- The second directive is at least as exact as the first. A longer target is more exact, then a field
is more exact than none, and of two fields the one that comes later in the order of bytes counts. -/
def yieldsTo (first second : Directive) : Bool :=
  first.reach < second.reach ||
    first.reach = second.reach &&
      match first.field?, second.field? with
      | none, _ => true
      | some _, none => false
      | some a, some b => a ≤ b

end Directive

/-! ## Filters -/

abbrev Filter := List Directive

/-- The directive that counts for an event: of several that are equally exact, the last. -/
def Filter.directiveFor? (filter : Filter) (event : Event) : Option Directive :=
  (filter.filter (·.fits event)).foldl
    (fun best directive =>
      match best with
      | some before => if before.yieldsTo directive then some directive else best
      | none => some directive)
    none

def Filter.shows (filter : Filter) (event : Event) : Bool :=
  match filter.directiveFor? event with
  | some directive => directive.verbosity.shows event.level
  | none => false

/-- The filter that shows everything up to a level. -/
def Filter.upTo (level : Level) : Filter := [{ verbosity := some level }]

/-- Reads a filter; `none` when one of its directives cannot be read. -/
def Filter.parse? (text : Bytes) : Option Filter :=
  ((splitOn 0x2C text).filter (· ≠ [])).mapM Directive.parse?

/-- The filter that a setting asks for. Without a setting, or with one that cannot be read, warnings
are shown; with one that says nothing, only errors. -/
def Filter.ofSetting (setting : Option Bytes) : Filter :=
  match setting.bind Filter.parse? with
  | none => .upTo .warn
  | some [] => .upTo .error
  | some filter => filter

def Filter.log (filter : Filter) (events : List Event) : Bytes :=
  (events.filter filter.shows).flatMap (·.line)

end Repoint
