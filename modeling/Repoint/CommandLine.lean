import Repoint.Path
import Repoint.Terminal
import Repoint.Utf8

/-!
# The command line

Arguments are read from left to right. An option's value, and paths, are held back until the next option
or the end.
-/

namespace Repoint

/-! ## What can be given -/

inductive Flag where
  | followSymlinks
  | dryRun
  | check
  | list
  | json
  | ndjson
  | help
  | version
  deriving DecidableEq

namespace Flag

def all : List Flag := [followSymlinks, dryRun, check, list, json, ndjson, help, version]

/-- The name after two dashes. -/
def longName : Flag → Bytes
  | .followSymlinks => ascii "follow-symlinks"
  | .dryRun => ascii "dry-run"
  | .check => ascii "check"
  | .list => ascii "list"
  | .json => ascii "json"
  | .ndjson => ascii "ndjson"
  | .help => ascii "help"
  | .version => ascii "version"

def letter? : Flag → Option Bytes
  | .dryRun => some (ascii "n")
  | .list => some (ascii "l")
  | .help => some (ascii "h")
  | .version => some (ascii "V")
  | _ => none

def ofLongName? (name : Bytes) : Option Flag := all.find? (·.longName = name)

def ofLetter? (character : Bytes) : Option Flag := all.find? (·.letter? = some character)

end Flag

/-- What a message can name. -/
inductive Argument where
  | flag (f : Flag)
  | repoRoot
  | paths
  deriving DecidableEq

def Argument.name : Argument → Bytes
  | .flag f => ascii "--" ++ f.longName
  | .repoRoot => ascii "--repo-root <REPO_ROOT>"
  | .paths => ascii "[PATHS]..."

/-- The two cannot be given together. -/
def Argument.excludes : Argument → Argument → Bool
  | .flag .json, .flag .ndjson | .flag .ndjson, .flag .json => true
  | .paths, .repoRoot | .repoRoot, .paths => true
  | _, _ => false

structure Settings where
  paths : List Path := []
  repoRoot : Option Path := none
  flags : List Flag := []
  deriving DecidableEq

def Settings.has (settings : Settings) (f : Flag) : Bool := f ∈ settings.flags

/-! ## Mistakes -/

inductive UsageError where
  | unexpectedArgument (text : Bytes)
  | unexpectedValue (value : Bytes) (f : Flag)
  | missingValue (argument : Argument)
  | repeated (argument : Argument)
  /-- The two exclude each other; the first was given first. -/
  | conflict (first second : Argument)
  deriving DecidableEq

/-- What was typed, fit to be shown. -/
def typed (text : Bytes) : Bytes := Terminal.plain (Utf8.shown text)

def UsageError.message : UsageError → Bytes
  | .unexpectedArgument text => ascii "unexpected argument '" ++ typed text ++ ascii "' found"
  | .unexpectedValue value f =>
    ascii "unexpected value '" ++ typed value ++ ascii "' for '" ++ (Argument.flag f).name
      ++ ascii "' found; no more were expected"
  | .missingValue argument =>
    ascii "a value is required for '" ++ argument.name ++ ascii "' but none was supplied"
  | .repeated argument =>
    ascii "the argument '" ++ argument.name ++ ascii "' cannot be used multiple times"
  | .conflict first second =>
    ascii "the argument '" ++ first.name ++ ascii "' cannot be used with '" ++ second.name
      ++ ascii "'"

/-- Why a command line gives nothing to run. -/
inductive EarlyEnd where
  | usage (e : UsageError)
  | help
  | version
  deriving DecidableEq

/-! ## Reading -/

/-- What is held back. -/
inductive Pending where
  | nothing
  /-- The option for the repository, with its value if that has come. -/
  | repoRoot (value : Option Bytes)
  | paths (values : List Bytes)

structure Reading where
  settings : Settings := {}
  /-- What was given, in order. -/
  given : List Argument := []
  pending : Pending := .nothing

namespace Reading

def setRepoRoot (reading : Reading) (value : Bytes) : Except EarlyEnd Reading :=
  if reading.settings.repoRoot.isSome then .error (.usage (.repeated .repoRoot))
  else if value = [] then .error (.usage (.missingValue .repoRoot))
  else return { reading with
    settings := { reading.settings with repoRoot := some value }
    given := reading.given ++ [.repoRoot] }

def addPaths (reading : Reading) (values : List Bytes) : Except EarlyEnd Reading :=
  if [] ∈ values then .error (.usage (.missingValue .paths))
  else return { reading with
    settings := { reading.settings with paths := reading.settings.paths ++ values }
    given := reading.given ++ [.paths] }

/-- Looks at what was held back. -/
def settle (reading : Reading) : Except EarlyEnd Reading :=
  let rest := { reading with pending := .nothing }
  match reading.pending with
  | .nothing => return rest
  | .repoRoot none => .error (.usage (.missingValue .repoRoot))
  | .repoRoot (some value) => rest.setRepoRoot value
  | .paths values => rest.addPaths values

def flag (reading : Reading) (f : Flag) : Except EarlyEnd Reading := do
  let reading ← reading.settle
  if f = .help then .error .help
  else if f = .version then .error .version
  else if reading.settings.has f then .error (.usage (.repeated (.flag f)))
  else return { reading with
    settings := { reading.settings with flags := reading.settings.flags ++ [f] }
    given := reading.given ++ [.flag f] }

def repoRootName : Bytes := ascii "repo-root"

/-- An argument that begins with two dashes, after them: a name, and what follows an `=`. -/
def long (reading : Reading) (text : Bytes) : Except EarlyEnd Reading :=
  let name := text.takeWhile (· ≠ 0x3D)
  let value? := (text.dropWhile (· ≠ 0x3D)).tail?
  if name = repoRootName then do
    let reading ← reading.settle
    match value? with
    | some value => reading.setRepoRoot value
    | none => return { reading with pending := .repoRoot none }
  else
    match Flag.ofLongName? name, value? with
    | some f, none => reading.flag f
    | some f, some value => .error (.usage (.unexpectedValue value f))
    | none, _ => .error (.usage (.unexpectedArgument (ascii "--" ++ name)))

/-- An argument that begins with one dash, after it: one letter for each flag. -/
def letters (reading : Reading) (text : Bytes) : Except EarlyEnd Reading :=
  if text = [] then return reading
  else
    match _h : Utf8.character? text with
    | none => .error (.usage (.unexpectedArgument (ascii "-" ++ text)))
    | some (character, rest) =>
      match Flag.ofLetter? character with
      | none => .error (.usage (.unexpectedArgument (ascii "-" ++ character)))
      | some f =>
        match reading.flag f with
        | .ok reading => reading.letters rest
        | .error e => .error e
termination_by text.length
decreasing_by exact Utf8.length_character? _h

def path (reading : Reading) (value : Bytes) : Except EarlyEnd Reading := do
  match reading.pending with
  | .paths values => return { reading with pending := .paths (values ++ [value]) }
  | _ =>
    let reading ← reading.settle
    return { reading with pending := .paths [value] }

/-- Reads arguments up to the end; after `--` there are only paths. -/
def arguments (reading : Reading) : List Bytes → Except EarlyEnd Reading
  | [] => return reading
  | argument :: rest => do
    match argument with
    | [0x2D, 0x2D] => rest.foldlM path reading
    | 0x2D :: 0x2D :: text => (← reading.long text).arguments rest
    | 0x2D :: b :: text => (← reading.letters (b :: text)).arguments rest
    | _ =>
      match reading.pending with
      | .repoRoot none =>
        arguments { reading with pending := .repoRoot (some argument) } rest
      | _ => (← reading.path argument).arguments rest

/-- The first of the arguments given that another one excludes, and that other one. -/
def conflict? (reading : Reading) : Option (Argument × Argument) :=
  reading.given.findSome? fun a => (reading.given.find? (a.excludes ·)).map ((a, ·))

end Reading

def Settings.parse (arguments : List Bytes) : Except EarlyEnd Settings := do
  let reading ← (← Reading.arguments {} arguments).settle
  match reading.conflict? with
  | some (first, second) => .error (.usage (.conflict first second))
  | none => return reading.settings

end Repoint
