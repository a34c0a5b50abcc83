import Repoint.Path
import Repoint.Utf8

/-!
# The log

Every event has a level and the name of the part that tells it.
-/

namespace Repoint

inductive Level where
  | error
  | warn
  | info
  | debug
  | trace
  deriving DecidableEq

/-- How much a level tells: the events up to it are shown. -/
def Level.rank : Level → Nat
  | .error => 1
  | .warn => 2
  | .info => 3
  | .debug => 4
  | .trace => 5

/-- The name of a level in a line of the log, five bytes wide. -/
def Level.label : Level → Bytes
  | .error => ascii "ERROR"
  | .warn => ascii " WARN"
  | .info => ascii " INFO"
  | .debug => ascii "DEBUG"
  | .trace => ascii "TRACE"

inductive Event where
  /-- A root is not there, so there is nothing to patch below it. -/
  | missingRoot (root : Path)
  | foundBuildFile (path : Path)
  | alreadyPatched (path : Path)
  | wouldPatch (path : Path) (replacements : Nat)
  | patched (path : Path) (replacements : Nat)
  | runComplete (scanned patched : Nat)
  deriving DecidableEq

namespace Event

def level : Event → Level
  | .missingRoot _ => .warn
  | .wouldPatch .. | .patched .. => .info
  | .foundBuildFile _ | .alreadyPatched _ | .runComplete .. => .debug

/-- The part of the program that tells the event. -/
def source : Event → Bytes
  | .missingRoot _ | .foundBuildFile _ => ascii "solpatch_core::discovery"
  | .alreadyPatched _ | .wouldPatch .. | .patched .. => ascii "solpatch_core::patch"
  | .runComplete .. => ascii "solpatch_core"

def message : Event → Bytes
  | .missingRoot _ => ascii "root path does not exist, nothing to patch"
  | .foundBuildFile _ => ascii "found build file"
  | .alreadyPatched _ => ascii "already patched"
  | .wouldPatch .. => ascii "would patch"
  | .patched .. => ascii "patched"
  | .runComplete .. => ascii "run complete"

/-- What the event is about: names and values. -/
def fields : Event → List (Bytes × Bytes)
  | .missingRoot root => [(ascii "root", Utf8.shown root)]
  | .foundBuildFile path | .alreadyPatched path => [(ascii "path", Utf8.shown path)]
  | .wouldPatch path n | .patched path n =>
    [(ascii "path", Utf8.shown path), (ascii "replacements", decimal n)]
  | .runComplete visited changed =>
    [(ascii "scanned", decimal visited), (ascii "patched", decimal changed)]

/-- The line of the log that tells the event. -/
def line (event : Event) : Bytes :=
  event.level.label ++ ascii " " ++ event.source ++ ascii ": " ++ event.message
    ++ event.fields.flatMap (fun (name, value) => ascii " " ++ name ++ ascii "=" ++ value)
    ++ [newline]

end Event

end Repoint
