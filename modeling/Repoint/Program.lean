import Repoint.CommandLine
import Repoint.CommandLine.Help
import Repoint.Log.Filter
import Repoint.Report.Writer
import Repoint.Run

/-!
# The program

From the arguments and the file system to the output, the exit code and the operations.
-/

namespace Repoint

structure Invocation where
  arguments : List Bytes
  /-- What the log is asked to show. -/
  logSetting : Option Bytes := none
  /-- The room that standard output has. -/
  room : Room := .unlimited

structure Exit where
  code : Nat
  stdout : Bytes
  stderr : Bytes
  operations : List Operation := []

/-! ## What is run -/

/-- The roots: the paths that were given, or the submodule of the repository. -/
def Settings.roots (settings : Settings) : List Path :=
  if settings.paths ≠ [] then settings.paths
  else [(settings.repoRoot.getD Path.dot).submodule]

/-- A check changes nothing. -/
def Settings.options (settings : Settings) : Options :=
  { followLinks := settings.has .followSymlinks
    dryRun := settings.has .dryRun || settings.has .check }

/-- Writes the patches in the form that was asked for. -/
def Settings.write (settings : Settings) (patches : List FilePatch) (sink : Sink) : Rendered :=
  if settings.has .ndjson then writeEach patches sink
  else if settings.has .json then writeArray patches sink
  else if settings.has .list then writePaths patches sink
  else (sink, none)

/-! ## How it fails -/

inductive Failure where
  | run (e : Error)
  | render (e : RenderError)
  /-- A check found files that need patching. -/
  | pending (report : Report)

/-- A word for one thing, or with the ending for any other number of them. -/
def counted (n : Nat) (one many : String) : Bytes := ascii (if n = 1 then one else many)

def pendingMessage (report : Report) : Bytes :=
  let files := report.patches.length
  let total := report.total.toNat
  decimal files ++ ascii " file" ++ counted files "" "s"
    ++ ascii " still reference" ++ counted files "s" "" ++ ascii " " ++ sourceDir
    ++ ascii " outside the submodule (" ++ decimal total ++ ascii " occurrence"
    ++ counted total "" "s" ++ ascii ")"

def Failure.message : Failure → Bytes
  | .run e => e.message
  | .render e => e.message
  | .pending report => pendingMessage report

def errorText (message : Bytes) : Bytes := ascii "error: " ++ message

/-! ## All of it -/

/-- What comes of a run: the standard output, and the failure if there is one. -/
def Settings.finish (settings : Settings) (sink : Sink) :
    Except Error Report → Sink × Option Failure
  | .error e => (sink, some (.run e))
  | .ok report =>
    match settings.write report.patches sink with
    | (sink, some e) => (sink, some (.render e))
    | (sink, none) =>
      if settings.has .check ∧ report.patches ≠ [] then (sink, some (.pending report))
      else (sink, none)

def Settings.execute (settings : Settings) (invocation : Invocation) (fs : FileSystem) : Exit :=
  let outcome := Repoint.run settings.options settings.roots fs
  let log := (Filter.ofSetting invocation.logSetting).log outcome.events
  let (sink, failure) := settings.finish { room := invocation.room } outcome.result
  { code := if failure.isSome then 1 else 0
    stdout := sink.written
    stderr := match failure with
      | some f => log ++ errorText f.message ++ [newline]
      | none => log
    operations := outcome.operations }

def printAndEnd (invocation : Invocation) (text : Bytes) : Exit :=
  { code := 0, stdout := ((Sink.write { room := invocation.room } text).1).written, stderr := [] }

/-- The program. A mistake in the command line is told in one line, and nothing is done. -/
def program (invocation : Invocation) (fs : FileSystem) : Exit :=
  match Settings.parse invocation.arguments with
  | .ok settings => settings.execute invocation fs
  | .error .help => printAndEnd invocation helpText
  | .error .version => printAndEnd invocation versionText
  | .error (.usage e) => { code := 2, stdout := [], stderr := firstLine (errorText e.message) }

end Repoint
