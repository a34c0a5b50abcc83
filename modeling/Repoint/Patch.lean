import Repoint.Path

/-!
# Patches and reports
-/

namespace Repoint

structure FilePatch where
  path : Path
  replacements : Nat
  linesChanged : Nat
  /-- The file was replaced: not so in a dry run, nor when nothing had to change. -/
  written : Bool
  deriving DecidableEq

/-- The members of a patch, in the order they are written. -/
inductive Field where
  | path
  | replacements
  | linesChanged
  | written
  deriving DecidableEq

def Field.name : Field → Bytes
  | .path => ascii "path"
  | .replacements => ascii "replacements"
  | .linesChanged => ascii "lines_changed"
  | .written => ascii "written"

structure Report where
  /-- How many build files were visited. -/
  scanned : Nat := 0
  /-- The files with at least one reference to change, in the order they were visited. -/
  patches : List FilePatch := []
  deriving DecidableEq

/-- All the references changed, as a 64-bit sum. -/
def totalReplacements (patches : List FilePatch) : UInt64 :=
  patches.foldr (fun patch total => patch.replacements.toUInt64 + total) 0

def Report.total (report : Report) : UInt64 := totalReplacements report.patches

end Repoint
