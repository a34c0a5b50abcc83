import Repoint.OsError
import Repoint.Path
import Repoint.Utf8

/-!
# Errors of a run
-/

namespace Repoint

/-- Why a walk ends early. -/
inductive WalkError where
  /-- The operating system refuses a path met on the way. -/
  | os (path : Path) (cause : OsError)
  /-- A link leads to a directory that the walk is inside of. -/
  | loop (link ancestor : Path)
  deriving DecidableEq

def WalkError.message : WalkError → Bytes
  | .os path cause => ascii "IO error for operation on " ++ Utf8.shown path ++ ascii ": " ++ cause.message
  | .loop link ancestor =>
    ascii "File system loop found: " ++ Utf8.shown link ++ ascii " points to an ancestor "
      ++ Utf8.shown ancestor

inductive Error where
  /-- A root cannot be looked at, or a file that is to be replaced. -/
  | stat (path : Path) (cause : OsError)
  | walk (root : Path) (cause : WalkError)
  | read (path : Path) (cause : OsError)
  /-- The path has no directory part: it is empty, or the root. -/
  | noParent (path : Path)
  | createTemp (directory : Path)
  | writeTemp (path : Path)
  | syncTemp (path : Path) (cause : OsError)
  | copyMode (temp : Path) (cause : OsError)
  | replace (path : Path) (cause : OsError)
  deriving DecidableEq

def Error.message : Error → Bytes
  | .stat path cause => ascii "failed to stat " ++ Utf8.shown path ++ ascii ": " ++ cause.message
  | .walk root cause => ascii "failed to walk " ++ Utf8.shown root ++ ascii ": " ++ cause.message
  | .read path cause => ascii "failed to read " ++ Utf8.shown path ++ ascii ": " ++ cause.message
  | .noParent path => ascii "no parent directory for " ++ Utf8.shown path
  | .createTemp directory => ascii "failed to create temp file in " ++ Utf8.shown directory
  | .writeTemp path => ascii "failed to write temp file for " ++ Utf8.shown path
  | .syncTemp path cause =>
    ascii "failed to flush temp file for " ++ Utf8.shown path ++ ascii ": " ++ cause.message
  | .copyMode temp cause =>
    ascii "failed to copy permissions to " ++ Utf8.shown temp ++ ascii ": " ++ cause.message
  | .replace path cause =>
    ascii "failed to replace " ++ Utf8.shown path ++ ascii ": " ++ cause.message

end Repoint
