import Repoint.Bytes
import Repoint.Rule

/-!
# Paths as text

Joining, the lexical parent and the last name. Empty pieces and `.` say nothing, apart from a `.` at the
front of a relative path.
-/

namespace Repoint

abbrev Path := Bytes

namespace Path

def slash : UInt8 := 0x2F

/-- The name of a directory for itself. -/
def dot : Bytes := ascii "."

/-- The name of a directory for the one that holds it. -/
def dotDot : Bytes := ascii ".."

def isAbsolute (path : Path) : Bool := path.head? = some slash

def pieces (path : Path) : List Bytes := splitOn slash path

/-- The path of a name below a directory. A slash goes between them, unless the directory's path is
empty or already ends in one; nothing else is changed. -/
def join (directory : Path) (name : Bytes) : Path :=
  if directory = [] ∨ directory.getLast? = some slash then directory ++ name
  else directory ++ slash :: name

/-- A piece that leads nowhere. -/
def isIdle (piece : Bytes) : Bool := piece = [] || piece = dot

/-- The pieces after the first, in reverse order, without the idle ones at the end. -/
def trailing (path : Path) : List Bytes := path.pieces.tail.reverse.dropWhile isIdle

/-- The path without its last name, as text: `none` for the empty path and for one that names only
the root. What is left keeps its spelling, but no idle piece at its end. -/
def parent? (path : Path) : Option Path :=
  match path.trailing with
  | [] => if path = [] ∨ path.isAbsolute then none else some []
  | _ :: before =>
    let kept := (before.dropWhile isIdle).reverse
    if path.isAbsolute then some (slash :: joinWith slash kept)
    else some (joinWith slash (path.pieces.headD [] :: kept))

/-- The directory part of a path, with `.` for the empty one. -/
def directory? (path : Path) : Option Path :=
  path.parent?.map fun parent => if parent = [] then dot else parent

/-- The last name of a path; `none` when it ends in `..` or names no entry. -/
def fileName? (path : Path) : Option Bytes :=
  match path.trailing with
  | [] =>
    let first := path.pieces.headD []
    if isIdle first ∨ first = dotDot then none else some first
  | last :: _ => if last = dotDot then none else some last

/-- The directory of the submodule in a checkout of the repository. -/
def submodule (repository : Path) : Path := repository.join submoduleDir

end Path

def buildFileName : Bytes := ascii "CMakeLists.txt"

def Path.namesBuildFile (path : Path) : Bool := path.fileName? = some buildFileName

end Repoint
