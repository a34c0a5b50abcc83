import Repoint.FileSystem.Basic

/-!
# Differences between file systems
-/

namespace Repoint

/-- A path below some directory, and what is there now; `none` when nothing is. -/
structure Change where
  path : Path
  now : Option Entry

namespace FileSystem

/-- What can be seen of an entry by looking at it alone. -/
def visible : Entry → Entry
  | .file f => .file { f with twin := none }
  | e => e

/-- Every file below a directory can be read. -/
def isReadableBelow (fs : FileSystem) (base : Location) : Bool :=
  fs.entries.all fun (location, e) =>
    match e with
    | .file f => f.isReadable || !location.isWithin base
    | _ => true

/-- What differs below a directory, in the byte order of the paths. -/
def changes (before after : FileSystem) (base : Location) : List Change :=
  let gone := (before.entries.map (·.1)).filter fun l => (after.get? l).isNone
  let differing := (after.entries.map (·.1)).filter fun l =>
    (before.get? l).map visible ≠ (after.get? l).map visible
  let all := (gone ++ differing).filterMap fun l =>
    (l.relativePath? base).map fun path => { path, now := after.get? l : Change }
  sortBy (fun a b => a.path ≤ b.path) all

end FileSystem

end Repoint
