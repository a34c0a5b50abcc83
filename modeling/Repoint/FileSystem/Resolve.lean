import Repoint.Except
import Repoint.FileSystem.Basic
import Repoint.OsError

/-!
# Where a path leads

A path is followed piece by piece, from the root or the working directory, with at most forty links on
the way. Every piece needs a directory to start from.
-/

namespace Repoint

/-! ## Steps -/

/-- What a piece of a path asks for. -/
inductive PathStep where
  /-- Stay: an empty piece or `.`. -/
  | stay
  /-- Go to the parent directory. -/
  | up
  /-- Go to an entry of the directory. -/
  | down (name : Name)
  /-- A piece that no entry can be named by. -/
  | tooLong
  deriving DecidableEq

def PathStep.ofPiece (piece : Bytes) : PathStep :=
  if Path.isIdle piece then .stay
  else if piece = Path.dotDot then .up
  else match Name.ofBytes? piece with
    | some name => .down name
    | none => .tooLong

def Path.steps (path : Path) : List PathStep := path.pieces.map PathStep.ofPiece

/-- What the last name of a path may be. -/
inductive LastName where
  /-- An entry. A link there is followed. -/
  | target
  /-- An entry. A link there is not followed. -/
  | entry
  /-- An entry, or a name that is free. A link there is followed. -/
  | creation
  deriving DecidableEq

namespace FileSystem

/-! ## Following steps -/

/-- Follows steps from a location; `jump` says where a link's target leads, with the steps that come
after it. -/
def followSteps (fs : FileSystem) (last : LastName)
    (jump : Location → Bytes → List PathStep → Except OsError Location) :
    Location → List PathStep → Except OsError Location
  | location, [] => .ok location
  | location, step :: rest =>
    if ¬ fs.IsDirectory location then .error .notDirectory
    else match step with
      | .stay => fs.followSteps last jump location rest
      | .up => fs.followSteps last jump location.parent rest
      | .tooLong => .error .nameTooLong
      | .down name =>
        match fs.get? (location.child name) with
        | none =>
          if rest = [] ∧ last = .creation then .ok (location.child name) else .error .noEntry
        | some (.link target) =>
          if rest = [] ∧ last = .entry then .ok (location.child name)
          else jump location target rest
        | some _ => fs.followSteps last jump (location.child name) rest

/-- Where a path starts when it is met at this location. -/
def startOf (path : Path) (location : Location) : Location :=
  if path.isAbsolute then .root else location

/-- Follows steps, with at most this many links on the way. -/
def follow (fs : FileSystem) (last : LastName) :
    Nat → Location → List PathStep → Except OsError Location
  | 0 => fs.followSteps last fun _ _ _ => .error .tooManyLinks
  | links + 1 => fs.followSteps last fun location target rest =>
      if target = [] then .error .noEntry
      else fs.follow last links (startOf target location) (Path.steps target ++ rest)

/-! ## Whole paths -/

/-- How many links are followed for one path. -/
def maxLinks : Nat := 40

/-- A path has to be shorter than this. -/
def pathLimit : Nat := 4096

/-- The path can be given to the operating system. -/
def checkPath (path : Path) : Except OsError Unit :=
  if 0 ∈ path then .error .nulByte
  else if path = [] then .error .noEntry
  else if pathLimit ≤ path.length then .error .nameTooLong
  else .ok ()

/-- The location that a path leads to. -/
def resolve (fs : FileSystem) (last : LastName) (path : Path) : Except OsError Location := do
  checkPath path
  fs.follow last maxLinks (startOf path fs.workingDirectory) path.steps

/-- The entry that a path leads to, links followed. -/
def stat (fs : FileSystem) (path : Path) : Except OsError (Location × Entry) := do
  let location ← fs.resolve .target path
  match fs.get? location with
  | some e => return (location, e)
  | none => .error .noEntry

theorem get?_of_stat {fs : FileSystem} {path : Path} {location : Location} {e : Entry}
    (h : fs.stat path = .ok (location, e)) : fs.get? location = some e := by
  obtain ⟨place, _, h⟩ := bind_eq_ok.mp h
  split at h
  · next hget =>
    cases h
    exact hget
  · cases h

/-- The entry that a path names, a link at its end not followed. -/
def lstat (fs : FileSystem) (path : Path) : Except OsError (Location × Entry) := do
  let location ← fs.resolve .entry path
  match fs.get? location with
  | some e => return (location, e)
  | none => .error .noEntry

/-- The bytes of the file that a path leads to. A pipe reads as empty: that reading it waits until
someone writes to it is left out. -/
def read (fs : FileSystem) (path : Path) : Except OsError Bytes := do
  match ← fs.stat path with
  | (_, .file f) => if f.isReadable then return f.data else .error .denied
  | (_, .directory _) => .error .isDirectory
  | _ => return []

/-- The permission bits of an entry. Those of a link are always the same. -/
def modeOf : Entry → Nat
  | .file f => f.mode
  | .directory mode => mode
  | .link _ => 0o777
  | .pipe mode => mode

def mode (fs : FileSystem) (path : Path) : Except OsError Nat := do
  let (_, e) ← fs.stat path
  return modeOf e

/-- The entry that a file can be moved onto under this path. A link there is replaced itself. The
path must end in a name, and the entry must not be a directory. -/
def replaceable (fs : FileSystem) (path : Path) : Except OsError Location := do
  let last := (path.pieces.reverse.dropWhile (· = [])).headD []
  if Path.isIdle last ∨ last = Path.dotDot then .error .busy
  else if path.getLast? = some Path.slash then .error .notDirectory
  else
    match ← fs.lstat path with
    | (_, .directory _) => .error .isDirectory
    | (location, _) => return location

end FileSystem

end Repoint
