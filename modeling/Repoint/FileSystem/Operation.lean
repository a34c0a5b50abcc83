import Repoint.FileSystem.Resolve

/-!
# Elementary operations

What is done to a file system is a list of operations, of which interrupted work has done the first.
-/

namespace Repoint

inductive Operation where
  /-- Makes an empty file that only its owner can use. -/
  | create (file : Location)
  /-- Writes bytes at the end of a file. -/
  | write (file : Location) (data : Bytes)
  /-- Makes what was written durable. -/
  | sync (file : Location)
  | setMode (file : Location) (mode : Nat)
  /-- Moves an entry, onto another one if one is there. -/
  | rename (source target : Location)
  | remove (file : Location)
  deriving DecidableEq

namespace FileSystem

/-- The permission bits of a file that was just made. -/
def privateMode : Nat := 0o600

def perform (fs : FileSystem) : Operation → FileSystem
  | .create file => fs.put file (.file { data := [], mode := privateMode })
  | .write file data => fs.changeFile file fun f => { f with data := f.data ++ data }
  | .sync _ => fs
  | .setMode file mode => fs.changeFile file fun f => { f with mode }
  | .rename source target =>
    match fs.get? source with
    | some e => (fs.erase source).put target e
    | none => fs
  | .remove file => fs.erase file

def performAll (fs : FileSystem) (operations : List Operation) : FileSystem :=
  operations.foldl perform fs

@[simp]
theorem performAll_nil (fs : FileSystem) : fs.performAll [] = fs := rfl

theorem performAll_append (fs : FileSystem) (a b : List Operation) :
    fs.performAll (a ++ b) = (fs.performAll a).performAll b := List.foldl_append

/-! ## Temporary files -/

/-- The name of the temporary file with this number: ten bytes up to number 999999. -/
def tempName? (n : Nat) : Option Name :=
  let digits := decimal n
  Name.ofBytes? (ascii ".tmp" ++ List.replicate (6 - digits.length) 0x30 ++ digits)

def tempNameLength : Nat := 10

/-- The first temporary name that is not taken. -/
def freeName? (taken : List Name) : Option Name :=
  ((List.range (taken.length + 1)).filterMap tempName?).find? (· ∉ taken)

theorem freeName?_not_mem {taken : List Name} {name : Name} (h : freeName? taken = some name) :
    name ∉ taken := by
  simpa using List.find?_some h

def absolute (fs : FileSystem) (path : Path) : Path :=
  if path.isAbsolute then path else fs.workingDirectory.absolutePath.join path

/-- Where a new temporary file goes in a directory. Its absolute path is what has to be short
enough. -/
def tempLocation (fs : FileSystem) (directory : Path) : Except OsError Location := do
  if pathLimit ≤ (fs.absolute directory).length + 1 + tempNameLength then .error .nameTooLong
  else
    match ← fs.stat directory with
    | (location, .directory _) =>
      match freeName? (fs.names location) with
      | some name => return location.child name
      | none => .error .busy
    | _ => .error .notDirectory

def tempPath (fs : FileSystem) (directory : Path) (temp : Location) : Path :=
  (fs.absolute directory).join (temp.name?.elim [] Name.bytes)

end FileSystem

end Repoint
