import Repoint.FileSystem.Resolve

/-!
# Building a file system

Making and removing entries, with the directories that are missing on the way.
-/

namespace Repoint.FileSystem

def directoryMode : Nat := 0o755

def pipeMode : Nat := 0o644

/-- A file system with nothing in it but the working directory and the directories above it. -/
def empty (workingDirectory : Location) : FileSystem :=
  (List.range workingDirectory.depth).foldr
    (fun n fs => fs.put (.ofNames (workingDirectory.names.drop n)) (.directory directoryMode))
    { entries := [], rootMode := directoryMode, workingDirectory, unique := by simp, nested := by simp }

/-! ## Directories -/

/-- Follows a step from a directory, and makes a directory where the step leads to a name that is
free; `isLast` when no step comes after it. A link that leads nowhere is in the way, and so is
anything else that is no directory. -/
def makeStep (fs : FileSystem) (here : Location) (step : PathStep) (isLast : Bool) :
    Except OsError (FileSystem × Location) :=
  match fs.follow .target maxLinks here [step] with
  | .ok location =>
    if fs.IsDirectory location then .ok (fs, location)
    else .error (if isLast then .alreadyExists else .notDirectory)
  | .error .noEntry =>
    match step with
    | .down name =>
      let location := here.child name
      if (fs.get? location).isSome then .error .alreadyExists
      else .ok (fs.put location (.directory directoryMode), location)
    | _ => .error .noEntry
  | .error .tooManyLinks => .error (if isLast then .alreadyExists else .tooManyLinks)
  | .error e => .error e

/-- Makes the directories that steps lead through. -/
def makeAlong (fs : FileSystem) (here : Location) : List PathStep → Except OsError FileSystem
  | [] => .ok fs
  | step :: rest => do
    let (fs, here) ← fs.makeStep here step rest.isEmpty
    fs.makeAlong here rest

/-- Makes a directory and all that are missing above it. -/
def putDirectory (fs : FileSystem) (path : Path) : Except OsError FileSystem := do
  checkPath path
  fs.makeAlong (startOf path fs.workingDirectory)
    ((path.pieces.filter (· ≠ [])).map PathStep.ofPiece)

/-- Makes the directories above the entry that a path names. -/
def makeParents (fs : FileSystem) (path : Path) : Except OsError FileSystem :=
  match path.parent? with
  | none | some [] => .ok fs
  | some directory => fs.putDirectory directory

/-! ## Files -/

/-- Writes a file, over the one that is there, and sets its permission bits. Links are followed, and
all names of the file see the change. -/
def putFile (fs : FileSystem) (path : Path) (data : Bytes) (mode : Nat) :
    Except OsError FileSystem := do
  let fs ← fs.makeParents path
  checkPath path
  if path.getLast? = some Path.slash then .error .isDirectory
  else
    let location ← fs.resolve .creation path
    match fs.get? location with
    | none => return fs.put location (.file { data, mode })
    | some (.file f) =>
      if f.isWritable then return fs.changeFile location fun g => { g with data, mode }
      else .error .denied
    | some (.directory _) => .error .isDirectory
    | some _ => return fs

/-! ## Other entries -/

/-- Where a new entry goes. A link that is already there is not followed. -/
def placeFor (fs : FileSystem) (path : Path) : Except OsError Location :=
  match fs.resolve .entry path with
  | .ok _ => .error .alreadyExists
  | .error _ => fs.resolve .creation path

def putLink (fs : FileSystem) (path : Path) (target : Bytes) : Except OsError FileSystem := do
  let fs ← fs.makeParents path
  checkPath target
  return fs.put (← fs.placeFor path) (.link target)

def putPipe (fs : FileSystem) (path : Path) : Except OsError FileSystem := do
  let fs ← fs.makeParents path
  return fs.put (← fs.placeFor path) (.pipe pipeMode)

/-- A twin number that no file has. -/
def freeTwin (fs : FileSystem) : Nat :=
  fs.entries.foldr
    (fun (_, e) next =>
      match e with
      | .file { twin := some n, .. } => max (n + 1) next
      | _ => next)
    0

/-- Makes another name for an entry that is no directory. Only the names of a file have to be kept
together: links and pipes never change. -/
def putTwin (fs : FileSystem) (path target : Path) : Except OsError FileSystem := do
  let fs ← fs.makeParents path
  let (source, e) ← fs.lstat target
  let location ← fs.placeFor path
  match e with
  | .file f =>
    let twin := f.twin.getD fs.freeTwin
    let fs := fs.changeFile source fun g => { g with twin := some twin }
    return fs.put location (.file { f with twin := some twin })
  | .directory _ => .error .notPermitted
  | e => return fs.put location e

/-! ## Removing -/

/-- Removes the entry that a path names, with everything below it. -/
def removeAll (fs : FileSystem) (path : Path) : Except OsError FileSystem := do
  let (location, _) ← fs.lstat path
  return { fs with
    entries := fs.entries.filter fun (l, _) => !l.isWithin location
    unique := List.Nodup.sublist (List.filter_sublist.map _) fs.unique
    nested := by
      intro p hp
      obtain ⟨hmem, houtside⟩ := List.mem_filter.mp hp
      refine (fs.nested p hmem).imp_right fun ⟨mode, hparent⟩ =>
        ⟨mode, List.mem_filter.mpr ⟨hparent, ?_⟩⟩
      simp only [Bool.not_eq_true'] at houtside ⊢
      exact Bool.eq_false_iff.mpr fun h => Bool.eq_false_iff.mp houtside (p.1.isWithin_of_parent h) }

end Repoint.FileSystem
