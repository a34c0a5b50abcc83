import Repoint.FileSystem.Stage
import Repoint.Program

/-!
# The command

Runs the program on what the roots lead to. Permission bits cannot be read on disk, so every entry is
taken to have the usual ones; names that are not UTF-8 cannot be read either.
-/

namespace Repoint.Command

/-! ## Reading from disk -/

def bytesOf (text : String) : Bytes := text.toUTF8.toList

/-- The text of a path that was read from disk. -/
def textOf (path : Path) : String := (String.fromUTF8? ⟨path.toArray⟩).getD ""

/-- The location of an absolute path without links in it. -/
def locationOf (path : Path) : Location := .ofNames (path.pieces.filterMap Name.ofBytes?).reverse

def usualMode : Nat := 0o644

/-- The directories on the way to a location. -/
def withDirectories (fs : FileSystem) (location : Location) : FileSystem :=
  (List.range location.depth).foldl
    (fun fs n =>
      let above := Location.ofNames (location.names.drop n)
      if (fs.get? above).isSome then fs else fs.put above (.directory FileSystem.directoryMode))
    fs

def linkTarget (path : String) : IO Path := do
  try return bytesOf (← IO.FS.realPath path).toString
  catch _ => return bytesOf path ++ ascii ".missing"

mutual

/-- Reads an entry of a directory, with everything below it and behind it. -/
partial def readEntry (fs : FileSystem) (entry : IO.FS.DirEntry) : IO FileSystem := do
  let path := entry.path.toString
  let location := locationOf (bytesOf path)
  let known := (fs.get? location).any (!·.isDirectory)
  if known then return fs
  match (← entry.path.symlinkMetadata).type with
  | .dir => readDirectory (withDirectories fs location) path
  | .file =>
    let isBuildFile := bytesOf entry.fileName == buildFileName
    let data ← if isBuildFile then IO.FS.readBinFile entry.path else pure ByteArray.empty
    return fs.put location (.file { data := data.toList, mode := usualMode })
  | .symlink =>
    let target ← linkTarget path
    readTarget (fs.put location (.link target)) (textOf target)
  | .other => return fs.put location (.pipe FileSystem.pipeMode)

/-- Reads the entries of a directory. -/
partial def readDirectory (fs : FileSystem) (path : String) : IO FileSystem := do
  (← (← IO.FS.realPath path).readDir).foldlM readEntry fs

/-- Reads what stands at an absolute path without links. -/
partial def readTarget (fs : FileSystem) (path : String) : IO FileSystem := do
  let location := locationOf (bytesOf path)
  match location.name? with
  | none => return fs
  | some name =>
    let fs := withDirectories fs location.parent
    try
      let parent ← IO.FS.realPath (textOf location.parent.absolutePath)
      match (← parent.readDir).find? (bytesOf ·.fileName == name.bytes) with
      | some entry => readEntry fs entry
      | none => return fs
    catch _ => return fs

end

/-- Reads what the pieces of a path lead to, from a directory. -/
def readPieces (fs : FileSystem) (here : Location) : List Bytes → IO FileSystem
  | [] => readDirectory fs (textOf here.absolutePath)
  | piece :: rest =>
    match PathStep.ofPiece piece with
    | .stay => readPieces fs here rest
    | .up => readPieces fs here.parent rest
    | .tooLong => return fs
    | .down name => do
      let fs ← readTarget fs (textOf (here.child name).absolutePath)
      match fs.get? (here.child name) with
      | some (.link target) => readPieces fs (locationOf target) rest
      | some (.directory _) => readPieces fs (here.child name) rest
      | _ => return fs

def readRoot (fs : FileSystem) (root : Path) : IO FileSystem := do
  try readPieces fs (FileSystem.startOf root fs.workingDirectory) root.pieces
  catch _ => return fs

/-! ## Writing to disk -/

def rightsOf (mode : Nat) : IO.FileRight :=
  { user := { read := hasBit mode 0o400, write := hasBit mode 0o200, execution := hasBit mode 0o100 }
    group := { read := hasBit mode 0o40, write := hasBit mode 0o20, execution := hasBit mode 0o10 }
    other := { read := hasBit mode 0o4, write := hasBit mode 0o2, execution := hasBit mode 0o1 } }

def perform (operation : Operation) : IO Unit :=
  let pathOf (location : Location) : String := textOf location.absolutePath
  match operation with
  | .create file => IO.FS.writeBinFile (pathOf file) ByteArray.empty
  | .write file data => do
    let handle ← IO.FS.Handle.mk (pathOf file) .append
    handle.write ⟨data.toArray⟩
    handle.flush
  | .sync _ => return ()
  | .setMode file mode => IO.setAccessRights (pathOf file) (rightsOf mode)
  | .rename source target => IO.FS.rename (pathOf source) (pathOf target)
  | .remove file => IO.FS.removeFile (pathOf file)

end Repoint.Command

open Repoint Command in
def main (arguments : List String) : IO UInt32 := do
  let invocation : Invocation :=
    { arguments := arguments.map bytesOf
      logSetting := (← IO.getEnv "RUST_LOG").map bytesOf }
  let here := locationOf (bytesOf (← IO.currentDir).toString)
  let fs ← match Settings.parse invocation.arguments with
    | .ok settings => settings.roots.foldlM readRoot (FileSystem.empty here)
    | .error _ => pure (FileSystem.empty here)
  let exit := program invocation fs
  exit.operations.forM perform
  (← IO.getStdout).write ⟨exit.stdout.toArray⟩
  (← IO.getStderr).write ⟨exit.stderr.toArray⟩
  if exit.code = 2 then (← IO.getStderr).putStrLn ""
  return exit.code.toUInt32
