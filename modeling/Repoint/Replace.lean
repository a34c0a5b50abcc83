import Repoint.Job

/-!
# Replacing a file

The new bytes go to a temporary file in the same directory, which is then moved onto the old one.
-/

namespace Repoint

/-- How the disk takes temporary files. The first error ends a run, so one answer for each path that
is replaced is enough. -/
structure Disk where
  /-- No file can be made longer than this. -/
  writeLimit : Option Nat := none
  /-- Whether what was written can be made durable. -/
  sync : Path → Except OsError Unit := fun _ => .ok ()
  /-- Whether permission bits can be set. -/
  setMode : Path → Except OsError Unit := fun _ => .ok ()

/-- Writes all the bytes to a temporary file that no write may make longer than `limit`. What goes
beyond the limit is not written, and is an error. -/
def writeTemp (limit : Option Nat) (path : Path) (temp : Location) (data : Bytes) : Job Unit :=
  match limit with
  | none => .perform (.write temp data)
  | some n =>
    if data.length ≤ n then .perform (.write temp data)
    else do
      .perform (.write temp (data.take n))
      .fail (.writeTemp path)

/-- Makes what was written durable, and gives the temporary file its permission bits. -/
def settleTemp (disk : Disk) (path directory : Path) (temp : Location) (mode : Nat) : Job Unit := do
  .inspect fun _ => (disk.sync path).mapError (.syncTemp path)
  .perform (.sync temp)
  .inspect fun fs => (disk.setMode path).mapError (.copyMode (fs.tempPath directory temp))
  .perform (.setMode temp mode)

/-- Fills a temporary file in a directory and moves it to where the path names an entry. -/
def moveIntoPlace (disk : Disk) (path directory : Path) (temp : Location) (mode : Nat)
    (data : Bytes) : Job Unit := do
  writeTemp disk.writeLimit path temp data
  settleTemp disk path directory temp mode
  let target ← .inspect fun fs => (fs.replaceable path).mapError (.replace path)
  .perform (.rename temp target)

/-- Replaces the entry that a path names by a file with these bytes, and with the permission bits of
what the path leads to. -/
def replaceFile (disk : Disk) (path : Path) (data : Bytes) : Job Unit := do
  match path.directory? with
  | none => .fail (.noParent path)
  | some directory =>
    let mode ← .inspect fun fs => (fs.mode path).mapError (.stat path)
    let temp ← .inspect fun fs => (fs.tempLocation directory).mapError fun _ => .createTemp directory
    .perform (.create temp)
    (moveIntoPlace disk path directory temp mode data).orElsePerform (.remove temp)

end Repoint
