import Repoint.Bytes

/-!
# Errors of the operating system
-/

namespace Repoint

/-- Why the operating system refuses a path. -/
inductive OsError where
  /-- A path that holds a NUL byte never reaches the operating system. -/
  | nulByte
  | notPermitted
  | noEntry
  | inputOutput
  | denied
  | busy
  | alreadyExists
  | notDirectory
  | isDirectory
  | nameTooLong
  | tooManyLinks
  deriving DecidableEq

def OsError.message : OsError → Bytes
  | .nulByte => ascii "file name contained an unexpected NUL byte"
  | .notPermitted => ascii "Operation not permitted (os error 1)"
  | .noEntry => ascii "No such file or directory (os error 2)"
  | .inputOutput => ascii "Input/output error (os error 5)"
  | .denied => ascii "Permission denied (os error 13)"
  | .busy => ascii "Device or resource busy (os error 16)"
  | .alreadyExists => ascii "File exists (os error 17)"
  | .notDirectory => ascii "Not a directory (os error 20)"
  | .isDirectory => ascii "Is a directory (os error 21)"
  | .nameTooLong => ascii "File name too long (os error 36)"
  | .tooManyLinks => ascii "Too many levels of symbolic links (os error 40)"

end Repoint
