import Repoint.Bytes

/-!
# The source directory rule

In a submodule `${CMAKE_SOURCE_DIR}` still means the whole project. The rule makes every such reference
point into the submodule.
-/

namespace Repoint

/-! ## The texts of the rule -/

def sourceDir : Bytes := ascii "$\x7bCMAKE_SOURCE_DIR\x7d"

def submoduleDir : Bytes := ascii "solidity"

/-- What follows a reference that points into the submodule. -/
def marker : Bytes := ascii "/solidity"

/-- What a reference becomes. -/
def markedSourceDir : Bytes := sourceDir ++ marker

/-! ## One line -/

/-- A line after the rule, and how many references were changed in it. -/
structure LineEdit where
  bytes : Bytes
  count : Nat
  /-- The line itself is given back, and no new text was made. -/
  borrowed : Bool
  deriving DecidableEq

/-- Reads a line from left to right. Where a reference stands, it is taken whole, and the marker is
written after it unless the marker already stands there. The number is that of the markers written. -/
def markReferences : Bytes → Bytes × Nat
  | [] => ([], 0)
  | b :: rest =>
    if sourceDir <+: b :: rest then
      let after := rest.drop (sourceDir.length - 1)
      let (text, count) := markReferences after
      if marker <+: after then (sourceDir ++ text, count)
      else (sourceDir ++ marker ++ text, count + 1)
    else
      let (text, count) := markReferences rest
      (b :: text, count)
termination_by line => line.length
decreasing_by all_goals simp; try omega

/-- The rule on one line. A line without a reference to change is given back as it is. -/
def repointLine (line : Bytes) : LineEdit :=
  let (text, count) := markReferences line
  if count = 0 then { bytes := line, count := 0, borrowed := true }
  else { bytes := text, count, borrowed := false }

/-! ## A whole text -/

/-- A text after the rule, how many references were changed, and on how many lines. -/
structure Repointed where
  bytes : Bytes
  replacements : Nat
  linesChanged : Nat
  deriving DecidableEq

/-- The rule, line by line. -/
def repoint (text : Bytes) : Repointed :=
  let edits := (lines text).map repointLine
  { bytes := edits.flatMap (·.bytes)
    replacements := edits.foldr (fun edit n => edit.count + n) 0
    linesChanged := edits.countP (0 < ·.count) }

def Repointed.changed (r : Repointed) : Bool := 0 < r.replacements

end Repoint
