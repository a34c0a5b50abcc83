import Repoint.Json.Text
import Repoint.Patch
import Repoint.Sink

/-!
# Writing a report

As one JSON array, as JSON with one patch on each line, or as a plain list of paths.
-/

namespace Repoint

/-! ## The text of a patch -/

def boolText (b : Bool) : Bytes := ascii (if b then "true" else "false")

/-- The members of a patch with their values; `none` when the path is not UTF-8. -/
def FilePatch.members? (patch : FilePatch) : Option (List (Bytes × Bytes)) :=
  if Utf8.Valid patch.path then
    some
      [(Field.path.name, Json.quote patch.path),
        (Field.replacements.name, decimal patch.replacements),
        (Field.linesChanged.name, decimal patch.linesChanged),
        (Field.written.name, boolText patch.written)]
  else none

def FilePatch.compact? (patch : FilePatch) : Option Bytes :=
  patch.members?.map fun members =>
    0x7B :: List.intercalate (ascii ",")
      (members.map fun (name, value) => Json.quote name ++ ascii ":" ++ value) ++ [0x7D]

/-- A patch as an element of an array: the braces indented by two spaces, the members by four. -/
def FilePatch.element? (patch : FilePatch) : Option Bytes :=
  patch.members?.map fun members =>
    ascii "  \x7b\n" ++ List.intercalate (ascii ",\n")
      (members.map fun (name, value) => ascii "    " ++ Json.quote name ++ ascii ": " ++ value)
      ++ ascii "\n  \x7d"

/-- Patches as an array, one member to a line. -/
def arrayText? (patches : List FilePatch) : Option Bytes :=
  if patches = [] then some (ascii "[]")
  else (patches.mapM FilePatch.element?).map fun elements =>
    ascii "[\n" ++ List.intercalate (ascii ",\n") elements ++ ascii "\n]"

/-! ## Writing -/

inductive RenderError where
  | notUtf8
  | write (e : WriteError)
  deriving DecidableEq

def RenderError.message : RenderError → Bytes
  | .notUtf8 => ascii "path contains invalid UTF-8 characters"
  | .write e => e.message

/-- Where the output stands, and the error that ended it. -/
abbrev Rendered := Sink × Option RenderError

def Sink.render (sink : Sink) (texts : List Bytes) : Rendered :=
  let (sink, failure) := sink.writeAll texts
  (sink, failure.map .write)

theorem Sink.render_congr (sink : Sink) {texts texts' : List Bytes}
    (h : texts.flatten = texts'.flatten) : sink.render texts = sink.render texts' := by
  simp only [render, writeAll_eq_write, h]

theorem Sink.render_cons (sink : Sink) (text : Bytes) (texts : List Bytes) :
    sink.render (text :: texts) =
      match sink.render [text] with
      | (sink, none) => sink.render texts
      | failed => failed := by
  simp only [render, writeAll]
  rcases sink.write text with ⟨after, failure⟩
  cases failure with
  | none => rfl
  | some e => rfl

theorem Sink.render_unlimited {sink : Sink} (hroom : sink.room = .unlimited) (texts : List Bytes) :
    sink.render texts = ({ sink with written := sink.written ++ texts.flatten }, none) := by
  simp only [render, writeAll_unlimited hroom, Option.map_none]

/-- Writes the array and a newline. Nothing is written when a path is not UTF-8. -/
def writeArray (patches : List FilePatch) (sink : Sink) : Rendered :=
  match arrayText? patches with
  | none => (sink, some .notUtf8)
  | some text => sink.render [text, [newline]]

/-- Writes each patch and a newline, up to the first whose path is not UTF-8. -/
def writeEach : List FilePatch → Sink → Rendered
  | [], sink => (sink, none)
  | patch :: rest, sink =>
    match patch.compact? with
    | none => (sink, some .notUtf8)
    | some text =>
      match sink.render [text, [newline]] with
      | (sink, none) => writeEach rest sink
      | failed => failed

def writePaths (patches : List FilePatch) (sink : Sink) : Rendered :=
  sink.render (patches.flatMap fun patch => [Utf8.shown patch.path, [newline]])

end Repoint
