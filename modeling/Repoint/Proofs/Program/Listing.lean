import Repoint.Proofs.Discovery.Blocks
import Repoint.Proofs.Program.Check
import Repoint.Proofs.Utf8

/-!
# Listing

A newline in a path is shown as it is, and all that is not UTF-8 is shown alike.
-/

namespace Repoint

variable {fs : FileSystem} {invocation : Invocation} {report : Report}
  {patches others : List FilePatch}

/-! ## The text of a list -/

/-- The path of each patch, as it is shown, and a newline. -/
def listing (patches : List FilePatch) : Bytes :=
  patches.flatMap fun patch => Utf8.shown patch.path ++ [newline]

theorem newline_mem_shown_iff {path : Path} : newline ∈ Utf8.shown path ↔ newline ∈ path := by
  rw [← List.count_pos_iff, Utf8.count_shown (by decide), List.count_pos_iff]

theorem count_newline_listing_iff :
    (listing patches).count newline = patches.length ↔ ∀ patch ∈ patches, newline ∉ patch.path := by
  rw [listing, count_newline_eq_length_iff]
  simp only [newline_mem_shown_iff]

theorem lines_listing (h : ∀ patch ∈ patches, newline ∉ patch.path) :
    lines (listing patches) = patches.map fun patch => Utf8.shown patch.path ++ [newline] :=
  lines_flatMap fun patch hpatch => mt newline_mem_shown_iff.mp (h patch hpatch)

theorem listing_eq_iff (h : ∀ patch ∈ patches, newline ∉ patch.path)
    (h' : ∀ patch ∈ others, newline ∉ patch.path) :
    listing patches = listing others ↔
      patches.map (Utf8.shown ·.path) = others.map (Utf8.shown ·.path) := by
  constructor
  · intro heq
    have hlines := congrArg (List.map List.dropLast) ((lines_listing h).symm.trans
      ((congrArg lines heq).trans (lines_listing h')))
    simpa [Function.comp_def] using hlines
  · intro heq
    have hframe : ∀ patches : List FilePatch,
        listing patches = (patches.map (Utf8.shown ·.path)).flatMap (· ++ [newline]) :=
      fun patches => by rw [listing, List.flatMap_map]
    rw [hframe, hframe, heq]

theorem map_shown (h : ∀ patch ∈ patches, Utf8.Valid patch.path) :
    patches.map (Utf8.shown ·.path) = patches.map (·.path) :=
  List.map_congr_left fun patch hpatch => Utf8.shown_of_valid (h patch hpatch)

theorem writePaths_eq (patches : List FilePatch) (sink : Sink) :
    writePaths patches sink = sink.render [listing patches] := by
  apply sink.render_congr
  rw [List.flatten_singleton, listing, List.flatten_eq_flatMap, List.flatMap_assoc]
  simp

/-! ## The program -/

/-- The program is asked for a list and has room for it, and its run ends with this report. -/
structure Invocation.Lists (invocation : Invocation) (fs : FileSystem) (report : Report) : Prop where
  room : invocation.room = .unlimited
  asked : ∃ settings, Settings.parse invocation.arguments = .ok settings ∧
    settings.has .list ∧ ¬ settings.has .json ∧ ¬ settings.has .ndjson ∧
    (run settings.options settings.roots fs).result = .ok report

theorem stdout_execute (settings : Settings) (invocation : Invocation) (fs : FileSystem) :
    (settings.execute invocation fs).stdout =
      (settings.finish { room := invocation.room }
        (run settings.options settings.roots fs).result).1.written := rfl

theorem written_finish (settings : Settings) (sink : Sink) (report : Report) :
    (settings.finish sink (.ok report)).1 = (settings.write report.patches sink).1 := by
  rw [Settings.finish]
  rcases settings.write report.patches sink with ⟨after, failure⟩
  cases failure with
  | some e => rfl
  | none =>
    dsimp only
    split <;> rfl

theorem Invocation.Lists.stdout_eq (h : invocation.Lists fs report) :
    (program invocation fs).stdout = listing report.patches := by
  obtain ⟨hroom, settings, hparse, hlist, hjson, hndjson, hrun⟩ := h
  have hwrite : ∀ sink, settings.write report.patches sink = writePaths report.patches sink := by
    intro sink
    rw [Settings.write, if_neg hndjson, if_neg hjson, if_pos hlist]
  rw [program_of_parse hparse, stdout_execute, hrun, written_finish, hwrite, writePaths_eq,
    Sink.render_unlimited hroom, List.flatten_singleton, List.nil_append]

/-- **Listing.** There is one line for each patch exactly when no path has a newline in it, and then the
list tells the paths as they are shown. -/
theorem list_output (invocation : Invocation) (fs : FileSystem) (report : Report)
    (h : invocation.Lists fs report) :
    let stdout := (program invocation fs).stdout
    stdout = report.patches.flatMap (fun patch => Utf8.shown patch.path ++ [newline]) ∧
    (stdout.count newline = report.patches.length ↔
      ∀ patch ∈ report.patches, newline ∉ patch.path) ∧
    ((∀ patch ∈ report.patches, newline ∉ patch.path) →
      lines stdout = report.patches.map (fun patch => Utf8.shown patch.path ++ [newline]) ∧
      ∀ (other : Invocation) fs' report', other.Lists fs' report' →
        (∀ patch ∈ report'.patches, newline ∉ patch.path) →
        (stdout = (program other fs').stdout ↔
          report.patches.map (Utf8.shown ·.path) = report'.patches.map (Utf8.shown ·.path)) ∧
        ((∀ patch ∈ report.patches, Utf8.Valid patch.path) →
          (∀ patch ∈ report'.patches, Utf8.Valid patch.path) →
          (stdout = (program other fs').stdout ↔
            report.patches.map (·.path) = report'.patches.map (·.path)))) := by
  intro stdout
  have hstdout : stdout = listing report.patches := h.stdout_eq
  rw [hstdout]
  refine ⟨rfl, count_newline_listing_iff, ?_⟩
  intro hframed
  refine ⟨lines_listing hframed, ?_⟩
  intro other fs' report' h' hframed'
  rw [h'.stdout_eq, listing_eq_iff hframed hframed']
  refine ⟨Iff.rfl, ?_⟩
  intro hvalid hvalid'
  rw [map_shown hvalid, map_shown hvalid']

theorem list_output_sampleTree :
    let list : Invocation := { arguments := [ascii "-l", ascii "top"] }
    let longer : Invocation := { arguments := [ascii "top", ascii "--list", ascii "--follow-symlinks"] }
    let report : Report :=
      { scanned := 2
        patches :=
          [⟨ascii "top/CMakeLists.txt", 1, 1, true⟩, ⟨ascii "top/lib/CMakeLists.txt", 1, 1, true⟩] }
    let report' : Report :=
      { scanned := 3
        patches :=
          [⟨ascii "top/CMakeLists.txt", 1, 1, true⟩, ⟨ascii "top/app/CMakeLists.txt", 1, 1, true⟩,
            ⟨ascii "top/lib/CMakeLists.txt", 1, 1, true⟩] }
    list.Lists sampleTree report ∧ longer.Lists sampleTree report' ∧
      lines (program list sampleTree).stdout =
        [ascii "top/CMakeLists.txt\n", ascii "top/lib/CMakeLists.txt\n"] ∧
      (program list sampleTree).stdout.count newline = 2 ∧
      (program list sampleTree).stdout ≠ (program longer sampleTree).stdout := by
  intro list longer report report'
  have hlist : list.Lists sampleTree report :=
    ⟨rfl, { paths := [ascii "top"], flags := [.list] }, by decide +kernel, rfl, by decide, by decide,
      by decide +kernel⟩
  have hlonger : longer.Lists sampleTree report' :=
    ⟨rfl, { paths := [ascii "top"], flags := [.list, .followSymlinks] }, by decide +kernel, rfl,
      by decide, by decide, by decide +kernel⟩
  obtain ⟨-, hcount, hframed⟩ := list_output list sampleTree report hlist
  obtain ⟨hlines, hothers⟩ := hframed (by decide)
  obtain ⟨-, hpaths⟩ := hothers longer sampleTree report' hlonger (by decide)
  exact ⟨hlist, hlonger, hlines, hcount.mpr (by decide),
    mt (hpaths (by decide) (by decide)).mp (by decide)⟩

/-- A tree with its one build file in a directory whose name has a newline in it. -/
def newlineTree : FileSystem :=
  .ofEntries
    [(ascii "CMakeLists.txt\n.", .directory 0o755), (ascii "CMakeLists.txt\n./b", .directory 0o755),
      (ascii "CMakeLists.txt\n./b/CMakeLists.txt", .file { data := sourceDir, mode := 0o644 })]

def twoFileTree : FileSystem :=
  let file : File := { data := sourceDir, mode := 0o644 }
  .ofEntries
    [(ascii "CMakeLists.txt", .file file), (ascii "b", .directory 0o755), (ascii "b/CMakeLists.txt", .file file)]

/-- A tree with its one build file in a directory whose name is one byte. -/
def byteTree (b : UInt8) : FileSystem :=
  .ofEntries
    [([b], .directory 0o755), ([b] ++ ascii "/CMakeLists.txt", .file { data := sourceDir, mode := 0o644 })]

/-- One path with a newline in it is listed as two paths are; and two paths that are not UTF-8 are listed
as one is. -/
theorem list_output_ambiguous :
    let list : Invocation := { arguments := [ascii "--list", ascii "."] }
    let one : Report :=
      { scanned := 1, patches := [⟨ascii "./CMakeLists.txt\n./b/CMakeLists.txt", 1, 1, true⟩] }
    let two : Report :=
      { scanned := 2
        patches := [⟨ascii "./CMakeLists.txt", 1, 1, true⟩, ⟨ascii "./b/CMakeLists.txt", 1, 1, true⟩] }
    let byte (b : UInt8) : Report :=
      { scanned := 1, patches := [⟨ascii "./" ++ [b] ++ ascii "/CMakeLists.txt", 1, 1, true⟩] }
    (list.Lists newlineTree one ∧ list.Lists twoFileTree two ∧
      (program list newlineTree).stdout.count newline = 2 ∧ one.patches.length = 1 ∧
      (program list newlineTree).stdout = (program list twoFileTree).stdout) ∧
    list.Lists (byteTree 0xFE) (byte 0xFE) ∧ list.Lists (byteTree 0xFF) (byte 0xFF) ∧
      (byte 0xFE).patches.map (·.path) ≠ (byte 0xFF).patches.map (·.path) ∧
      (program list (byteTree 0xFE)).stdout = (program list (byteTree 0xFF)).stdout := by
  intro list one two byte
  have hlists : ∀ fs report, (run {} [ascii "."] fs).result = .ok report → list.Lists fs report :=
    fun fs report hrun => ⟨rfl, { paths := [ascii "."], flags := [.list] }, by decide +kernel, rfl,
      by decide, by decide, hrun⟩
  have hone : list.Lists newlineTree one := hlists _ _ (by decide +kernel)
  have htwo : list.Lists twoFileTree two := hlists _ _ (by decide +kernel)
  have hfirst : list.Lists (byteTree 0xFE) (byte 0xFE) := hlists _ _ (by decide +kernel)
  have hlast : list.Lists (byteTree 0xFF) (byte 0xFF) := hlists _ _ (by decide +kernel)
  rw [hone.stdout_eq, htwo.stdout_eq, hfirst.stdout_eq, hlast.stdout_eq]
  exact ⟨⟨hone, htwo, by decide +kernel, rfl, by decide +kernel⟩, hfirst, hlast, by decide,
    by decide +kernel⟩

end Repoint
