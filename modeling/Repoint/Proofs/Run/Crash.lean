import Repoint.Proofs.Interruption
import Repoint.Proofs.Run.Patching

/-!
# A run that is cut off

At most one temporary file is left, in a place where nothing was.
-/

namespace Repoint

open FileSystem

variable {fs fs' : FileSystem} {temp location : Location} {f : File} {x : Entry} {path : Path}
  {holds : FileSystem → Prop}

/-! ## One replacement -/

theorem CutOff.prefix_fill {part : Bytes} {mode : Nat} {fill done : List Operation}
    (hfill : fill <+: [.write temp part, .sync temp, .setMode temp mode]) (h : CutOff fill done) :
    ∃ part, done <+: [.write temp part, .sync temp, .setMode temp mode] := by
  cases h with
  | here => exact ⟨part, List.nil_prefix⟩
  | within hpart rest =>
    obtain ⟨hwrite, -⟩ := List.cons_prefix_cons.mp hfill
    cases hwrite
    exact ⟨_, List.cons_prefix_cons.mpr ⟨rfl, List.nil_prefix⟩⟩
  | later hlater =>
    obtain ⟨rfl, hrest⟩ := List.cons_prefix_cons.mp hfill
    have hdone := hlater.isPrefix fun file data hmem => by simpa using hrest.subset hmem
    exact ⟨part, List.cons_prefix_cons.mpr ⟨rfl, hdone.trans hrest⟩⟩

theorem holds_of_cutOff {part : Bytes} {mode : Nat} {fill done : List Operation} {last : Operation}
    (h : fs.IsFree temp) (hfill : fill <+: [.write temp part, .sync temp, .setMode temp mode])
    (hwhole : ∀ file data, last ≠ .write file data) (hstart : holds fs)
    (htemp : ∀ g, holds (fs.put temp (.file g)))
    (hlast : holds (fs.performAll (.create temp :: fill ++ [last])))
    (hcut : CutOff (.create temp :: fill ++ [last]) done) : holds (fs.performAll done) := by
  have hfilled : ∀ {part fill}, fill <+: [.write temp part, .sync temp, .setMode temp mode] →
      holds (fs.performAll (.create temp :: fill)) := by
    intro part fill hfill
    obtain ⟨g, hg⟩ := h.performAll_of_prefix (f := { data := [], mode := privateMode }) rfl hfill
    change holds ((fs.put temp _).performAll fill)
    rw [hg]
    exact htemp g
  rcases cutOff_append.mp hcut with hbefore | ⟨more, rfl, hafter⟩
  · cases hbefore with
    | here => exact hstart
    | later hlater =>
      obtain ⟨part, hdone⟩ := hlater.prefix_fill hfill
      exact hfilled hdone
  · cases hafter with
    | here =>
      rw [List.append_nil]
      exact hfilled hfill
    | within hpart => exact absurd rfl (hwhole _ _)
    | later hlater =>
      cases hlater
      exact hlast

theorem replaceFile_throughout (disk : Disk) (path : Path) (data : Bytes) (hstart : holds fs)
    (htemp : ∀ temp g, fs.IsFree temp → holds (fs.put temp (.file g)))
    (hmoved : ∀ target e location x, fs.lstat path = .ok (target, e) → e.isDirectory = false →
      fs.stat path = .ok (location, x) → holds (fs.put target (.file { data, mode := modeOf x }))) :
    (replaceFile disk path data).Throughout fs holds := by
  intro done hcut
  have hend : holds ((replaceFile disk path data).stateAfter fs) := by
    rcases replaceFile_cases disk path data fs with
      ⟨-, -, target, e, location, x, hlstat, hne, hstat, hafter⟩ | ⟨-, -, hafter⟩
    · rw [hafter]
      exact hmoved target e location x hlstat hne hstat
    · rw [hafter]
      exact hstart
  rw [Job.stateAfter] at hend
  rcases replaceFile_operations disk path data fs with
    ⟨directory, mode, temp, target, -, -, hfound, -, -, houtcome⟩ |
    ⟨-, operations, e, rfl | ⟨directory, mode, temp, part, fill, -, -, hfound, hfill, rfl⟩, houtcome⟩
  · have hfree := isFree_of_tempLocation hfound
    rw [houtcome] at hcut hend
    exact holds_of_cutOff hfree List.prefix_rfl (by simp) hstart (fun g => htemp temp g hfree) hend
      hcut
  · rw [houtcome] at hcut
    cases hcut
    exact hstart
  · have hfree := isFree_of_tempLocation hfound
    rw [houtcome] at hcut hend
    exact holds_of_cutOff hfree hfill (by simp) hstart (fun g => htemp temp g hfree) hend hcut

/-! ## One patch after another -/

theorem patchFile_throughout (options : Options) (path : Path) (hstart : holds fs)
    (htemp : ∀ temp g, fs.IsFree temp → holds (fs.put temp (.file g)))
    (hpatched : ∀ fs', Repoints true fs fs' → holds fs') :
    (patchFile options path).Throughout fs holds := by
  unfold patchFile
  refine Job.throughout_inspect_bind hstart ?_
  intro data hread
  dsimp only
  split
  · exact Job.throughout_of_idle rfl hstart
  · next hchanged =>
    split
    · exact Job.throughout_of_idle rfl hstart
    · have hreplace :
          (replaceFile options.disk path (repoint data).bytes).Throughout fs holds := by
        refine replaceFile_throughout _ _ _ hstart htemp ?_
        intro target e location x hlstat hne hstat
        obtain ⟨directory, name, f, rfl, rfl, -, rfl, -, hleads⟩ :=
          exists_leadsToFile hread (mt not_changed_iff.mpr hchanged) hlstat hne hstat
        exact hpatched _ (.intro hleads nofun)
      exact Job.throughout_bind hreplace fun _ _ => Job.throughout_of_idle rfl hreplace.atEnd

theorem patchFile_steps (options : Options) (path : Path) (fs : FileSystem) :
    Relation.ReflTransGen (Repoints true) fs ((patchFile options path).stateAfter fs) := by
  rcases patchFile_cases options path fs with ⟨-, hafter⟩ | ⟨data, -, -, -, hafter⟩ |
    ⟨directory, name, location, f, -, -, -, -, -, hleads, -, hafter⟩
  · rw [hafter]
  · rw [hafter]
  · rw [hafter]
    exact .single (.intro hleads nofun)

/-- On the way from one patch to another: patches were made, and there may be one more file, where
nothing was. -/
def OnTheWay (fs now : FileSystem) : Prop :=
  ∃ patched, Relation.ReflTransGen (Repoints true) fs patched ∧
    (now = patched ∨ ∃ temp g, patched.IsFree temp ∧ now = patched.put temp (.file g))

theorem patchFiles_throughout (options : Options) (files : List Path) (fs : FileSystem) :
    (patchFiles options files).Throughout fs (OnTheWay fs) := by
  induction files generalizing fs with
  | nil => exact Job.throughout_of_idle rfl ⟨fs, .refl, .inl rfl⟩
  | cons path rest ih =>
    rw [patchFiles]
    refine Job.throughout_bind ?_ ?_
    · refine patchFile_throughout options path ⟨fs, .refl, .inl rfl⟩ ?_ ?_
      · intro temp g hfree
        exact ⟨fs, .refl, .inr ⟨temp, g, hfree, rfl⟩⟩
      · intro fs' hstep
        exact ⟨fs', .single hstep, .inl rfl⟩
    · intro patch _
      refine Job.throughout_map _ ((ih _).mono ?_)
      rintro now ⟨patched, hsteps, hnow⟩
      exact ⟨patched, (patchFile_steps options path fs).trans hsteps, hnow⟩

theorem run_throughout (options : Options) (roots : List Path) (fs : FileSystem) :
    (run options roots).Throughout fs (OnTheWay fs) := by
  rw [run]
  refine Job.throughout_bind ?_ ?_
  · exact Job.throughout_of_idle (operations_discover _ _ _) ⟨fs, .refl, .inl rfl⟩
  · intro files _
    rw [stateAfter_discover]
    have hpatches := patchFiles_throughout options files fs
    exact Job.throughout_bind hpatches fun _ _ => Job.throughout_of_idle rfl hpatches.atEnd

/-! ## What paths lead to -/

/-- The path leads to a file with this file's permission bits, which holds what this file holds or that
with the rule applied. -/
def FileSystem.LeadsToCopy (fs : FileSystem) (path : Path) (f : File) : Prop :=
  ∃ location g, fs.stat path = .ok (location, .file g) ∧ g.mode = f.mode ∧
    (g.data = f.data ∨ g.data = (repoint f.data).bytes)

theorem FileSystem.Repoints.leadsToCopy (h : Repoints true fs fs') (hcopy : fs.LeadsToCopy path f) :
    fs'.LeadsToCopy path f := by
  obtain ⟨location, g, hstat, hmode, hdata⟩ := hcopy
  rcases h.stat_of_ok hstat with hafter | ⟨g', place, heq, hafter⟩
  · exact ⟨location, g, hafter, hmode, hdata⟩
  · cases heq
    refine ⟨place, g.repointed, hafter, hmode, .inr ?_⟩
    -- The rule may have been applied already, and to apply it once more changes nothing.
    rcases hdata with hdata | hdata
    · rw [File.repointed, hdata]
    · rw [File.repointed, hdata, repoint_repoint]

theorem OnTheWay.leadsToCopy {now : FileSystem} (h : OnTheWay fs now)
    (hstat : fs.stat path = .ok (location, .file f)) : now.LeadsToCopy path f := by
  obtain ⟨patched, hsteps, hnow⟩ := h
  have hcopy : patched.LeadsToCopy path f := by
    apply invariant_of_repoints (fun _ _ hstep => hstep.leadsToCopy) hsteps
    exact ⟨location, f, hstat, rfl, .inl rfl⟩
  rcases hnow with rfl | ⟨temp, g, hfree, rfl⟩
  · exact hcopy
  · obtain ⟨place, copy, hplace, hmode, hdata⟩ := hcopy
    exact ⟨place, copy, (hfree.extends_put _).stat hplace, hmode, hdata⟩

theorem FileSystem.LeadsToCopy.read (h : fs'.LeadsToCopy path f)
    (hstat : fs.stat path = .ok (location, .file f)) :
    fs'.read path = fs.read path ∨
      fs'.read path = (fs.read path).map fun data => (repoint data).bytes := by
  obtain ⟨place, g, hplace, hmode, hdata⟩ := h
  have hreadable : g.isReadable = f.isReadable := by rw [File.isReadable, File.isReadable, hmode]
  rw [read_of_stat hplace, read_of_stat hstat, hreadable]
  rcases hdata with hdata | hdata
  · exact .inl (by rw [hdata])
  · refine .inr ?_
    rw [hdata]
    split <;> rfl

/-- **Crash safety.** Wherever a run is cut off, a path that led to a file leads to a file with the same
permission bits, and reads what it read before the run or that with the rule applied. -/
theorem run_cut_off (options : Options) (roots : List Path) (fs : FileSystem) (done : List Operation)
    (path : Path) (location : Location) (f : File)
    (hcut : CutOff (run options roots fs).operations done)
    (hstat : fs.stat path = .ok (location, .file f)) :
    (fs.performAll done).LeadsToCopy path f ∧
      ((fs.performAll done).read path = fs.read path ∨
        (fs.performAll done).read path = (fs.read path).map fun data => (repoint data).bytes) := by
  have hcopy := (run_throughout options roots fs done hcut).leadsToCopy hstat
  exact ⟨hcopy, hcopy.read hstat⟩

/-- The run is cut off while it writes the file that is to replace the link, after it has patched the
file above it. The path leads through that link, and it is read as before. -/
theorem run_cut_off_sampleTree :
    let operations := (run { followLinks := true } [ascii "top"] sampleTree).operations
    let app := (Location.root.child ⟨ascii "src", by decide⟩).child ⟨ascii "app", by decide⟩
    let done := operations.take 6 ++ [.write (app.child ⟨ascii ".tmp000000", by decide⟩) sourceDir]
    let path := ascii "top/app/CMakeLists.txt"
    let f : File := { data := sourceDir ++ ascii "/cmake", mode := 0o640, twin := some 0 }
    CutOff operations done ∧
      (sampleTree.performAll done).LeadsToCopy path f ∧
      ((sampleTree.performAll done).read path = sampleTree.read path ∨
        (sampleTree.performAll done).read path =
          (sampleTree.read path).map fun data => (repoint data).bytes) := by
  intro operations app done path f
  have hsplit : operations.take 6 ++ .write (app.child ⟨ascii ".tmp000000", by decide⟩)
      (sourceDir ++ marker ++ ascii "/cmake") :: operations.drop 7 = operations := by decide +kernel
  have hcut : CutOff operations done := by
    rw [← hsplit]
    exact cutOff_append.mpr (.inr ⟨_, rfl, .within (by decide) _⟩)
  have hstat : ∃ location, sampleTree.stat path = .ok (location, .file f) :=
    ⟨(Location.root.child ⟨ascii "src", by decide⟩).child ⟨ascii "lib", by decide⟩ |>.child
      ⟨buildFileName, by decide⟩, by decide +kernel⟩
  obtain ⟨location, hstat⟩ := hstat
  exact ⟨hcut, run_cut_off { followLinks := true } [ascii "top"] sampleTree done path location f
    hcut hstat⟩

end Repoint
