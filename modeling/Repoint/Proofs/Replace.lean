import Mathlib.Control.Monad.Basic
import Repoint.FileSystem.Stage
import Repoint.Proofs.FileSystem.Update
import Repoint.Replace

/-!
# A file is replaced or left alone

All that comes before the last step happens to a temporary file, which can be removed.
-/

namespace Repoint

open FileSystem

variable {fs : FileSystem} {temp target location : Location} {f : File} {x : Entry} {path : Path}

/-! ## Operations on a temporary file -/

namespace FileSystem

theorem perform_create (fs : FileSystem) (file : Location) :
    fs.perform (.create file) = fs.put file (.file { data := [], mode := privateMode }) := rfl

theorem IsFree.perform_write (h : fs.IsFree temp) (hf : f.twin = none) (data : Bytes) :
    (fs.put temp (.file f)).perform (.write temp data) =
      fs.put temp (.file { f with data := f.data ++ data }) :=
  h.changeFile_put hf _

theorem IsFree.perform_setMode (h : fs.IsFree temp) (hf : f.twin = none) (mode : Nat) :
    (fs.put temp (.file f)).perform (.setMode temp mode) = fs.put temp (.file { f with mode }) :=
  h.changeFile_put hf _

theorem IsFree.perform_rename (h : fs.IsFree temp) (f : File) (target : Location) :
    (fs.put temp (.file f)).perform (.rename temp target) = fs.put target (.file f) := by
  simp only [perform, h.get?_put, h.erase_put]

theorem IsFree.perform_remove (h : fs.IsFree temp) (f : File) :
    (fs.put temp (.file f)).perform (.remove temp) = fs := h.erase_put f

theorem IsFree.performAll_move (h : fs.IsFree temp) (data : Bytes) (mode : Nat) (target : Location) :
    fs.performAll [.create temp, .write temp data, .sync temp, .setMode temp mode,
      .rename temp target] = fs.put target (.file { data, mode }) := by
  change (((fs.perform (.create temp)).perform (.write temp data)).perform
    (.setMode temp mode)).perform (.rename temp target) = _
  rw [perform_create, h.perform_write rfl, h.perform_setMode rfl, h.perform_rename]
  rfl

theorem IsFree.performAll_of_prefix {part : Bytes} {mode : Nat} {done : List Operation}
    (h : fs.IsFree temp) (hf : f.twin = none)
    (hdone : done <+: [.write temp part, .sync temp, .setMode temp mode]) :
    ∃ g, (fs.put temp (.file f)).performAll done = fs.put temp (.file g) := by
  -- Nothing is done, or the write alone, or it is made durable as well, or all is done.
  simp only [List.prefix_cons_iff, List.prefix_nil] at hdone
  obtain rfl | ⟨_, rfl, rfl | ⟨_, rfl, rfl | ⟨_, rfl, rfl⟩⟩⟩ := hdone
  · exact ⟨f, rfl⟩
  · exact ⟨_, h.perform_write hf part⟩
  · exact ⟨_, h.perform_write hf part⟩
  · change ∃ g, ((fs.put temp (.file f)).perform (.write temp part)).perform (.setMode temp mode) = _
    rw [h.perform_write hf, h.perform_setMode (by exact hf)]
    exact ⟨_, rfl⟩

end FileSystem

/-! ## Filling it and moving it -/

def Disk.Takes (disk : Disk) (path : Path) (data : Bytes) : Prop :=
  (∀ n ∈ disk.writeLimit, data.length ≤ n) ∧ disk.sync path = .ok () ∧ disk.setMode path = .ok ()

theorem writeTemp_cases (limit : Option Nat) (path : Path) (temp : Location) (data : Bytes)
    (fs : FileSystem) :
    ((∀ n ∈ limit, data.length ≤ n) ∧ writeTemp limit path temp data fs =
      { operations := [.write temp data], result := .ok () }) ∨
    ((¬ ∀ n ∈ limit, data.length ≤ n) ∧ ∃ part, writeTemp limit path temp data fs =
      { operations := [.write temp part], result := .error (.writeTemp path) }) := by
  cases limit with
  | none => exact .inl ⟨by simp, rfl⟩
  | some n =>
    by_cases hfits : data.length ≤ n
    · rw [writeTemp, if_pos hfits]
      exact .inl ⟨by simpa using hfits, rfl⟩
    · rw [writeTemp, if_neg hfits]
      exact .inr ⟨by simpa using hfits, data.take n, rfl⟩

theorem settleTemp_cases (disk : Disk) (path directory : Path) (temp : Location) (mode : Nat)
    (fs : FileSystem) :
    (disk.sync path = .ok () ∧ disk.setMode path = .ok () ∧
      settleTemp disk path directory temp mode fs =
        { operations := [.sync temp, .setMode temp mode], result := .ok () }) ∨
    (¬ (disk.sync path = .ok () ∧ disk.setMode path = .ok ()) ∧
      ∃ done e, done <+: [.sync temp] ∧
        ((∃ cause, e = .syncTemp path cause) ∨
          ∃ cause, e = .copyMode (fs.tempPath directory temp) cause) ∧
        settleTemp disk path directory temp mode fs =
          { operations := done, result := .error e }) := by
  unfold settleTemp
  cases hsync : disk.sync path with
  | error cause =>
    exact .inr ⟨by simp, [], _, by simp, .inl ⟨cause, rfl⟩, rfl⟩
  | ok =>
    cases hmode : disk.setMode path with
    | error cause =>
      exact .inr ⟨by simp, [.sync temp], _, List.prefix_rfl, .inr ⟨cause, rfl⟩, rfl⟩
    | ok => exact .inl ⟨rfl, rfl, rfl⟩

theorem replaceable_put (h : fs.IsFree temp) (hstat : fs.stat path = .ok (location, x)) (f : File) :
    (fs.put temp (.file f)).replaceable path = fs.replaceable path := by
  obtain ⟨target, e, hlstat⟩ := exists_lstat_of_stat hstat
  have hafter := (h.extends_put (.file f)).lstat hlstat
  unfold replaceable
  rw [hafter, hlstat]

theorem moveIntoPlace_cases (disk : Disk) (directory : Path) (mode : Nat) (data : Bytes)
    (h : fs.IsFree temp) (hf : f.twin = none) (hstat : fs.stat path = .ok (location, x)) :
    (disk.Takes path data ∧ ∃ target, fs.replaceable path = .ok target ∧
      moveIntoPlace disk path directory temp mode data (fs.put temp (.file f)) =
        { operations := [.write temp data, .sync temp, .setMode temp mode, .rename temp target]
          result := .ok () }) ∨
    (¬ (disk.Takes path data ∧ ∃ target, fs.replaceable path = .ok target) ∧
      ∃ part done e, done <+: [.write temp part, .sync temp, .setMode temp mode] ∧
        moveIntoPlace disk path directory temp mode data (fs.put temp (.file f)) =
          { operations := done, result := .error e }) := by
  unfold moveIntoPlace
  rcases writeTemp_cases disk.writeLimit path temp data (fs.put temp (.file f)) with
    ⟨hfits, hwrite⟩ | ⟨hlong, part, hwrite⟩
  · have hwritten : (fs.put temp (.file f)).performAll [.write temp data] =
        fs.put temp (.file { f with data := f.data ++ data }) := h.perform_write hf data
    rw [Job.bind_of_quiet_ok hwrite, hwritten]
    rcases settleTemp_cases disk path directory temp mode
        (fs.put temp (.file { f with data := f.data ++ data })) with
      ⟨hsync, hmode, hsettle⟩ | ⟨hnot, done, e, hdone, -, hsettle⟩
    · have hsettled : (fs.put temp (.file { f with data := f.data ++ data })).performAll
          [.sync temp, .setMode temp mode] =
            fs.put temp (.file { f with data := f.data ++ data, mode }) :=
        h.perform_setMode (by exact hf) mode
      have hsame := replaceable_put h hstat { f with data := f.data ++ data, mode }
      rw [Job.bind_of_quiet_ok hsettle, hsettled]
      cases hlook : fs.replaceable path with
      | error cause =>
        rw [hlook] at hsame
        rw [Job.inspect_bind_of_error hsame]
        exact .inr ⟨by simp, data, _, _, List.prefix_rfl, rfl⟩
      | ok target =>
        rw [hlook] at hsame
        rw [Job.inspect_bind_of_ok hsame]
        exact .inl ⟨⟨hfits, hsync, hmode⟩, target, rfl, rfl⟩
    · rw [Job.bind_of_quiet_error hsettle]
      refine .inr ⟨fun hall => hnot hall.1.2, data, .write temp data :: done, e, ?_, rfl⟩
      exact (List.prefix_cons_inj _).mpr (hdone.trans (by simp))
  · rw [Job.bind_of_quiet_error hwrite]
    exact .inr ⟨fun hall => hlong hall.1.1, part, _, _, by simp, rfl⟩

/-! ## The whole replacement -/

theorem lstat_of_replaceable (h : fs.replaceable path = .ok target) :
    ∃ e, fs.lstat path = .ok (target, e) ∧ e.isDirectory = false := by
  unfold replaceable at h
  dsimp only at h
  split at h
  · simp at h
  · split at h
    · simp at h
    · obtain ⟨⟨entry, e⟩, hlstat, h⟩ := bind_eq_ok.mp h
      cases e with
      | directory mode => simp at h
      | file f =>
        cases h
        exact ⟨_, hlstat, rfl⟩
      | link text =>
        cases h
        exact ⟨_, hlstat, rfl⟩
      | pipe mode =>
        cases h
        exact ⟨_, hlstat, rfl⟩

theorem replaceFile_of_takes {disk : Disk} {data : Bytes} (h : disk.Takes path data) :
    replaceFile disk path data = replaceFile {} path data := by
  obtain ⟨hfits, hsync, hmode⟩ := h
  have hwrite : ∀ temp, writeTemp disk.writeLimit path temp data = writeTemp none path temp data := by
    intro temp
    cases hlimit : disk.writeLimit with
    | none => rfl
    | some n => exact if_pos (hfits n hlimit)
  simp only [replaceFile, moveIntoPlace, settleTemp, hwrite, hsync, hmode]

/-- Nothing is in the way of a replacement: the path has a directory part, it leads somewhere, there is
a place for the temporary file, the disk takes the bytes, and the file can be moved to where it
belongs. The permission bits of directories are left out here as everywhere. -/
def FileSystem.AllowsReplacement (fs : FileSystem) (disk : Disk) (path : Path)
    (data : Bytes) : Prop :=
  ∃ directory, path.directory? = some directory ∧ (∃ mode, fs.mode path = .ok mode) ∧
    (∃ temp, fs.tempLocation directory = .ok temp) ∧ disk.Takes path data ∧
    ∃ target, fs.replaceable path = .ok target

/-- What a replacement that fails has done: nothing, or the temporary file that it made is removed. -/
def FileSystem.Undoes (fs : FileSystem) (path : Path) (operations : List Operation) : Prop :=
  operations = [] ∨ ∃ directory mode temp part done, path.directory? = some directory ∧
    fs.mode path = .ok mode ∧ fs.tempLocation directory = .ok temp ∧
    done <+: [.write temp part, .sync temp, .setMode temp mode] ∧
    operations = .create temp :: done ++ [.remove temp]

theorem replaceFile_operations (disk : Disk) (path : Path) (data : Bytes) (fs : FileSystem) :
    (∃ directory mode temp target, path.directory? = some directory ∧ fs.mode path = .ok mode ∧
      fs.tempLocation directory = .ok temp ∧ disk.Takes path data ∧
      fs.replaceable path = .ok target ∧ replaceFile disk path data fs =
        { operations := [.create temp, .write temp data, .sync temp, .setMode temp mode,
            .rename temp target]
          result := .ok () }) ∨
    (¬ fs.AllowsReplacement disk path data ∧ ∃ operations e, fs.Undoes path operations ∧
      replaceFile disk path data fs = { operations, result := .error e }) := by
  unfold replaceFile AllowsReplacement Undoes
  cases hdirectory : path.directory? with
  | none => exact .inr ⟨by simp, [], _, .inl rfl, rfl⟩
  | some directory =>
    dsimp only
    cases hmode : fs.mode path with
    | error cause =>
      rw [Job.inspect_bind_of_error hmode]
      exact .inr ⟨by simp, [], _, .inl rfl, rfl⟩
    | ok mode =>
      obtain ⟨⟨location, x⟩, hstat, -⟩ := bind_eq_ok.mp hmode
      rw [Job.inspect_bind_of_ok hmode]
      cases htemp : fs.tempLocation directory with
      | error cause =>
        rw [Job.inspect_bind_of_error htemp]
        exact .inr ⟨by simp [htemp], [], _, .inl rfl, rfl⟩
      | ok temp =>
        have hfree := isFree_of_tempLocation htemp
        rw [Job.inspect_bind_of_ok htemp, Job.perform_bind]
        rcases moveIntoPlace_cases disk directory mode data hfree
            (f := { data := [], mode := privateMode }) rfl hstat with
          ⟨htakes, target, hreplace, hmove⟩ | ⟨hnot, part, done, e, hdone, hmove⟩
        · have hok := congrArg Outcome.result hmove
          rw [FileSystem.perform_create, Job.orElsePerform_of_ok hok, hmove]
          exact .inl ⟨directory, mode, temp, target, rfl, rfl, htemp, htakes, hreplace, rfl⟩
        · have herror := congrArg Outcome.result hmove
          rw [FileSystem.perform_create, Job.orElsePerform_of_error herror, hmove]
          refine .inr ⟨?_, _, e, .inr ⟨directory, mode, temp, part, done, rfl, rfl, htemp, hdone, rfl⟩,
            rfl⟩
          rintro ⟨_, -, -, -, hallowed⟩
          exact hnot hallowed

theorem FileSystem.Undoes.performAll {operations : List Operation} (h : fs.Undoes path operations) :
    fs.performAll operations = fs := by
  rcases h with rfl | ⟨directory, mode, temp, part, done, -, -, htemp, hdone, rfl⟩
  · rfl
  · have hfree := isFree_of_tempLocation htemp
    obtain ⟨g, hfilled⟩ :=
      hfree.performAll_of_prefix (f := { data := [], mode := privateMode }) rfl hdone
    rw [performAll_append]
    change ((fs.put temp _).performAll done).perform (.remove temp) = fs
    rw [hfilled, hfree.perform_remove]

/-- A replacement puts a file with the new bytes and the old permission bits at the entry that the path
names, or something is in the way and everything is as it was. -/
theorem replaceFile_cases (disk : Disk) (path : Path) (data : Bytes) (fs : FileSystem) :
    (fs.AllowsReplacement disk path data ∧ (replaceFile disk path data fs).result = .ok () ∧
      ∃ target e location x, fs.lstat path = .ok (target, e) ∧ e.isDirectory = false ∧
        fs.stat path = .ok (location, x) ∧
        (replaceFile disk path data).stateAfter fs =
          fs.put target (.file { data, mode := modeOf x })) ∨
    (¬ fs.AllowsReplacement disk path data ∧
      (∃ e, (replaceFile disk path data fs).result = .error e) ∧
      (replaceFile disk path data).stateAfter fs = fs) := by
  rw [Job.stateAfter]
  rcases replaceFile_operations disk path data fs with
    ⟨directory, mode, temp, target, hdirectory, hmode, htemp, htakes, hreplace, houtcome⟩ |
    ⟨hnot, operations, e, hundoes, houtcome⟩
  · obtain ⟨e, hlstat, hne⟩ := lstat_of_replaceable hreplace
    obtain ⟨⟨location, x⟩, hstat, hx⟩ := bind_eq_ok.mp hmode
    cases hx
    rw [houtcome]
    refine .inl ⟨⟨directory, hdirectory, ⟨_, hmode⟩, ⟨temp, htemp⟩, htakes, target, hreplace⟩, rfl,
      target, e, location, x, hlstat, hne, hstat, ?_⟩
    exact (isFree_of_tempLocation htemp).performAll_move data (modeOf x) target
  · rw [houtcome]
    exact .inr ⟨hnot, ⟨e, rfl⟩, hundoes.performAll⟩

theorem replaceFile_eq_ok_iff {disk : Disk} {data : Bytes} :
    (replaceFile disk path data fs).result = .ok () ↔ fs.AllowsReplacement disk path data := by
  rcases replaceFile_cases disk path data fs with ⟨hallowed, hresult, -⟩ | ⟨hnot, ⟨e, hresult⟩, -⟩
  · simp [hresult, hallowed]
  · simp [hresult, hnot]

theorem tempLocation_of_create {disk : Disk} {data : Bytes} {directory : Path}
    (hdirectory : path.directory? = some directory)
    (h : .create temp ∈ (replaceFile disk path data fs).operations) :
    (∃ mode, fs.mode path = .ok mode) ∧ fs.tempLocation directory = .ok temp := by
  rcases replaceFile_operations disk path data fs with
    ⟨directory', mode, made, target, hdirectory', hmode, hmade, -, -, houtcome⟩ |
    ⟨-, operations, e, rfl | ⟨directory', mode, made, part, done, hdirectory', hmode, hmade, hdone, rfl⟩,
      houtcome⟩
  · obtain rfl := Option.some.inj (hdirectory.symm.trans hdirectory')
    obtain rfl : temp = made := by simpa [houtcome] using h
    exact ⟨⟨mode, hmode⟩, hmade⟩
  · simp [houtcome] at h
  · obtain rfl := Option.some.inj (hdirectory.symm.trans hdirectory')
    have hnot : .create temp ∉ done := fun hmem => by simpa using hdone.subset hmem
    obtain rfl : temp = made := by simpa [houtcome, hnot] using h
    exact ⟨⟨mode, hmode⟩, hmade⟩

/-! ## What can go wrong -/

theorem moveIntoPlace_error {disk : Disk} {directory : Path} {mode : Nat} {data : Bytes} {e : Error}
    (h : (moveIntoPlace disk path directory temp mode data fs).result = .error e) :
    e = .writeTemp path ∨ (∃ cause, e = .syncTemp path cause) ∨
      (∃ file cause, e = .copyMode file cause) ∨ ∃ cause, e = .replace path cause := by
  unfold moveIntoPlace at h
  rcases writeTemp_cases disk.writeLimit path temp data fs with ⟨-, hwrite⟩ | ⟨-, part, hwrite⟩
  · rw [Job.bind_of_quiet_ok hwrite] at h
    rcases settleTemp_cases disk path directory temp mode (fs.performAll [.write temp data]) with
      ⟨-, -, hsettle⟩ | ⟨-, done, e', -, hwhy, hsettle⟩
    · rw [Job.bind_of_quiet_ok hsettle] at h
      rcases Job.result_bind_eq_error.mp h with hlook | ⟨target, -, hmove⟩
      · exact .inr (.inr (.inr (Job.result_inspect_eq_error hlook)))
      · cases hmove
    · rw [Job.bind_of_quiet_error hsettle] at h
      obtain rfl := Except.error.inj h
      exact .inr (hwhy.imp_right fun ⟨cause, he⟩ => .inl ⟨_, cause, he⟩)
  · rw [Job.bind_of_quiet_error hwrite] at h
    exact .inl (Except.error.inj h).symm

theorem replaceFile_error {disk : Disk} {directory : Path} {data : Bytes} {e : Error}
    (hdirectory : path.directory? = some directory)
    (h : (replaceFile disk path data fs).result = .error e) :
    (∃ cause, e = .stat path cause) ∨ e = .createTemp directory ∨ e = .writeTemp path ∨
      (∃ cause, e = .syncTemp path cause) ∨ (∃ file cause, e = .copyMode file cause) ∨
      ∃ cause, e = .replace path cause := by
  unfold replaceFile at h
  rw [hdirectory] at h
  rcases Job.result_bind_eq_error.mp h with hmode | ⟨mode, -, h⟩
  · exact .inl (Job.result_inspect_eq_error hmode)
  · rcases Job.result_bind_eq_error.mp h with htemp | ⟨temp, -, h⟩
    · obtain ⟨-, he⟩ := Job.result_inspect_eq_error htemp
      exact .inr (.inl he)
    · rw [Job.perform_bind] at h
      exact .inr (.inr (moveIntoPlace_error ((Job.result_orElsePerform _ _ _).symm.trans h)))

/-! ## Trees with links -/

/-- A build file under two names, a link to it in a directory between them, and a link to the top. -/
def sampleTree : FileSystem :=
  let build : Name := ⟨buildFileName, by decide⟩
  let top := Location.root.child ⟨ascii "src", by decide⟩
  let app := top.child ⟨ascii "app", by decide⟩
  let lib := top.child ⟨ascii "lib", by decide⟩
  let file : File := { data := sourceDir ++ ascii "/cmake", mode := 0o640, twin := some 0 }
  let entries : List (Location × Entry) :=
    [(top, .directory 0o700), (top.child build, .file file),
      (app, .directory 0o755), (app.child build, .link (ascii "../lib/CMakeLists.txt")),
      (lib, .directory 0o755), (lib.child build, .file file),
      (Location.root.child ⟨ascii "top", by decide⟩, .link (ascii "src"))]
  entries.foldl (fun fs (location, e) => fs.put location e) (FileSystem.empty .root)

/-- The same with a longer file, of its own, where the link leads. -/
def unevenTree : FileSystem :=
  let lib := (Location.root.child ⟨ascii "src", by decide⟩).child ⟨ascii "lib", by decide⟩
  let file : File := { data := sourceDir ++ ascii "/cmake/modules", mode := 0o600 }
  sampleTree.put (lib.child ⟨buildFileName, by decide⟩) (.file file)

/-! ## All or nothing -/

/-- **All or nothing.** A replacement that succeeds makes the entry that the path names a file with the
new bytes and the permission bits of what the path led to, and no other entry changes. One that fails
changes nothing. -/
theorem replaceFile_all_or_nothing (disk : Disk) (path : Path) (data : Bytes) (fs : FileSystem) :
    ((replaceFile disk path data fs).result = .ok () ↔ fs.AllowsReplacement disk path data) ∧
    (∀ error, (replaceFile disk path data fs).result = .error error →
      (replaceFile disk path data).stateAfter fs = fs) ∧
    ((replaceFile disk path data fs).result = .ok () →
      ∃ entry old location x, fs.lstat path = .ok (entry, old) ∧ fs.stat path = .ok (location, x) ∧
        ((replaceFile disk path data).stateAfter fs).get? entry =
          some (.file { data, mode := modeOf x }) ∧
        (∀ other, other ≠ entry →
          ((replaceFile disk path data).stateAfter fs).get? other = fs.get? other) ∧
        ((replaceFile disk path data).stateAfter fs).workingDirectory = fs.workingDirectory ∧
        (old.isLink → location ≠ entry)) := by
  refine ⟨replaceFile_eq_ok_iff, ?_⟩
  rcases replaceFile_cases disk path data fs with
    ⟨-, hresult, target, e, location, x, hlstat, hne, hstat, hafter⟩ | ⟨-, ⟨e, hresult⟩, hafter⟩
  · refine ⟨by simp [hresult], fun _ => ?_⟩
    obtain ⟨-, hget, directory, name, rfl, -⟩ := namesEntry_of_lstat hlstat hne
    have hplace : fs.hasPlace (directory.child name) := by
      refine ⟨?_, isDirectory_parent hget⟩
      simp [isDirectory_iff, hget, hne]
    rw [hafter]
    refine ⟨_, e, location, x, hlstat, hstat, get?_put_self _ hplace, ?_, workingDirectory_put, ?_⟩
    · intro other hother
      exact get?_put_of_ne fs _ hother
    · rintro hlink rfl
      obtain ⟨y, hy, hnot⟩ := (stat_eq_ok_iff.mp hstat).2.1.get?_target
      rw [hget, Option.some.injEq] at hy
      simp [← hy, hlink] at hnot
  · refine ⟨fun _ _ => hafter, ?_⟩
    simp [hresult]

/-- The first entry is a link to a file with two names, and the second a link to a directory, whose
permission bits the new file has. With too little room, or on a disk that does not take what was
written or the permission bits, the first replacement fails. -/
theorem replaceFile_all_or_nothing_sampleTree :
    let link := ascii "src/app/CMakeLists.txt"
    let data := ascii "project(app)"
    let after := (replaceFile {} link data).stateAfter sampleTree
    let top := Location.root.child ⟨ascii "top", by decide⟩
    let afterTop := (replaceFile {} (ascii "top") data).stateAfter sampleTree
    let full : Disk := { writeLimit := some 11 }
    let broken : Disk := { sync := fun _ => .error .inputOutput }
    let strict : Disk := { setMode := fun _ => .error .notPermitted }
    (replaceFile {} link data sampleTree).result = .ok () ∧
      (∃ entry old location x, sampleTree.lstat link = .ok (entry, old) ∧
        sampleTree.stat link = .ok (location, x) ∧
        after.get? entry = some (.file { data, mode := modeOf x }) ∧
        (∀ other, other ≠ entry → after.get? other = sampleTree.get? other) ∧
        after.workingDirectory = sampleTree.workingDirectory ∧ (old.isLink → location ≠ entry)) ∧
      (replaceFile {} (ascii "top") data sampleTree).result = .ok () ∧
      (afterTop.get? top = some (.file { data, mode := 0o700 }) ∧
        ∀ other, other ≠ top → afterTop.get? other = sampleTree.get? other) ∧
      (replaceFile full link data sampleTree).result = .error (.writeTemp link) ∧
      (replaceFile full link data).stateAfter sampleTree = sampleTree ∧
      (replaceFile broken link data sampleTree).result = .error (.syncTemp link .inputOutput) ∧
      (replaceFile broken link data).stateAfter sampleTree = sampleTree ∧
      (replaceFile strict link data sampleTree).result =
        .error (.copyMode (ascii "/src/app/.tmp000000") .notPermitted) ∧
      (replaceFile strict link data).stateAfter sampleTree = sampleTree := by
  intro link data after top afterTop full broken strict
  have hok : (replaceFile {} link data sampleTree).result = .ok () := by decide +kernel
  have htop : (replaceFile {} (ascii "top") data sampleTree).result = .ok () := by decide +kernel
  have hfull : (replaceFile full link data sampleTree).result = .error (.writeTemp link) := by
    decide +kernel
  have hbroken : (replaceFile broken link data sampleTree).result =
      .error (.syncTemp link .inputOutput) := by
    decide +kernel
  have hstrict : (replaceFile strict link data sampleTree).result =
      .error (.copyMode (ascii "/src/app/.tmp000000") .notPermitted) := by
    decide +kernel
  refine ⟨hok, (replaceFile_all_or_nothing {} link data sampleTree).2.2 hok, htop, ?_,
    hfull, (replaceFile_all_or_nothing full link data sampleTree).2.1 _ hfull,
    hbroken, (replaceFile_all_or_nothing broken link data sampleTree).2.1 _ hbroken,
    hstrict, (replaceFile_all_or_nothing strict link data sampleTree).2.1 _ hstrict⟩
  -- The path leads to the directory, and the entry that it names is the link.
  obtain ⟨entry, old, location, x, hlstat, hstat, hnew, hothers, -⟩ :=
    (replaceFile_all_or_nothing {} (ascii "top") data sampleTree).2.2 htop
  have hentry : sampleTree.lstat (ascii "top") = .ok (top, .link (ascii "src")) := by decide +kernel
  have hdirectory : sampleTree.stat (ascii "top") =
      .ok (Location.root.child ⟨ascii "src", by decide⟩, .directory 0o700) := by decide +kernel
  obtain ⟨rfl, -⟩ := Prod.mk.inj (Except.ok.inj (hentry.symm.trans hlstat))
  obtain ⟨-, rfl⟩ := Prod.mk.inj (Except.ok.inj (hdirectory.symm.trans hstat))
  exact ⟨hnew, hothers⟩

end Repoint
