import Repoint.Proofs.Discovery.Obstacles

/-!
# Walks that follow links

A walk that is not stopped finds every build file that a chain of names leads to, with all links
resolved.
-/

namespace Repoint

open FileSystem

variable {fs : FileSystem} {above : List Place} {here : Place} {name : Name} {names : List Name}
  {path root : Path} {location : Location} {cause : WalkError}

/-! ## What is found -/

/-- The names lead to a build file below a path, with all links resolved: without the last of them, and
with any number of them taken away, they lead to a directory. -/
structure FileSystem.Reaches (fs : FileSystem) (path : Path) (names : List Name) : Prop where
  directories : ∀ before, before <+: names → before ≠ names →
    ∃ location, fs.LeadsTo (path.down before) location ∧ fs.IsDirectory location
  file : ∃ location f, fs.LeadsTo (path.down names) location ∧ fs.get? location = some (.file f)
  named : (path.down names).namesBuildFile

theorem reaches_nil_iff : fs.Reaches path [] ↔
    (∃ location f, fs.LeadsTo path location ∧ fs.get? location = some (.file f)) ∧
      path.namesBuildFile := by
  constructor
  · intro h
    exact ⟨h.file, h.named⟩
  · rintro ⟨hfile, hnamed⟩
    refine ⟨?_, hfile, hnamed⟩
    intro before hbefore hne
    exact absurd (List.prefix_nil.mp hbefore) hne

theorem reaches_cons_iff : fs.Reaches path (name :: names) ↔
    (∃ location, fs.LeadsTo path location ∧ fs.IsDirectory location) ∧
      fs.Reaches (path.join name.bytes) names := by
  constructor
  · intro h
    refine ⟨h.directories [] List.nil_prefix (by simp), ?_, h.file, h.named⟩
    intro before hbefore hne
    exact h.directories (name :: before) (List.cons_prefix_cons.mpr ⟨rfl, hbefore⟩) (by simpa using hne)
  · rintro ⟨hdirectory, h⟩
    refine ⟨?_, h.file, h.named⟩
    intro before hbefore hne
    cases before with
    | nil => exact hdirectory
    | cons first before =>
      obtain ⟨rfl, hprefix⟩ := List.cons_prefix_cons.mp hbefore
      exact h.directories before hprefix (by simpa using hne)

theorem FileSystem.Reaches.exists_leadsTo (h : fs.Reaches path names) :
    ∃ location, fs.LeadsTo path location := by
  cases names with
  | nil =>
    obtain ⟨⟨location, f, hto, -⟩, -⟩ := reaches_nil_iff.mp h
    exact ⟨location, hto⟩
  | cons name names =>
    obtain ⟨⟨location, hto, -⟩, -⟩ := reaches_cons_iff.mp h
    exact ⟨location, hto⟩

theorem not_reaches {e : Entry} (hto : fs.LeadsTo path location) (hget : fs.get? location = some e)
    (hfile : ∀ f, e ≠ .file f) (hdirectory : e.isDirectory = false) : ¬ fs.Reaches path names := by
  intro h
  cases names with
  | nil =>
    obtain ⟨⟨place, f, hplace, hf⟩, -⟩ := reaches_nil_iff.mp h
    rw [hplace.unique hto, hget, Option.some.injEq] at hf
    exact hfile f hf
  | cons name names =>
    obtain ⟨⟨place, hplace, hdir⟩, -⟩ := reaches_cons_iff.mp h
    simp [hplace.unique hto, isDirectory_iff, hget, hdirectory] at hdir

/-- The paths found are those of the build files that names lead to below a path, in order. -/
structure ListsReached (fs : FileSystem) (path : Path) (found : List Path)
    (files : List (List Name)) : Prop where
  found_eq : found = files.map path.down
  inOrder : files.Pairwise Precedes
  mem_iff : ∀ names, names ∈ files ↔ fs.Reaches path names

theorem ListsReached.nothing (h : ∀ names, ¬ fs.Reaches path names) : ListsReached fs path [] [] :=
  ⟨rfl, .nil, by simpa using h⟩

theorem listsReached_file {f : File} (hto : fs.LeadsTo path location)
    (hget : fs.get? location = some (.file f)) :
    ∃ files, ListsReached fs path (Walk.file path).found files := by
  have hcons : ∀ name names, ¬ fs.Reaches path (name :: names) := by
    intro name names h
    obtain ⟨⟨place, hplace, hdir⟩, -⟩ := reaches_cons_iff.mp h
    simp [hplace.unique hto, isDirectory_iff, hget] at hdir
  have hnil : fs.Reaches path [] ↔ path.namesBuildFile := by
    rw [reaches_nil_iff]
    exact ⟨And.right, fun hnamed => ⟨⟨location, f, hto, hget⟩, hnamed⟩⟩
  by_cases hnamed : path.namesBuildFile
  · refine ⟨[[]], by simp [Walk.file, hnamed, Path.down], List.pairwise_singleton _ _, ?_⟩
    intro names
    cases names with
    | nil => simp [hnil, hnamed]
    | cons name names => simp [hcons]
  · refine ⟨[], by simp [Walk.file, hnamed], .nil, ?_⟩
    intro names
    cases names with
    | nil => simp [hnil, hnamed]
    | cons name names => simp [hcons]

theorem walkLink_reached {places : List Place}
    (hwalk : ∀ target mode, fs.stat path = .ok (target, .directory mode) → isOutside places target →
      (walkDirectory fs true places ⟨path, target⟩).stopped = none →
      ∃ files, ListsReached fs path (walkDirectory fs true places ⟨path, target⟩).found files)
    (hstopped : (walkLink fs places path).stopped = none) :
    ∃ files, ListsReached fs path (walkLink fs places path).found files := by
  unfold walkLink at hstopped ⊢
  split at hstopped
  · simp [Walk.stop] at hstopped
  · next location f hstat =>
    obtain ⟨-, hto, hget⟩ := stat_eq_ok_iff.mp hstat
    exact listsReached_file hto hget
  · next target mode hstat =>
    split at hstopped
    · simp [Walk.stop] at hstopped
    · next hnone => exact hwalk target mode hstat (isOutside_of_find? hnone) hstopped
  · next found hfile hdirectory hstat =>
    obtain ⟨location, e⟩ := found
    obtain ⟨-, hto, hget⟩ := stat_eq_ok_iff.mp hstat
    refine ⟨[], .nothing fun names => not_reaches hto hget ?_ ?_⟩
    · rintro f rfl
      exact hfile location f rfl
    · cases e with
      | directory mode => exact absurd rfl (hdirectory location mode)
      | file f => rfl
      | link text => rfl
      | pipe mode => rfl

theorem Place.IsAt.mem_names_of_reaches (hhere : here.IsAt fs)
    (h : fs.Reaches (here.child name).path names) : name ∈ fs.names here.location := by
  obtain ⟨location, hto⟩ := h.exists_leadsTo
  obtain ⟨k, hleads⟩ := (hhere.namesEntry name).leads_of_leadsTo hto
  rw [mem_names]
  cases hleads with
  | down hdir hget => simp [hget]
  | link hdir hget => simp [hget]

theorem walkEntry_reached (hhere : here.IsAt fs)
    (hwalk : ∀ there, there.IsAt fs →
      fs.walkMeasure (here :: above) there < fs.walkMeasure above here →
      (walkDirectory fs true (here :: above) there).stopped = none →
      ∃ files, ListsReached fs there.path (walkDirectory fs true (here :: above) there).found files)
    (hstopped : (walkEntry fs true above here name).stopped = none) :
    ∃ files, ListsReached fs (here.child name).path (walkEntry fs true above here name).found
      files := by
  unfold walkEntry at hstopped ⊢
  cases hget : fs.get? (here.location.child name) with
  | none =>
    refine ⟨[], .nothing fun names hreaches => ?_⟩
    have hname := hhere.mem_names_of_reaches hreaches
    simp [mem_names, hget] at hname
  | some e =>
    simp only [hget, if_true] at hstopped ⊢
    cases e with
    | file f => exact listsReached_file ((hhere.namesEntry name).leadsTo hget rfl) hget
    | directory mode =>
      exact hwalk _ (hhere.child ⟨mode, hget⟩) (walkMeasure_child_lt ⟨mode, hget⟩) hstopped
    | link text =>
      refine walkLink_reached ?_ hstopped
      intro target mode hstat houtside hthrough
      have hthere := Place.IsAt.of_stat hstat
      exact hwalk _ hthere (walkMeasure_link_lt hthere.directory houtside) hthrough
    | pipe mode =>
      have hto := (hhere.namesEntry name).leadsTo hget rfl
      exact ⟨[], .nothing fun names => not_reaches hto hget (by simp) rfl⟩

theorem listsReached_directory (hhere : here.IsAt fs) {found : Name → List Path}
    {files : Name → List (List Name)}
    (hfiles : ∀ name ∈ fs.names here.location,
      ListsReached fs (here.child name).path (found name) (files name)) :
    ListsReached fs here.path ((fs.names here.location).flatMap found)
      ((fs.names here.location).flatMap fun name => (files name).map (name :: ·)) := by
  refine ⟨?_, ?_, ?_⟩
  · rw [List.map_flatMap]
    apply List.flatMap_congr
    intro name hname
    rw [(hfiles name hname).found_eq, List.map_map]
    rfl
  · apply List.pairwise_flatMap.mpr
    constructor
    · intro name hname
      exact List.pairwise_map.mpr ((hfiles name hname).inOrder.imp .cons)
    · apply (pairwise_names fs here.location).imp
      intro x y hlt a ha b hb
      obtain ⟨-, -, rfl⟩ := List.mem_map.mp ha
      obtain ⟨-, -, rfl⟩ := List.mem_map.mp hb
      exact .rel hlt
  · intro names
    simp only [List.mem_flatMap, List.mem_map]
    have hdirectory : ∃ location, fs.LeadsTo here.path location ∧
        fs.IsDirectory location :=
      ⟨here.location, hhere.leadsTo, hhere.directory⟩
    constructor
    · rintro ⟨name, hname, rest, hrest, rfl⟩
      exact reaches_cons_iff.mpr ⟨hdirectory, ((hfiles name hname).mem_iff rest).mp hrest⟩
    · intro hreaches
      cases names with
      | nil =>
        obtain ⟨⟨location, f, hto, hget⟩, -⟩ := reaches_nil_iff.mp hreaches
        obtain ⟨mode, hdir⟩ := hhere.directory
        rw [hto.unique hhere.leadsTo, hdir] at hget
        simp at hget
      | cons name rest =>
        have hrest := (reaches_cons_iff.mp hreaches).2
        have hname := hhere.mem_names_of_reaches hrest
        exact ⟨name, hname, rest, ((hfiles name hname).mem_iff rest).mpr hrest, rfl⟩

theorem walkDirectory_reached (hhere : here.IsAt fs)
    (hstopped : (walkDirectory fs true above here).stopped = none) :
    ∃ files, ListsReached fs here.path (walkDirectory fs true above here).found files := by
  induction above, here using walkInduction fs with
  | step above here ih =>
    rw [walkDirectory_eq] at hstopped ⊢
    split at hstopped
    · simp [Walk.stop] at hstopped
    · next hlength =>
      rw [if_neg hlength, Walk.found_concat hstopped, List.flatMap_map]
      have hentries : ∀ name, name ∈ fs.names here.location →
          ∃ files, ListsReached fs (here.child name).path
            (walkEntry fs true above here name).found files := by
        intro name hname
        apply walkEntry_reached hhere
        · intro there hthere hlt hthrough
          exact ih there hlt hthere hthrough
        · exact Walk.stopped_concat.mp hstopped _ (List.mem_map_of_mem hname)
      choose! files hfiles using hentries
      exact ⟨_, listsReached_directory hhere hfiles⟩

/-! ## Roots -/

/-- From a root, names lead to something that its walk cannot get past. -/
def FileSystem.MeetsBelow (fs : FileSystem) (root : Path) (names : List Name) (cause : WalkError) :
    Prop :=
  ∃ top mode, fs.stat root = .ok (top, .directory mode) ∧ fs.Meets [] ⟨root, top⟩ names cause

theorem FileSystem.MeetsBelow.path_eq (h : fs.MeetsBelow root names cause) :
    cause.path = root.down names := by
  obtain ⟨top, mode, -, hmeets⟩ := h
  exact hmeets.path_eq

theorem walkRoot_stopsAtFirst {e : Entry} (hstat : fs.stat root = .ok (location, e)) :
    StopsAtFirst (fs.MeetsBelow root) (walkRoot fs true root location e).stopped := by
  by_cases he : ∃ mode, e = .directory mode
  · obtain ⟨mode, rfl⟩ := he
    have hmeets : fs.MeetsBelow root = fs.Meets [] ⟨root, location⟩ := by
      funext names cause
      simp [MeetsBelow, hstat]
    rw [hmeets]
    exact walkDirectory_stopsAtFirst fs [] ⟨root, location⟩
  · have hthrough : (walkRoot fs true root location e).stopped = none := by
      unfold walkRoot
      split
      · exact absurd ⟨_, rfl⟩ he
      · simp [Walk.file]
      · rfl
    rw [hthrough]
    rintro names cause ⟨top, mode, htop, -⟩
    rw [hstat, Except.ok.injEq, Prod.mk.injEq] at htop
    exact he ⟨mode, htop.2⟩

theorem walkRoot_reached {e : Entry} (hstat : fs.stat root = .ok (location, e))
    (hstopped : (walkRoot fs true root location e).stopped = none) :
    ∃ files, ListsReached fs root (walkRoot fs true root location e).found files := by
  obtain ⟨-, hto, hget⟩ := stat_eq_ok_iff.mp hstat
  cases e with
  | directory mode => exact walkDirectory_reached (.of_stat hstat) hstopped
  | file f =>
    obtain ⟨place, x, hlstat⟩ := exists_lstat_of_stat hstat
    rw [walkRoot_file hlstat, Bool.not_true, Bool.and_false]
    exact listsReached_file hto hget
  | link text => exact ⟨[], .nothing fun names => not_reaches hto hget (by simp) rfl⟩
  | pipe mode => exact ⟨[], .nothing fun names => not_reaches hto hget (by simp) rfl⟩

theorem discoverRoot_of_stopped {e : Entry} {follow : Bool}
    (hstat : fs.stat root = .ok (location, e))
    (hstopped : (walkRoot fs follow root location e).stopped = some cause) :
    (discoverRoot follow root fs).result = .error (.walk root cause) := by
  simp only [discoverRoot, hstat, hstopped]

theorem discoverRoot_error_of_meets (h : fs.MeetsBelow root names cause) :
    ∃ names cause, fs.MeetsBelow root names cause ∧
      (∀ other cause', fs.MeetsBelow root other cause' → ¬ Precedes other names) ∧
      (discoverRoot true root fs).result = .error (.walk root cause) := by
  obtain ⟨top, mode, hstat, hmeets⟩ := h
  have hfirst := walkRoot_stopsAtFirst hstat
  cases hstopped : (walkRoot fs true root top (.directory mode)).stopped with
  | none =>
    rw [hstopped] at hfirst
    exact absurd ⟨top, mode, hstat, hmeets⟩ (hfirst names cause)
  | some cause' =>
    rw [hstopped] at hfirst
    obtain ⟨first, hfirst, hleast⟩ := hfirst
    exact ⟨first, cause', hfirst, hleast, discoverRoot_of_stopped hstat hstopped⟩

theorem exists_block_of_not_meets
    (hroot : fs.stat root = .error .noEntry ∨ ∃ location e, fs.stat root = .ok (location, e))
    (hmeets : ∀ names cause, ¬ fs.MeetsBelow root names cause) :
    ∃ block, (discoverRoot true root fs).result = .ok block := by
  rcases hroot with hstat | ⟨location, e, hstat⟩
  · exact ⟨[], discoverRoot_eq_ok_iff.mpr (.inl ⟨hstat, rfl⟩)⟩
  · have hfirst := walkRoot_stopsAtFirst hstat
    cases hstopped : (walkRoot fs true root location e).stopped with
    | none => exact ⟨_, discoverRoot_eq_ok_iff.mpr (.inr ⟨location, e, hstat, hstopped, rfl⟩)⟩
    | some cause =>
      rw [hstopped] at hfirst
      obtain ⟨names, hmeet, -⟩ := hfirst
      exact absurd hmeet (hmeets names cause)

/-- **Discovery with links followed.** A walk goes down to a bounded depth, and fails at the first link,
in its order, that leads nowhere or into a directory that it is inside of. Otherwise there is a block
for each root: all paths, made of the root and of names, that lead to build files, each once, in the
byte order of names. -/
theorem discover_followed (roots : List Path) (fs : FileSystem) :
    (∀ root top mode names above last, fs.stat root = .ok (top, .directory mode) →
      fs.Descends [] ⟨root, top⟩ names above last →
      names.length < fs.directories.length * (fs.height + 1)) ∧
    (∀ before root after found names cause, roots = before ++ root :: after →
      (discover true before fs).result = .ok found → fs.MeetsBelow root names cause →
      ∃ names cause, fs.MeetsBelow root names cause ∧ cause.path = root.down names ∧
        (∀ other cause', fs.MeetsBelow root other cause' → ¬ Precedes other names) ∧
        (discover true roots fs).result = .error (.walk root cause)) ∧
    (∀ found, (discover true roots fs).result = .ok found →
      ∃ blocks : List (List Path), found = blocks.flatten ∧
        List.Forall₂ (fun root block =>
          (fs.stat root = .error .noEntry ∧ block = []) ∨
          ((∃ location e, fs.stat root = .ok (location, e)) ∧ block.Nodup ∧
            ∃ files : List (List Name), block = files.map root.down ∧ files.Pairwise Precedes ∧
              ∀ names, names ∈ files ↔ fs.Reaches root names)) roots blocks) ∧
    ((∀ root ∈ roots,
        (fs.stat root = .error .noEntry ∨ ∃ location e, fs.stat root = .ok (location, e)) ∧
        ∀ names cause, ¬ fs.MeetsBelow root names cause) →
      ∃ found, (discover true roots fs).result = .ok found) := by
  refine ⟨?_, ?_, ?_, ?_⟩
  · intro root top mode names above last hstat hdescends
    have hle := hdescends.length_add_le
    have hlt := walkMeasure_nil_lt (Place.IsAt.of_stat hstat).directory
    omega
  · rintro before root after found names cause rfl hbefore hmeets
    obtain ⟨names, cause, hfirst, hleast, hroot⟩ := discoverRoot_error_of_meets hmeets
    exact ⟨names, cause, hfirst, hfirst.path_eq, hleast, discover_error_of_root hbefore hroot⟩
  · intro found hfound
    obtain ⟨blocks, hblocks, rfl⟩ := discover_eq_ok_iff.mp hfound
    refine ⟨blocks, rfl, hblocks.imp ?_⟩
    intro root block hblock
    rcases discoverRoot_eq_ok_iff.mp hblock with hmissing | ⟨location, e, hstat, hstopped, rfl⟩
    · exact .inl hmissing
    · obtain ⟨files, hfiles⟩ := walkRoot_reached hstat hstopped
      refine .inr ⟨⟨location, e, hstat⟩, ?_, files, hfiles.found_eq, hfiles.inOrder, hfiles.mem_iff⟩
      rw [hfiles.found_eq]
      exact nodup_map_down root hfiles.inOrder
  · intro hroots
    apply discover_succeeds_iff.mpr
    intro root hroot
    obtain ⟨hstat, hmeets⟩ := hroots root hroot
    exact exists_block_of_not_meets hstat hmeets

/-- In `work`, a link to the directory above and one to nothing; in `src`, a build file that is a link,
and a link to a directory that lies elsewhere. -/
def linkedTree : FileSystem :=
  .ofEntries
    [(ascii "ext", .directory 0o755),
      (ascii "ext/CMakeLists.txt", .file { data := sourceDir, mode := 0o644 }),
      (ascii "src", .directory 0o755), (ascii "src/CMakeLists.txt", .link (ascii "../ext/CMakeLists.txt")),
      (ascii "src/lib", .directory 0o755), (ascii "src/lib/out", .link (ascii "../../ext")),
      (ascii "work", .directory 0o755), (ascii "work/up", .link (ascii "..")),
      (ascii "work/void", .link (ascii "nowhere"))]

/-- The link to the directory above leads back to `work`, a directory like any other. The walk goes into
it and stops at the link when it meets it there again, before it comes to the link to nothing. -/
theorem discover_followed_linkedTree :
    let up : Name := ⟨ascii "up", by decide⟩
    let work : Name := ⟨ascii "work", by decide⟩
    let top : Place := ⟨ascii "work", Location.root.child work⟩
    let above : Place := ⟨ascii "work/up", .root⟩
    let roots := [ascii "gone", ascii "src", ascii "src/lib/out"]
    let found := [ascii "src/CMakeLists.txt", ascii "src/lib/out/CMakeLists.txt",
      ascii "src/lib/out/CMakeLists.txt"]
    (linkedTree.Descends [] top [up, work] [above, top] (above.child work) ∧
      2 < linkedTree.directories.length * (linkedTree.height + 1)) ∧
    (linkedTree.MeetsBelow (ascii "work") [⟨ascii "void", by decide⟩]
        (.os (ascii "work/void") .noEntry) ∧
      ∃ names cause, linkedTree.MeetsBelow (ascii "work") names cause ∧
        cause.path = Path.down (ascii "work") names ∧
        (∀ other cause', linkedTree.MeetsBelow (ascii "work") other cause' →
          ¬ Precedes other names) ∧
        (discover true [ascii "src", ascii "work"] linkedTree).result =
          .error (.walk (ascii "work") cause)) ∧
    (discover true [ascii "src", ascii "work"] linkedTree).result =
      .error (.walk (ascii "work") (.loop (ascii "work/up/work/up") (ascii "work/up"))) ∧
    (discover true roots linkedTree).result = .ok found ∧
    (∃ blocks : List (List Path), found = blocks.flatten ∧
      List.Forall₂ (fun root block =>
        (linkedTree.stat root = .error .noEntry ∧ block = []) ∨
        ((∃ location e, linkedTree.stat root = .ok (location, e)) ∧ block.Nodup ∧
          ∃ files : List (List Name), block = files.map root.down ∧ files.Pairwise Precedes ∧
            ∀ names, names ∈ files ↔ linkedTree.Reaches root names)) roots blocks) ∧
    (∀ names cause, ¬ linkedTree.MeetsBelow (ascii "src") names cause) ∧
    ∃ found, (discover true [ascii "src"] linkedTree).result = .ok found := by
  intro up work top above roots found
  have hwork : linkedTree.stat (ascii "work") = .ok (top.location, .directory 0o755) := by decide +kernel
  have hsrc : linkedTree.stat (ascii "src") =
      .ok (Location.root.child ⟨ascii "src", by decide⟩, .directory 0o755) := by decide +kernel
  have hup : linkedTree.get? (top.location.child up) = some (.link (ascii "..")) := by
    decide +kernel
  have hroot : linkedTree.stat (top.child up).path = .ok (.root, .directory 0o755) := by
    decide +kernel
  have hdescends : linkedTree.Descends [] top [up, work] [above, top] (above.child work) :=
    .deeper (.link hup hroot (by decide))
      (.deeper (.directory (by decide +kernel)) (.here _ _))
  have hvoidLink : linkedTree.get? (top.location.child ⟨ascii "void", by decide⟩) =
      some (.link (ascii "nowhere")) := by decide +kernel
  have hvoid : linkedTree.MeetsBelow (ascii "work") [⟨ascii "void", by decide⟩]
      (.os (ascii "work/void") .noEntry) :=
    ⟨_, _, hwork, [], _, [], top, rfl, .here _ _, .broken hvoidLink (by decide +kernel)⟩
  have hbefore : (discover true [ascii "src"] linkedTree).result =
      .ok [ascii "src/CMakeLists.txt", ascii "src/lib/out/CMakeLists.txt"] := by decide +kernel
  have hfound : (discover true roots linkedTree).result = .ok found := by decide +kernel
  have hnone : ∀ names cause, ¬ linkedTree.MeetsBelow (ascii "src") names cause := by
    have hfirst := walkRoot_stopsAtFirst hsrc
    have hstopped : (walkRoot linkedTree true (ascii "src")
        (Location.root.child ⟨ascii "src", by decide⟩) (.directory 0o755)).stopped = none := by
      decide +kernel
    rwa [hstopped] at hfirst
  obtain ⟨hdepth, hfails, -, -⟩ := discover_followed [ascii "src", ascii "work"] linkedTree
  obtain ⟨-, -, hblocks, -⟩ := discover_followed roots linkedTree
  obtain ⟨-, -, -, hsucceeds⟩ := discover_followed [ascii "src"] linkedTree
  refine ⟨⟨hdescends, hdepth _ _ _ _ _ _ hwork hdescends⟩,
    ⟨hvoid, hfails [ascii "src"] _ [] _ _ _ rfl hbefore hvoid⟩, by decide +kernel, hfound,
    hblocks found hfound, hnone, hsucceeds ?_⟩
  intro root hroot
  obtain rfl := List.mem_singleton.mp hroot
  exact ⟨.inr ⟨_, _, hsrc⟩, hnone⟩

end Repoint
