import Mathlib.Data.List.Basic
import Mathlib.Tactic.Choose
import Repoint.Proofs.Discovery.Walk
import Repoint.Proofs.FileSystem.Update

/-!
# What a walk finds

When links are not followed, a walk finds the build files below its directory, each of them once.
-/

namespace Repoint

open FileSystem

/-! ## Build files below a directory -/

def Place.below (place : Place) (names : List Name) : Place := names.foldl Place.child place

theorem Place.below_cons (place : Place) (name : Name) (names : List Name) :
    place.below (name :: names) = (place.child name).below names := rfl

/-- The order in which a tree is walked through: names are compared from the top, in byte order. -/
def Precedes (a b : List Name) : Prop := List.Lex (fun x y => x.bytes < y.bytes) a b

/-- The names lead to a build file, each name but the last to a directory. -/
inductive FileSystem.BuildFileBelow (fs : FileSystem) : Location → List Name → File → Prop
  | entry {directory : Location} {name : Name} {f : File} (hname : name.bytes = buildFileName)
      (hfile : fs.get? (directory.child name) = some (.file f)) :
      fs.BuildFileBelow directory [name] f
  | deeper {directory : Location} {name : Name} {names : List Name} {f : File}
      (hdirectory : fs.IsDirectory (directory.child name))
      (hbelow : fs.BuildFileBelow (directory.child name) names f) :
      fs.BuildFileBelow directory (name :: names) f

variable {fs : FileSystem} {above : List Place} {here : Place} {name : Name} {names : List Name}
  {directory location : Location} {f : File}

theorem buildFileBelow_cons :
    fs.BuildFileBelow directory (name :: names) f ↔
      (names = [] ∧ name.bytes = buildFileName ∧
        fs.get? (directory.child name) = some (.file f)) ∨
      (fs.IsDirectory (directory.child name) ∧
        fs.BuildFileBelow (directory.child name) names f) := by
  constructor
  · rintro (⟨hname, hfile⟩ | ⟨hdirectory, hbelow⟩)
    · exact .inl ⟨rfl, hname, hfile⟩
    · exact .inr ⟨hdirectory, hbelow⟩
  · rintro (⟨rfl, hname, hfile⟩ | ⟨hdirectory, hbelow⟩)
    · exact .entry hname hfile
    · exact .deeper hdirectory hbelow

theorem not_buildFileBelow_nil : ¬ fs.BuildFileBelow directory [] f := nofun

theorem FileSystem.BuildFileBelow.exists_head (h : fs.BuildFileBelow directory names f) :
    ∃ name, name ∈ fs.names directory ∧ names.head? = some name := by
  cases names with
  | nil => exact absurd h not_buildFileBelow_nil
  | cons name names =>
    refine ⟨name, mem_names.mpr ?_, rfl⟩
    rcases buildFileBelow_cons.mp h with ⟨-, -, hfile⟩ | ⟨hdirectory, -⟩
    · rw [hfile]
      rfl
    · obtain ⟨mode, hget⟩ := hdirectory
      rw [hget]
      rfl

theorem Place.IsAt.namesFile_below (h : here.IsAt fs)
    (hbelow : fs.BuildFileBelow here.location names f) :
    fs.NamesFile (here.below names).path (here.below names).location f := by
  induction names generalizing here with
  | nil => exact absurd hbelow not_buildFileBelow_nil
  | cons name names ih =>
    rcases buildFileBelow_cons.mp hbelow with ⟨rfl, -, hfile⟩ | ⟨hdirectory, hdeeper⟩
    · exact ⟨here.location, name, rfl, h.namesEntry name, hfile⟩
    · exact ih (h.child hdirectory) hdeeper

/-! ## Names in order -/

theorem Name.eq_of_bytes {a b : Name} (h : a.bytes = b.bytes) : a = b := by
  obtain ⟨bytes, hname⟩ := a
  obtain ⟨bytes', hname'⟩ := b
  subst h
  rfl

instance : Std.Total fun a b : Name => a.le b where
  total a b := by
    simp only [Name.le, decide_eq_true_eq]
    exact Std.le_total

instance : IsTrans Name fun a b => a.le b where
  trans a b c hab hbc := by
    simp only [Name.le, decide_eq_true_eq] at hab hbc ⊢
    exact Std.le_trans hab hbc

theorem nodup_names (fs : FileSystem) (directory : Location) : (fs.names directory).Nodup := by
  rw [FileSystem.names, sortBy_eq, (List.perm_insertionSort _ _).nodup_iff, List.Nodup, List.pairwise_filterMap]
  apply (List.pairwise_map.mp fs.unique).imp
  rintro ⟨a, _⟩ ⟨b, _⟩ hne x hx y hy rfl
  simp only [Option.ite_none_right_eq_some] at hx hy
  obtain ⟨i, rfl⟩ := Location.isIn_iff.mp hx.1
  obtain ⟨j, rfl⟩ := Location.isIn_iff.mp hy.1
  apply hne
  rw [Option.some.inj hx.2, Option.some.inj hy.2]

theorem pairwise_names (fs : FileSystem) (directory : Location) :
    (fs.names directory).Pairwise (fun a b => a.bytes < b.bytes) := by
  have hsorted : (fs.names directory).Pairwise (fun a b => a.le b) := by
    rw [FileSystem.names, sortBy_eq]
    exact List.pairwise_insertionSort _ _
  apply (hsorted.and (nodup_names fs directory)).imp
  rintro a b ⟨hle, hne⟩
  simp only [Name.le, decide_eq_true_eq] at hle
  exact Std.lt_of_le_of_ne hle (mt Name.eq_of_bytes hne)

theorem precedes_of_head {a b : List Name} {x y : Name} (ha : a.head? = some x)
    (hb : b.head? = some y) (h : x.bytes < y.bytes) : Precedes a b := by
  obtain ⟨a, rfl⟩ := List.head?_eq_some_iff.mp ha
  obtain ⟨b, rfl⟩ := List.head?_eq_some_iff.mp hb
  exact .rel h

theorem not_precedes_self (names : List Name) : ¬ Precedes names names :=
  List.lex_irrefl (fun name => List.lt_irrefl name.bytes) names

/-! ## The walk -/

/-- The paths found are those of the build files below the place, as far as the names that lead to them
are among those meant, and the files come in order. -/
structure Lists (fs : FileSystem) (here : Place) (found : List Path) (files : List (List Name × File))
    (among : List Name → Prop) : Prop where
  found_eq : found = files.map fun b => (here.below b.1).path
  inOrder : files.Pairwise fun a b => Precedes a.1 b.1
  mem_iff : ∀ b, b ∈ files ↔ fs.BuildFileBelow here.location b.1 b.2 ∧ among b.1

theorem Lists.nothing (hfile : ∀ f, fs.get? (here.location.child name) ≠ some (.file f))
    (hdirectory : ¬ fs.IsDirectory (here.location.child name)) :
    Lists fs here [] [] fun names => names.head? = some name := by
  refine ⟨rfl, .nil, ?_⟩
  rintro ⟨names, f⟩
  simp only [List.not_mem_nil, false_iff, not_and]
  rintro hbelow hhead
  obtain ⟨names, rfl⟩ := List.head?_eq_some_iff.mp hhead
  rcases buildFileBelow_cons.mp hbelow with ⟨-, -, hget⟩ | ⟨hget, -⟩
  · exact hfile f hget
  · exact hdirectory hget

theorem Walk.found_file {path : Path} (h : fs.NamesEntry path directory name) :
    (Walk.file path).found = if name.bytes = buildFileName then [path] else [] := by
  obtain ⟨k, before, -, hsteps, -, -⟩ := h
  simp only [Walk.file, Path.namesBuildFile, Path.fileName?_of_steps hsteps, decide_eq_true_eq,
    Option.some.injEq]

theorem walkEntry_lists (hhere : here.IsAt fs)
    (hwalk : ∀ there, there.IsAt fs →
      fs.walkMeasure (here :: above) there < fs.walkMeasure above here →
      (walkDirectory fs false (here :: above) there).stopped = none →
      ∃ files, Lists fs there (walkDirectory fs false (here :: above) there).found files
        fun _ => True)
    (hstopped : (walkEntry fs false above here name).stopped = none) :
    ∃ files, Lists fs here (walkEntry fs false above here name).found files
      fun names => names.head? = some name := by
  unfold walkEntry at hstopped ⊢
  cases hget : fs.get? (here.location.child name) with
  | none => exact ⟨[], .nothing (by simp [hget]) (by simp [isDirectory_iff, hget])⟩
  | some e =>
    simp only [hget] at hstopped ⊢
    cases e with
    | link text => exact ⟨[], .nothing (by simp [hget]) (by simp [isDirectory_iff, hget])⟩
    | pipe mode => exact ⟨[], .nothing (by simp [hget]) (by simp [isDirectory_iff, hget])⟩
    | directory mode =>
      have hdir : fs.IsDirectory (here.location.child name) := ⟨mode, hget⟩
      obtain ⟨files, hfiles⟩ := hwalk _ (hhere.child hdir) (walkMeasure_child_lt hdir) hstopped
      refine ⟨files.map fun b => (name :: b.1, b.2), ?_, ?_, ?_⟩
      · rw [hfiles.found_eq, List.map_map]
        rfl
      · exact List.pairwise_map.mpr (hfiles.inOrder.imp .cons)
      · rintro ⟨names, f⟩
        simp only [List.mem_map, Prod.mk.injEq, Prod.exists, hfiles.mem_iff, and_true]
        constructor
        · rintro ⟨rest, _, hbelow, rfl, rfl⟩
          exact ⟨.deeper hdir hbelow, rfl⟩
        · rintro ⟨hbelow, hhead⟩
          obtain ⟨rest, rfl⟩ := List.head?_eq_some_iff.mp hhead
          rcases buildFileBelow_cons.mp hbelow with ⟨-, -, hfile⟩ | ⟨-, hdeeper⟩
          · simp [hget] at hfile
          · exact ⟨rest, f, hdeeper, rfl, rfl⟩
    | file g =>
      have hbelow : ∀ names f, fs.BuildFileBelow here.location (name :: names) f ↔
          names = [] ∧ name.bytes = buildFileName ∧ g = f := by
        intro names f
        rw [buildFileBelow_cons, isDirectory_iff, hget]
        simp
      rw [Walk.found_file (hhere.namesEntry name)]
      by_cases hname : name.bytes = buildFileName
      · rw [if_pos hname]
        refine ⟨[([name], g)], rfl, List.pairwise_singleton _ _, ?_⟩
        rintro ⟨names, f⟩
        simp only [List.mem_singleton, Prod.mk.injEq]
        constructor
        · rintro ⟨rfl, rfl⟩
          exact ⟨.entry hname hget, rfl⟩
        · rintro ⟨hfile, hhead⟩
          obtain ⟨rest, rfl⟩ := List.head?_eq_some_iff.mp hhead
          obtain ⟨rfl, -, rfl⟩ := (hbelow rest f).mp hfile
          exact ⟨rfl, rfl⟩
      · rw [if_neg hname]
        refine ⟨[], rfl, .nil, ?_⟩
        rintro ⟨names, f⟩
        simp only [List.not_mem_nil, false_iff, not_and]
        rintro hfile hhead
        obtain ⟨rest, rfl⟩ := List.head?_eq_some_iff.mp hhead
        exact hname ((hbelow rest f).mp hfile).2.1

theorem walkDirectory_lists (hhere : here.IsAt fs)
    (hstopped : (walkDirectory fs false above here).stopped = none) :
    ∃ files, Lists fs here (walkDirectory fs false above here).found files fun _ => True := by
  induction above, here using walkInduction fs with
  | step above here ih =>
    rw [walkDirectory_eq] at hstopped ⊢
    split at hstopped
    · simp [Walk.stop] at hstopped
    · next hlength =>
      rw [if_neg hlength, Walk.found_concat hstopped, List.flatMap_map]
      have hentries : ∀ name, name ∈ fs.names here.location →
          ∃ files, Lists fs here (walkEntry fs false above here name).found files
            fun names => names.head? = some name := by
        intro name hname
        apply walkEntry_lists hhere
        · intro there hthere hlt hthrough
          exact ih there hlt hthere hthrough
        · exact Walk.stopped_concat.mp hstopped _ (List.mem_map_of_mem hname)
      choose! files hfiles using hentries
      refine ⟨(fs.names here.location).flatMap files, ?_, ?_, ?_⟩
      · rw [List.map_flatMap]
        apply List.flatMap_congr
        intro name hname
        exact (hfiles name hname).found_eq
      · apply List.pairwise_flatMap.mpr
        refine ⟨fun name hname => (hfiles name hname).inOrder, ?_⟩
        apply (pairwise_names fs here.location).imp_of_mem
        intro x y hx hy hlt a ha b hb
        exact precedes_of_head ((hfiles x hx).mem_iff a |>.mp ha).2
          ((hfiles y hy).mem_iff b |>.mp hb).2 hlt
      · intro b
        simp only [List.mem_flatMap, and_true]
        constructor
        · rintro ⟨name, hname, hb⟩
          exact ((hfiles name hname).mem_iff b |>.mp hb).1
        · intro hbelow
          obtain ⟨name, hname, hhead⟩ := hbelow.exists_head
          exact ⟨name, hname, (hfiles name hname).mem_iff b |>.mpr ⟨hbelow, hhead⟩⟩

/-! ## Roots -/

/-- A build file, where it is, and the names that lead to it from a root. -/
structure BuildFile where
  place : Place
  names : List Name
  file : File

/-- The build file belongs to the root: the root is this file itself, not a link to it, or the file
lies below the directory that the root leads to. -/
inductive FileSystem.IsBuildFileOf (fs : FileSystem) (root : Path) : BuildFile → Prop
  | itself {directory : Location} {name : Name} {f : File} (hname : name.bytes = buildFileName)
      (hlstat : fs.lstat root = .ok (directory.child name, .file f)) :
      fs.IsBuildFileOf root ⟨⟨root, directory.child name⟩, [], f⟩
  | below {top : Location} {mode : Nat} {names : List Name} {f : File}
      (hstat : fs.stat root = .ok (top, .directory mode)) (hbelow : fs.BuildFileBelow top names f) :
      fs.IsBuildFileOf root ⟨Place.below ⟨root, top⟩ names, names, f⟩

variable {root : Path} {b : BuildFile}

theorem FileSystem.IsBuildFileOf.namesFile (h : fs.IsBuildFileOf root b) :
    fs.NamesFile b.place.path b.place.location b.file := by
  cases h with
  | itself hname hlstat => exact (namesFile_of_lstat hlstat).2
  | below hstat hbelow => exact (Place.IsAt.of_stat hstat).namesFile_below hbelow

theorem isBuildFileOf_of_directory {top : Location} {mode : Nat}
    (hstat : fs.stat root = .ok (top, .directory mode)) :
    fs.IsBuildFileOf root b ↔
      fs.BuildFileBelow top b.names b.file ∧ b.place = Place.below ⟨root, top⟩ b.names := by
  constructor
  · rintro (⟨hname, hlstat⟩ | ⟨hroot, hbelow⟩)
    · obtain ⟨hcheck, hnames⟩ := namesFile_of_lstat hlstat
      simp [hnames.stat_eq_ok hcheck] at hstat
    · rw [hstat, Except.ok.injEq, Prod.mk.injEq] at hroot
      obtain ⟨rfl, -⟩ := hroot
      exact ⟨hbelow, rfl⟩
  · rintro ⟨hbelow, hplace⟩
    obtain ⟨place, names, f⟩ := b
    dsimp only at hbelow hplace
    subst hplace
    exact .below hstat hbelow

theorem isBuildFileOf_of_file (hlstat : fs.lstat root = .ok (directory.child name, .file f)) :
    fs.IsBuildFileOf root b ↔
      name.bytes = buildFileName ∧ b = ⟨⟨root, directory.child name⟩, [], f⟩ := by
  constructor
  · rintro (⟨hname, hroot⟩ | ⟨hroot, hbelow⟩)
    · rw [hlstat, Except.ok.injEq, Prod.mk.injEq, Entry.file.injEq] at hroot
      obtain ⟨heq, rfl⟩ := hroot
      obtain ⟨rfl, rfl⟩ := Location.child_inj heq
      exact ⟨hname, rfl⟩
    · obtain ⟨hcheck, hnames⟩ := namesFile_of_lstat hlstat
      simp [hnames.stat_eq_ok hcheck] at hroot
  · rintro ⟨hname, rfl⟩
    exact .itself hname hlstat

theorem not_isBuildFileOf (hdirectory : ∀ top mode, fs.stat root ≠ .ok (top, .directory mode))
    (hfile : ∀ place f, fs.lstat root ≠ .ok (place, .file f)) : ¬ fs.IsBuildFileOf root b := by
  rintro (⟨hname, hlstat⟩ | ⟨hstat, hbelow⟩)
  · exact hfile _ _ hlstat
  · exact hdirectory _ _ hstat

/-- The paths found are those of the root's build files, in order. -/
structure ListsRoot (fs : FileSystem) (root : Path) (found : List Path) (files : List BuildFile) :
    Prop where
  found_eq : found = files.map (·.place.path)
  inOrder : files.Pairwise fun a b => Precedes a.names b.names
  mem_iff : ∀ b, b ∈ files ↔ fs.IsBuildFileOf root b

theorem ListsRoot.nothing (h : ∀ b, ¬ fs.IsBuildFileOf root b) : ListsRoot fs root [] [] :=
  ⟨rfl, .nil, by simpa using h⟩

theorem walkRoot_lists {e : Entry} (hstat : fs.stat root = .ok (location, e))
    (hstopped : (walkRoot fs false root location e).stopped = none) :
    ∃ files, ListsRoot fs root (walkRoot fs false root location e).found files := by
  have hfile : ∀ place f, fs.lstat root = .ok (place, .file f) → .file f = e := by
    intro place f hlstat
    obtain ⟨hcheck, hnames⟩ := namesFile_of_lstat hlstat
    rw [hnames.stat_eq_ok hcheck, Except.ok.injEq, Prod.mk.injEq] at hstat
    exact hstat.2
  cases e with
  | directory mode =>
    obtain ⟨files, hfiles⟩ := walkDirectory_lists (.of_stat hstat) hstopped
    refine ⟨files.map fun b => ⟨Place.below ⟨root, location⟩ b.1, b.1, b.2⟩, ?_, ?_, ?_⟩
    · rw [walkRoot, hfiles.found_eq, List.map_map]
      rfl
    · exact List.pairwise_map.mpr hfiles.inOrder
    · rintro ⟨place, names, f⟩
      simp only [isBuildFileOf_of_directory hstat, List.mem_map, hfiles.mem_iff, and_true,
        BuildFile.mk.injEq, Prod.exists]
      constructor
      · rintro ⟨_, _, hbelow, rfl, rfl, rfl⟩
        exact ⟨hbelow, rfl⟩
      · rintro ⟨hbelow, rfl⟩
        exact ⟨names, f, hbelow, rfl, rfl, rfl⟩
  | file f =>
    obtain ⟨hcheck, hto, hget⟩ := stat_eq_ok_iff.mp hstat
    obtain ⟨directory, name, e, hnames, he⟩ := exists_namesEntry_of_stat hstat
    have hlstat := hnames.lstat_eq_ok hcheck he
    rw [walkRoot_file hlstat]
    cases hlink : e.isLink with
    | true =>
      refine ⟨[], .nothing fun b => not_isBuildFileOf (by simp [hstat]) ?_⟩
      intro place g hplace
      rw [hlstat, Except.ok.injEq, Prod.mk.injEq] at hplace
      simp [hplace.2, Entry.isLink] at hlink
    | false =>
      obtain rfl := hto.unique (hnames.leadsTo he hlink)
      obtain rfl := Option.some.inj (hget.symm.trans he)
      simp only [Bool.not_false, Bool.and_true, Bool.false_eq_true, if_false]
      rw [Walk.found_file hnames]
      by_cases hname : name.bytes = buildFileName
      · rw [if_pos hname]
        refine ⟨[⟨⟨root, directory.child name⟩, [], f⟩], rfl, List.pairwise_singleton _ _, ?_⟩
        simp [isBuildFileOf_of_file hlstat, hname]
      · rw [if_neg hname]
        exact ⟨[], .nothing (by simp [isBuildFileOf_of_file hlstat, hname])⟩
  | link text =>
    refine ⟨[], .nothing fun b => not_isBuildFileOf (by simp [hstat]) ?_⟩
    intro place f hlstat
    simpa using hfile place f hlstat
  | pipe mode =>
    refine ⟨[], .nothing fun b => not_isBuildFileOf (by simp [hstat]) ?_⟩
    intro place f hlstat
    simpa using hfile place f hlstat

/-- What is found at a root, when links are not followed, are its build files in order. -/
theorem discoverRoot_lists {found : List Path}
    (h : (discoverRoot false root fs).result = .ok found) : ∃ files, ListsRoot fs root found files := by
  rcases discoverRoot_eq_ok_iff.mp h with ⟨hstat, rfl⟩ | ⟨location, e, hstat, hstopped, rfl⟩
  · refine ⟨[], .nothing fun b => not_isBuildFileOf (by simp [hstat]) ?_⟩
    intro place f hlstat
    obtain ⟨hcheck, hnames⟩ := namesFile_of_lstat hlstat
    simp [hnames.stat_eq_ok hcheck] at hstat
  · exact walkRoot_lists hstat hstopped

theorem exists_buildFile_of_discover {roots files : List Path}
    (h : (discover false roots fs).result = .ok files) :
    ∀ path ∈ files, ∃ root ∈ roots, ∃ b, fs.IsBuildFileOf root b ∧ b.place.path = path := by
  intro path hpath
  obtain ⟨root, hroot, found, hfound, hpath⟩ := exists_root_of_discover h path hpath
  obtain ⟨buildFiles, hlists⟩ := discoverRoot_lists hfound
  rw [hlists.found_eq] at hpath
  obtain ⟨b, hb, rfl⟩ := List.mem_map.mp hpath
  exact ⟨root, hroot, b, (hlists.mem_iff b).mp hb, rfl⟩

theorem namesFile_of_discover {roots files : List Path}
    (h : (discover false roots fs).result = .ok files) :
    ∀ path ∈ files, ∃ location f, fs.NamesFile path location f := by
  intro path hpath
  obtain ⟨root, -, b, hb, rfl⟩ := exists_buildFile_of_discover h path hpath
  exact ⟨_, _, hb.namesFile⟩

end Repoint
