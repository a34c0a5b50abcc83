import Mathlib.Data.List.Forall2
import Repoint.FileSystem.Stage
import Repoint.Proofs.Discovery.Listing

/-!
# One block for each root

Different names below a root make different paths, so what comes in the order of names comes once.
-/

namespace Repoint

open FileSystem

variable {fs : FileSystem} {follow : Bool} {root : Path} {roots files : List Path}

/-! ## Paths made of names -/

namespace Path

/-- The path of what names lead to below a directory. -/
def down (path : Path) (names : List Name) : Path :=
  names.foldl (fun path name => path.join name.bytes) path

theorem down_cons (path : Path) (name : Name) (names : List Name) :
    path.down (name :: names) = (path.join name.bytes).down names := rfl

theorem down_append (path : Path) (a b : List Name) : path.down (a ++ b) = (path.down a).down b :=
  List.foldl_append

theorem join_eq_append (path : Path) (name : Bytes) : path.join name = path.join [] ++ name := by
  unfold join
  split <;> simp

theorem join_join_nil (path : Path) (name : Name) :
    (path.join name.bytes).join [] = path.join name.bytes ++ [slash] := by
  obtain ⟨hne, -, -, hslash, -⟩ := name.isName
  have hlast : (path.join name.bytes).getLast? ≠ some slash := by
    rw [join_eq_append, List.getLast?_append_of_ne_nil _ hne]
    intro h
    exact hslash (List.mem_of_getLast? h)
  have hnil : path.join name.bytes ≠ [] := by
    rw [join_eq_append]
    simp [hne]
  rw [join, if_neg (not_or.mpr ⟨hnil, hlast⟩)]

theorem down_eq_append (path : Path) {names : List Name} (hne : names ≠ []) :
    path.down names = path.join [] ++ joinWith slash (names.map (·.bytes)) := by
  unfold joinWith
  induction names generalizing path with
  | nil => exact absurd rfl hne
  | cons name rest ih =>
    cases rest with
    | nil =>
      rw [List.map_singleton, List.intercalate_singleton, ← join_eq_append]
      rfl
    | cons next rest =>
      rw [down_cons, ih _ (by simp), join_join_nil, join_eq_append path name.bytes]
      simp only [List.map_cons, List.intercalate_cons_cons, List.append_assoc]

theorem length_lt_down (path : Path) {names : List Name} (hne : names ≠ []) :
    path.length < (path.down names).length := by
  induction names generalizing path with
  | nil => exact absurd rfl hne
  | cons name rest ih =>
    have hjoin : path.length < (path.join name.bytes).length := by
      have hname := List.length_pos_iff.mpr name.isName.1
      rw [join_eq_append, List.length_append]
      have hle : path.length ≤ (path.join []).length := by
        unfold join
        split <;> simp
      omega
    rw [down_cons]
    by_cases hrest : rest = []
    · subst hrest
      exact hjoin
    · exact Nat.lt_trans hjoin (ih _ hrest)

theorem down_injective (path : Path) : Function.Injective path.down := by
  intro a b h
  by_cases ha : a = [] <;> by_cases hb : b = []
  · rw [ha, hb]
  · have hlt := path.length_lt_down hb
    rw [← h, ha] at hlt
    exact absurd hlt (Nat.lt_irrefl _)
  · have hlt := path.length_lt_down ha
    rw [h, hb] at hlt
    exact absurd hlt (Nat.lt_irrefl _)
  · have hslash : ∀ names : List Name, ∀ piece ∈ names.map (·.bytes), slash ∉ piece := by
      intro names piece hpiece
      obtain ⟨name, -, rfl⟩ := List.mem_map.mp hpiece
      exact name.isName.2.2.2.1
    rw [down_eq_append path ha, down_eq_append path hb, List.append_cancel_left_eq] at h
    have hpieces := congrArg (splitOn slash) h
    rw [splitOn_joinWith (by simpa using ha) (hslash a),
      splitOn_joinWith (by simpa using hb) (hslash b)] at hpieces
    exact List.map_injective_iff.mpr (fun _ _ => Name.eq_of_bytes) hpieces

end Path

theorem nodup_map_down (path : Path) {files : List (List Name)} (h : files.Pairwise Precedes) :
    (files.map path.down).Nodup := by
  apply List.pairwise_map.mpr
  apply h.imp
  intro a b hprecedes heq
  rw [path.down_injective heq] at hprecedes
  exact not_precedes_self b hprecedes

theorem Place.path_below (place : Place) (names : List Name) :
    (place.below names).path = place.path.down names := by
  induction names generalizing place with
  | nil => rfl
  | cons name names ih => exact ih (place.child name)

theorem FileSystem.IsBuildFileOf.path_eq {b : BuildFile} (h : fs.IsBuildFileOf root b) :
    b.place.path = root.down b.names := by
  cases h with
  | itself hname hlstat => rfl
  | below hstat hbelow => exact Place.path_below _ _

theorem ListsRoot.found_eq_down {found : List Path} {files : List BuildFile}
    (h : ListsRoot fs root found files) : found = files.map fun b => root.down b.names := by
  rw [h.found_eq]
  apply List.map_congr_left
  intro b hb
  exact ((h.mem_iff b).mp hb).path_eq

theorem ListsRoot.nodup {found : List Path} {files : List BuildFile}
    (h : ListsRoot fs root found files) : found.Nodup := by
  have hinOrder := List.pairwise_map.mpr h.inOrder
  rw [h.found_eq_down, ← Function.comp_def root.down, ← List.map_map]
  exact nodup_map_down root hinOrder

/-! ## One root after the other -/

theorem discover_eq_ok_iff :
    (discover follow roots fs).result = .ok files ↔
      ∃ blocks, List.Forall₂ (fun root block => (discoverRoot follow root fs).result = .ok block)
        roots blocks ∧ blocks.flatten = files := by
  induction roots generalizing files with
  | nil =>
    have hnil : (discover follow [] fs).result = .ok [] := rfl
    simp [hnil]
  | cons root rest ih =>
    simp only [discover_cons_eq_ok_iff, List.forall₂_cons_left_iff, ih]
    constructor
    · rintro ⟨found, _, hfound, ⟨blocks, hblocks, rfl⟩, rfl⟩
      exact ⟨found :: blocks, ⟨found, blocks, hfound, hblocks, rfl⟩, rfl⟩
    · rintro ⟨_, ⟨found, blocks, hfound, hblocks, rfl⟩, rfl⟩
      exact ⟨found, _, hfound, ⟨blocks, hblocks, rfl⟩, rfl⟩

/-- What is found at a root, and nothing if the search fails there. -/
def foundAt (follow : Bool) (fs : FileSystem) (root : Path) : List Path :=
  match (discoverRoot follow root fs).result with
  | .ok found => found
  | .error _ => []

theorem discover_eq_flatMap (h : (discover follow roots fs).result = .ok files) :
    files = roots.flatMap (foundAt follow fs) := by
  induction roots generalizing files with
  | nil =>
    obtain rfl : [] = files := Except.ok.inj h
    rfl
  | cons root rest ih =>
    obtain ⟨found, more, hfound, hmore, rfl⟩ := discover_cons_eq_ok_iff.mp h
    rw [List.flatMap_cons, ← ih hmore, foundAt, hfound]

theorem discover_error_of_root {before after found : List Path} {e : Error}
    (hbefore : (discover follow before fs).result = .ok found)
    (hroot : (discoverRoot follow root fs).result = .error e) :
    (discover follow (before ++ root :: after) fs).result = .error e := by
  induction before generalizing found with
  | nil => rw [List.nil_append, discover, Job.bind_of_error hroot]
  | cons first before ih =>
    obtain ⟨block, more, hblock, hmore, -⟩ := discover_cons_eq_ok_iff.mp hbefore
    rw [List.cons_append, discover, Job.bind_of_ok hblock, stateAfter_discoverRoot]
    exact map_eq_error.mpr (ih hmore)

theorem discover_succeeds_iff : (∃ files, (discover follow roots fs).result = .ok files) ↔
    ∀ root ∈ roots, ∃ block, (discoverRoot follow root fs).result = .ok block := by
  induction roots with
  | nil => exact iff_of_true ⟨[], rfl⟩ (by simp)
  | cons root rest ih =>
    rw [List.forall_mem_cons, ← ih]
    constructor
    · rintro ⟨files, hfiles⟩
      obtain ⟨block, more, hblock, hmore, -⟩ := discover_cons_eq_ok_iff.mp hfiles
      exact ⟨⟨block, hblock⟩, more, hmore⟩
    · rintro ⟨⟨block, hblock⟩, more, hmore⟩
      exact ⟨block ++ more, discover_cons_eq_ok_iff.mpr ⟨block, more, hblock, hmore, rfl⟩⟩

theorem discover_error_of_mem {e : Error} (hmem : root ∈ roots)
    (hroot : (discoverRoot follow root fs).result = .error e) :
    ∃ e', (discover follow roots fs).result = .error e' := by
  cases hfound : (discover follow roots fs).result with
  | error e' => exact ⟨e', rfl⟩
  | ok found =>
    obtain ⟨block, hblock⟩ := discover_succeeds_iff.mp ⟨found, hfound⟩ root hmem
    simp [hblock] at hroot

theorem discoverRoot_of_stat_error (follow : Bool) {cause : OsError}
    (hstat : fs.stat root = .error cause) (hcause : cause ≠ .noEntry) :
    (discoverRoot follow root fs).result = .error (.stat root cause) := by
  unfold discoverRoot
  split
  · next h =>
    rw [hstat, Except.error.injEq] at h
    exact absurd h hcause
  · next cause' _ h =>
    rw [hstat, Except.error.injEq] at h
    rw [h]
  · next h => simp [hstat] at h

/-! ## Links not followed -/

/-- **Discovery without links.** What is found is a block for each root, in the order of the roots: the
paths of its build files, each once, in the byte order of names. -/
theorem discover_blocks (roots : List Path) (fs : FileSystem) :
    (∀ found, (discover false roots fs).result = .ok found →
      ∃ blocks : List (List Path), found = blocks.flatten ∧
        List.Forall₂ (fun root block =>
          (fs.stat root = .error .noEntry → block = []) ∧
          block.Nodup ∧
          ∃ files : List BuildFile, block = files.map (fun b => root.down b.names) ∧
            (∀ b, b ∈ files ↔ fs.IsBuildFileOf root b) ∧
            files.Pairwise (fun a b => Precedes a.names b.names)) roots blocks) ∧
    (∀ before root after cause, roots = before ++ root :: after → fs.stat root = .error cause →
      cause ≠ .noEntry →
      ∃ e, (discover false roots fs).result = .error e ∧
        ∀ found, (discover false before fs).result = .ok found → e = .stat root cause) := by
  constructor
  · intro found hfound
    obtain ⟨blocks, hblocks, rfl⟩ := discover_eq_ok_iff.mp hfound
    refine ⟨blocks, rfl, hblocks.imp ?_⟩
    intro root block hblock
    obtain ⟨files, hlists⟩ := discoverRoot_lists hblock
    refine ⟨?_, hlists.nodup, files, hlists.found_eq_down, hlists.mem_iff, hlists.inOrder⟩
    intro hstat
    rcases discoverRoot_eq_ok_iff.mp hblock with ⟨-, hnil⟩ | ⟨location, e, hok, -⟩
    · exact hnil
    · simp [hok] at hstat
  · rintro before root after cause rfl hstat hcause
    have hroot := discoverRoot_of_stat_error false hstat hcause
    have hmem : root ∈ before ++ root :: after := by simp
    obtain ⟨e, he⟩ := discover_error_of_mem hmem hroot
    refine ⟨e, he, ?_⟩
    intro found hfound
    rw [discover_error_of_root hfound hroot, Except.error.injEq] at he
    exact he.symm

/-- The tree that holds these entries below its root, each of them named after its directory. -/
def FileSystem.ofEntries (entries : List (Path × Entry)) : FileSystem :=
  entries.foldl
    (fun fs (path, e) => fs.put (.ofNames (path.pieces.filterMap Name.ofBytes?).reverse) e)
    (FileSystem.empty .root)

/-- A build file in each of two directories, a link to one of them beside the directories, and a link to
the top. -/
def hyphenTree : FileSystem :=
  let file : File := { data := sourceDir, mode := 0o644 }
  .ofEntries
    [(ascii "src", .directory 0o755), (ascii "src/a-b", .directory 0o755),
      (ascii "src/a-b/CMakeLists.txt", .file file), (ascii "src/a", .directory 0o755),
      (ascii "src/a/CMakeLists.txt", .file file),
      (ascii "src/CMakeLists.txt", .link (ascii "a/CMakeLists.txt")),
      (ascii "top", .link (ascii "src"))]

/-- The names put `a` first, and the bytes of the whole paths would put `a-b` first. -/
theorem discover_blocks_hyphenTree :
    let roots := [ascii "gone", ascii "top", ascii "src/a/CMakeLists.txt"]
    let found := [ascii "top/a/CMakeLists.txt", ascii "top/a-b/CMakeLists.txt",
      ascii "src/a/CMakeLists.txt"]
    let failing := [ascii "top", ascii "top/CMakeLists.txt/more", ascii "gone"]
    (discover false roots hyphenTree).result = .ok found ∧
    (∃ blocks : List (List Path), found = blocks.flatten ∧
      List.Forall₂ (fun root block =>
        (hyphenTree.stat root = .error .noEntry → block = []) ∧
        block.Nodup ∧
        ∃ files : List BuildFile, block = files.map (fun b => root.down b.names) ∧
          (∀ b, b ∈ files ↔ hyphenTree.IsBuildFileOf root b) ∧
          files.Pairwise (fun a b => Precedes a.names b.names)) roots blocks) ∧
    ascii "top/a-b/CMakeLists.txt" < ascii "top/a/CMakeLists.txt" ∧
    hyphenTree.stat (ascii "top/CMakeLists.txt/more") = .error .notDirectory ∧
    ∃ e, (discover false failing hyphenTree).result = .error e ∧
      ∀ found, (discover false [ascii "top"] hyphenTree).result = .ok found →
        e = .stat (ascii "top/CMakeLists.txt/more") .notDirectory := by
  intro roots found failing
  have hfound : (discover false roots hyphenTree).result = .ok found := by decide +kernel
  have hstat : hyphenTree.stat (ascii "top/CMakeLists.txt/more") = .error .notDirectory := by
    decide +kernel
  exact ⟨hfound, (discover_blocks roots hyphenTree).1 found hfound, by decide, hstat,
    (discover_blocks failing hyphenTree).2 [ascii "top"] _ [ascii "gone"] _ rfl hstat (by decide)⟩

end Repoint
