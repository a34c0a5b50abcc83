import Repoint.Discovery
import Repoint.Proofs.FileSystem.Naming

/-!
# Walks

In every directory of a walk the path that it was reached by leads to that directory.
-/

namespace Repoint

open FileSystem

variable {fs : FileSystem} {follow : Bool} {above : List Place} {here : Place} {name : Name}
  {location place : Location} {root : Path}

/-! ## One walk after another -/

namespace Walk

variable {walks : List Walk}

theorem concat_cons (walk : Walk) (walks : List Walk) :
    concat (walk :: walks) = walk.andThen (concat walks) := rfl

theorem stopped_concat : (concat walks).stopped = none ↔ ∀ walk ∈ walks, walk.stopped = none := by
  induction walks with
  | nil => simp [concat]
  | cons walk walks ih =>
    rw [concat_cons, List.forall_mem_cons, ← ih, andThen]
    split
    · next e h => simp [h]
    · next h => simp [h]

theorem mem_found_concat {path : Path} (h : path ∈ (concat walks).found) :
    ∃ walk ∈ walks, path ∈ walk.found := by
  induction walks with
  | nil => simp [concat] at h
  | cons walk walks ih =>
    rw [concat_cons, andThen] at h
    split at h
    · exact ⟨walk, List.mem_cons_self, h⟩
    · rcases List.mem_append.mp h with h | h
      · exact ⟨walk, List.mem_cons_self, h⟩
      · obtain ⟨other, hother, hpath⟩ := ih h
        exact ⟨other, List.mem_cons_of_mem _ hother, hpath⟩

theorem mem_found_file {path other : Path} :
    other ∈ (file path).found ↔ path.namesBuildFile ∧ other = path := by
  unfold file
  split <;> simp [*]

theorem found_concat (h : (concat walks).stopped = none) :
    (concat walks).found = walks.flatMap (·.found) := by
  induction walks with
  | nil => rfl
  | cons walk walks ih =>
    obtain ⟨hwalk, hrest⟩ := List.forall_mem_cons.mp (stopped_concat.mp h)
    rw [concat_cons, andThen, hwalk, List.flatMap_cons, ← ih (stopped_concat.mpr hrest)]

end Walk

/-! ## The entries of a directory -/

theorem isOutside_of_find? {places : List Place}
    (h : places.find? (·.location = location) = none) : isOutside places location := by
  rw [isOutside, List.all_eq_true]
  simpa using h

def walkLink (fs : FileSystem) (places : List Place) (path : Path) : Walk :=
  match fs.stat path with
  | .error e => .stop (.os path e)
  | .ok (_, .file _) => .file path
  | .ok (target, .directory _) =>
    match places.find? (·.location = target) with
    | some ancestor => .stop (.loop path ancestor.path)
    | none => walkDirectory fs true places { path, location := target }
  | .ok _ => {}

def walkEntry (fs : FileSystem) (follow : Bool) (above : List Place) (here : Place) (name : Name) :
    Walk :=
  match fs.get? (here.location.child name) with
  | some (.file _) => .file (here.child name).path
  | some (.directory _) => walkDirectory fs follow (here :: above) (here.child name)
  | some (.link _) => if follow then walkLink fs (here :: above) (here.child name).path else {}
  | _ => {}

theorem walkDirectory_eq (fs : FileSystem) (follow : Bool) (above : List Place) (here : Place) :
    walkDirectory fs follow above here =
      if pathLimit ≤ here.path.length then .stop (.os here.path .nameTooLong)
      else .concat ((fs.names here.location).map (walkEntry fs follow above here)) := by
  rw [walkDirectory]
  congr 2
  apply List.map_congr_left
  intro name _
  unfold walkEntry walkLink
  dsimp only [Place.child]
  split
  · next f hget => simp only [hget]
  · next hget => simp only [hget]
  · next text hget =>
    simp only [hget]
    cases follow with
    | false => simp only [Bool.false_eq_true, if_false]
    | true =>
      simp only [if_true]
      split
      · next e hstat => simp only [hstat]
      · next hstat => simp only [hstat]
      · next target hstat =>
        simp only [hstat]
        split
        · next ancestor hloop => simp only [hloop]
        · next hloop => simp only [hloop]
      · next found hfile hdir hstat => simp only [hstat]
  · simp only

/-- What holds of a directory when it holds of all that is entered from it holds of every directory. -/
@[elab_as_elim]
theorem walkInduction (fs : FileSystem) {motive : List Place → Place → Prop}
    (step : ∀ above here, (∀ there,
      fs.walkMeasure (here :: above) there < fs.walkMeasure above here →
        motive (here :: above) there) → motive above here)
    (above : List Place) (here : Place) : motive above here := by
  induction hm : fs.walkMeasure above here using Nat.strongRecOn generalizing above here with
  | ind m ih =>
    apply step
    intro there hlt
    exact ih _ (hm ▸ hlt) _ _ rfl

/-! ## Where a walk is -/

/-- The place is a directory, and its path leads there. -/
structure Place.IsAt (fs : FileSystem) (place : Place) : Prop where
  path_ne_nil : place.path ≠ []
  leadsTo : fs.LeadsTo place.path place.location
  directory : fs.IsDirectory place.location

namespace Place.IsAt

theorem of_stat {path : Path} {mode : Nat} (h : fs.stat path = .ok (location, .directory mode)) :
    Place.IsAt fs { path, location } := by
  obtain ⟨hcheck, hto, hget⟩ := stat_eq_ok_iff.mp h
  refine ⟨?_, hto, mode, hget⟩
  rintro rfl
  simp [checkPath] at hcheck

theorem namesEntry (h : here.IsAt fs) (name : Name) :
    fs.NamesEntry (here.child name).path here.location name :=
  h.leadsTo.namesEntry_join h.path_ne_nil h.directory name

theorem child (h : here.IsAt fs) (hdir : fs.IsDirectory (here.location.child name)) :
    (here.child name).IsAt fs := by
  obtain ⟨mode, hget⟩ := hdir
  exact ⟨Path.join_ne_nil _ h.path_ne_nil, (h.namesEntry name).leadsTo hget rfl, mode, hget⟩

end Place.IsAt

/-! ## Roots -/

theorem walkRoot_file {e : Entry} (hlstat : fs.lstat root = .ok (place, e)) (follow : Bool)
    (location : Location) (f : File) :
    walkRoot fs follow root location (.file f) =
      if e.isLink && !follow then {} else .file root := by
  unfold walkRoot
  rw [hlstat]
  cases e <;> rfl

theorem discoverRoot_eq_ok_iff {found : List Path} :
    (discoverRoot follow root fs).result = .ok found ↔
      (fs.stat root = .error .noEntry ∧ found = []) ∨
      ∃ location e, fs.stat root = .ok (location, e) ∧
        (walkRoot fs follow root location e).stopped = none ∧
        (walkRoot fs follow root location e).found = found := by
  unfold discoverRoot
  split
  · next hstat => simp [hstat, eq_comm]
  · next cause hne hstat =>
    have hnot : cause ≠ .noEntry := hne
    simp [hstat, hnot]
  · next location e hstat =>
    simp only [hstat, reduceCtorEq, false_and, false_or, Except.ok.injEq, Prod.mk.injEq]
    constructor
    · intro h
      refine ⟨location, e, ⟨rfl, rfl⟩, ?_⟩
      split at h
      · next hstopped => exact ⟨hstopped, Except.ok.inj h⟩
      · simp at h
    · rintro ⟨_, _, ⟨rfl, rfl⟩, hstopped, rfl⟩
      rw [hstopped]

theorem operations_discoverRoot (follow : Bool) (root : Path) (fs : FileSystem) :
    (discoverRoot follow root fs).operations = [] := by
  unfold discoverRoot
  split <;> rfl

theorem stateAfter_discoverRoot (follow : Bool) (root : Path) (fs : FileSystem) :
    (discoverRoot follow root).stateAfter fs = fs := by
  rw [Job.stateAfter, operations_discoverRoot, performAll_nil]

theorem operations_discover (follow : Bool) (roots : List Path) (fs : FileSystem) :
    (discover follow roots fs).operations = [] := by
  induction roots with
  | nil => rfl
  | cons root rest ih =>
    rw [discover]
    cases hfound : (discoverRoot follow root fs).result with
    | error e => rw [Job.bind_of_error hfound, operations_discoverRoot]
    | ok found =>
      rw [Job.bind_of_ok hfound, operations_discoverRoot, stateAfter_discoverRoot]
      exact ih

theorem stateAfter_discover (follow : Bool) (roots : List Path) (fs : FileSystem) :
    (discover follow roots).stateAfter fs = fs := by
  rw [Job.stateAfter, operations_discover, performAll_nil]

theorem discover_cons_eq_ok_iff {rest : List Path} {files : List Path} :
    (discover follow (root :: rest) fs).result = .ok files ↔
      ∃ found more, (discoverRoot follow root fs).result = .ok found ∧
        (discover follow rest fs).result = .ok more ∧ found ++ more = files := by
  rw [discover, Job.result_bind_eq_ok, stateAfter_discoverRoot]
  simp only [Job.result_map_eq_ok, exists_and_left]

theorem discover_singleton_eq_ok_iff {files : List Path} :
    (discover follow [root] fs).result = .ok files ↔
      (discoverRoot follow root fs).result = .ok files := by
  rw [discover_cons_eq_ok_iff]
  constructor
  · rintro ⟨found, more, hfound, hmore, rfl⟩
    obtain rfl : [] = more := Except.ok.inj hmore
    rwa [List.append_nil]
  · intro h
    exact ⟨files, [], h, rfl, List.append_nil files⟩

theorem exists_root_of_discover {roots files : List Path}
    (h : (discover follow roots fs).result = .ok files) :
    ∀ path ∈ files, ∃ root ∈ roots, ∃ found,
      (discoverRoot follow root fs).result = .ok found ∧ path ∈ found := by
  induction roots generalizing files with
  | nil =>
    obtain rfl : [] = files := Except.ok.inj h
    simp
  | cons root rest ih =>
    obtain ⟨found, more, hfound, hmore, rfl⟩ := discover_cons_eq_ok_iff.mp h
    intro path hpath
    rcases List.mem_append.mp hpath with hpath | hpath
    · exact ⟨root, List.mem_cons_self, found, hfound, hpath⟩
    · obtain ⟨other, hother, hrest⟩ := ih hmore path hpath
      exact ⟨other, List.mem_cons_of_mem _ hother, hrest⟩

/-! ## What is found -/

/-- The path ends in the name of a build file, and leads to a file unless it is too long to be
followed. -/
structure FileSystem.IsFound (fs : FileSystem) (path : Path) : Prop where
  named : path.namesBuildFile
  stat : checkPath path = .ok () → ∃ location f, fs.stat path = .ok (location, .file f)

theorem walkLink_isFound {places : List Place} {path : Path}
    (hwalk : ∀ location mode, fs.stat path = .ok (location, .directory mode) → isOutside places location →
      ∀ other ∈ (walkDirectory fs true places { path, location }).found, fs.IsFound other) :
    ∀ other ∈ (walkLink fs places path).found, fs.IsFound other := by
  intro other hother
  unfold walkLink at hother
  split at hother
  · simp [Walk.stop] at hother
  · next location f hstat =>
    obtain ⟨hnamed, rfl⟩ := Walk.mem_found_file.mp hother
    exact ⟨hnamed, fun _ => ⟨location, f, hstat⟩⟩
  · next location mode hstat =>
    split at hother
    · simp [Walk.stop] at hother
    · next hloop => exact hwalk location mode hstat (isOutside_of_find? hloop) other hother
  · simp at hother

theorem walkEntry_isFound (hhere : here.IsAt fs)
    (hwalk : ∀ there, there.IsAt fs →
      fs.walkMeasure (here :: above) there < fs.walkMeasure above here →
      ∀ path ∈ (walkDirectory fs follow (here :: above) there).found, fs.IsFound path) :
    ∀ path ∈ (walkEntry fs follow above here name).found, fs.IsFound path := by
  intro path hpath
  unfold walkEntry at hpath
  split at hpath
  · next f hget =>
    obtain ⟨hnamed, rfl⟩ := Walk.mem_found_file.mp hpath
    have hfile : fs.NamesFile (here.child name).path (here.location.child name) f :=
      ⟨here.location, name, rfl, hhere.namesEntry name, hget⟩
    exact ⟨hnamed, fun hcheck => ⟨_, f, hfile.stat_eq_ok hcheck⟩⟩
  · next mode hget =>
    exact hwalk _ (hhere.child ⟨mode, hget⟩) (walkMeasure_child_lt ⟨mode, hget⟩) path hpath
  · cases follow with
    | false => simp at hpath
    | true =>
      refine walkLink_isFound ?_ path hpath
      intro location mode hstat houtside
      have hthere := Place.IsAt.of_stat hstat
      exact hwalk _ hthere (walkMeasure_link_lt hthere.directory houtside)
  · simp at hpath

theorem walkDirectory_isFound (hhere : here.IsAt fs) :
    ∀ path ∈ (walkDirectory fs follow above here).found, fs.IsFound path := by
  induction above, here using walkInduction fs with
  | step above here ih =>
    intro path hpath
    rw [walkDirectory_eq] at hpath
    split at hpath
    · simp [Walk.stop] at hpath
    · obtain ⟨walk, hwalk, hpath⟩ := Walk.mem_found_concat hpath
      obtain ⟨name, -, rfl⟩ := List.mem_map.mp hwalk
      refine walkEntry_isFound hhere ?_ path hpath
      intro there hthere hlt
      exact ih there hlt hthere

theorem discoverRoot_isFound {found : List Path}
    (h : (discoverRoot follow root fs).result = .ok found) : ∀ path ∈ found, fs.IsFound path := by
  intro path hpath
  rcases discoverRoot_eq_ok_iff.mp h with ⟨-, rfl⟩ | ⟨location, e, hstat, -, rfl⟩
  · simp at hpath
  · cases e with
    | directory mode => exact walkDirectory_isFound (.of_stat hstat) path hpath
    | file f =>
      obtain ⟨place, x, hlstat⟩ := exists_lstat_of_stat hstat
      rw [walkRoot_file hlstat] at hpath
      split at hpath
      · simp at hpath
      · obtain ⟨hnamed, rfl⟩ := Walk.mem_found_file.mp hpath
        exact ⟨hnamed, fun _ => ⟨location, f, hstat⟩⟩
    | link text => simp [walkRoot] at hpath
    | pipe mode => simp [walkRoot] at hpath

theorem isFound_of_discover {roots files : List Path}
    (h : (discover follow roots fs).result = .ok files) : ∀ path ∈ files, fs.IsFound path := by
  intro path hpath
  obtain ⟨root, -, found, hfound, hpath⟩ := exists_root_of_discover h path hpath
  exact discoverRoot_isFound hfound path hpath

end Repoint
