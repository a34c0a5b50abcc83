import Repoint.Job

/-!
# Finding build files

A depth-first walk, in the byte order of names, that collects the files named as build files. Followed
links count as what they lead to.
-/

namespace Repoint

/-! ## Walks -/

/-- The build files a walk has met, in order, and the error that ended it. -/
structure Walk where
  found : List Path := []
  stopped : Option WalkError := none

namespace Walk

/-- One walk after another, unless the first was stopped. -/
def andThen (a b : Walk) : Walk :=
  match a.stopped with
  | some _ => a
  | none => { found := a.found ++ b.found, stopped := b.stopped }

def concat (walks : List Walk) : Walk := walks.foldr andThen {}

def file (path : Path) : Walk := { found := if path.namesBuildFile then [path] else [] }

def stop (e : WalkError) : Walk := { stopped := some e }

end Walk

/-- A directory that a walk is in: the path it was reached by, and where it is. -/
structure Place where
  path : Path
  location : Location

def Place.child (place : Place) (name : Name) : Place :=
  { path := place.path.join name.bytes, location := place.location.child name }

/-! ## The end of a walk

Following a link leads to a directory that the walk is not inside of, and there are only finitely
many; every other step goes deeper, and nothing lies deeper than the height of the file system. -/

/-- The walk is not inside the directory at this location. -/
def isOutside (places : List Place) (location : Location) : Bool :=
  places.all fun place => place.location ≠ location

theorem isOutside_of_cons {place : Place} {places : List Place} {location : Location}
    (h : isOutside (place :: places) location) : isOutside places location := by
  simp only [isOutside, List.all_cons, Bool.and_eq_true] at h ⊢
  exact h.2

/-- How many directories the walk is not inside of. -/
def FileSystem.outside (fs : FileSystem) (places : List Place) : Nat :=
  fs.directories.countP (isOutside places)

theorem FileSystem.outside_cons_le (fs : FileSystem) (place : Place) (places : List Place) :
    fs.outside (place :: places) ≤ fs.outside places :=
  List.countP_mono_left fun _ _ => isOutside_of_cons

theorem countP_isOutside_cons_lt {place : Place} {places : List Place} {locations : List Location}
    (hmem : place.location ∈ locations) (hnew : isOutside places place.location) :
    locations.countP (isOutside (place :: places)) < locations.countP (isOutside places) := by
  have hinside : isOutside (place :: places) place.location = false := by simp [isOutside]
  induction locations with
  | nil => cases hmem
  | cons first rest ih =>
    rw [List.countP_cons, List.countP_cons]
    rcases List.mem_cons.mp hmem with rfl | hmem
    · have hle : rest.countP (isOutside (place :: places)) ≤ rest.countP (isOutside places) :=
        List.countP_mono_left fun _ _ => isOutside_of_cons
      rw [hinside, hnew]
      simp only [Bool.false_eq_true, if_false, if_true]
      omega
    · have hlt := ih hmem
      by_cases h : isOutside (place :: places) first
      · rw [if_pos h, if_pos (isOutside_of_cons h)]
        omega
      · rw [if_neg h]
        omega

theorem FileSystem.outside_cons_lt {fs : FileSystem} {place : Place} {places : List Place}
    (hdir : fs.IsDirectory place.location) (hnew : isOutside places place.location) :
    fs.outside (place :: places) < fs.outside places :=
  countP_isOutside_cons_lt (mem_directories hdir) hnew

/-- What gets smaller with every directory that a walk enters: first the number of directories it is
not inside of, then the room below it. -/
def FileSystem.walkMeasure (fs : FileSystem) (above : List Place) (here : Place) : Nat :=
  fs.outside (here :: above) * (fs.height + 1) + (fs.height - here.location.depth)

theorem FileSystem.walkMeasure_child_lt {fs : FileSystem} {above : List Place} {here : Place}
    {name : Name} (hentry : fs.IsDirectory (here.child name).location) :
    fs.walkMeasure (here :: above) (here.child name) < fs.walkMeasure above here := by
  have hle := Nat.mul_le_mul_right (fs.height + 1)
    (fs.outside_cons_le (here.child name) (here :: above))
  obtain ⟨mode, hget⟩ := hentry
  have hheight := depth_le_height_of_get? hget
  have hdeeper : (here.child name).location.depth = here.location.depth + 1 := rfl
  unfold walkMeasure
  omega

theorem FileSystem.walkMeasure_link_lt {fs : FileSystem} {above : List Place} {here there : Place}
    (hdir : fs.IsDirectory there.location)
    (hnew : isOutside (here :: above) there.location) :
    fs.walkMeasure (here :: above) there < fs.walkMeasure above here := by
  have hle := Nat.mul_le_mul_right (fs.height + 1) (Nat.succ_le_of_lt (outside_cons_lt hdir hnew))
  rw [Nat.succ_mul] at hle
  unfold walkMeasure
  omega

/-- Walks through a directory; `above` are the places that lead to it, the nearest first. -/
def walkDirectory (fs : FileSystem) (follow : Bool) (above : List Place) (here : Place) : Walk :=
  if FileSystem.pathLimit ≤ here.path.length then .stop (.os here.path .nameTooLong)
  else .concat <| (fs.names here.location).map fun name =>
    let child := here.child name
    match _hentry : fs.get? child.location with
    | some (.file _) => .file child.path
    | some (.directory _) => walkDirectory fs follow (here :: above) child
    | some (.link _) =>
      if follow then
        match _hstat : fs.stat child.path with
        | .error e => .stop (.os child.path e)
        | .ok (_, .file _) => .file child.path
        | .ok (target, .directory _) =>
          match _hloop : (here :: above).find? (·.location = target) with
          | some ancestor => .stop (.loop child.path ancestor.path)
          | none => walkDirectory fs follow (here :: above) { path := child.path, location := target }
        | .ok _ => {}
      else {}
    | _ => {}
termination_by fs.walkMeasure above here
decreasing_by
  · exact FileSystem.walkMeasure_child_lt ⟨_, _hentry⟩
  · refine FileSystem.walkMeasure_link_lt ⟨_, FileSystem.get?_of_stat _hstat⟩ ?_
    rw [isOutside, List.all_eq_true]
    intro place hplace
    simpa using List.find?_eq_none.mp _hloop place hplace

/-! ## Roots -/

/-- Walks through what a root leads to. A root that is a link to a directory is walked through in any
case; one that is a link to a file counts as a file only when links are followed. -/
def walkRoot (fs : FileSystem) (follow : Bool) (root : Path) (location : Location) (e : Entry) :
    Walk :=
  match e with
  | .directory _ => walkDirectory fs follow [] { path := root, location }
  | .file _ =>
    let isLink := match fs.lstat root with
      | .ok (_, .link _) => true
      | _ => false
    if isLink && !follow then {} else .file root
  | _ => {}

/-- The build files below one root. A root that does not exist has none. -/
def discoverRoot (follow : Bool) (root : Path) : Job (List Path) := fun fs =>
  match fs.stat root with
  | .error .noEntry => { events := [.missingRoot root], result := .ok [] }
  | .error cause => { result := .error (.stat root cause) }
  | .ok (location, e) =>
    let walk := walkRoot fs follow root location e
    { events := walk.found.map .foundBuildFile
      result := match walk.stopped with
        | none => .ok walk.found
        | some cause => .error (.walk root cause) }

/-- The build files below the roots, one root after the other. -/
def discover (follow : Bool) : List Path → Job (List Path)
  | [] => return []
  | root :: rest => do
    let found ← discoverRoot follow root
    (found ++ ·) <$> discover follow rest

end Repoint
