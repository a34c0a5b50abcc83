import Repoint.Proofs.Discovery.Blocks

/-!
# What stops a walk that follows links

A link into a directory that the walk is inside of stops it, and any other step leads deeper or to a
directory that it is not inside of, so it comes to an end.
-/

namespace Repoint

open FileSystem

variable {fs : FileSystem} {above above' : List Place} {here there last : Place} {name : Name}
  {names : List Name} {location : Location} {cause : WalkError} {text : Bytes}

/-! ## Going down -/

/-- From a directory the walk goes into another one: an entry that is a directory, or one that a link
leads to and that the walk is not inside of. -/
inductive FileSystem.Enters (fs : FileSystem) (above : List Place) (here : Place) (name : Name) :
    Place → Prop
  | directory (hdir : fs.IsDirectory (here.location.child name)) :
      fs.Enters above here name (here.child name)
  | link {text : Bytes} {target : Location} {mode : Nat}
      (hget : fs.get? (here.location.child name) = some (.link text))
      (hstat : fs.stat (here.child name).path = .ok (target, .directory mode))
      (houtside : isOutside (here :: above) target) :
      fs.Enters above here name { path := (here.child name).path, location := target }

/-- Names lead a walk down, from one directory with the places above it to another. -/
inductive FileSystem.Descends (fs : FileSystem) :
    List Place → Place → List Name → List Place → Place → Prop
  | here (above : List Place) (place : Place) : fs.Descends above place [] above place
  | deeper {above above' : List Place} {place there last : Place} {name : Name} {names : List Name}
      (henters : fs.Enters above place name there)
      (hdescends : fs.Descends (place :: above) there names above' last) :
      fs.Descends above place (name :: names) above' last

theorem FileSystem.Enters.walkMeasure_lt (h : fs.Enters above here name there) :
    fs.walkMeasure (here :: above) there < fs.walkMeasure above here := by
  cases h with
  | directory hdir => exact walkMeasure_child_lt hdir
  | link hget hstat houtside => exact walkMeasure_link_lt ⟨_, get?_of_stat hstat⟩ houtside

theorem FileSystem.Descends.length_add_le (h : fs.Descends above here names above' last) :
    names.length + fs.walkMeasure above' last ≤ fs.walkMeasure above here := by
  induction h with
  | here above place => simp
  | deeper henters hdescends ih =>
    have hlt := henters.walkMeasure_lt
    rw [List.length_cons]
    omega

theorem FileSystem.walkMeasure_nil_lt (hdir : fs.IsDirectory here.location) :
    fs.walkMeasure [] here < fs.directories.length * (fs.height + 1) := by
  have hlt : fs.outside [here] < fs.outside [] := outside_cons_lt hdir rfl
  have hle : fs.outside [] ≤ fs.directories.length := List.countP_le_length
  have hmul := Nat.mul_le_mul_right (fs.height + 1) (Nat.le_trans (Nat.succ_le_of_lt hlt) hle)
  rw [Nat.succ_mul] at hmul
  unfold walkMeasure
  omega

/-! ## What stops a walk -/

/-- What a walk cannot get past in a directory: a link that leads nowhere, a link to a directory that the
walk is inside of, or the directory itself when its path is too long. -/
inductive FileSystem.Stops (fs : FileSystem) (above : List Place) (here : Place) :
    List Name → WalkError → Prop
  | broken {name : Name} {text : Bytes} {cause : OsError}
      (hget : fs.get? (here.location.child name) = some (.link text))
      (hstat : fs.stat (here.child name).path = .error cause) :
      fs.Stops above here [name] (.os (here.child name).path cause)
  | loop {name : Name} {text : Bytes} {target : Location} {mode : Nat} {ancestor : Place}
      (hget : fs.get? (here.location.child name) = some (.link text))
      (hstat : fs.stat (here.child name).path = .ok (target, .directory mode))
      (hinside : (here :: above).find? (·.location = target) = some ancestor) :
      fs.Stops above here [name] (.loop (here.child name).path ancestor.path)
  | tooLong (hlength : pathLimit ≤ here.path.length) :
      fs.Stops above here [] (.os here.path .nameTooLong)

/-- The names lead to something that a walk cannot get past. -/
def FileSystem.Meets (fs : FileSystem) (above : List Place) (here : Place) (names : List Name)
    (cause : WalkError) : Prop :=
  ∃ before after above' last, names = before ++ after ∧ fs.Descends above here before above' last ∧
    fs.Stops above' last after cause

theorem meets_nil_iff : fs.Meets above here [] cause ↔
    pathLimit ≤ here.path.length ∧ cause = .os here.path .nameTooLong := by
  constructor
  · rintro ⟨before, after, above', last, hnil, hdescends, hstops⟩
    obtain ⟨rfl, rfl⟩ := List.append_eq_nil_iff.mp hnil.symm
    cases hdescends
    cases hstops with
    | tooLong hlength => exact ⟨hlength, rfl⟩
  · rintro ⟨hlength, rfl⟩
    exact ⟨[], [], above, here, rfl, .here _ _, .tooLong hlength⟩

theorem meets_cons_iff : fs.Meets above here (name :: names) cause ↔
    fs.Stops above here (name :: names) cause ∨
      ∃ there, fs.Enters above here name there ∧ fs.Meets (here :: above) there names cause := by
  constructor
  · rintro ⟨before, after, above', last, happend, hdescends, hstops⟩
    cases hdescends with
    | here =>
      rw [List.nil_append] at happend
      exact .inl (happend ▸ hstops)
    | deeper henters hdescends =>
      rw [List.cons_append, List.cons.injEq] at happend
      obtain ⟨rfl, rfl⟩ := happend
      exact .inr ⟨_, henters, _, after, above', last, rfl, hdescends, hstops⟩
  · rintro (hstops | ⟨there, henters, before, after, above', last, rfl, hdescends, hstops⟩)
    · exact ⟨[], _, above, here, rfl, .here _ _, hstops⟩
    · exact ⟨name :: before, after, above', last, rfl, .deeper henters hdescends, hstops⟩

def WalkError.path : WalkError → Path
  | .os path _ => path
  | .loop link _ => link

theorem FileSystem.Descends.path_eq (h : fs.Descends above here names above' last) :
    last.path = here.path.down names := by
  induction h with
  | here above place => rfl
  | deeper henters hdescends ih =>
    rw [ih, Path.down_cons]
    cases henters with
    | directory => rfl
    | link => rfl

theorem FileSystem.Meets.path_eq (h : fs.Meets above here names cause) :
    cause.path = here.path.down names := by
  obtain ⟨before, after, above', last, rfl, hdescends, hstops⟩ := h
  rw [Path.down_append, ← hdescends.path_eq]
  cases hstops with
  | broken => rfl
  | loop => rfl
  | tooLong => rfl

/-! ### By the kind of the entry -/

theorem find?_of_isOutside {places : List Place} (h : isOutside places location) :
    places.find? (·.location = location) = none := by
  simpa [isOutside] using h

theorem FileSystem.Enters.unique {there' : Place} (h : fs.Enters above here name there)
    (h' : fs.Enters above here name there') : there = there' := by
  cases h with
  | directory hdir =>
    cases h' with
    | directory => rfl
    | link hget => exact absurd hget (hdir.ne_link _)
  | link hget hstat houtside =>
    cases h' with
    | directory hdir => exact absurd hget (hdir.ne_link _)
    | link hget' hstat' houtside' =>
      rw [hstat, Except.ok.injEq, Prod.mk.injEq] at hstat'
      rw [hstat'.1]

theorem FileSystem.Enters.not_stops (h : fs.Enters above here name there) :
    ¬ fs.Stops above here (name :: names) cause := by
  intro hstops
  cases h with
  | directory hdir =>
    cases hstops with
    | broken hlink => exact hdir.ne_link _ hlink
    | loop hlink => exact hdir.ne_link _ hlink
  | link hget hstat houtside =>
    cases hstops with
    | broken hlink hbroken => simp [hstat] at hbroken
    | loop hlink hstat' hinside =>
      rw [hstat, Except.ok.injEq, Prod.mk.injEq] at hstat'
      rw [← hstat'.1, find?_of_isOutside houtside] at hinside
      cases hinside

theorem FileSystem.Enters.meets_iff (h : fs.Enters above here name there) :
    fs.Meets above here (name :: names) cause ↔ fs.Meets (here :: above) there names cause := by
  rw [meets_cons_iff]
  constructor
  · rintro (hstops | ⟨there', henters, hmeets⟩)
    · exact absurd hstops h.not_stops
    · exact h.unique henters ▸ hmeets
  · intro hmeets
    exact .inr ⟨there, h, hmeets⟩

theorem not_meets_of_get? (hdirectory : ¬ fs.IsDirectory (here.location.child name))
    (hlink : ∀ text, fs.get? (here.location.child name) ≠ some (.link text)) :
    ¬ fs.Meets above here (name :: names) cause := by
  rw [meets_cons_iff]
  rintro (hstops | ⟨there, henters, -⟩)
  · cases hstops with
    | broken hget => exact hlink _ hget
    | loop hget => exact hlink _ hget
  · cases henters with
    | directory hdir => exact hdirectory hdir
    | link hget => exact hlink _ hget

theorem not_meets_of_stat {e : Entry}
    (hlink : fs.get? (here.location.child name) = some (.link text))
    (hstat : fs.stat (here.child name).path = .ok (location, e)) (he : e.isDirectory = false) :
    ¬ fs.Meets above here (name :: names) cause := by
  rw [meets_cons_iff]
  rintro (hstops | ⟨there, henters, -⟩)
  · cases hstops with
    | broken hget hstat' => simp [hstat] at hstat'
    | loop hget hstat' =>
      obtain ⟨-, rfl⟩ : _ ∧ e = _ := by simpa [hstat] using hstat'
      cases he
  · cases henters with
    | directory hdir => exact hdir.ne_link _ hlink
    | link hget hstat' =>
      obtain ⟨-, rfl⟩ : _ ∧ e = _ := by simpa [hstat] using hstat'
      cases he

theorem mem_names_of_meets (h : fs.Meets above here (name :: names) cause) :
    name ∈ fs.names here.location := by
  rw [mem_names]
  by_contra hnone
  rw [Option.not_isSome_iff_eq_none] at hnone
  exact not_meets_of_get? (by simp [isDirectory_iff, hnone]) (by simp [hnone]) h

/-! ### The first in the way -/

/-- A walk ends at the first of the things that it meets, and goes through when it meets none. -/
def StopsAtFirst (meets : List Name → WalkError → Prop) : Option WalkError → Prop
  | none => ∀ names cause, ¬ meets names cause
  | some cause => ∃ names, meets names cause ∧
      ∀ other cause', meets other cause' → ¬ Precedes other names

theorem not_precedes_nil (names : List Name) : ¬ Precedes names [] := nofun

theorem precedes_cons_iff {a b : List Name} : Precedes (name :: a) (name :: b) ↔ Precedes a b := by
  constructor
  · intro h
    cases h with
    | cons h => exact h
    | rel h => exact absurd h (List.lt_irrefl name.bytes)
  · exact .cons

theorem not_precedes_of_lt {a b : List Name} {x y : Name} (h : x.bytes < y.bytes) :
    ¬ Precedes (y :: a) (x :: b) := by
  intro hprecedes
  cases hprecedes with
  | cons => exact List.lt_irrefl _ h
  | rel h' => exact List.lt_asymm h h'

theorem StopsAtFirst.of_nil {meets : List Name → WalkError → Prop} (h : meets [] cause) :
    StopsAtFirst meets (some cause) :=
  ⟨[], h, fun other _ _ => not_precedes_nil other⟩

theorem FileSystem.Enters.stopsAtFirst {stopped : Option WalkError}
    (h : fs.Enters above here name there)
    (hwalk : StopsAtFirst (fs.Meets (here :: above) there) stopped) :
    StopsAtFirst (fun names => fs.Meets above here (name :: names)) stopped := by
  have hmeets : (fun names => fs.Meets above here (name :: names)) =
      fs.Meets (here :: above) there := by
    funext names cause
    exact propext h.meets_iff
  rwa [hmeets]

theorem walkLink_stopsAtFirst (hget : fs.get? (here.location.child name) = some (.link text))
    (hwalk : ∀ there, fs.Enters above here name there →
      StopsAtFirst (fs.Meets (here :: above) there)
        (walkDirectory fs true (here :: above) there).stopped) :
    StopsAtFirst (fun names => fs.Meets above here (name :: names))
      (walkLink fs (here :: above) (here.child name).path).stopped := by
  unfold walkLink
  split
  · next e hstat =>
    apply StopsAtFirst.of_nil
    exact meets_cons_iff.mpr (.inl (.broken hget hstat))
  · next hstat => exact fun names cause => not_meets_of_stat hget hstat rfl
  · next target mode hstat =>
    split
    · next ancestor hinside =>
      apply StopsAtFirst.of_nil
      exact meets_cons_iff.mpr (.inl (.loop hget hstat hinside))
    · next hnone =>
      have henters := Enters.link hget hstat (isOutside_of_find? hnone)
      exact henters.stopsAtFirst (hwalk _ henters)
  · next found hfile hdirectory hstat =>
    obtain ⟨location, e⟩ := found
    refine fun names cause => not_meets_of_stat hget hstat ?_
    cases e with
    | directory mode => exact absurd rfl (hdirectory location mode)
    | file f => rfl
    | link text => rfl
    | pipe mode => rfl

theorem walkEntry_stopsAtFirst
    (hwalk : ∀ there, fs.Enters above here name there →
      StopsAtFirst (fs.Meets (here :: above) there)
        (walkDirectory fs true (here :: above) there).stopped) :
    StopsAtFirst (fun names => fs.Meets above here (name :: names))
      (walkEntry fs true above here name).stopped := by
  unfold walkEntry
  split
  · next hget =>
    exact fun names cause => not_meets_of_get? (by simp [isDirectory_iff, hget]) (by simp [hget])
  · next mode hget =>
    have henters : fs.Enters above here name (here.child name) := .directory ⟨mode, hget⟩
    exact henters.stopsAtFirst (hwalk _ henters)
  · next hget => exact walkLink_stopsAtFirst hget hwalk
  · next hfile hdirectory hlink =>
    exact fun names cause => not_meets_of_get? (fun ⟨mode, hget⟩ => hdirectory mode hget) (hlink ·)

theorem stopsAtFirst_concat {entries : List Name} {walk : Name → Walk}
    {meets : List Name → WalkError → Prop}
    (hsorted : entries.Pairwise fun a b => a.bytes < b.bytes) (hnil : ∀ cause, ¬ meets [] cause)
    (hhead : ∀ name names cause, meets (name :: names) cause → name ∈ entries)
    (hwalk : ∀ name ∈ entries, StopsAtFirst (fun names => meets (name :: names)) (walk name).stopped) :
    StopsAtFirst meets (Walk.concat (entries.map walk)).stopped := by
  induction entries with
  | nil =>
    intro names cause hmeets
    cases names with
    | nil => exact hnil cause hmeets
    | cons name names => exact absurd (hhead name names cause hmeets) (by simp)
  | cons first rest ih =>
    obtain ⟨hlt, hsorted⟩ := List.pairwise_cons.mp hsorted
    obtain ⟨hfirst, hrest⟩ := List.forall_mem_cons.mp hwalk
    rw [List.map_cons, Walk.concat_cons, Walk.andThen]
    cases hstopped : (walk first).stopped with
    | some cause =>
      rw [hstopped] at hfirst
      obtain ⟨names, hmeets, hleast⟩ := hfirst
      dsimp only
      rw [hstopped]
      refine ⟨first :: names, hmeets, ?_⟩
      intro other cause' hother
      cases other with
      | nil => exact absurd hother (hnil cause')
      | cons name other =>
        rcases List.mem_cons.mp (hhead name other cause' hother) with rfl | hname
        · exact mt precedes_cons_iff.mp (hleast other cause' hother)
        · exact not_precedes_of_lt (hlt name hname)
    | none =>
      -- Nothing is in the way of the first entry, so what is met is met in the others.
      rw [hstopped] at hfirst
      refine ih hsorted ?_ hrest
      intro name names cause hmeets
      rcases List.mem_cons.mp (hhead name names cause hmeets) with rfl | hname
      · exact absurd hmeets (hfirst names cause)
      · exact hname

theorem walkDirectory_stopsAtFirst (fs : FileSystem) (above : List Place) (here : Place) :
    StopsAtFirst (fs.Meets above here) (walkDirectory fs true above here).stopped := by
  induction above, here using walkInduction fs with
  | step above here ih =>
    rw [walkDirectory_eq]
    split
    · next hlength => exact .of_nil (meets_nil_iff.mpr ⟨hlength, rfl⟩)
    · next hlength =>
      apply stopsAtFirst_concat (pairwise_names fs here.location)
      · intro cause hmeets
        exact hlength (meets_nil_iff.mp hmeets).1
      · intro name names cause hmeets
        exact mem_names_of_meets hmeets
      · intro name _
        apply walkEntry_stopsAtFirst
        intro there henters
        exact ih there henters.walkMeasure_lt

end Repoint
