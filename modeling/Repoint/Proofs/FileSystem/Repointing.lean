import Mathlib.Logic.Relation
import Repoint.Proofs.FileSystem.Update
import Repoint.Proofs.Rule.FixedPoint

/-!
# Putting a repointed copy in the place of an entry

A link that is replaced led to a file, so no path went on behind it.
-/

namespace Repoint

/-- The file that a patch makes of a file. It has one name only. -/
def File.repointed (f : File) : File := { data := (repoint f.data).bytes, mode := f.mode }

namespace FileSystem

/-- The entry of a directory under a name leads to a file, over links or because it is the file. -/
structure LeadsToFile (fs : FileSystem) (directory : Location) (name : Name) (location : Location)
    (f : File) : Prop where
  leads : ∃ k, fs.Leads k directory [.down name] location
  file : fs.get? location = some (.file f)

/-- One file system becomes another when a repointed copy of the file that an entry leads to is put
in the entry's place. Unless links are followed the entry is that file. -/
inductive Repoints (follow : Bool) (fs : FileSystem) : FileSystem → Prop
  | intro {directory : Location} {name : Name} {location : Location} {f : File}
      (hleads : fs.LeadsToFile directory name location f)
      (hfollow : follow = false → location = directory.child name) :
      Repoints follow fs (fs.put (directory.child name) (.file f.repointed))

variable {fs fs' : FileSystem} {directory location place : Location} {name : Name} {f : File}
  {e : Entry} {path : Path} {steps : List PathStep} {n : Nat} {follow : Bool}

/-! ## The entry that is replaced -/

namespace LeadsToFile

theorem isDirectory (h : fs.LeadsToFile directory name location f) :
    fs.IsDirectory directory := by
  obtain ⟨k, hleads⟩ := h.leads
  cases hleads <;> assumption

theorem cases (h : fs.LeadsToFile directory name location f) :
    location = directory.child name ∨
      ∃ text k, fs.get? (directory.child name) = some (.link text) ∧ text ≠ [] ∧
        fs.Leads k (startOf text directory) (Path.steps text) location := by
  obtain ⟨k, hleads⟩ := h.leads
  cases hleads with
  | down hdir hget hlink hrest =>
    cases hrest
    exact .inl rfl
  | link hdir hget hne hrest =>
    rw [List.append_nil] at hrest
    exact .inr ⟨_, _, hget, hne, hrest⟩

theorem get?_entry (h : fs.LeadsToFile directory name location f) :
    fs.get? (directory.child name) = some (.file f) ∨
      ∃ text, fs.get? (directory.child name) = some (.link text) := by
  rcases h.cases with rfl | ⟨text, k, hget, -, -⟩
  · exact .inl h.file
  · exact .inr ⟨text, hget⟩

theorem hasPlace (h : fs.LeadsToFile directory name location f) :
    fs.hasPlace (directory.child name) := by
  refine ⟨?_, by rw [Location.parent_child]; exact h.isDirectory⟩
  rcases h.get?_entry with hget | ⟨text, hget⟩ <;> simp [isDirectory_iff, hget]

theorem get?_put_self (h : fs.LeadsToFile directory name location f) (e : Entry) :
    (fs.put (directory.child name) e).get? (directory.child name) = some e :=
  FileSystem.get?_put_self e h.hasPlace

theorem isDirectory_put (h : fs.LeadsToFile directory name location f) (g : File) :
    (fs.put (directory.child name) (.file g)).IsDirectory place ↔
      fs.IsDirectory place := isDirectory_put_file h.hasPlace g

theorem isSome_get? (h : fs.LeadsToFile directory name location f) :
    (fs.get? (directory.child name)).isSome := by
  rcases h.get?_entry with hget | ⟨text, hget⟩ <;> simp [hget]

theorem names_put (h : fs.LeadsToFile directory name location f) (g : File) :
    (fs.put (directory.child name) (.file g)).names place = fs.names place :=
  FileSystem.names_put h.isSome_get?

end LeadsToFile

/-! ## Steps -/

/-- How following steps ends before and after an entry that led to `location` was replaced. What
ended elsewhere ends there again, what went through the entry now ends at it, and an error stays the
same, unless it was that there were too many links. -/
inductive SameEnd (entry location : Location) :
    Except OsError Location → Except OsError Location → Prop
  | elsewhere {place : Location} (h : place ≠ entry) : SameEnd entry location (.ok place) (.ok place)
  | replaced : SameEnd entry location (.ok location) (.ok entry)
  | failed (cause : OsError) : SameEnd entry location (.error cause) (.error cause)
  | tooManyLinks (after : Except OsError Location) :
      SameEnd entry location (.error .tooManyLinks) after

theorem LeadsToFile.sameEnd_follow (h : fs.LeadsToFile directory name location f) (g : File)
    (n : Nat) (start : Location) (steps : List PathStep)
    (hstart : ∀ text, fs.get? start ≠ some (.link text)) :
    SameEnd (directory.child name) location (fs.follow .target n start steps)
      ((fs.put (directory.child name) (.file g)).follow .target n start steps) := by
  induction n, start, steps using stepInduction fs with
  | arrived n start =>
    rw [follow_nil, follow_nil]
    by_cases heq : start = directory.child name
    · subst heq
      rcases h.cases with rfl | ⟨text, k, hget, -, -⟩
      · exact .replaced
      · exact absurd hget (hstart text)
    · exact .elsewhere heq
  | blocked n start step rest hdir =>
    rw [follow_of_not_directory hdir, follow_of_not_directory (mt (h.isDirectory_put g).mp hdir)]
    exact .failed _
  | stay n start rest hdir ih =>
    rw [follow_stay hdir, follow_stay ((h.isDirectory_put g).mpr hdir)]
    exact ih hstart
  | up n start rest hdir ih =>
    rw [follow_up hdir, follow_up ((h.isDirectory_put g).mpr hdir)]
    exact ih hdir.parent.ne_link
  | tooLong n start rest hdir =>
    rw [follow_tooLong hdir, follow_tooLong ((h.isDirectory_put g).mpr hdir)]
    exact .failed _
  | missing n start child rest hdir hget =>
    have hne : start.child child ≠ directory.child name := by
      intro heq
      rw [heq] at hget
      rcases h.get?_entry with hsome | ⟨text, hsome⟩ <;> simp [hsome] at hget
    have hget' : (fs.put (directory.child name) (.file g)).get? (start.child child) = none := by
      rw [get?_put_of_ne _ _ hne, hget]
    rw [follow_missing hdir hget, follow_missing ((h.isDirectory_put g).mpr hdir) hget',
      if_neg (by simp)]
    exact .failed _
  | down n start child x rest hdir hget hlink ih =>
    have hafter : ∃ y, (fs.put (directory.child name) (.file g)).get? (start.child child) = some y ∧
        y.isLink = false := by
      by_cases heq : start.child child = directory.child name
      · exact ⟨.file g, by rw [heq, h.get?_put_self], rfl⟩
      · exact ⟨x, by rw [get?_put_of_ne _ _ heq, hget], hlink⟩
    obtain ⟨y, hget', hlink'⟩ := hafter
    rw [follow_down hdir hget hlink, follow_down ((h.isDirectory_put g).mpr hdir) hget' hlink']
    apply ih
    rintro text htext
    rw [hget, Option.some.injEq] at htext
    simp [htext, Entry.isLink] at hlink
  | spent start child text rest hdir hget =>
    rw [follow_link_zero hdir hget (by simp)]
    exact .tooManyLinks _
  | link n start child text rest hdir hget ih =>
    rw [follow_link hdir hget (by simp)]
    by_cases heq : start.child child = directory.child name
    · -- The link that was replaced. Its target leads to the file, and nothing lies behind a file.
      obtain ⟨rfl, rfl⟩ := Location.child_inj heq
      obtain ⟨k, hne, hleads⟩ : ∃ k, text ≠ [] ∧
          fs.Leads k (startOf text start) (Path.steps text) location := by
        rcases h.cases with rfl | ⟨text', k, hget', hne, hleads⟩
        · simp [h.file] at hget
        · rw [hget', Option.some.injEq, Entry.link.injEq] at hget
          exact ⟨k, hget ▸ hne, hget ▸ hleads⟩
      have hnot : ¬ fs.IsDirectory location := by simp [isDirectory_iff, h.file]
      have hnot' : ¬ (fs.put (start.child child) (.file g)).IsDirectory (start.child child) := by
        simp [isDirectory_iff, h.get?_put_self]
      rw [if_neg hne, hleads.follow_append .target _ nofun,
        follow_down ((h.isDirectory_put g).mpr hdir) (h.get?_put_self _) rfl]
      split
      · cases rest with
        | nil =>
          rw [follow_nil, follow_nil]
          exact .replaced
        | cons step rest =>
          rw [follow_of_not_directory hnot, follow_of_not_directory hnot']
          exact .failed _
      · exact .tooManyLinks _
    · have hget' : (fs.put (directory.child name) (.file g)).get? (start.child child) =
          some (.link text) := by rw [get?_put_of_ne _ _ heq, hget]
      rw [follow_link ((h.isDirectory_put g).mpr hdir) hget' (by simp)]
      split
      · exact .failed _
      · exact ih (isDirectory_startOf hdir text).ne_link

/-! ## Paths -/

theorem LeadsToFile.sameEnd_path (h : fs.LeadsToFile directory name location f) (g : File)
    (path : Path) :
    SameEnd (directory.child name) location
      (fs.follow .target maxLinks (startOf path fs.workingDirectory) path.steps)
      ((fs.put (directory.child name) (.file g)).follow .target maxLinks
        (startOf path fs.workingDirectory) path.steps) := by
  by_cases hdir : fs.IsDirectory (startOf path fs.workingDirectory)
  · exact h.sameEnd_follow g _ _ _ hdir.ne_link
  · obtain ⟨step, rest, hsteps⟩ := List.exists_cons_of_ne_nil path.steps_ne_nil
    rw [hsteps, follow_of_not_directory hdir,
      follow_of_not_directory (mt (h.isDirectory_put g).mp hdir)]
    exact .failed _

theorem LeadsToFile.stat_put (h : fs.LeadsToFile directory name location f) (g : File)
    (hstat : fs.stat path = .ok (place, e)) :
    (fs.put (directory.child name) (.file g)).stat path = .ok (place, e) ∨
      (e = .file f ∧
        (fs.put (directory.child name) (.file g)).stat path =
          .ok (directory.child name, .file g)) := by
  obtain ⟨hcheck, hto, hget⟩ := stat_eq_ok_iff.mp hstat
  have hend := h.sameEnd_path g path
  rw [follow_target_eq_ok_iff.mpr hto] at hend
  generalize hafter : (fs.put (directory.child name) (.file g)).follow .target maxLinks
    (startOf path fs.workingDirectory) path.steps = after at hend
  cases hend with
  | elsewhere hne =>
    refine .inl (stat_eq_ok_iff.mpr ⟨hcheck, ?_, by rw [get?_put_of_ne _ _ hne, hget]⟩)
    rw [LeadsTo, workingDirectory_put]
    exact follow_target_eq_ok_iff.mp hafter
  | replaced =>
    rw [h.file, Option.some.injEq] at hget
    refine .inr ⟨hget.symm, stat_eq_ok_iff.mpr ⟨hcheck, ?_, h.get?_put_self _⟩⟩
    rw [LeadsTo, workingDirectory_put]
    exact follow_target_eq_ok_iff.mp hafter

theorem LeadsToFile.stat_put_noEntry (h : fs.LeadsToFile directory name location f) (g : File)
    (hstat : fs.stat path = .error .noEntry) :
    (fs.put (directory.child name) (.file g)).stat path = .error .noEntry := by
  have hend := h.sameEnd_path g path
  unfold stat resolve at hstat ⊢
  rw [workingDirectory_put]
  cases hcheck : checkPath path with
  | error cause => simpa [hcheck, bind, Except.bind] using hstat
  | ok =>
    simp only [hcheck, bind, Except.bind] at hstat ⊢
    cases hbefore : fs.follow .target maxLinks (startOf path fs.workingDirectory) path.steps with
    | ok place =>
      obtain ⟨x, hget, -⟩ := LeadsTo.get?_target (follow_target_eq_ok_iff.mp hbefore)
      simp [hbefore, hget, pure, Except.pure] at hstat
    | error cause =>
      obtain rfl : cause = .noEntry := by simpa [hbefore] using hstat
      rw [hbefore] at hend
      generalize (fs.put (directory.child name) (.file g)).follow .target maxLinks
        (startOf path fs.workingDirectory) path.steps = after at hend
      cases hend
      rfl

theorem LeadsToFile.namesEntry_put {place : Location} {child : Name}
    (h : fs.LeadsToFile directory name location f) (g : File)
    (hnames : fs.NamesEntry path place child) :
    (fs.put (directory.child name) (.file g)).NamesEntry path place child := by
  obtain ⟨k, before, hk, hsteps, hleads, hdir⟩ := hnames
  have hdir' := (h.isDirectory_put g).mpr hdir
  -- The directory before the last name is found again: it is no file.
  have hbefore : ∃ k' ≤ k, (fs.put (directory.child name) (.file g)).Leads k'
      (startOf path fs.workingDirectory) before place := by
    rw [← follow_target_eq_ok_iff]
    have hend := h.sameEnd_follow g k _ before (hleads.isDirectory_start hdir).ne_link
    rw [hleads.follow_eq_ok (Nat.le_refl k)] at hend
    generalize (fs.put (directory.child name) (.file g)).follow .target k
      (startOf path fs.workingDirectory) before = after at hend
    cases hend with
    | elsewhere hne => rfl
    | replaced => simp [isDirectory_iff, h.file] at hdir
  obtain ⟨k', hk', hleads'⟩ := hbefore
  refine ⟨k', before, Nat.le_trans hk' hk, hsteps, ?_, hdir'⟩
  rwa [workingDirectory_put]

theorem LeadsToFile.stat_put_self (h : fs.LeadsToFile directory name location f) (g : File)
    (hnames : fs.NamesEntry path directory name) (hcheck : checkPath path = .ok ()) :
    (fs.put (directory.child name) (.file g)).stat path =
      .ok (directory.child name, .file g) :=
  stat_eq_ok_iff.mpr ⟨hcheck, (h.namesEntry_put g hnames).leadsTo (h.get?_put_self _) rfl,
    h.get?_put_self _⟩

theorem LeadsToFile.read_put_self (h : fs.LeadsToFile directory name location f)
    (hnames : fs.NamesEntry path directory name) (hstat : fs.stat path = .ok (place, .file f))
    (hreadable : f.isReadable) :
    (fs.put (directory.child name) (.file f.repointed)).read path = .ok (repoint f.data).bytes := by
  have hafter := h.stat_put_self f.repointed hnames (stat_eq_ok_iff.mp hstat).1
  exact (read_eq_ok_iff hafter).mpr ⟨hreadable, rfl⟩

/-! ## What a patch keeps -/

/-- The path can be read, and the rule finds nothing to change there. -/
def ReadsMarked (fs : FileSystem) (path : Path) : Prop :=
  ∃ data, fs.read path = .ok data ∧ AllMarked data

namespace Repoints

theorem get?_cases (h : Repoints follow fs fs') (place : Location) :
    fs'.get? place = fs.get? place ∨
      ∃ directory name location f, place = directory.child name ∧
        fs.LeadsToFile directory name location f ∧ (follow = false → location = place) ∧
        fs'.get? place = some (.file f.repointed) := by
  obtain @⟨directory, name, location, f, hleads, hfollow⟩ := h
  by_cases heq : place = directory.child name
  · subst heq
    exact .inr ⟨directory, name, location, f, rfl, hleads, hfollow, hleads.get?_put_self _⟩
  · exact .inl (get?_put_of_ne _ _ heq)

theorem names_eq (h : Repoints follow fs fs') : fs'.names place = fs.names place := by
  obtain ⟨hleads, -⟩ := h
  exact hleads.names_put _

theorem sameLocations {base : FileSystem} (h : Repoints follow fs fs') (hsame : base.SameLocations fs) :
    base.SameLocations fs' := by
  obtain ⟨hleads, -⟩ := h
  exact hsame.put hleads.hasPlace hleads.isSome_get? _

theorem stat_of_ok (h : Repoints follow fs fs') (hstat : fs.stat path = .ok (place, e)) :
    fs'.stat path = .ok (place, e) ∨
      ∃ f place', e = .file f ∧ fs'.stat path = .ok (place', .file f.repointed) := by
  obtain ⟨hleads, -⟩ := h
  exact (hleads.stat_put _ hstat).imp_right fun ⟨hfile, hafter⟩ => ⟨_, _, hfile, hafter⟩

theorem stat_of_noEntry (h : Repoints follow fs fs') (hstat : fs.stat path = .error .noEntry) :
    fs'.stat path = .error .noEntry := by
  obtain ⟨hleads, -⟩ := h
  exact hleads.stat_put_noEntry _ hstat

theorem namesEntry (h : Repoints follow fs fs') (hnames : fs.NamesEntry path directory name) :
    fs'.NamesEntry path directory name := by
  obtain ⟨hleads, -⟩ := h
  exact hleads.namesEntry_put _ hnames

theorem namesFile (h : Repoints follow fs fs') (hnames : ∃ location f, fs.NamesFile path location f) :
    ∃ location f, fs'.NamesFile path location f := by
  obtain ⟨location, f, directory, name, heq, hentry, hget⟩ := hnames
  refine ⟨location, ?_⟩
  rcases h.get?_cases location with hsame | ⟨_, _, _, g, -, -, -, hafter⟩
  · exact ⟨f, directory, name, heq, h.namesEntry hentry, hsame.trans hget⟩
  · exact ⟨g.repointed, directory, name, heq, h.namesEntry hentry, hafter⟩

theorem read_of_ok {data : Bytes} (h : Repoints follow fs fs') (hread : fs.read path = .ok data) :
    fs'.read path = .ok data ∨ fs'.read path = .ok (repoint data).bytes := by
  obtain ⟨⟨place, e⟩, hstat, hdata⟩ := bind_eq_ok.mp hread
  rcases h.stat_of_ok hstat with hafter | ⟨f, place', rfl, hafter⟩
  · exact .inl (bind_eq_ok.mpr ⟨_, hafter, hdata⟩)
  · obtain ⟨hreadable, rfl⟩ := (read_eq_ok_iff hstat).mp hread
    exact .inr ((read_eq_ok_iff hafter).mpr ⟨hreadable, rfl⟩)

theorem readsMarked (h : Repoints follow fs fs') (hmarked : fs.ReadsMarked path) :
    fs'.ReadsMarked path := by
  obtain ⟨data, hread, hdata⟩ := hmarked
  rcases h.read_of_ok hread with hafter | hafter
  · exact ⟨data, hafter, hdata⟩
  · exact ⟨_, hafter, allMarked_repoint data⟩

end Repoints

theorem invariant_of_repoints {keeps : FileSystem → Prop}
    (hstep : ∀ fs fs', Repoints follow fs fs' → keeps fs → keeps fs')
    (h : Relation.ReflTransGen (Repoints follow) fs fs') (hkeeps : keeps fs) : keeps fs' := by
  induction h with
  | refl => exact hkeeps
  | tail _ hlast ih => exact hstep _ _ hlast ih

end FileSystem

end Repoint
