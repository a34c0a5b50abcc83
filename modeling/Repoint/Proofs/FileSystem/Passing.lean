import Repoint.Proofs.FileSystem.Repointing

/-!
# Entries on the way of a path

A path comes by an entry when a file put in the entry's place would be what the path leads to.
-/

namespace Repoint.FileSystem

variable {fs fs' : FileSystem} {directory directory' location location' place : Location}
  {name name' : Name} {f f' g : File} {e : Entry} {path : Path} {follow : Bool}

/-- A file in the place of the entry would be what the path leads to. -/
def ComesBy (fs : FileSystem) (path : Path) (entry : Location) : Prop :=
  ∃ g, (fs.put entry (.file g)).stat path = .ok (entry, .file g)

/-! ## One entry -/

theorem LeadsToFile.stat_put_of_not_comesBy (h : fs.LeadsToFile directory name location f) (g : File)
    (hstat : fs.stat path = .ok (place, e)) (hnot : ¬ fs.ComesBy path (directory.child name)) :
    (fs.put (directory.child name) (.file g)).stat path = .ok (place, e) :=
  (h.stat_put g hstat).resolve_right fun hafter => hnot ⟨g, hafter.2⟩

theorem ComesBy.eq_file (hcomes : fs.ComesBy path (directory.child name))
    (h : fs.LeadsToFile directory name location f) (hstat : fs.stat path = .ok (place, e)) :
    e = .file f := by
  obtain ⟨g, hg⟩ := hcomes
  rcases h.stat_put g hstat with hsame | ⟨rfl, -⟩
  · -- The file that was put there is the one that is there.
    rw [hg, Except.ok.injEq, Prod.mk.injEq] at hsame
    obtain ⟨rfl, rfl⟩ := hsame
    have hget := get?_of_stat hstat
    rcases h.get?_entry with hfile | ⟨text, hlink⟩
    · rw [hfile, Option.some.injEq] at hget
      exact hget.symm
    · simp [hlink] at hget
  · rfl

/-! ## Two entries -/

theorem LeadsToFile.leadsToFile_put (h : fs.LeadsToFile directory name location f) (g : File)
    (h' : fs.LeadsToFile directory' name' location' f') :
    ∃ location'' f'',
      (fs.put (directory.child name) (.file g)).LeadsToFile directory' name' location'' f'' := by
  obtain ⟨k, hleads⟩ := h'.leads
  have hend := h.sameEnd_follow g k directory' [.down name'] h'.isDirectory.ne_link
  rw [hleads.follow_eq_ok (Nat.le_refl k)] at hend
  generalize hafter : (fs.put (directory.child name) (.file g)).follow .target k directory'
    [.down name'] = after at hend
  cases hend with
  | elsewhere hne =>
    obtain ⟨k', -, hleads'⟩ := follow_target_eq_ok_iff.mp hafter
    exact ⟨location', f', ⟨k', hleads'⟩, by rw [get?_put_of_ne _ _ hne, h'.file]⟩
  | replaced =>
    obtain ⟨k', -, hleads'⟩ := follow_target_eq_ok_iff.mp hafter
    exact ⟨directory.child name, g, ⟨k', hleads'⟩, h.get?_put_self _⟩

theorem LeadsToFile.exists_stat_put (h : fs.LeadsToFile directory name location f) (g : File)
    (hstat : fs.stat path = .ok (place, e)) :
    ∃ place' e', (fs.put (directory.child name) (.file g)).stat path = .ok (place', e') := by
  rcases h.stat_put g hstat with hsame | ⟨-, hafter⟩
  · exact ⟨_, _, hsame⟩
  · exact ⟨_, _, hafter⟩

theorem LeadsToFile.put_comm (h : fs.LeadsToFile directory name location f)
    (h' : fs.LeadsToFile directory' name' location' f')
    (hne : directory'.child name' ≠ directory.child name) (g g' : File) :
    (fs.put (directory.child name) (.file g)).put (directory'.child name') (.file g') =
      (fs.put (directory'.child name') (.file g')).put (directory.child name) (.file g) :=
  FileSystem.put_comm hne h.hasPlace h'.hasPlace h.isSome_get? h'.isSome_get? g g'

theorem LeadsToFile.comesBy_of_put (h : fs.LeadsToFile directory name location f)
    (h' : fs.LeadsToFile directory' name' location' f') (hstat : fs.stat path = .ok (place, e))
    (hcomes : (fs.put (directory.child name) (.file g)).ComesBy path (directory'.child name')) :
    fs.ComesBy path (directory'.child name') := by
  obtain ⟨g', hg'⟩ := hcomes
  refine ⟨g', ?_⟩
  by_cases heq : directory'.child name' = directory.child name
  · rw [heq, put_put h.hasPlace h.isSome_get?] at hg'
    rw [heq, hg']
  · obtain ⟨place', e', hstat'⟩ := h'.exists_stat_put g' hstat
    obtain ⟨location'', f'', h''⟩ := h'.leadsToFile_put g' h
    rw [h.put_comm h' heq] at hg'
    rcases h''.stat_put g hstat' with hsame | ⟨-, hafter⟩
    · rw [hstat', ← hsame, hg']
    · -- The path cannot lead to both entries.
      rw [hg', Except.ok.injEq, Prod.mk.injEq] at hafter
      exact absurd hafter.1 heq

theorem LeadsToFile.comesBy_put (h : fs.LeadsToFile directory name location f)
    (h' : fs.LeadsToFile directory' name' location' f') (hstat : fs.stat path = .ok (place, e))
    (g : File) (hcomes : fs.ComesBy path (directory'.child name')) :
    (fs.put (directory.child name) (.file g)).ComesBy path (directory'.child name') ∨
      (fs.put (directory.child name) (.file g)).stat path =
        .ok (directory.child name, .file g) := by
  obtain ⟨g', hg'⟩ := hcomes
  by_cases heq : directory'.child name' = directory.child name
  · refine .inl ⟨g', ?_⟩
    rw [heq] at hg' ⊢
    rw [put_put h.hasPlace h.isSome_get?, hg']
  · obtain ⟨location'', f'', h''⟩ := h'.leadsToFile_put g' h
    rcases h''.stat_put g hg' with hsame | ⟨-, hafter⟩
    · exact .inl ⟨g', by rw [h.put_comm h' heq, hsame]⟩
    · -- The path ends before it comes to the second entry, so it did before a file was put there.
      obtain ⟨place', e', hstat'⟩ := h.exists_stat_put g hstat
      obtain ⟨location₂, f₂, h₂⟩ := h.leadsToFile_put g h'
      rw [← h.put_comm h' heq] at hafter
      rcases h₂.stat_put g' hstat' with hsame | ⟨-, hother⟩
      · exact .inr (by rw [hstat', ← hsame, hafter])
      · rw [hafter, Except.ok.injEq, Prod.mk.injEq] at hother
        exact absurd hother.1.symm heq

end Repoint.FileSystem
