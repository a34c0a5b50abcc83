import Repoint.Proofs.Discovery.Walk
import Repoint.Proofs.FileSystem.Repointing

/-!
# Finding the same files after a patch

Only walks that go through: a patch may clear away what stopped a walk.
-/

namespace Repoint

open FileSystem

variable {fs fs' : FileSystem} {follow : Bool} {above : List Place} {here : Place} {name : Name}
  {location place : Location} {root : Path} {f : File}

/-! ## Walks -/

theorem walkLink_of_repoints (h : Repoints true fs fs') {places : List Place} {path : Path}
    (hwalk : ∀ location mode, fs.stat path = .ok (location, .directory mode) →
      isOutside places location →
      (walkDirectory fs true places { path, location }).stopped = none →
      walkDirectory fs' true places { path, location } =
        walkDirectory fs true places { path, location })
    (hstopped : (walkLink fs places path).stopped = none) :
    walkLink fs' places path = walkLink fs places path := by
  unfold walkLink at hstopped ⊢
  cases hstat : fs.stat path with
  | error e => simp [hstat, Walk.stop] at hstopped
  | ok found =>
    obtain ⟨location, e⟩ := found
    rcases h.stat_of_ok hstat with hafter | ⟨f, place, rfl, hafter⟩
    · rw [hafter]
      cases e with
      | directory mode =>
        simp only [hstat] at hstopped ⊢
        cases hloop : places.find? (·.location = location) with
        | some ancestor => rfl
        | none =>
          simp only [hloop] at hstopped ⊢
          exact hwalk location mode hstat (isOutside_of_find? hloop) hstopped
      | file f => rfl
      | link text => rfl
      | pipe mode => rfl
    · rw [hafter]

theorem walkEntry_of_repoints (h : Repoints follow fs fs') (hhere : here.IsAt fs)
    (hwalk : ∀ there, there.IsAt fs → fs.walkMeasure (here :: above) there < fs.walkMeasure above here →
      (walkDirectory fs follow (here :: above) there).stopped = none →
      walkDirectory fs' follow (here :: above) there =
        walkDirectory fs follow (here :: above) there)
    (hstopped : (walkEntry fs follow above here name).stopped = none) :
    walkEntry fs' follow above here name = walkEntry fs follow above here name := by
  unfold walkEntry at hstopped ⊢
  rcases h.get?_cases (here.location.child name) with
    hsame | ⟨directory, child, location, f, heq, hleads, hfollow, hafter⟩
  · rw [hsame]
    cases hget : fs.get? (here.location.child name) with
    | none => rfl
    | some e =>
      simp only [hget] at hstopped
      cases e with
      | file f => rfl
      | pipe mode => rfl
      | directory mode =>
        exact hwalk _ (hhere.child ⟨mode, hget⟩) (walkMeasure_child_lt ⟨mode, hget⟩) hstopped
      | link text =>
        cases follow with
        | false => rfl
        | true =>
          simp only [if_true] at hstopped ⊢
          apply walkLink_of_repoints h ?_ hstopped
          intro location mode hstat houtside
          have hthere := Place.IsAt.of_stat hstat
          exact hwalk _ hthere (walkMeasure_link_lt hthere.directory houtside)
  · -- The entry was replaced, so it was a file, or a link that the walk followed to one.
    obtain ⟨rfl, rfl⟩ := Location.child_inj heq
    rw [hafter]
    rcases hleads.get?_entry with hget | ⟨text, hget⟩
    · rw [hget]
    · rw [hget] at hstopped ⊢
      cases follow with
      | false =>
        obtain rfl := hfollow rfl
        simp [hleads.file] at hget
      | true =>
        simp only [if_true, walkLink] at hstopped ⊢
        cases hstat : fs.stat (here.child name).path with
        | error e => simp [hstat, Walk.stop] at hstopped
        | ok found =>
          obtain ⟨place, e⟩ := found
          obtain ⟨-, hto, hplace⟩ := stat_eq_ok_iff.mp hstat
          obtain ⟨k, hthere⟩ := (hhere.namesEntry name).leads_of_leadsTo hto
          obtain ⟨k', hlocation⟩ := hleads.leads
          obtain rfl := hthere.unique hlocation
          rw [hleads.file, Option.some.injEq] at hplace
          subst hplace
          rfl

theorem walkDirectory_of_repoints (h : Repoints follow fs fs') (hhere : here.IsAt fs)
    (hstopped : (walkDirectory fs follow above here).stopped = none) :
    walkDirectory fs' follow above here = walkDirectory fs follow above here := by
  induction above, here using walkInduction fs with
  | step above here ih =>
    rw [walkDirectory_eq] at hstopped ⊢
    rw [walkDirectory_eq]
    split at hstopped
    · simp [Walk.stop] at hstopped
    · next hlength =>
      rw [if_neg hlength, if_neg hlength, h.names_eq]
      congr 1
      apply List.map_congr_left
      intro name hname
      apply walkEntry_of_repoints h hhere
      · intro there hthere hlt hthrough
        exact ih there hlt hthere hthrough
      · exact Walk.stopped_concat.mp hstopped _ (List.mem_map_of_mem hname)

/-! ## Roots -/

theorem isLink_of_repoints (h : Repoints false fs fs')
    (hstat : fs.stat root = .ok (location, .file f)) :
    ∃ place e e', fs.lstat root = .ok (place, e) ∧ fs'.lstat root = .ok (place, e') ∧
      e'.isLink = e.isLink := by
  have hcheck := (stat_eq_ok_iff.mp hstat).1
  obtain ⟨directory, name, e, hnames, he⟩ := exists_namesEntry_of_stat hstat
  have hnames' := h.namesEntry hnames
  refine ⟨directory.child name, e, ?_⟩
  rcases h.get?_cases (directory.child name) with
    hsame | ⟨directory', name', location', g, heq, hleads, hfollow, hafter⟩
  · exact ⟨e, hnames.lstat_eq_ok hcheck he, hnames'.lstat_eq_ok hcheck (hsame.trans he), rfl⟩
  · refine ⟨_, hnames.lstat_eq_ok hcheck he, hnames'.lstat_eq_ok hcheck hafter, ?_⟩
    have hfile := hleads.file
    rw [hfollow rfl, he, Option.some.injEq] at hfile
    rw [hfile]
    rfl

theorem walkRoot_of_repoints {e : Entry} (h : Repoints follow fs fs')
    (hstat : fs.stat root = .ok (location, e))
    (hstopped : (walkRoot fs follow root location e).stopped = none) :
    ∃ location' e', fs'.stat root = .ok (location', e') ∧
      walkRoot fs' follow root location' e' = walkRoot fs follow root location e := by
  cases e with
  | directory mode =>
    rcases h.stat_of_ok hstat with hafter | ⟨f, place, hfile, -⟩
    · refine ⟨location, _, hafter, ?_⟩
      exact walkDirectory_of_repoints h (.of_stat hstat) hstopped
    · simp at hfile
  | file f =>
    have hafter : ∃ place g, fs'.stat root = .ok (place, .file g) := by
      rcases h.stat_of_ok hstat with hafter | ⟨g, place, -, hafter⟩
      · exact ⟨_, _, hafter⟩
      · exact ⟨_, _, hafter⟩
    obtain ⟨place, g, hafter⟩ := hafter
    refine ⟨place, _, hafter, ?_⟩
    cases follow with
    | true => simp [walkRoot]
    | false =>
      obtain ⟨entry, e, e', hlstat, hlstat', hlink⟩ := isLink_of_repoints h hstat
      rw [walkRoot_file hlstat, walkRoot_file hlstat', hlink]
  | link text =>
    rcases h.stat_of_ok hstat with hafter | ⟨f, place, hfile, -⟩
    · exact ⟨_, _, hafter, rfl⟩
    · simp at hfile
  | pipe mode =>
    rcases h.stat_of_ok hstat with hafter | ⟨f, place, hfile, -⟩
    · exact ⟨_, _, hafter, rfl⟩
    · simp at hfile

theorem discoverRoot_of_repoints {found : List Path} (h : Repoints follow fs fs')
    (hfound : (discoverRoot follow root fs).result = .ok found) :
    (discoverRoot follow root fs').result = .ok found := by
  rw [discoverRoot_eq_ok_iff] at hfound ⊢
  rcases hfound with ⟨hstat, rfl⟩ | ⟨location, e, hstat, hstopped, hfound⟩
  · exact .inl ⟨h.stat_of_noEntry hstat, rfl⟩
  · obtain ⟨location', e', hafter, hwalk⟩ := walkRoot_of_repoints h hstat hstopped
    exact .inr ⟨location', e', hafter, hwalk ▸ hstopped, hwalk ▸ hfound⟩

theorem discover_of_repoints {roots files : List Path} (h : Repoints follow fs fs')
    (hfiles : (discover follow roots fs).result = .ok files) :
    (discover follow roots fs').result = .ok files := by
  induction roots generalizing files with
  | nil => exact hfiles
  | cons root rest ih =>
    rw [discover_cons_eq_ok_iff] at hfiles ⊢
    obtain ⟨found, more, hfound, hmore, heq⟩ := hfiles
    exact ⟨found, more, discoverRoot_of_repoints h hfound, ih hmore, heq⟩

end Repoint
