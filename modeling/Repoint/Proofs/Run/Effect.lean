import Repoint.Proofs.Discovery.Listing
import Repoint.Proofs.Run.Patching

/-!
# What a run does to a tree

The files have different locations, so a patch changes neither where another path leads nor what is
there.
-/

namespace Repoint

open FileSystem

variable {fs : FileSystem} {options : Options} {path root : Path} {location : Location} {f g : File}

/-! ## Different files -/

theorem Place.names_below (place : Place) (names : List Name) :
    (place.below names).location.names = names.reverse ++ place.location.names := by
  induction names generalizing place with
  | nil => rfl
  | cons name names ih =>
    rw [Place.below_cons, ih, List.reverse_cons, List.append_assoc]
    rfl

theorem FileSystem.IsBuildFileOf.names_eq {a b : BuildFile} (ha : fs.IsBuildFileOf root a)
    (hb : fs.IsBuildFileOf root b) (h : a.place.location = b.place.location) : a.names = b.names := by
  cases ha with
  | itself hname hlstat =>
    obtain ⟨-, rfl⟩ := (isBuildFileOf_of_file hlstat).mp hb
    rfl
  | below hstat hbelow =>
    obtain ⟨-, hplace⟩ := (isBuildFileOf_of_directory hstat).mp hb
    have hnames := congrArg Location.names h
    rw [hplace, Place.names_below, Place.names_below] at hnames
    exact List.reverse_injective (List.append_cancel_right hnames)

theorem ListsRoot.distinct {found : List Path} {files : List BuildFile}
    (h : ListsRoot fs root found files) :
    files.Pairwise fun a b => a.place.location ≠ b.place.location := by
  apply h.inOrder.imp_of_mem
  intro a b ha hb hprecedes heq
  rw [((h.mem_iff a).mp ha).names_eq ((h.mem_iff b).mp hb) heq] at hprecedes
  exact not_precedes_self _ hprecedes

/-! ## One patch -/

/-- The rule finds something to change in the file. -/
def File.IsDue (f : File) : Prop := (eligible f.data).Nonempty

instance (f : File) : Decidable f.IsDue := inferInstanceAs (Decidable (Finset.Nonempty _))

theorem File.isDue_iff (f : File) : f.IsDue ↔ ¬ AllMarked f.data := by
  rw [allMarked_iff, File.IsDue, Finset.nonempty_iff_ne_empty]

theorem FileSystem.NamesFile.leadsToFile (h : fs.NamesFile path location f) :
    ∃ directory name, location = directory.child name ∧ fs.NamesEntry path directory name ∧
      fs.LeadsToFile directory name location f := by
  obtain ⟨directory, name, rfl, hnames, hget⟩ := h
  exact ⟨directory, name, rfl, hnames, hnames.leads_of_leadsTo (hnames.leadsTo hget rfl), hget⟩

theorem FileSystem.NamesFile.put_of_ne {other : Path} {place : Location}
    (h : fs.NamesFile path location f) (hother : fs.NamesFile other place g)
    (hne : place ≠ location) (f' : File) :
    (fs.put location (.file f')).NamesFile other place g := by
  obtain ⟨directory, name, rfl, -, hleads⟩ := h.leadsToFile
  obtain ⟨directory', name', heq, hnames, hget⟩ := hother
  exact ⟨directory', name', heq, hleads.namesEntry_put f' hnames,
    by rw [get?_put_of_ne _ _ hne, hget]⟩

theorem patchFile_of_namesFile {patch : FilePatch} (hdry : options.dryRun = false)
    (hfile : fs.NamesFile path location f) (h : (patchFile options path fs).result = .ok patch) :
    patch = .ofData path f.data (decide f.IsDue) ∧
      (patchFile options path).stateAfter fs =
        if f.IsDue then fs.put location (.file f.repointed) else fs := by
  rcases patchFile_cases options path fs with ⟨⟨e, hresult⟩, -⟩ |
    ⟨data, hread, hmarked, hresult, hafter⟩ |
    ⟨directory, name, place, g, -, hmarked, -, hstat, hnames, -, hresult, hafter⟩
  · simp [hresult] at h
  · obtain ⟨⟨place, e⟩, hstat, -⟩ := bind_eq_ok.mp hread
    have hcheck := (stat_eq_ok_iff.mp hstat).1
    obtain ⟨-, rfl⟩ := (read_eq_ok_iff (hfile.stat_eq_ok hcheck)).mp hread
    have hdue : ¬ f.IsDue := by simpa [File.isDue_iff, hdry] using hmarked
    rw [hresult, Except.ok.injEq] at h
    rw [hafter, if_neg hdue, decide_eq_false hdue]
    exact ⟨h.symm, rfl⟩
  · have hcheck := (stat_eq_ok_iff.mp hstat).1
    rw [hfile.stat_eq_ok hcheck, Except.ok.injEq, Prod.mk.injEq, Entry.file.injEq] at hstat
    obtain ⟨rfl, rfl⟩ := hstat
    obtain ⟨directory', name', rfl, hnames', -⟩ := hfile
    obtain ⟨rfl, rfl⟩ := hnames.unique hnames'
    have hdue : f.IsDue := f.isDue_iff.mpr hmarked
    rw [hresult, Except.ok.injEq] at h
    rw [hafter, if_pos hdue, decide_eq_true hdue]
    exact ⟨h.symm, rfl⟩

/-! ## All patches -/

theorem patchFiles_effect {files : List BuildFile} {patches : List FilePatch}
    (hdry : options.dryRun = false)
    (hfiles : ∀ b ∈ files, fs.NamesFile b.place.path b.place.location b.file)
    (hdistinct : files.Pairwise fun a b => a.place.location ≠ b.place.location)
    (h : (patchFiles options (files.map (·.place.path)) fs).result = .ok patches) :
    patches = files.map (fun b => .ofData b.place.path b.file.data (decide b.file.IsDue)) ∧
      (∀ b ∈ files, b.file.IsDue →
        ((patchFiles options (files.map (·.place.path))).stateAfter fs).get? b.place.location =
          some (.file b.file.repointed)) ∧
      (∀ location, (∀ b ∈ files, b.file.IsDue → b.place.location ≠ location) →
        ((patchFiles options (files.map (·.place.path))).stateAfter fs).get? location =
          fs.get? location) := by
  induction files generalizing fs patches with
  | nil =>
    obtain rfl : [] = patches := Except.ok.inj h
    refine ⟨rfl, by simp, ?_⟩
    intro location _
    rfl
  | cons b rest ih =>
    obtain ⟨patch, more, hpatch, hmore, rfl⟩ := exists_of_patchFiles_cons h
    have hb := hfiles b List.mem_cons_self
    obtain ⟨hne, hrest⟩ := List.pairwise_cons.mp hdistinct
    obtain ⟨rfl, hstate⟩ := patchFile_of_namesFile hdry hb hpatch
    simp only [List.map_cons]
    rw [(patchFiles_cons _ hpatch).2]
    generalize (patchFile options b.place.path).stateAfter fs = fs' at hstate hmore
    -- The first patch leaves the other files where they are.
    have hnames : ∀ c ∈ rest, fs'.NamesFile c.place.path c.place.location c.file := by
      intro c hc
      have hfile := hfiles c (List.mem_cons_of_mem _ hc)
      rw [hstate]
      split
      · exact hb.put_of_ne hfile (hne c hc).symm _
      · exact hfile
    obtain ⟨rfl, hreplaced, hkept⟩ := ih hnames hrest hmore
    refine ⟨rfl, ?_, ?_⟩
    · intro c hc hdue
      rcases List.mem_cons.mp hc with rfl | hc
      · rw [hkept _ fun d hd _ => (hne d hd).symm, hstate, if_pos hdue]
        obtain ⟨directory, name, heq, -, hleads⟩ := hb.leadsToFile
        rw [heq]
        exact hleads.get?_put_self _
      · exact hreplaced c hc hdue
    · intro location hlocation
      rw [hkept location fun c hc => hlocation c (List.mem_cons_of_mem _ hc), hstate]
      split
      · next hdue => exact get?_put_of_ne _ _ (hlocation b List.mem_cons_self hdue).symm
      · rfl

/-! ## The whole run -/

theorem replacements_pos_iff (f : File) : 0 < (repoint f.data).replacements ↔ f.IsDue := by
  rw [Nat.pos_iff_ne_zero, File.isDue_iff, ne_eq, repoint_replacements_eq_zero_iff]

theorem filter_patches (files : List BuildFile) :
    (files.map fun b => FilePatch.ofData b.place.path b.file.data (decide b.file.IsDue)).filter
        (0 < ·.replacements) =
      (files.filter (·.file.IsDue)).map fun b => .ofData b.place.path b.file.data true := by
  induction files with
  | nil => rfl
  | cons b rest ih =>
    have hpos := replacements_pos_iff b.file
    by_cases hdue : b.file.IsDue
    · rw [List.map_cons, List.filter_cons_of_pos (by simpa [FilePatch.ofData, hpos] using hdue), ih,
        List.filter_cons_of_pos (by simpa using hdue), List.map_cons, decide_eq_true hdue]
    · rw [List.map_cons, List.filter_cons_of_neg (by simpa [FilePatch.ofData, hpos] using hdue), ih,
        List.filter_cons_of_neg (by simpa using hdue)]

/-- **Effect.** When a tree is patched, the build files in it that are due are reported and replaced, in
order, and no other entry changes. -/
theorem patchTree_effect (disk : Disk) (root : Path) (fs : FileSystem) :
    (∀ report, (patchTree disk root fs).result = .ok report →
      ∃ files : List BuildFile,
        (∀ b, b ∈ files ↔ fs.IsBuildFileOf root b) ∧
        files.Pairwise (fun a b => Precedes a.names b.names) ∧
        report.scanned = files.length ∧
        report.patches = (files.filter (·.file.IsDue)).map
          (fun b => .ofData b.place.path b.file.data true) ∧
        (∀ b ∈ files, b.file.IsDue →
          ((patchTree disk root).stateAfter fs).get? b.place.location =
            some (.file b.file.repointed)) ∧
        (∀ location, (∀ b ∈ files, b.file.IsDue → b.place.location ≠ location) →
          ((patchTree disk root).stateAfter fs).get? location = fs.get? location)) ∧
    (fs.stat root = .error .noEntry →
      (patchTree disk root fs).result = .ok { scanned := 0, patches := [] } ∧
        (patchTree disk root).stateAfter fs = fs) := by
  unfold patchTree
  constructor
  · intro report h
    obtain ⟨found, patches, hfound, hpatches, rfl⟩ := exists_of_run h
    obtain ⟨files, hlists⟩ := discoverRoot_lists (discover_singleton_eq_ok_iff.mp hfound)
    obtain rfl := hlists.found_eq
    have hnames : ∀ b ∈ files, fs.NamesFile b.place.path b.place.location b.file := by
      intro b hb
      exact ((hlists.mem_iff b).mp hb).namesFile
    obtain ⟨rfl, hreplaced, hkept⟩ := patchFiles_effect rfl hnames hlists.distinct hpatches
    rw [(run_of_discover { disk } hfound).2]
    exact ⟨files, hlists.mem_iff, hlists.inOrder, List.length_map _, filter_patches files, hreplaced,
      hkept⟩
  · intro hstat
    have hfound : (discover false [root] fs).result = .ok [] :=
      discover_singleton_eq_ok_iff.mpr (discoverRoot_eq_ok_iff.mpr (.inl ⟨hstat, rfl⟩))
    exact run_of_discover { disk } hfound

theorem patchTree_effect_sampleTree :
    let report : Report :=
      { scanned := 2
        patches :=
          [⟨ascii "top/CMakeLists.txt", 1, 1, true⟩, ⟨ascii "top/lib/CMakeLists.txt", 1, 1, true⟩] }
    (patchTree {} (ascii "top") sampleTree).result = .ok report ∧
      (∃ files : List BuildFile,
        (∀ b, b ∈ files ↔ sampleTree.IsBuildFileOf (ascii "top") b) ∧
        files.Pairwise (fun a b => Precedes a.names b.names) ∧ report.scanned = files.length ∧
        report.patches = (files.filter (·.file.IsDue)).map
          (fun b => .ofData b.place.path b.file.data true) ∧
        (∀ b ∈ files, b.file.IsDue →
          ((patchTree {} (ascii "top")).stateAfter sampleTree).get? b.place.location =
            some (.file b.file.repointed)) ∧
        (∀ location, (∀ b ∈ files, b.file.IsDue → b.place.location ≠ location) →
          ((patchTree {} (ascii "top")).stateAfter sampleTree).get? location =
            sampleTree.get? location)) ∧
      (patchTree {} (ascii "gone") sampleTree).result = .ok { scanned := 0, patches := [] } ∧
      (patchTree {} (ascii "gone")).stateAfter sampleTree = sampleTree := by
  intro report
  have hresult : (patchTree {} (ascii "top") sampleTree).result = .ok report := by decide +kernel
  have hgone : sampleTree.stat (ascii "gone") = .error .noEntry := by decide +kernel
  exact ⟨hresult, (patchTree_effect {} (ascii "top") sampleTree).1 report hresult,
    (patchTree_effect {} (ascii "gone") sampleTree).2 hgone⟩

end Repoint
