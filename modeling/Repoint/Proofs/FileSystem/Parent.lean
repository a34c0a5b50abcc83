import Mathlib.Data.List.DropRight
import Repoint.Proofs.FileSystem.Update

/-!
# The directory part of a path

The directory part of a path's text leads to the directory of the entry that the path names.
-/

namespace Repoint

/-! ## Pieces -/

theorem prefix_joinWith (separator : UInt8) {a b : List Bytes} (h : a <+: b) :
    joinWith separator a <+: joinWith separator b := by
  obtain ⟨rest, rfl⟩ := h
  unfold joinWith
  induction a with
  | nil => simp
  | cons piece others ih =>
    cases others with
    | nil =>
      cases rest with
      | nil => simp
      | cons next rest => simp [List.intercalate_cons_cons]
    | cons next others =>
      simp only [List.cons_append, List.intercalate_cons_cons] at ih ⊢
      exact (List.prefix_append_right_inj _).mpr ih

theorem rdropWhile_append_rdropWhile {α : Type} (p : α → Bool) (a b : List α) :
    (a ++ b.rdropWhile p).rdropWhile p = (a ++ b).rdropWhile p := by
  induction b using List.reverseRecOn with
  | nil => simp
  | append_singleton b x ih =>
    by_cases hx : p x
    · rw [List.rdropWhile_concat_pos p b x hx, ih, ← List.append_assoc,
        List.rdropWhile_concat_pos p _ x hx]
    · rw [List.rdropWhile_concat_neg p b x hx]

namespace Path

variable {path part rest : Path} {front : List Bytes} {first last : Bytes} {name : Name}

theorem joinWith_pieces (path : Path) : joinWith slash path.pieces = path :=
  joinWith_splitOn slash path

theorem pieces_slash_cons (rest : Path) : pieces (slash :: rest) = [] :: pieces rest := by
  simp [pieces, splitOn]

theorem isAbsolute_of_pieces {others : List Bytes} (h : path.pieces = [] :: others)
    (hne : others ≠ []) : path.isAbsolute := by
  obtain ⟨next, others, rfl⟩ := List.exists_cons_of_ne_nil hne
  rw [← path.joinWith_pieces, h]
  simp [joinWith, isAbsolute, List.intercalate_cons_cons]

theorem isAbsolute_of_begins (h : part <+: path) (hne : part ≠ []) :
    part.isAbsolute = path.isAbsolute := by
  obtain ⟨rest, rfl⟩ := h
  rw [isAbsolute, isAbsolute, List.head?_append_of_ne_nil _ hne]

theorem rdropWhile_pieces_joinWith (first : Bytes) {kept : List Bytes}
    (h : ∀ piece ∈ kept, slash ∉ piece) :
    (first :: pieces (joinWith slash kept)).rdropWhile isIdle =
      (first :: kept).rdropWhile isIdle := by
  by_cases hne : kept = []
  · subst hne
    exact List.rdropWhile_concat_pos isIdle [first] [] rfl
  · rw [pieces, splitOn_joinWith hne h]

/-! ## The parent as text -/

theorem relative_of_name (h : path.pieces = [name.bytes]) : path ≠ [] ∧ ¬ path.isAbsolute := by
  obtain ⟨hne, -, -, hslash, -⟩ := name.isName
  obtain rfl : path = name.bytes := by
    rw [← path.joinWith_pieces, h, joinWith, List.intercalate_singleton]
  refine ⟨hne, fun habsolute => hslash ?_⟩
  exact List.mem_of_head? (of_decide_eq_true habsolute)

theorem parent?_of_name (h : path.pieces = [name.bytes]) : path.parent? = some [] := by
  obtain ⟨hne, hrelative⟩ := relative_of_name h
  simp [parent?, trailing, h, hne, hrelative]

theorem parent?_of_pieces (h : path.pieces = first :: front ++ [name.bytes]) :
    path.parent? = some (if path.isAbsolute then slash :: joinWith slash (front.rdropWhile isIdle)
      else joinWith slash (first :: front.rdropWhile isIdle)) := by
  have htrailing : path.trailing = name.bytes :: front.reverse := by
    simp [trailing, h, isIdle_name]
  simp only [parent?, htrailing, h, List.cons_append, List.headD_cons]
  split <;> rfl

/-- The text is the beginning of the path, and has these pieces up to idle ones at the end. -/
structure IsFront (part path : Path) (front : List Bytes) : Prop where
  ne_nil : part ≠ []
  begins : part <+: path
  pieces_eq : part.pieces.rdropWhile isIdle = front.rdropWhile isIdle

theorem isFront_of_absolute (h : pieces rest = front ++ [last]) :
    IsFront (slash :: joinWith slash (front.rdropWhile isIdle)) (slash :: rest) ([] :: front) := by
  have hkept := List.rdropWhile_prefix isIdle front
  have hbegins : front.rdropWhile isIdle <+: pieces rest := by
    rw [h]
    exact hkept.trans (List.prefix_append _ _)
  refine ⟨by simp, ?_, ?_⟩
  · have hjoin := prefix_joinWith slash hbegins
    rw [joinWith_pieces] at hjoin
    exact List.cons_prefix_cons.mpr ⟨rfl, hjoin⟩
  · rw [pieces_slash_cons, rdropWhile_pieces_joinWith]
    · exact rdropWhile_append_rdropWhile isIdle [[]] front
    · intro piece hpiece
      exact not_mem_of_mem_splitOn (hbegins.subset hpiece)

theorem isFront_of_relative (hfirst : first ≠ []) (h : path.pieces = first :: front ++ [last]) :
    IsFront (joinWith slash (first :: front.rdropWhile isIdle)) path (first :: front) := by
  have hkept := List.rdropWhile_prefix isIdle front
  have hbegins : first :: front.rdropWhile isIdle <+: path.pieces := by
    rw [h, List.cons_append, List.prefix_cons_inj]
    exact hkept.trans (List.prefix_append _ _)
  refine ⟨?_, ?_, ?_⟩
  · have hhead : first <+: joinWith slash (first :: front.rdropWhile isIdle) := by
      simpa [joinWith] using prefix_joinWith slash (List.prefix_append [first] _)
    intro hnil
    rw [hnil, List.prefix_nil] at hhead
    exact hfirst hhead
  · have hjoin := prefix_joinWith slash hbegins
    rwa [joinWith_pieces] at hjoin
  · have hslash : ∀ piece ∈ first :: front.rdropWhile isIdle, slash ∉ piece :=
      fun _ hpiece => not_mem_of_mem_splitOn (hbegins.subset hpiece)
    rw [pieces, splitOn_joinWith (by simp) hslash]
    exact rdropWhile_append_rdropWhile isIdle [first] front

theorem exists_parent? (h : path.pieces = first :: front ++ [name.bytes]) :
    ∃ part, path.parent? = some part ∧ IsFront part path (first :: front) := by
  have hparent := parent?_of_pieces h
  by_cases habsolute : path.isAbsolute
  · rw [if_pos habsolute] at hparent
    obtain ⟨rest, rfl⟩ := List.head?_eq_some_iff.mp (of_decide_eq_true habsolute)
    rw [pieces_slash_cons, List.cons_append, List.cons.injEq] at h
    obtain ⟨rfl, hrest⟩ := h
    exact ⟨_, hparent, isFront_of_absolute hrest⟩
  · rw [if_neg habsolute] at hparent
    refine ⟨_, hparent, isFront_of_relative ?_ h⟩
    rintro rfl
    exact habsolute (isAbsolute_of_pieces h (by simp))

theorem ne_nil_of_directory? (h : path.directory? = some part) : part ≠ [] := by
  obtain ⟨parent, -, rfl⟩ := Option.map_eq_some_iff.mp h
  split
  · decide
  · assumption

theorem exists_directory? (h : path.pieces = front ++ [name.bytes]) :
    ∃ part, path.directory? = some part ∧ (part = dot ∨ part <+: path) ∧
      part.isAbsolute = path.isAbsolute ∧
      part.pieces.rdropWhile isIdle = front.rdropWhile isIdle := by
  cases front with
  | nil =>
    have hrelative := (relative_of_name h).2
    refine ⟨dot, by simp [directory?, parent?_of_name h], .inl rfl, ?_, by decide⟩
    rw [Bool.eq_false_iff.mpr hrelative]
    decide
  | cons first front =>
    obtain ⟨part, hparent, hfront⟩ := exists_parent? h
    exact ⟨part, by simp [directory?, hparent, hfront.ne_nil], .inr hfront.begins,
      isAbsolute_of_begins hfront.begins hfront.ne_nil, hfront.pieces_eq⟩

example : directory? (ascii "CMakeLists.txt") = some dot := by decide

example : directory? (ascii ".//a/.././/CMakeLists.txt") = some (ascii ".//a/..") := by decide

end Path

/-! ## Where the directory part leads -/

namespace FileSystem

variable {fs : FileSystem} {path part : Path} {location target directory : Location} {name : Name}
  {e : Entry} {n : Nat}

theorem checkPath_eq_ok_iff :
    checkPath path = .ok () ↔ 0 ∉ path ∧ path ≠ [] ∧ path.length < pathLimit := by
  unfold checkPath
  split
  · simp [*]
  · split
    · simp [*]
    · split
      · simp [*]
      · simp [*]
        omega

theorem follow_rdropWhile (hdir : fs.IsDirectory target) (pieces : List Bytes) :
    fs.follow .target n location ((pieces.rdropWhile Path.isIdle).map PathStep.ofPiece) =
        .ok target ↔
      fs.follow .target n location (pieces.map PathStep.ofPiece) = .ok target := by
  induction pieces using List.reverseRecOn with
  | nil => rfl
  | append_singleton pieces piece ih =>
    by_cases hidle : Path.isIdle piece
    · have hstay : PathStep.ofPiece piece = .stay := if_pos hidle
      rw [List.rdropWhile_concat_pos _ _ _ hidle, ih, List.map_append, List.map_singleton, hstay,
        follow_append_stay hdir]
    · rw [List.rdropWhile_concat_neg _ _ _ hidle]

namespace NamesEntry

theorem leadsTo_directory? (h : fs.NamesEntry path directory name)
    (hpart : path.directory? = some part) :
    (part = Path.dot ∨ part <+: path) ∧ fs.LeadsTo part directory := by
  obtain ⟨k, before, hk, hsteps, hleads, hdir⟩ := h
  obtain ⟨front, hpieces, rfl⟩ := Path.pieces_of_steps hsteps
  obtain ⟨part', hpart', hspelled, habsolute, hsame⟩ := Path.exists_directory? hpieces
  obtain rfl : part' = part := Option.some.inj (hpart'.symm.trans hpart)
  refine ⟨hspelled, follow_target_eq_ok_iff.mp ?_⟩
  have hfollow := hleads.follow_eq_ok hk
  rw [← follow_rdropWhile hdir, ← hsame, follow_rdropWhile hdir] at hfollow
  rwa [startOf, habsolute]

theorem stat_directory? (h : fs.NamesEntry path directory name) (hcheck : checkPath path = .ok ())
    (hpart : path.directory? = some part) :
    ∃ mode, fs.stat part = .ok (directory, .directory mode) := by
  obtain ⟨hspelled, hto⟩ := h.leadsTo_directory? hpart
  obtain ⟨k, before, -, -, -, mode, hget⟩ := h
  refine ⟨mode, stat_eq_ok_iff.mpr ⟨?_, hto, hget⟩⟩
  rcases hspelled with rfl | hbegins
  · decide
  · obtain ⟨hzero, -, hlength⟩ := checkPath_eq_ok_iff.mp hcheck
    refine checkPath_eq_ok_iff.mpr ⟨fun hmem => hzero (hbegins.subset hmem),
      Path.ne_nil_of_directory? hpart, ?_⟩
    exact Nat.lt_of_le_of_lt hbegins.length_le hlength

theorem getLast?_ne_slash (h : fs.NamesEntry path directory name) :
    path.getLast? ≠ some Path.slash := by
  obtain ⟨k, before, -, hsteps, -, -⟩ := h
  obtain ⟨front, hpieces, -⟩ := Path.pieces_of_steps hsteps
  intro hend
  obtain ⟨text, rfl⟩ := List.getLast?_eq_some_iff.mp hend
  rw [Path.pieces, splitOn_append_cons] at hpieces
  -- After the slash comes an empty piece, and no name is empty.
  have hlast : [[]] = [name.bytes] := List.append_inj_right' hpieces rfl
  exact name.isName.1 (List.cons.inj hlast).1.symm

theorem replaceable_eq_ok (h : fs.NamesEntry path directory name)
    (hcheck : checkPath path = .ok ()) (hget : fs.get? (directory.child name) = some e)
    (he : e.isDirectory = false) : fs.replaceable path = .ok (directory.child name) := by
  have hend := h.getLast?_ne_slash
  have hlstat := h.lstat_eq_ok hcheck hget
  obtain ⟨k, before, -, hsteps, -, -⟩ := h
  obtain ⟨front, hpieces, -⟩ := Path.pieces_of_steps hsteps
  obtain ⟨hne, -, hdotDot, -⟩ := name.isName
  have hlast : (path.pieces.reverse.dropWhile (· = [])).headD [] = name.bytes := by
    simp [hpieces, hne]
  have hname : ¬ (Path.isIdle name.bytes ∨ name.bytes = Path.dotDot) := by
    simp [Path.isIdle_name, hdotDot]
  unfold replaceable
  dsimp only
  rw [hlast, if_neg hname, if_neg hend, hlstat]
  cases e with
  | directory mode => cases he
  | file f => rfl
  | link text => rfl
  | pipe mode => rfl

end NamesEntry

end FileSystem

end Repoint
