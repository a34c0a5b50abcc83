import Mathlib.Data.List.Forall2
import Mathlib.Data.List.TakeWhile
import Repoint.Proofs.Report.Shape
import Repoint.Proofs.Rule.Scan

/-!
# Reports are read back

Both forms are the same tokens, and a patch without spaces is on one line.
-/

namespace Repoint

open Json

variable {patch : FilePatch} {patches : List FilePatch} {text rest : Bytes}

/-! ## The tokens of a patch -/

def FilePatch.valueText (patch : FilePatch) : Field → Bytes
  | .path => quote patch.path
  | .replacements => decimal patch.replacements
  | .linesChanged => decimal patch.linesChanged
  | .written => boolText patch.written

def FilePatch.valueToken (patch : FilePatch) : Field → Token
  | .path => .text (some patch.path)
  | .replacements => .number (.plain patch.replacements)
  | .linesChanged => .number (.plain patch.linesChanged)
  | .written => .bool patch.written

def Field.all : List Field := [.path, .replacements, .linesChanged, .written]

def FilePatch.memberTokens (patch : FilePatch) (field : Field) : List Token :=
  [.text (some field.name), .mark .colon, patch.valueToken field]

def FilePatch.tokens (patch : FilePatch) : List Token :=
  .mark .openBrace :: List.intercalate [.mark .comma] (Field.all.map patch.memberTokens)
    ++ [.mark .closeBrace]

def FilePatch.valueMembers (patch : FilePatch) : List (Bytes × Value) :=
  [(Field.path.name, .text patch.path), (Field.replacements.name, .number (.plain patch.replacements)),
    (Field.linesChanged.name, .number (.plain patch.linesChanged)),
    (Field.written.name, .bool patch.written)]

/-- What stands around the members of a patch and between them. -/
structure Layout where
  opening : Bytes
  indent : Bytes
  colon : Bytes
  comma : Bytes
  closing : Bytes
  marks_opening : Marks opening [.openBrace] := by decide
  marks_indent : Marks indent [] := by decide
  marks_colon : Marks colon [.colon] := by decide
  marks_comma : Marks comma [.comma] := by decide
  marks_closing : Marks closing [.closeBrace] := by decide

def Layout.compact : Layout where
  opening := [0x7B]
  indent := []
  colon := ascii ":"
  comma := ascii ","
  closing := [0x7D]

def Layout.indented : Layout where
  opening := ascii "  \x7b\n"
  indent := ascii "    "
  colon := ascii ": "
  comma := ascii ",\n"
  closing := ascii "\n  \x7d"

def Layout.memberText (layout : Layout) (patch : FilePatch) (field : Field) : Bytes :=
  layout.indent ++ quote field.name ++ layout.colon ++ patch.valueText field

def Layout.spell (layout : Layout) (patch : FilePatch) : Bytes :=
  layout.opening ++ List.intercalate layout.comma (Field.all.map (layout.memberText patch))
    ++ layout.closing

theorem compact?_of_valid (hpath : Utf8.Valid patch.path) :
    patch.compact? = some (Layout.compact.spell patch) := by
  rw [FilePatch.compact?, FilePatch.members?, if_pos hpath]
  rfl

theorem element?_of_valid (hpath : Utf8.Valid patch.path) :
    patch.element? = some (Layout.indented.spell patch) := by
  rw [FilePatch.element?, FilePatch.members?, if_pos hpath]
  rfl

theorem compact?_of_not_valid (hpath : ¬ Utf8.Valid patch.path) : patch.compact? = none := by
  rw [FilePatch.compact?, FilePatch.members?, if_neg hpath]
  rfl

theorem element?_of_not_valid (hpath : ¬ Utf8.Valid patch.path) : patch.element? = none := by
  rw [FilePatch.element?, FilePatch.members?, if_neg hpath]
  rfl

/-! ## Reading tokens off a text -/

theorem intercalate_map_cons {α β : Type} (separator : List α) (f : β → List α) (first : β)
    (items : List β) :
    List.intercalate separator ((first :: items).map f) =
      f first ++ items.flatMap (fun item => separator ++ f item) := by
  induction items generalizing first with
  | nil => simp
  | cons item items ih =>
    have htail := ih item
    simp only [List.map_cons, List.flatMap_cons] at htail ⊢
    rw [List.intercalate_cons_cons, htail, List.append_assoc, List.append_assoc]

theorem tokens_intercalate {α : Type} {comma : Bytes} (hcomma : Marks comma [.comma])
    {spell : α → Bytes} {mean : α → List Token} {items : List α}
    (hitems : ∀ item ∈ items, ∀ rest, Delimits rest →
      tokens (spell item ++ rest) = mean item ++ tokens rest)
    (hrest : Delimits rest) :
    tokens (List.intercalate comma (items.map spell) ++ rest) =
      List.intercalate [.mark .comma] (items.map mean) ++ tokens rest := by
  induction items with
  | nil => rfl
  | cons item items ih =>
    rw [List.forall_mem_cons] at hitems
    obtain ⟨hitem, hitems⟩ := hitems
    cases items with
    | nil => simpa using hitem rest hrest
    | cons next items =>
      have htail := ih hitems
      simp only [List.map_cons] at htail ⊢
      rw [List.intercalate_cons_cons, List.intercalate_cons_cons, List.append_assoc,
        List.append_assoc, hitem _ (hcomma.delimits_append _), hcomma.tokens_append, htail]
      simp

theorem tokens_valueText (hpath : Utf8.Valid patch.path) (field : Field) (hrest : Delimits rest) :
    tokens (patch.valueText field ++ rest) = patch.valueToken field :: tokens rest := by
  cases field with
  | path => exact tokens_quote hpath rest
  | replacements => exact tokens_decimal patch.replacements hrest
  | linesChanged => exact tokens_decimal patch.linesChanged hrest
  | written => exact tokens_boolText patch.written rest

theorem valid_name (field : Field) : Utf8.Valid field.name := by
  cases field <;> decide

theorem Layout.tokens_memberText (layout : Layout) (hpath : Utf8.Valid patch.path) (field : Field)
    (hrest : Delimits rest) :
    tokens (layout.memberText patch field ++ rest) = patch.memberTokens field ++ tokens rest := by
  unfold memberText
  rw [List.append_assoc, List.append_assoc, List.append_assoc, layout.marks_indent.tokens_append,
    tokens_quote (valid_name field), layout.marks_colon.tokens_append,
    tokens_valueText hpath field hrest]
  rfl

theorem Layout.tokens_spell (layout : Layout) (hpath : Utf8.Valid patch.path) (rest : Bytes) :
    tokens (layout.spell patch ++ rest) = patch.tokens ++ tokens rest := by
  have hmembers : ∀ field ∈ Field.all, ∀ rest, Delimits rest →
      tokens (layout.memberText patch field ++ rest) = patch.memberTokens field ++ tokens rest :=
    fun field _ _ => layout.tokens_memberText hpath field
  unfold spell
  rw [List.append_assoc, List.append_assoc, layout.marks_opening.tokens_append,
    tokens_intercalate layout.marks_comma hmembers (layout.marks_closing.delimits_append rest),
    layout.marks_closing.tokens_append, FilePatch.tokens, List.append_assoc]
  rfl

/-! ## Reading a patch off its tokens -/

/-- The counts are numbers that a count can be. -/
def FilePatch.CountsFit (patch : FilePatch) : Prop :=
  patch.replacements < significandLimit ∧ patch.linesChanged < significandLimit

theorem isCount_plain {n : Nat} (hn : n < significandLimit) : Value.IsCount (.number (.plain n)) n :=
  ⟨decimal n, rfl, digitsValue_decimal n, hn⟩

namespace Reader

theorem patchTokens_tokens (hcounts : patch.CountsFit) (rest : List Token) :
    patchTokens (patch.tokens ++ rest) = .ok (patch, rest) := by
  have htokens : patch.tokens = (Value.object patch.valueMembers).tokens := by
    simp only [FilePatch.valueMembers, Value.tokens, membersTokens]
    rfl
  have hcompleted : Draft.IsCompletedBy {} patch.valueMembers patch := by
    rintro (_ | _ | _ | _)
    · exact .inr ⟨rfl, _, rfl, rfl⟩
    · exact .inr ⟨rfl, _, rfl, isCount_plain hcounts.1⟩
    · exact .inr ⟨rfl, _, rfl, isCount_plain hcounts.2⟩
    · exact .inr ⟨rfl, _, rfl, rfl⟩
  rw [htokens]
  exact patchTokens_object.mpr ⟨hcompleted, rfl⟩

/-! ## Reading an array off its tokens -/

theorem moreElements_tokens (hcounts : ∀ patch ∈ patches, patch.CountsFit) (rest : List Token) :
    moreElements (patches.flatMap (fun patch => .mark .comma :: patch.tokens)
      ++ .mark .closeBracket :: rest) = .ok (patches, rest) := by
  induction patches with
  | nil =>
    rw [List.flatMap_nil, List.nil_append, moreElements]
  | cons patch patches ih =>
    obtain ⟨hpatch, hcounts⟩ := List.forall_mem_cons.mp hcounts
    rw [List.flatMap_cons, List.append_assoc]
    exact moreElements_comma (patchTokens_tokens hpatch _) (ih hcounts)

def patchesTokens (patches : List FilePatch) : List Token :=
  .mark .openBracket :: List.intercalate [.mark .comma] (patches.map FilePatch.tokens)
    ++ [.mark .closeBracket]

theorem arrayTokens_patchesTokens (hcounts : ∀ patch ∈ patches, patch.CountsFit) :
    arrayTokens (patchesTokens patches) = .ok (patches, []) := by
  cases patches with
  | nil => rfl
  | cons patch patches =>
    obtain ⟨hpatch, hcounts⟩ := List.forall_mem_cons.mp hcounts
    have hmore := moreElements_tokens hcounts []
    rw [patchesTokens, intercalate_map_cons, List.cons_append, List.append_assoc]
    refine bind_eq_ok.mpr ⟨_, rfl, (if_pos rfl).trans ?_⟩
    exact bind_eq_ok.mpr ⟨_, patchTokens_tokens hpatch _, bind_eq_ok.mpr ⟨_, hmore, rfl⟩⟩

end Reader

theorem read_of_tokens (hcounts : patch.CountsFit) (htext : tokens text = patch.tokens) :
    FilePatch.read text = .ok patch := by
  have hpatch := Reader.patchTokens_tokens hcounts []
  rw [List.append_nil] at hpatch
  rw [FilePatch.read, htext, hpatch]
  rfl

theorem Layout.read_spell_append (layout : Layout) (hpath : Utf8.Valid patch.path)
    (hcounts : patch.CountsFit) {blank : Bytes} (hblank : Marks blank []) :
    FilePatch.read (layout.spell patch ++ blank) = .ok patch := by
  apply read_of_tokens hcounts
  rw [layout.tokens_spell hpath, hblank.tokens_eq_nil, List.append_nil]

theorem Layout.read_spell (layout : Layout) (hpath : Utf8.Valid patch.path)
    (hcounts : patch.CountsFit) : FilePatch.read (layout.spell patch) = .ok patch := by
  have hblank : Marks [] [] := by decide
  simpa using layout.read_spell_append hpath hcounts hblank

theorem readPatches_of_tokens (hcounts : ∀ patch ∈ patches, patch.CountsFit)
    (htext : tokens text = Reader.patchesTokens patches) : readPatches text = .ok patches := by
  rw [readPatches, htext, Reader.arrayTokens_patchesTokens hcounts]
  rfl

/-! ## Patches on lines -/

theorem newline_not_mem_quote (text : Bytes) : newline ∉ quote text :=
  fun h => absurd (le_of_mem_quote h) (by decide)

theorem newline_not_mem_decimal (n : Nat) : newline ∉ decimal n :=
  fun h => absurd (isDigit_of_mem_decimal h) (by decide)

theorem newline_not_mem_boolText (value : Bool) : newline ∉ boolText value := by
  cases value <;> decide

theorem newline_not_mem_valueText (patch : FilePatch) (field : Field) :
    newline ∉ patch.valueText field := by
  cases field with
  | path => exact newline_not_mem_quote patch.path
  | replacements => exact newline_not_mem_decimal patch.replacements
  | linesChanged => exact newline_not_mem_decimal patch.linesChanged
  | written => exact newline_not_mem_boolText patch.written

theorem newline_not_mem_compact (patch : FilePatch) : newline ∉ Layout.compact.spell patch := by
  have hmember (field : Field) : newline ∉ Layout.compact.memberText patch field := by
    simp only [Layout.memberText, List.mem_append, not_or]
    exact ⟨⟨⟨by decide, newline_not_mem_quote _⟩, by decide⟩, newline_not_mem_valueText patch field⟩
  have hcomma : newline ∉ Layout.compact.comma := by decide
  rw [Layout.spell, Field.all, intercalate_map_cons]
  simp only [List.mem_append, List.mem_flatMap, not_or, not_exists, not_and]
  exact ⟨⟨by decide, hmember _, fun field _ => ⟨hcomma, hmember field⟩⟩, by decide⟩

/-- Patches without spaces, each with a newline after it. -/
def linesText (patches : List FilePatch) : Bytes :=
  patches.flatMap fun patch => Layout.compact.spell patch ++ [newline]

theorem writeEach_eq (patches : List FilePatch) (sink : Sink) :
    writeEach patches sink =
      match sink.render [linesText (patches.takeWhile fun patch => Utf8.Valid patch.path)] with
      | (sink, none) =>
        (sink, if ∀ patch ∈ patches, Utf8.Valid patch.path then none else some .notUtf8)
      | failed => failed := by
  induction patches generalizing sink with
  | nil => simp [writeEach, linesText, Sink.render, Sink.writeAll]
  | cons patch patches ih =>
    by_cases hpath : Utf8.Valid patch.path
    · have hline : sink.render [Layout.compact.spell patch, [newline]] =
          sink.render [Layout.compact.spell patch ++ [newline]] := sink.render_congr (by simp)
      have hlines : sink.render [linesText ((patch :: patches).takeWhile fun p => Utf8.Valid p.path)] =
          sink.render [Layout.compact.spell patch ++ [newline],
            linesText (patches.takeWhile fun p => Utf8.Valid p.path)] :=
        sink.render_congr (by simp [linesText, hpath])
      rw [writeEach, compact?_of_valid hpath, hlines, Sink.render_cons]
      simp only [hline, List.forall_mem_cons, hpath, true_and]
      rcases sink.render [Layout.compact.spell patch ++ [newline]] with ⟨after, failure⟩
      cases failure with
      | none => exact ih after
      | some e => rfl
    · have hnone : ¬ ∀ p ∈ patch :: patches, Utf8.Valid p.path := fun h => hpath (h _ List.mem_cons_self)
      rw [writeEach, compact?_of_not_valid hpath, List.takeWhile_cons_of_neg (by simpa using hpath),
        if_neg hnone]
      simp [linesText, Sink.render, Sink.writeAll]

theorem writeEach_of_valid {sink : Sink} (hroom : sink.room = .unlimited)
    (hpaths : ∀ patch ∈ patches, Utf8.Valid patch.path) :
    writeEach patches sink = ({ sink with written := sink.written ++ linesText patches }, none) := by
  have hall : patches.takeWhile (fun patch => Utf8.Valid patch.path) = patches :=
    List.takeWhile_eq_self_iff.mpr fun patch hpatch => decide_eq_true (hpaths patch hpatch)
  rw [writeEach_eq, hall, Sink.render_unlimited hroom, if_pos hpaths, List.flatten_singleton]

theorem lines_linesText (patches : List FilePatch) :
    lines (linesText patches) = patches.map fun patch => Layout.compact.spell patch ++ [newline] :=
  lines_flatMap fun patch _ => newline_not_mem_compact patch

theorem count_linesText (patches : List FilePatch) :
    (linesText patches).count newline = patches.length :=
  count_newline_eq_length_iff.mpr fun patch _ => newline_not_mem_compact patch

theorem getLast?_linesText (hne : linesText patches ≠ []) :
    (linesText patches).getLast? = some newline := by
  rcases List.eq_nil_or_concat patches with rfl | ⟨front, last, rfl⟩
  · exact absurd rfl hne
  · simp [linesText]

/-! ## Patches in an array -/

theorem mapM_element? (patches : List FilePatch) :
    patches.mapM FilePatch.element? =
      if ∀ patch ∈ patches, Utf8.Valid patch.path then some (patches.map Layout.indented.spell)
      else none := by
  induction patches with
  | nil => rfl
  | cons patch patches ih =>
    simp only [List.forall_mem_cons]
    by_cases hpath : Utf8.Valid patch.path
    · rw [List.mapM_cons, element?_of_valid hpath, ih]
      by_cases hpaths : ∀ p ∈ patches, Utf8.Valid p.path
      · rw [if_pos hpaths, if_pos ⟨hpath, hpaths⟩]
        rfl
      · rw [if_neg hpaths, if_neg (fun h => hpaths h.2)]
        rfl
    · rw [List.mapM_cons, element?_of_not_valid hpath, if_neg (fun h => hpath h.1)]
      rfl

/-- Patches in an array, with a newline after it. -/
def arrayText (patches : List FilePatch) : Bytes :=
  if patches = [] then ascii "[]\n"
  else ascii "[\n" ++ List.intercalate (ascii ",\n") (patches.map Layout.indented.spell)
    ++ ascii "\n]\n"

theorem writeArray_eq (patches : List FilePatch) (sink : Sink) :
    writeArray patches sink =
      if ∀ patch ∈ patches, Utf8.Valid patch.path then sink.render [arrayText patches]
      else (sink, some .notUtf8) := by
  unfold writeArray arrayText? arrayText
  by_cases hnil : patches = []
  · subst hnil
    rw [if_pos rfl, if_pos rfl, if_pos (by simp)]
    exact sink.render_congr rfl
  · rw [if_neg hnil, if_neg hnil, mapM_element?]
    by_cases hpaths : ∀ patch ∈ patches, Utf8.Valid patch.path
    · have hend : ascii "\n]\n" = ascii "\n]" ++ [newline] := rfl
      rw [if_pos hpaths, if_pos hpaths, hend]
      exact sink.render_congr (by simp)
    · rw [if_neg hpaths, if_neg hpaths]
      rfl

def IsArray (text : Bytes) (elements : List Bytes) : Prop :=
  ∃ opening comma closing, Marks opening [.openBracket] ∧ Marks comma [.comma] ∧
    Marks closing [.closeBracket] ∧ text = opening ++ List.intercalate comma elements ++ closing

theorem IsArray.tokens_eq {layout : Layout} (h : IsArray text (patches.map layout.spell))
    (hpaths : ∀ patch ∈ patches, Utf8.Valid patch.path) :
    tokens text = Reader.patchesTokens patches := by
  obtain ⟨opening, comma, closing, hopening, hcomma, hclosing, rfl⟩ := h
  have helements : ∀ patch ∈ patches, ∀ rest, Delimits rest →
      tokens (layout.spell patch ++ rest) = patch.tokens ++ tokens rest :=
    fun patch hpatch rest _ => layout.tokens_spell (hpaths patch hpatch) rest
  have hend : Delimits closing := by simpa using hclosing.delimits_append []
  have htokens : tokens closing = [.mark .closeBracket] := by simpa using hclosing.tokens_append []
  rw [List.append_assoc, hopening.tokens_append, tokens_intercalate hcomma helements hend, htokens]
  rfl

theorem isArray_arrayText (patches : List FilePatch) :
    IsArray (arrayText patches) (patches.map Layout.indented.spell) := by
  unfold arrayText
  split
  · next hnil =>
    subst hnil
    exact ⟨ascii "[", ascii ",", ascii "]\n", by decide, by decide, by decide, rfl⟩
  · exact ⟨ascii "[\n", ascii ",\n", ascii "\n]\n", by decide, by decide, by decide, rfl⟩

theorem writeArray_of_valid (hpaths : ∀ patch ∈ patches, Utf8.Valid patch.path) :
    ∃ text, writeArray patches {} = ({ written := text }, none) ∧
      IsArray text (patches.map Layout.indented.spell) := by
  refine ⟨arrayText patches, ?_, isArray_arrayText patches⟩
  rw [writeArray_eq, if_pos hpaths, Sink.render_unlimited rfl]
  simp

/-! ## Both forms of a report -/

/-- **Reading back.** Patches whose paths are UTF-8 are read back as they were written, in lines or as
an array. -/
theorem report_round_trip (patches : List FilePatch)
    (hpaths : ∀ patch ∈ patches, Utf8.Valid patch.path)
    (hcounts : ∀ patch ∈ patches,
      patch.replacements < Nat.pow 2 64 ∧ patch.linesChanged < Nat.pow 2 64) :
    (∃ text, writeEach patches {} = ({ written := text }, none) ∧
      text.count newline = patches.length ∧ (text ≠ [] → text.getLast? = some newline) ∧
      List.Forall₂
        (fun line patch => FilePatch.read line = .ok patch ∧
          ∃ body, line = body ++ [newline] ∧ newline ∉ body ∧ FilePatch.read body = .ok patch)
        (lines text) patches) ∧
    ∃ text elements, writeArray patches {} = ({ written := text }, none) ∧ IsArray text elements ∧
      List.Forall₂ (fun element patch => FilePatch.read element = .ok patch) elements patches ∧
      readPatches text = .ok patches := by
  constructor
  · refine ⟨linesText patches, writeEach_of_valid rfl hpaths, count_linesText patches,
      getLast?_linesText, ?_⟩
    rw [lines_linesText, List.forall₂_map_left_iff, List.forall₂_same]
    intro patch hpatch
    have hpath := hpaths patch hpatch
    have hnewline : Marks [newline] [] := by decide
    exact ⟨Layout.compact.read_spell_append hpath (hcounts patch hpatch) hnewline,
      Layout.compact.spell patch, rfl, newline_not_mem_compact patch,
      Layout.compact.read_spell hpath (hcounts patch hpatch)⟩
  · obtain ⟨text, hwrite, harray⟩ := writeArray_of_valid hpaths
    refine ⟨text, _, hwrite, harray, ?_, readPatches_of_tokens hcounts (harray.tokens_eq hpaths)⟩
    rw [List.forall₂_map_left_iff, List.forall₂_same]
    intro patch hpatch
    exact Layout.indented.read_spell (hpaths patch hpatch) (hcounts patch hpatch)

/-- A path with a newline, a quote, a backslash, a control character and a character above U+FFFF,
with the largest count; and the empty path. -/
theorem report_round_trip_escapes :
    let patches : List FilePatch :=
      [⟨ascii "a\n\"\\\x1f" ++ [0xF0, 0x9F, 0x98, 0x80], Nat.pow 2 64 - 1, 10, false⟩,
        ⟨[], 0, 0, true⟩]
    let text :=
      ascii "\x7b\"path\":\"a\\n\\\"\\\\\\u001f" ++ [0xF0, 0x9F, 0x98, 0x80] ++
      ascii "\",\"replacements\":18446744073709551615,\"lines_changed\":10,\"written\":false\x7d\n" ++
      ascii "\x7b\"path\":\"\",\"replacements\":0,\"lines_changed\":0,\"written\":true\x7d\n"
    writeEach patches {} = ({ written := text }, none) ∧ text.count newline = 2 ∧
      List.Forall₂ (fun line patch => FilePatch.read line = .ok patch) (lines text) patches ∧
      ∃ text, writeArray patches {} = ({ written := text }, none) ∧
        readPatches text = .ok patches := by
  intro patches text
  have htext : writeEach patches {} = ({ written := text }, none) := by decide +kernel
  obtain ⟨⟨text', htext', hcount, -, hlines⟩, array, -, harray, -, -, hread⟩ :=
    report_round_trip patches (by decide) (by decide)
  have heq : text = text' := by simpa using htext.symm.trans htext'
  subst heq
  exact ⟨htext, hcount, hlines.imp fun _ _ h => h.1, array, harray, hread⟩

end Repoint
