import Mathlib.Data.List.Count
import Mathlib.Data.List.Perm.Basic
import Repoint.Proofs.Json.Value
import Repoint.Proofs.Report.Reader

/-!
# Which objects are patches
-/

namespace Repoint

open Json

namespace Reader

/-! ## Skipping a value -/

variable {around outer : List Enclosure} {expected expected' : Expected} {rest ts : List Token}
  {t : Token}

/-- What is left to skip after a value: nothing, when nothing is around it. -/
def leave (around : List Enclosure) (rest : List Token) : Except ReadError (List Token) :=
  if around.isEmpty then .ok rest else skip .more around rest

theorem skip_of_afterValue (h : expected.next around t = .ok (Expected.afterValue outer))
    (rest : List Token) : skip expected around (t :: rest) = leave outer rest := by
  rw [skip, h]
  cases outer with
  | nil => rfl
  | cons enclosure outer => rfl

theorem skip_of_next (h : expected.next around t = .ok (some (expected', outer)))
    (rest : List Token) : skip expected around (t :: rest) = skip expected' outer rest := by
  rw [skip, h]

/-- The value is skipped, and no more than that. -/
def IsSkipped (value : Value) : Prop :=
  ∀ around rest, skip .value around (value.tokens ++ rest) = leave around rest

theorem IsSkipped.first {value : Value} (h : IsSkipped value) (around : List Enclosure)
    (rest : List Token) : skip .firstValue around (value.tokens ++ rest) = leave around rest := by
  have hclose : value.first ≠ .mark .closeBracket := by cases value <;> exact nofun
  rw [← h around rest]
  obtain ⟨ts, heq⟩ := value.exists_tokens
  rw [heq, List.cons_append, skip, skip]
  simp only [Expected.next, if_neg hclose]

theorem skip_itemsTokens {items : List Value} (hitems : ∀ item ∈ items, IsSkipped item)
    (around : List Enclosure) (rest : List Token) :
    skip .more (.array :: around) (itemsTokens items ++ rest) = leave around rest := by
  induction items with
  | nil =>
    rw [itemsTokens]
    exact skip_of_afterValue rfl rest
  | cons item items ih =>
    obtain ⟨hitem, hmore⟩ := List.forall_mem_cons.mp hitems
    rw [itemsTokens, List.cons_append, List.append_assoc, skip_of_next rfl, hitem]
    exact ih hmore

theorem skip_member {key : Bytes} {value : Value} (hvalue : IsSkipped value)
    (h : expected.next (.object :: around) (.text (some key)) =
      .ok (some (.colon, .object :: around))) (rest : List Token) :
    skip expected (.object :: around)
        (.text (some key) :: .mark .colon :: (value.tokens ++ rest)) =
      skip .more (.object :: around) rest := by
  rw [skip_of_next h, skip_of_next rfl, hvalue]
  rfl

theorem skip_membersTokens {members : List (Bytes × Value)}
    (hmembers : ∀ member ∈ members, IsSkipped member.2) (around : List Enclosure)
    (rest : List Token) :
    skip .more (.object :: around) (membersTokens members ++ rest) = leave around rest := by
  induction members with
  | nil =>
    rw [membersTokens]
    exact skip_of_afterValue rfl rest
  | cons member members ih =>
    obtain ⟨key, value⟩ := member
    obtain ⟨hvalue, hmore⟩ := List.forall_mem_cons.mp hmembers
    rw [membersTokens]
    simp only [List.cons_append, List.append_assoc]
    rw [skip_of_next rfl, skip_member hvalue rfl]
    exact ih hmore

theorem isSkipped (value : Value) : IsSkipped value := by
  induction value using valueInduction with
  | null => exact fun around rest => skip_of_afterValue rfl rest
  | bool b => exact fun around rest => skip_of_afterValue rfl rest
  | number n => exact fun around rest => skip_of_afterValue rfl rest
  | text value => exact fun around rest => skip_of_afterValue rfl rest
  | array items ih =>
    intro around rest
    cases items with
    | nil =>
      rw [Value.tokens]
      exact (skip_of_next rfl _).trans (skip_of_afterValue rfl rest)
    | cons item items =>
      obtain ⟨hitem, hitems⟩ := List.forall_mem_cons.mp ih
      rw [Value.tokens, List.cons_append, List.append_assoc, skip_of_next rfl, hitem.first]
      exact skip_itemsTokens hitems around rest
  | object members ih =>
    intro around rest
    cases members with
    | nil =>
      rw [Value.tokens]
      exact (skip_of_next rfl _).trans (skip_of_afterValue rfl rest)
    | cons member members =>
      obtain ⟨key, value⟩ := member
      obtain ⟨hvalue, hmembers⟩ := List.forall_mem_cons.mp ih
      rw [Value.tokens]
      simp only [List.cons_append, List.append_assoc]
      rw [skip_of_next rfl, skip_member hvalue rfl]
      exact skip_membersTokens hmembers around rest

theorem skipValue_tokens (value : Value) (rest : List Token) :
    skipValue (value.tokens ++ rest) = .ok rest := isSkipped value [] rest

end Reader

/-! ## What a patch is made of -/

/-- The value is a count: an integer below 2^64, without a sign, a fraction or an exponent. -/
def Json.Value.IsCount (value : Value) (n : Nat) : Prop :=
  ∃ ds, value = .number ⟨false, ds, none, none⟩ ∧ digitsValue ds = n ∧ n < Nat.pow 2 64

/-- The value is the one that the patch has for this member. -/
def FilePatch.Gives (patch : FilePatch) : Field → Value → Prop
  | .path, value => value = .text patch.path
  | .replacements, value => value.IsCount patch.replacements
  | .linesChanged, value => value.IsCount patch.linesChanged
  | .written, value => value = .bool patch.written

def valuesOf (field : Field) (members : List (Bytes × Value)) : List Value :=
  (members.filter (·.1 = field.name)).map (·.2)

theorem Json.Value.IsCount.tokens_eq {value : Value} {n : Nat} (h : value.IsCount n) :
    value.tokens = [value.first] := by
  obtain ⟨ds, rfl, -, -⟩ := h
  rfl

theorem Json.Value.IsCount.isCount_iff {value : Value} {n m : Nat} (h : value.IsCount n) :
    value.IsCount m ↔ n = m := by
  constructor
  · intro hm
    obtain ⟨ds, rfl, rfl, -⟩ := h
    obtain ⟨ds', heq, rfl, -⟩ := hm
    cases heq
    rfl
  · rintro rfl
    exact h

namespace Reader

variable {value : Value} {n : Nat} {draft draft' : Draft} {field : Field} {patch : FilePatch}
  {members : List (Bytes × Value)}

/-! ## Reading a member -/

theorem kind?_eq_count_iff {number : Number} :
    number.kind? = some (.count n) ↔ Value.IsCount (.number number) n := by
  obtain ⟨negative, whole, fraction, exponent⟩ := number
  simp only [Number.kind?, Value.IsCount, Value.number.injEq, Number.mk.injEq]
  constructor
  · intro h
    split at h
    · next hcount =>
      simp only [Bool.and_eq_true, Bool.not_eq_true', Option.isNone_iff_eq_none, decide_eq_true_eq,
        Option.some.injEq, NumberKind.count.injEq] at hcount h
      obtain ⟨⟨⟨rfl, rfl⟩, rfl⟩, hlt⟩ := hcount
      exact ⟨whole, ⟨rfl, rfl, rfl, rfl⟩, h, h ▸ hlt⟩
    · split_ifs at h <;> cases h
  · rintro ⟨ds, ⟨rfl, rfl, rfl, rfl⟩, rfl, hlt⟩
    have hlt : digitsValue whole < significandLimit := hlt
    simp [hlt]

theorem readText_first {text : Bytes} : readText value.first = .ok text ↔ value = .text text := by
  cases value with
  | number n =>
    simp only [readText, Value.first, Token.wanted]
    cases n.kind? <;> simp [bind, Except.bind]
  | _ => simp [readText, Value.first, Token.wanted, bind, Except.bind, pure, Except.pure]

theorem readCount_first : readCount value.first = .ok n ↔ value.IsCount n := by
  cases value with
  | number number =>
    rw [← kind?_eq_count_iff]
    simp only [readCount, Value.first, Token.wanted]
    cases number.kind? with
    | none => simp [bind, Except.bind]
    | some kind => cases kind <;> simp [bind, Except.bind, pure, Except.pure]
  | _ => simp [readCount, Value.first, Token.wanted, bind, Except.bind, Value.IsCount]

theorem readBool_first {b : Bool} : readBool value.first = .ok b ↔ value = .bool b := by
  cases value with
  | number n =>
    simp only [readBool, Value.first, Token.wanted]
    cases n.kind? <;> simp [bind, Except.bind]
  | _ => simp [readBool, Value.first, Token.wanted, bind, Except.bind, pure, Except.pure]

/-- The draft and the patch agree on a member. -/
def Draft.Holds (draft : Draft) (patch : FilePatch) : Field → Prop
  | .path => draft.path = some patch.path
  | .replacements => draft.replacements = some patch.replacements
  | .linesChanged => draft.linesChanged = some patch.linesChanged
  | .written => draft.written = some patch.written

theorem Draft.patch_eq_ok_iff : draft.patch = .ok patch ↔ ∀ field, draft.Holds patch field := by
  constructor
  · intro h
    unfold Draft.patch at h
    split at h <;> cases h
    rintro (_ | _ | _ | _) <;> assumption
  · intro h
    have hpath : draft.path = some patch.path := h .path
    have hreplacements : draft.replacements = some patch.replacements := h .replacements
    have hlines : draft.linesChanged = some patch.linesChanged := h .linesChanged
    have hwritten : draft.written = some patch.written := h .written
    simp only [Draft.patch, hpath, hreplacements, hlines, hwritten]

theorem Draft.exists_read (hgives : patch.Gives field value) (draft : Draft) :
    ∃ draft', draft.read field value.first = .ok draft' := by
  cases field with
  | path => exact ⟨_, bind_eq_ok.mpr ⟨_, readText_first.mpr hgives, rfl⟩⟩
  | replacements => exact ⟨_, bind_eq_ok.mpr ⟨_, readCount_first.mpr hgives, rfl⟩⟩
  | linesChanged => exact ⟨_, bind_eq_ok.mpr ⟨_, readCount_first.mpr hgives, rfl⟩⟩
  | written => exact ⟨_, bind_eq_ok.mpr ⟨_, readBool_first.mpr hgives, rfl⟩⟩

/-- The value was taken in as that of a member, and the other members are as they were. -/
structure Draft.Takes (draft draft' : Draft) (field : Field) (value : Value) : Prop where
  has : draft'.has field = true
  holds_iff : ∀ patch, draft'.Holds patch field ↔ patch.Gives field value
  other : ∀ other ≠ field, draft'.has other = draft.has other ∧
    ∀ patch, draft'.Holds patch other ↔ draft.Holds patch other

theorem Draft.takes_of_read (hread : draft.read field value.first = .ok draft') :
    value.tokens = [value.first] ∧ draft.Takes draft' field value := by
  cases field with
  | path =>
    obtain ⟨text, htext, hdraft⟩ := bind_eq_ok.mp hread
    cases hdraft
    obtain rfl := readText_first.mp htext
    refine ⟨rfl, rfl, fun patch => ?_, ?_⟩
    · simp [Holds, FilePatch.Gives]
    · rintro (_ | _ | _ | _) hne <;> simp_all [Draft.has, Holds]
  | replacements =>
    obtain ⟨n, hcount, hdraft⟩ := bind_eq_ok.mp hread
    cases hdraft
    have hcount := readCount_first.mp hcount
    refine ⟨hcount.tokens_eq, rfl, fun patch => ?_, ?_⟩
    · simp [Holds, FilePatch.Gives, hcount.isCount_iff]
    · rintro (_ | _ | _ | _) hne <;> simp_all [Draft.has, Holds]
  | linesChanged =>
    obtain ⟨n, hcount, hdraft⟩ := bind_eq_ok.mp hread
    cases hdraft
    have hcount := readCount_first.mp hcount
    refine ⟨hcount.tokens_eq, rfl, fun patch => ?_, ?_⟩
    · simp [Holds, FilePatch.Gives, hcount.isCount_iff]
    · rintro (_ | _ | _ | _) hne <;> simp_all [Draft.has, Holds]
  | written =>
    obtain ⟨b, hbool, hdraft⟩ := bind_eq_ok.mp hread
    cases hdraft
    obtain rfl := readBool_first.mp hbool
    refine ⟨rfl, rfl, fun patch => ?_, ?_⟩
    · simp [Holds, FilePatch.Gives]
    · rintro (_ | _ | _ | _) hne <;> simp_all [Draft.has, Holds]

/-! ## Reading an object -/

/-- What is still to be read makes the patch out of the draft: each member is in the draft and comes no
more, or comes once and is not in the draft. -/
def Draft.IsCompletedBy (draft : Draft) (members : List (Bytes × Value)) (patch : FilePatch) : Prop :=
  ∀ field, (draft.Holds patch field ∧ valuesOf field members = []) ∨
    (draft.has field = false ∧ ∃ value, valuesOf field members = [value] ∧ patch.Gives field value)

theorem ofName?_eq_some_iff {name : Bytes} : Field.ofName? name = some field ↔ name = field.name := by
  constructor
  · intro h
    have hname := List.find?_some h
    exact (of_decide_eq_true hname).symm
  · rintro rfl
    exact ofName?_name field

theorem valuesOf_cons_of_ne {key : Bytes} (hkey : key ≠ field.name) :
    valuesOf field ((key, value) :: members) = valuesOf field members := by
  simp [valuesOf, hkey]

theorem valuesOf_cons_name :
    valuesOf field ((field.name, value) :: members) = value :: valuesOf field members := by
  simp [valuesOf]

theorem name_injective {other : Field} (h : field.name = other.name) : field = other := by
  have hfield := ofName?_name field
  rw [h, ofName?_name, Option.some.injEq] at hfield
  exact hfield.symm

theorem Draft.isCompletedBy_cons_of_unknown {key : Bytes} (hname : Field.ofName? key = none) :
    draft.IsCompletedBy ((key, value) :: members) patch ↔ draft.IsCompletedBy members patch := by
  apply forall_congr'
  intro field
  have hkey : key ≠ field.name := by
    rintro rfl
    simp [ofName?_name] at hname
  rw [valuesOf_cons_of_ne hkey]

theorem Draft.Takes.isCompletedBy_iff (h : draft.Takes draft' field value)
    (hnew : draft.has field = false) :
    draft.IsCompletedBy ((field.name, value) :: members) patch ↔
      draft'.IsCompletedBy members patch := by
  apply forall_congr'
  intro other
  by_cases heq : other = field
  · subst heq
    rw [valuesOf_cons_name, hnew, h.has, h.holds_iff]
    simp only [reduceCtorEq, and_false, List.cons.injEq, false_or, true_and, false_and, or_false]
    constructor
    · rintro ⟨v, ⟨rfl, hnone⟩, hgives⟩
      exact ⟨hgives, hnone⟩
    · rintro ⟨hgives, hnone⟩
      exact ⟨value, ⟨rfl, hnone⟩, hgives⟩
  · obtain ⟨hhas, hholds⟩ := h.other other heq
    rw [valuesOf_cons_of_ne (fun hname => heq (name_injective hname).symm), hhas, hholds]

theorem member_of_unknown {key : Bytes} (hname : Field.ofName? key = none) (draft : Draft)
    (value : Value) (rest : List Token) :
    member draft (.text (some key)) (.mark .colon :: (value.tokens ++ rest)) = .ok (draft, rest) := by
  have hnone : memberName draft (.text (some key)) = .ok none := by simp [memberName, hname]
  have hskip : memberValue draft (value.tokens ++ rest) none = .ok (draft, rest) :=
    bind_eq_ok.mpr ⟨rest, skipValue_tokens value rest, rfl⟩
  exact bind_eq_ok.mpr ⟨none, hnone, bind_eq_ok.mpr ⟨_, rfl, hskip⟩⟩

theorem member_of_duplicate (hhas : draft.has field = true) (ts : List Token) :
    member draft (.text (some field.name)) ts = .error (.shape (.duplicate field)) := by
  simp only [member, memberName, ofName?_name, hhas, if_true]
  rfl

theorem member_of_read_error {e : ReadError} (hnew : draft.has field = false)
    (hread : draft.read field value.first = .error e) (rest : List Token) :
    member draft (.text (some field.name)) (.mark .colon :: (value.tokens ++ rest)) = .error e := by
  obtain ⟨ts, htokens⟩ := value.exists_tokens
  have hname : memberName draft (.text (some field.name)) = .ok (some field) := by
    simp [memberName, ofName?_name, hnew]
  have hvalue : memberValue draft (value.first :: (ts ++ rest)) (some field) = .error e := by
    simp only [memberValue, firstToken, bind, Except.bind, hread]
  rw [htokens, List.cons_append, member, hname]
  exact hvalue

theorem member_cases (draft : Draft) (key : Bytes) (value : Value) (rest : List Token) :
    (∃ draft', member draft (.text (some key)) (.mark .colon :: (value.tokens ++ rest)) =
        .ok (draft', rest) ∧
      ∀ members patch, draft.IsCompletedBy ((key, value) :: members) patch ↔
        draft'.IsCompletedBy members patch) ∨
    ((∃ e, member draft (.text (some key)) (.mark .colon :: (value.tokens ++ rest)) = .error e) ∧
      ∀ members patch, ¬ draft.IsCompletedBy ((key, value) :: members) patch) := by
  cases hname : Field.ofName? key with
  | none =>
    exact .inl ⟨draft, member_of_unknown hname draft value rest, fun members patch =>
      Draft.isCompletedBy_cons_of_unknown hname⟩
  | some field =>
    obtain rfl := ofName?_eq_some_iff.mp hname
    cases hhas : draft.has field with
    | true =>
      -- A member that was read before is refused, and no patch has a member twice.
      refine .inr ⟨⟨_, member_of_duplicate hhas _⟩, ?_⟩
      intro members patch h
      rcases h field with ⟨-, hnone⟩ | ⟨hnew, -⟩
      · simp [valuesOf_cons_name] at hnone
      · simp [hhas] at hnew
    | false =>
      cases hread : draft.read field value.first with
      | error e =>
        -- A value that cannot be read is given by no patch.
        refine .inr ⟨⟨e, member_of_read_error hhas hread rest⟩, ?_⟩
        intro members patch h
        rcases h field with ⟨-, hnone⟩ | ⟨-, v, hvalues, hgives⟩
        · simp [valuesOf_cons_name] at hnone
        · rw [valuesOf_cons_name, List.cons.injEq] at hvalues
          obtain ⟨rfl, -⟩ := hvalues
          obtain ⟨draft', hok⟩ := Draft.exists_read hgives draft
          simp [hread] at hok
      | ok draft' =>
        obtain ⟨htokens, htakes⟩ := Draft.takes_of_read hread
        refine .inl ⟨draft', ?_, fun members patch => htakes.isCompletedBy_iff hhas⟩
        rw [htokens]
        exact member_of_read hhas hread rest

theorem moreMembers_comma_of_error {key : Token} {e : ReadError} (hmember : member draft key ts = .error e) :
    moreMembers draft (.mark .comma :: key :: ts) = .error e := by
  rw [moreMembers]
  split
  · next heq => simp [hmember] at heq
  · next heq =>
    rw [hmember, Except.error.injEq] at heq
    rw [heq]

theorem moreMembers_membersTokens {after : List Token} :
    moreMembers draft (membersTokens members ++ rest) = .ok (patch, after) ↔
      draft.IsCompletedBy members patch ∧ after = rest := by
  induction members generalizing draft with
  | nil =>
    have hend : draft.IsCompletedBy [] patch ↔ draft.patch = .ok patch := by
      rw [Draft.patch_eq_ok_iff]
      simp [Draft.IsCompletedBy, valuesOf]
    rw [membersTokens, List.singleton_append, moreMembers, hend, bind_eq_ok]
    constructor
    · rintro ⟨read, hread, heq⟩
      cases heq
      exact ⟨hread, rfl⟩
    · rintro ⟨hread, rfl⟩
      exact ⟨patch, hread, rfl⟩
  | cons member members ih =>
    obtain ⟨key, value⟩ := member
    rw [membersTokens]
    simp only [List.cons_append, List.append_assoc]
    -- The member goes from what is to be read into the draft, and the patch stays the same.
    rcases member_cases draft key value (membersTokens members ++ rest) with
      ⟨draft', hmember, hiff⟩ | ⟨⟨e, hmember⟩, hnot⟩
    · rw [moreMembers_comma hmember, ih, hiff]
    · rw [moreMembers_comma_of_error hmember]
      simp [hnot]

theorem patchTokens_object {after : List Token} :
    patchTokens ((Value.object members).tokens ++ rest) = .ok (patch, after) ↔
      Draft.IsCompletedBy {} members patch ∧ after = rest := by
  cases members with
  | nil =>
    have hnot : ¬ Draft.IsCompletedBy {} [] patch := by
      intro h
      rcases h .path with ⟨hholds, -⟩ | ⟨-, v, hvalues, -⟩
      · cases hholds
      · cases hvalues
    have herror : patchTokens ((Value.object []).tokens ++ rest) =
      .error (.shape (.missing .path)) := by
      rw [Value.tokens]
      rfl
    simp [herror, hnot]
  | cons member members =>
    obtain ⟨key, value⟩ := member
    have hobject : patchTokens ((Value.object ((key, value) :: members)).tokens ++ rest) =
        object (.text (some key) :: .mark .colon ::
          (value.tokens ++ (membersTokens members ++ rest))) := by
      rw [Value.tokens]
      simp only [List.cons_append, List.append_assoc]
      rfl
    rw [hobject]
    rcases member_cases {} key value (membersTokens members ++ rest) with
      ⟨draft', hmember, hiff⟩ | ⟨⟨e, hmember⟩, hnot⟩
    · rw [object_text hmember, moreMembers_membersTokens, hiff]
    · simp only [object, hmember]
      simp [hnot, bind, Except.bind]

end Reader

/-! ## The shape of a patch -/

/-- The value is of the kind that the member has. -/
def Field.Admits : Field → Value → Prop
  | .path, value => ∃ text, value = .text text
  | .replacements, value => ∃ n, value.IsCount n
  | .linesChanged, value => ∃ n, value.IsCount n
  | .written, value => ∃ b, value = .bool b

/-- The members that have the name of one of a patch. -/
def ownMembers (members : List (Bytes × Value)) : List (Bytes × Value) :=
  members.filter fun member => (Field.ofName? member.1).isSome

section

variable {text text' : Bytes} {value : Value} {field : Field} {patch : FilePatch}
  {members others : List (Bytes × Value)}

theorem valuesOf_eq_singleton_iff :
    valuesOf field members = [value] ↔
      (members.map (·.1)).count field.name = 1 ∧ (field.name, value) ∈ members := by
  have hcount : (members.map (·.1)).count field.name = (valuesOf field members).length := by
    rw [valuesOf, List.length_map, ← List.countP_eq_length_filter, List.count, List.countP_map]
    exact List.countP_congr fun member _ => by simp
  have hmem : (field.name, value) ∈ members ↔ value ∈ valuesOf field members := by
    simp [valuesOf]
  rw [hcount, hmem, List.length_eq_one_iff]
  constructor
  · intro h
    simp [h]
  · rintro ⟨⟨v, hv⟩, hvalue⟩
    rw [hv, List.mem_singleton] at hvalue
    rw [hv, hvalue]

theorem valuesOf_ownMembers (field : Field) (members : List (Bytes × Value)) :
    valuesOf field (ownMembers members) = valuesOf field members := by
  rw [valuesOf, ownMembers, List.filter_filter]
  congr 1
  apply List.filter_congr
  rintro ⟨key, value⟩ -
  by_cases hkey : key = field.name
  · simp [hkey, Reader.ofName?_name]
  · simp [hkey]

theorem valuesOf_congr (h : (ownMembers members).Perm (ownMembers others)) :
    valuesOf field members = [value] ↔ valuesOf field others = [value] := by
  have hperm : (valuesOf field members).Perm (valuesOf field others) := by
    rw [← valuesOf_ownMembers, ← valuesOf_ownMembers field others]
    exact (h.filter _).map _
  constructor
  · intro heq
    rw [heq] at hperm
    exact List.perm_singleton.mp hperm.symm
  · intro heq
    rw [heq] at hperm
    exact List.perm_singleton.mp hperm

theorem read_eq_ok_iff_valuesOf (htext : Spells text (Value.object members).tokens) :
    FilePatch.read text = .ok patch ↔
      ∀ field, ∃ value, valuesOf field members = [value] ∧ patch.Gives field value := by
  have hempty : Reader.Draft.IsCompletedBy {} members patch ↔
      ∀ field, ∃ value, valuesOf field members = [value] ∧ patch.Gives field value := by
    apply forall_congr'
    rintro (_ | _ | _ | _) <;> simp [Reader.Draft.Holds, Reader.Draft.has]
  have hobject : ∀ read after, Reader.patchTokens (Value.object members).tokens = .ok (read, after) ↔
      Reader.Draft.IsCompletedBy {} members read ∧ after = [] := by
    intro read after
    rw [← Reader.patchTokens_object, List.append_nil]
  rw [← hempty, FilePatch.read, tokens_of_spells htext, bind_eq_ok]
  constructor
  · rintro ⟨⟨read, after⟩, hread, h⟩
    obtain ⟨hcompleted, rfl⟩ := (hobject read after).mp hread
    cases h
    exact hcompleted
  · intro hcompleted
    exact ⟨(patch, []), (hobject patch []).mpr ⟨hcompleted, rfl⟩, rfl⟩

theorem FilePatch.Gives.admits (h : patch.Gives field value) : field.Admits value := by
  cases field with
  | path => exact ⟨_, h⟩
  | replacements => exact ⟨_, h⟩
  | linesChanged => exact ⟨_, h⟩
  | written => exact ⟨_, h⟩

end

/-- **Shape.** However an object is spelled, it is read as a patch if and only if each member of a patch
is there once, with a value of its kind. -/
theorem read_spelled_object (members : List (Bytes × Value)) (text : Bytes)
    (htext : Spells text (Value.object members).tokens) :
    ((∃ patch, FilePatch.read text = .ok patch) ↔
      ∀ field : Field, (members.map (·.1)).count field.name = 1 ∧
        ∃ value, (field.name, value) ∈ members ∧ field.Admits value) ∧
    (∀ patch, FilePatch.read text = .ok patch ↔
      ∀ field : Field, (members.map (·.1)).count field.name = 1 ∧
        ∃ value, (field.name, value) ∈ members ∧ patch.Gives field value) ∧
    ∀ others text', Spells text' (Value.object others).tokens →
      (ownMembers members).Perm (ownMembers others) →
      ∀ patch, FilePatch.read text = .ok patch ↔ FilePatch.read text' = .ok patch := by
  have hread : ∀ patch, FilePatch.read text = .ok patch ↔
      ∀ field : Field, (members.map (·.1)).count field.name = 1 ∧
        ∃ value, (field.name, value) ∈ members ∧ patch.Gives field value := by
    intro patch
    simp only [read_eq_ok_iff_valuesOf htext, valuesOf_eq_singleton_iff, and_assoc, exists_and_left]
  refine ⟨?_, hread, ?_⟩
  · constructor
    · rintro ⟨patch, h⟩ field
      obtain ⟨hcount, value, hmem, hgives⟩ := (hread patch).mp h field
      exact ⟨hcount, value, hmem, hgives.admits⟩
    · intro h
      obtain ⟨hpath, path, hpathMem, text, htext⟩ := h .path
      obtain ⟨hreplacements, replacements, hreplacementsMem, n, hn⟩ := h .replacements
      obtain ⟨hlines, lines, hlinesMem, m, hm⟩ := h .linesChanged
      obtain ⟨hwritten, written, hwrittenMem, b, hb⟩ := h .written
      refine ⟨⟨text, n, m, b⟩, (hread _).mpr ?_⟩
      rintro (_ | _ | _ | _)
      · exact ⟨hpath, path, hpathMem, htext⟩
      · exact ⟨hreplacements, replacements, hreplacementsMem, hn⟩
      · exact ⟨hlines, lines, hlinesMem, hm⟩
      · exact ⟨hwritten, written, hwrittenMem, hb⟩
  · intro others text' htext' hperm patch
    rw [read_eq_ok_iff_valuesOf htext, read_eq_ok_iff_valuesOf htext']
    simp only [valuesOf_congr hperm]

theorem read_spelled_object_escapes :
    let members : List (Bytes × Value) :=
      [(ascii "path", .text (ascii "a/b")),
        (ascii "x", .array [.number ⟨false, ascii "1", none, some (false, ascii "5")⟩]),
        (ascii "lines_changed", .number (.plain 2)), (ascii "written", .bool true),
        (ascii "x", .object []), (ascii "replacements", .number (.plain (Nat.pow 2 64 - 1)))]
    let text :=
      ascii "\x7b \"p\\u0061th\":\"a/b\",\"x\":[1E+5],\"lines_changed\":2,\"written\":true,\"x\":\x7b\x7d," ++
      ascii "\"replacements\":18446744073709551615\x7d"
    Spells text (Value.object members).tokens ∧
      FilePatch.read text = .ok ⟨ascii "a/b", Nat.pow 2 64 - 1, 2, true⟩ := by
  intro members text
  have hnone : Blank [] := by decide
  have hspace : Blank (ascii " ") := by decide
  have hquoted : ∀ key, Utf8.Valid key →
      Token.IsWritten (.text (some key)) (0x22 :: key.flatMap escape ++ [0x22]) :=
    fun key hkey => .text (writes_escape key) hkey
  have hcode : IsCode (ascii "0061") (0x1000 * 0 + 0x100 * 0 + 0x10 * 6 + 1) :=
    .digits (by decide) (by decide) (by decide) (by decide)
  have hpath : Writes (ascii "p\\u0061th") (ascii "path") :=
    .plain (by decide) (by decide) (by decide) <| .code (c := 'a') hcode <| writes_escape (ascii "th")
  have hexponent : Number.IsWritten ⟨false, ascii "1", none, some (false, ascii "5")⟩ (ascii "1E+5") :=
    ⟨by decide, by decide, nofun, _, .plus (.inr rfl) (by decide), rfl⟩
  have hspells : ∃ spelled, Spells spelled (Value.object members).tokens ∧ spelled = text :=
    ⟨_, .next hnone (.mark .openBrace) <| .next hspace (.text hpath (by decide)) <|
      .next hnone (.mark .colon) <| .next hnone (hquoted (ascii "a/b") (by decide)) <|
      .next hnone (.mark .comma) <| .next hnone (hquoted (ascii "x") (by decide)) <|
      .next hnone (.mark .colon) <| .next hnone (.mark .openBracket) <|
      .next hnone (.number hexponent) <| .next hnone (.mark .closeBracket) <|
      .next hnone (.mark .comma) <| .next hnone (hquoted (ascii "lines_changed") (by decide)) <|
      .next hnone (.mark .colon) <| .next hnone (.number (isWritten_decimal 2)) <|
      .next hnone (.mark .comma) <| .next hnone (hquoted (ascii "written") (by decide)) <|
      .next hnone (.mark .colon) <| .next hnone (.bool true) <|
      .next hnone (.mark .comma) <| .next hnone (hquoted (ascii "x") (by decide)) <|
      .next hnone (.mark .colon) <| .next hnone (.mark .openBrace) <|
      .next hnone (.mark .closeBrace) <|
      .next hnone (.mark .comma) <| .next hnone (hquoted (ascii "replacements") (by decide)) <|
      .next hnone (.mark .colon) <| .next hnone (.number (isWritten_decimal (Nat.pow 2 64 - 1))) <|
      .next hnone (.mark .closeBrace) <| .done hnone, by decide +kernel⟩
  obtain ⟨spelled, htext, rfl⟩ := hspells
  refine ⟨htext, ((read_spelled_object members text htext).2.1 _).mpr ?_⟩
  rintro (_ | _ | _ | _)
  · exact ⟨by decide, _, .head _, rfl⟩
  · exact ⟨by decide, .number (.plain (Nat.pow 2 64 - 1)), by simp [members, Field.name], _, rfl, by decide⟩
  · exact ⟨by decide, .number (.plain 2), by simp [members, Field.name], _, rfl, by decide⟩
  · exact ⟨by decide, .bool true, by simp [members, Field.name], rfl⟩

end Repoint
