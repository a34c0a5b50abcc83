import Repoint.Patch.Reader

/-!
# Reading a report
-/

namespace Repoint

open Json

namespace Reader

variable {patch : FilePatch} {draft draft' : Draft} {field : Field} {t key : Token}
  {ts rest after : List Token}

/-! ## Every patch takes at least one token -/

theorem length_moreMembers (h : moreMembers draft ts = .ok (patch, rest)) :
    rest.length < ts.length := by
  fun_induction moreMembers draft ts with
  | case1 => cases h
  | case2 draft after =>
    obtain ⟨read, -, h⟩ := bind_eq_ok.mp h
    cases h
    exact Nat.lt_succ_self _
  | case3 draft key others draft' after hmember ih =>
    have := length_member hmember
    have := ih h
    simp only [List.length_cons]
    omega
  | case4 => cases h
  | case5 => cases h
  | case6 => cases h

theorem length_object (h : object ts = .ok (patch, rest)) : rest.length < ts.length := by
  unfold object at h
  split at h
  · cases h
  · obtain ⟨read, -, h⟩ := bind_eq_ok.mp h
    cases h
    exact Nat.lt_succ_self _
  · obtain ⟨⟨draft, after⟩, hmember, h⟩ := bind_eq_ok.mp h
    have := length_member hmember
    have := length_moreMembers h
    simp only [List.length_cons]
    omega

theorem length_nextValue {before : Nat} (h : nextValue before ts = .ok (t, rest)) :
    rest.length < ts.length := by
  unfold nextValue at h
  split at h
  · cases h
  · cases h
  · split at h
    · cases h
      exact Nat.lt_succ_self _
    · split at h
      · split at h
        · cases h
        · cases h
        · cases h
          simp only [List.length_cons]
          omega
      · cases h

theorem length_afterArray (h : afterArray ts = .ok rest) : rest.length < ts.length := by
  unfold afterArray at h
  split at h
  · cases h
  · cases h
    exact Nat.lt_succ_self _
  · cases h

theorem length_array (h : array ts = .ok (patch, rest)) : rest.length < ts.length := by
  obtain ⟨⟨t₀, ts₀⟩, h₀, h⟩ := bind_eq_ok.mp h
  obtain ⟨path, -, h⟩ := bind_eq_ok.mp h
  obtain ⟨⟨t₁, ts₁⟩, h₁, h⟩ := bind_eq_ok.mp h
  obtain ⟨replacements, -, h⟩ := bind_eq_ok.mp h
  obtain ⟨⟨t₂, ts₂⟩, h₂, h⟩ := bind_eq_ok.mp h
  obtain ⟨linesChanged, -, h⟩ := bind_eq_ok.mp h
  obtain ⟨⟨t₃, ts₃⟩, h₃, h⟩ := bind_eq_ok.mp h
  obtain ⟨written, -, h⟩ := bind_eq_ok.mp h
  obtain ⟨after, hafter, h⟩ := bind_eq_ok.mp h
  cases h
  have := length_nextValue h₀
  have := length_nextValue h₁
  have := length_nextValue h₂
  have := length_nextValue h₃
  have := length_afterArray hafter
  dsimp only at *
  omega

theorem length_patchTokens (h : patchTokens ts = .ok (patch, rest)) : rest.length < ts.length := by
  cases ts with
  | nil => cases h
  | cons first others =>
    obtain ⟨⟨t, after⟩, hfirst, h⟩ := bind_eq_ok.mp h
    cases hfirst
    dsimp only at h
    split at h
    · exact Nat.lt_succ_of_lt (length_object h)
    · exact Nat.lt_succ_of_lt (length_array h)
    · obtain ⟨-, -, h⟩ := bind_eq_ok.mp h
      cases h

/-! ## An array of patches -/

def moreElements : List Token → Except ReadError (List FilePatch × List Token)
  | [] => .error (.fault .ended)
  | .mark .closeBracket :: rest => .ok ([], rest)
  | .mark .comma :: rest =>
    match _h : patchTokens rest with
    | .ok (patch, after) => do
      let (patches, after) ← moreElements after
      return (patch :: patches, after)
    | .error e => .error e
  | _ :: _ => .error (.fault .syntactic)
termination_by ts => ts.length
decreasing_by
  have := length_patchTokens _h
  simp
  omega

def elements : List Token → Except ReadError (List FilePatch × List Token)
  | .mark .closeBracket :: rest => .ok ([], rest)
  | ts => do
    let (patch, after) ← patchTokens ts
    let (patches, after) ← moreElements after
    return (patch :: patches, after)

def arrayTokens (ts : List Token) : Except ReadError (List FilePatch × List Token) := do
  let (first, rest) ← firstToken ts
  if first = .mark .openBracket then elements rest
  else
    let _ ← first.wanted
    .error (.shape .invalidType)

/-! ## One member or element at a time -/

theorem ofName?_name (field : Field) : Field.ofName? field.name = some field := by
  cases field <;> decide

theorem member_of_read (hnew : draft.has field = false) (hread : draft.read field t = .ok draft')
    (rest : List Token) :
    member draft (.text (some field.name)) (.mark .colon :: t :: rest) = .ok (draft', rest) := by
  have hname : memberName draft (.text (some field.name)) = .ok (some field) := by
    simp [memberName, ofName?_name, hnew]
  have hvalue : memberValue draft (t :: rest) (some field) = .ok (draft', rest) :=
    bind_eq_ok.mpr ⟨(t, rest), rfl, bind_eq_ok.mpr ⟨draft', hread, rfl⟩⟩
  exact bind_eq_ok.mpr ⟨some field, hname, bind_eq_ok.mpr ⟨t :: rest, rfl, hvalue⟩⟩

theorem object_text {name : Option Bytes} (hmember : member {} (.text name) ts = .ok (draft, after)) :
    object (.text name :: ts) = moreMembers draft after := by
  simp only [object, hmember]
  rfl

theorem moreMembers_comma (hmember : member draft key ts = .ok (draft', after)) :
    moreMembers draft (.mark .comma :: key :: ts) = moreMembers draft' after := by
  rw [moreMembers]
  split
  · next heq =>
    rw [hmember, Except.ok.injEq, Prod.mk.injEq] at heq
    rw [heq.1, heq.2]
  · next heq => simp [hmember] at heq

theorem moreElements_comma {patches : List FilePatch}
    (hpatch : patchTokens ts = .ok (patch, after)) (hmore : moreElements after = .ok (patches, rest)) :
    moreElements (.mark .comma :: ts) = .ok (patch :: patches, rest) := by
  rw [moreElements]
  split
  · next heq =>
    rw [hpatch, Except.ok.injEq, Prod.mk.injEq] at heq
    rw [← heq.1, ← heq.2, hmore]
    rfl
  · next heq => simp [hpatch] at heq

end Reader

def readPatches (text : Bytes) : Except ReadError (List FilePatch) := do
  let (patches, rest) ← Reader.arrayTokens (tokens text)
  match rest with
  | [] => return patches
  | _ :: _ => .error (.fault .syntactic)

end Repoint
