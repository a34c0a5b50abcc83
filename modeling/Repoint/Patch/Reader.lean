import Repoint.Json.Token
import Repoint.Patch

/-!
# Reading a patch

A JSON object with the members of a patch among others, or an array of their values. The first thing
wrong is what is reported.
-/

namespace Repoint

open Json

/-! ## What can be wrong -/

def Field.ofName? (name : Bytes) : Option Field :=
  [Field.path, .replacements, .linesChanged, .written].find? (·.name = name)

/-- How JSON fails to be a patch. -/
inductive ShapeError where
  /-- A value of the wrong kind. -/
  | invalidType
  /-- A count below zero. -/
  | invalidValue
  | missing (field : Field)
  | duplicate (field : Field)
  /-- An array with too few values. -/
  | invalidLength (count : Nat)
  deriving DecidableEq

def ShapeError.message : ShapeError → Bytes
  | .invalidType => ascii "invalid type"
  | .invalidValue => ascii "invalid value"
  | .missing field => ascii "missing field `" ++ field.name ++ ascii "`"
  | .duplicate field => ascii "duplicate field `" ++ field.name ++ ascii "`"
  | .invalidLength count => ascii "invalid length " ++ decimal count

/-- How a text fails to be a patch. -/
inductive ReadError where
  | fault (f : Fault)
  | shape (e : ShapeError)
  deriving DecidableEq

/-! ## Values that are wanted -/

/-- What a token is to a reader that wants a value. -/
inductive Wanted where
  | text (value : Bytes)
  | number (kind : NumberKind)
  | bool (b : Bool)
  /-- A null, an array or an object. -/
  | other

/-- Looks into a token. An unsound string and a number out of range are no values. -/
def Json.Token.wanted : Token → Except ReadError Wanted
  | .text (some value) => .ok (.text value)
  | .text none => .error (.fault .syntactic)
  | .number n =>
    match n.kind? with
    | some kind => .ok (.number kind)
    | none => .error (.fault .syntactic)
  | .bool b => .ok (.bool b)
  | .null | .mark .openBrace | .mark .openBracket => .ok .other
  | .mark _ => .error (.fault .syntactic)
  | .brokenText fault _ | .broken fault _ => .error (.fault fault)

namespace Reader

/-- The token where a value has to stand. -/
def firstToken : List Token → Except ReadError (Token × List Token)
  | [] => .error (.fault .ended)
  | first :: rest => .ok (first, rest)

def readText (t : Token) : Except ReadError Bytes := do
  match ← t.wanted with
  | .text value => return value
  | _ => .error (.shape .invalidType)

def readCount (t : Token) : Except ReadError Nat := do
  match ← t.wanted with
  | .number (.count n) => return n
  | .number .belowZero => .error (.shape .invalidValue)
  | _ => .error (.shape .invalidType)

def readBool (t : Token) : Except ReadError Bool := do
  match ← t.wanted with
  | .bool b => return b
  | _ => .error (.shape .invalidType)

/-! ## Values that are skipped -/

/-- What encloses a value that is skipped. -/
inductive Enclosure where
  | array
  | object

/-- What is expected next while a value is skipped. -/
inductive Expected where
  | value
  /-- A value, or the end of the array that was just opened. -/
  | firstValue
  | key
  /-- A key, or the end of the object that was just opened. -/
  | firstKey
  | colon
  /-- A comma, or the end of what encloses the value. -/
  | more

/-- What comes after a value: something more, or nothing when no value is around it. -/
def Expected.afterValue (around : List Enclosure) : Option (Expected × List Enclosure) :=
  if around.isEmpty then none else some (.more, around)

/-- What comes after the token that begins a value. -/
def Expected.inValue (around : List Enclosure) :
    Token → Except ReadError (Option (Expected × List Enclosure))
  | .mark .openBrace => .ok (some (.firstKey, .object :: around))
  | .mark .openBracket => .ok (some (.firstValue, .array :: around))
  | .mark _ => .error (.fault .syntactic)
  | .brokenText _ fault | .broken _ fault => .error (.fault fault)
  | .text _ | .number _ | .bool _ | .null => .ok (afterValue around)

/-- What comes after the token that is a key. -/
def Expected.inKey (around : List Enclosure) :
    Token → Except ReadError (Option (Expected × List Enclosure))
  | .text _ => .ok (some (.colon, around))
  | .brokenText _ fault => .error (.fault fault)
  | _ => .error (.fault .syntactic)

/-- What comes after a token; nothing when the outermost value ends with it. -/
def Expected.next (expected : Expected) (around : List Enclosure) (t : Token) :
    Except ReadError (Option (Expected × List Enclosure)) :=
  match expected, around with
  | .value, _ => inValue around t
  | .firstValue, _ =>
    if t = .mark .closeBracket then .ok (afterValue around.tail) else inValue around t
  | .key, _ => inKey around t
  | .firstKey, _ =>
    if t = .mark .closeBrace then .ok (afterValue around.tail) else inKey around t
  | .colon, _ =>
    if t = .mark .colon then .ok (some (.value, around)) else .error (.fault .syntactic)
  | .more, .array :: outer =>
    if t = .mark .comma then .ok (some (.value, around))
    else if t = .mark .closeBracket then .ok (afterValue outer)
    else .error (.fault .syntactic)
  | .more, .object :: outer =>
    if t = .mark .comma then .ok (some (.key, around))
    else if t = .mark .closeBrace then .ok (afterValue outer)
    else .error (.fault .syntactic)
  | .more, [] => .error (.fault .syntactic)

/-- Skips tokens up to the end of the outermost value, and returns what follows it. -/
def skip (expected : Expected) (around : List Enclosure) :
    List Token → Except ReadError (List Token)
  | [] => .error (.fault .ended)
  | t :: rest =>
    match expected.next around t with
    | .error e => .error e
    | .ok none => .ok rest
    | .ok (some (expected, around)) => skip expected around rest

def skipValue (ts : List Token) : Except ReadError (List Token) := skip .value [] ts

theorem length_skip {expected : Expected} {around : List Enclosure} {ts rest : List Token}
    (h : skip expected around ts = .ok rest) : rest.length < ts.length := by
  fun_induction skip expected around ts with
  | case1 => cases h
  | case2 => cases h
  | case3 =>
    cases h
    exact Nat.lt_succ_self _
  | case4 _ _ _ _ _ _ _ ih => exact Nat.lt_succ_of_lt (ih h)

/-! ## Objects -/

/-- The members read so far. -/
structure Draft where
  path : Option Path := none
  replacements : Option Nat := none
  linesChanged : Option Nat := none
  written : Option Bool := none

def Draft.has (draft : Draft) : Field → Bool
  | .path => draft.path.isSome
  | .replacements => draft.replacements.isSome
  | .linesChanged => draft.linesChanged.isSome
  | .written => draft.written.isSome

def Draft.read (draft : Draft) (field : Field) (t : Token) : Except ReadError Draft :=
  match field with
  | .path => return { draft with path := some (← readText t) }
  | .replacements => return { draft with replacements := some (← readCount t) }
  | .linesChanged => return { draft with linesChanged := some (← readCount t) }
  | .written => return { draft with written := some (← readBool t) }

/-- The patch, if all its members have been read; else the first that is missing. -/
def Draft.patch (draft : Draft) : Except ReadError FilePatch :=
  match draft.path, draft.replacements, draft.linesChanged, draft.written with
  | none, _, _, _ => .error (.shape (.missing .path))
  | _, none, _, _ => .error (.shape (.missing .replacements))
  | _, _, none, _ => .error (.shape (.missing .linesChanged))
  | _, _, _, none => .error (.shape (.missing .written))
  | some path, some replacements, some linesChanged, some written =>
    .ok { path, replacements, linesChanged, written }

def afterColon : List Token → Except ReadError (List Token)
  | [] => .error (.fault .ended)
  | .mark .colon :: rest => .ok rest
  | _ :: _ => .error (.fault .syntactic)

/-- The name of a member. A member of the patch that was read before is refused here, before its
value is looked at. -/
def memberName (draft : Draft) : Token → Except ReadError (Option Field)
  | .text (some name) =>
    match Field.ofName? name with
    | some field => if draft.has field then .error (.shape (.duplicate field)) else .ok (some field)
    | none => .ok none
  | .brokenText fault _ => .error (.fault fault)
  | _ => .error (.fault .syntactic)

/-- Reads the value of a member, or skips it when it is none of the patch's. -/
def memberValue (draft : Draft) (ts : List Token) :
    Option Field → Except ReadError (Draft × List Token)
  | some field => do
    let (t, rest) ← firstToken ts
    return (← draft.read field t, rest)
  | none => return (draft, ← skipValue ts)

theorem length_memberValue {draft draft' : Draft} {ts rest : List Token} {field : Option Field}
    (h : memberValue draft ts field = .ok (draft', rest)) : rest.length < ts.length := by
  cases field with
  | none =>
    obtain ⟨after, hs, h⟩ := bind_eq_ok.mp h
    cases h
    exact length_skip hs
  | some field =>
    obtain ⟨⟨t, after⟩, hf, h⟩ := bind_eq_ok.mp h
    obtain ⟨read, _, h⟩ := bind_eq_ok.mp h
    cases h
    cases ts with
    | nil => cases hf
    | cons first others =>
      cases hf
      exact Nat.lt_succ_self _

theorem length_afterColon {ts rest : List Token} (h : afterColon ts = .ok rest) :
    rest.length < ts.length := by
  unfold afterColon at h
  split at h <;> simp_all

def member (draft : Draft) (key : Token) (ts : List Token) :
    Except ReadError (Draft × List Token) := do
  let field ← memberName draft key
  let ts ← afterColon ts
  memberValue draft ts field

theorem length_member {draft draft' : Draft} {key : Token} {ts rest : List Token}
    (h : member draft key ts = .ok (draft', rest)) : rest.length < ts.length := by
  obtain ⟨field, _, h⟩ := bind_eq_ok.mp h
  obtain ⟨after, hc, h⟩ := bind_eq_ok.mp h
  exact Nat.lt_trans (length_memberValue h) (length_afterColon hc)

/-- Reads the members after the first, up to the end of the object. -/
def moreMembers (draft : Draft) : List Token → Except ReadError (FilePatch × List Token)
  | [] => .error (.fault .ended)
  | .mark .closeBrace :: rest => return (← draft.patch, rest)
  | .mark .comma :: key :: rest =>
    match _h : member draft key rest with
    | .ok (draft, after) => moreMembers draft after
    | .error e => .error e
  | [.mark .comma] => .error (.fault .ended)
  | _ :: _ => .error (.fault .syntactic)
termination_by ts => ts.length
decreasing_by
  have := length_member _h
  simp
  omega

def object : List Token → Except ReadError (FilePatch × List Token)
  | [] => .error (.fault .ended)
  | .mark .closeBrace :: rest => return (← Draft.patch {}, rest)
  | key :: rest => do
    let (draft, after) ← member {} key rest
    moreMembers draft after

/-! ## Arrays -/

/-- The token of the next value in an array, when `before` values came before it. -/
def nextValue (before : Nat) : List Token → Except ReadError (Token × List Token)
  | [] => .error (.fault .ended)
  | .mark .closeBracket :: _ => .error (.shape (.invalidLength before))
  | first :: rest =>
    if before = 0 then .ok (first, rest)
    else if first = .mark .comma then
      match rest with
      | [] => .error (.fault .ended)
      | .mark .closeBracket :: _ => .error (.fault .syntactic)
      | t :: rest => .ok (t, rest)
    else .error (.fault .syntactic)

def afterArray : List Token → Except ReadError (List Token)
  | [] => .error (.fault .ended)
  | .mark .closeBracket :: rest => .ok rest
  | _ :: _ => .error (.fault .syntactic)

def array (ts : List Token) : Except ReadError (FilePatch × List Token) := do
  let (t, ts) ← nextValue 0 ts
  let path ← readText t
  let (t, ts) ← nextValue 1 ts
  let replacements ← readCount t
  let (t, ts) ← nextValue 2 ts
  let linesChanged ← readCount t
  let (t, ts) ← nextValue 3 ts
  let written ← readBool t
  return ({ path, replacements, linesChanged, written }, ← afterArray ts)

/-! ## The whole text -/

/-- Reads a patch from its tokens, and what follows it. -/
def patchTokens (ts : List Token) : Except ReadError (FilePatch × List Token) := do
  let (first, rest) ← firstToken ts
  match first with
  | .mark .openBrace => object rest
  | .mark .openBracket => array rest
  | other =>
    let _ ← other.wanted
    .error (.shape .invalidType)

end Reader

/-- Reads a patch. Nothing but white space may follow it. -/
def FilePatch.read (text : Bytes) : Except ReadError FilePatch := do
  let (patch, rest) ← Reader.patchTokens (tokens text)
  match rest with
  | [] => return patch
  | _ :: _ => .error (.fault .syntactic)

end Repoint
