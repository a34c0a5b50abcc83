import Mathlib.Data.List.Basic
import Mathlib.Data.List.Chain
import Repoint.Proofs.Json.Spelling

/-!
# JSON values

In the tokens of a value a mark follows every number, so they are read however the value is spelled.
-/

namespace Repoint.Json

/-- A JSON value. A number is kept as it is written; a string is the text that it stands for. -/
inductive Value where
  | null
  | bool (b : Bool)
  | number (n : Number)
  | text (value : Bytes)
  | array (items : List Value)
  | object (members : List (Bytes × Value))

mutual

def Value.tokens : Value → List Token
  | .null => [.null]
  | .bool b => [.bool b]
  | .number n => [.number n]
  | .text value => [.text (some value)]
  | .array [] => [.mark .openBracket, .mark .closeBracket]
  | .array (item :: items) => .mark .openBracket :: (item.tokens ++ itemsTokens items)
  | .object [] => [.mark .openBrace, .mark .closeBrace]
  | .object ((key, value) :: members) =>
    .mark .openBrace :: .text (some key) :: .mark .colon :: (value.tokens ++ membersTokens members)

/-- The tokens after the first item of an array. -/
def itemsTokens : List Value → List Token
  | [] => [.mark .closeBracket]
  | item :: items => .mark .comma :: (item.tokens ++ itemsTokens items)

/-- The tokens after the first member of an object. -/
def membersTokens : List (Bytes × Value) → List Token
  | [] => [.mark .closeBrace]
  | (key, value) :: members =>
    .mark .comma :: .text (some key) :: .mark .colon :: (value.tokens ++ membersTokens members)

end

def Value.first : Value → Token
  | .null => .null
  | .bool b => .bool b
  | .number n => .number n
  | .text value => .text (some value)
  | .array _ => .mark .openBracket
  | .object _ => .mark .openBrace

theorem Value.exists_tokens (value : Value) : ∃ ts, value.tokens = value.first :: ts := by
  cases value with
  | array items => cases items <;> simp [tokens, first]
  | object members => cases members <;> simp [tokens, first]
  | _ => exact ⟨[], rfl⟩

@[elab_as_elim]
theorem valueInduction {motive : Value → Prop} (null : motive .null) (bool : ∀ b, motive (.bool b))
    (number : ∀ n, motive (.number n)) (text : ∀ value, motive (.text value))
    (array : ∀ items, (∀ item ∈ items, motive item) → motive (.array items))
    (object : ∀ members, (∀ member ∈ members, motive member.2) → motive (.object members))
    (value : Value) : motive value := by
  cases value with
  | null => exact null
  | bool b => exact bool b
  | number n => exact number n
  | text value => exact text value
  | array items =>
    apply array
    intro item hitem
    exact valueInduction null bool number text array object item
  | object members =>
    apply object
    intro member hmember
    exact valueInduction null bool number text array object member.2
termination_by sizeOf value
decreasing_by
  · have := List.sizeOf_lt_of_mem hitem
    simp
    omega
  · have := List.sizeOf_lt_of_mem hmember
    obtain ⟨key, value⟩ := member
    simp at this ⊢
    omega

/-! ## Texts -/

variable {text literal rest blank : Bytes} {t : Token} {ts : List Token}

/-- White space, which says nothing between two tokens. -/
def Blank (text : Bytes) : Prop := ∀ b ∈ text, b ∈ [0x20, 0x09, 0x0A, 0x0D]

instance (text : Bytes) : Decidable (Blank text) := List.decidableBAll _ text

def Mark.byte : Mark → UInt8
  | .openBrace => 0x7B
  | .closeBrace => 0x7D
  | .openBracket => 0x5B
  | .closeBracket => 0x5D
  | .colon => 0x3A
  | .comma => 0x2C

/-- A token as it can be written. A string is the bytes of whole characters. -/
inductive Token.IsWritten : Token → Bytes → Prop
  | mark (m : Mark) : IsWritten (.mark m) [m.byte]
  | text {body value : Bytes} (hbody : Writes body value) (hvalue : Utf8.Valid value) :
      IsWritten (.text (some value)) (0x22 :: body ++ [0x22])
  | number {n : Number} {literal : Bytes} (h : n.IsWritten literal) : IsWritten (.number n) literal
  | bool (b : Bool) : IsWritten (.bool b) (ascii (if b then "true" else "false"))
  | null : IsWritten .null (ascii "null")

/-- A text that writes tokens one after the other, with white space around them. -/
inductive Spells : Bytes → List Token → Prop
  | done {blank : Bytes} (hblank : Blank blank) : Spells blank []
  | next {blank literal text : Bytes} {t : Token} {ts : List Token} (hblank : Blank blank)
      (ht : t.IsWritten literal) (h : Spells text ts) : Spells (blank ++ literal ++ text) (t :: ts)

/-! ## Reading tokens off a text -/

def Token.isMark : Token → Bool
  | .mark _ => true
  | _ => false

/-- Of two tokens side by side, one is a mark. -/
def Separated (ts : List Token) : Prop := ts.IsChain fun a b => a.isMark ∨ b.isMark

theorem Blank.isBlank (h : Blank blank) : ∀ b ∈ blank, isBlank b = true := by
  have hall : ∀ b ∈ ([0x20, 0x09, 0x0A, 0x0D] : List UInt8), Json.isBlank b = true := by
    simp [Json.isBlank]
  exact fun b hb => hall b (h b hb)

theorem Blank.tokens_append (h : Blank blank) (rest : Bytes) : tokens (blank ++ rest) = tokens rest := by
  have hblank := h.isBlank
  induction blank with
  | nil => rfl
  | cons b blank ih =>
    obtain ⟨hb, hmore⟩ := List.forall_mem_cons.mp hblank
    rw [List.cons_append, tokens_cons_of_isBlank hb]
    exact ih (fun c hc => h c (List.mem_cons_of_mem _ hc)) hmore

theorem mark?_byte (m : Mark) : mark? m.byte = some m := by
  cases m <;> decide

theorem Blank.delimits_append (h : Blank blank) (hrest : Delimits rest) :
    Delimits (blank ++ rest) := by
  cases blank with
  | nil => exact hrest
  | cons b blank =>
    rw [List.cons_append, delimits_cons]
    apply not_continuesNumber_of_isPunctuation
    simp [isPunctuation, h.isBlank b List.mem_cons_self]

theorem delimits_nil : Delimits [] := by simp [Delimits]

theorem Spells.delimits (h : Spells text ts) (hmark : ∀ t ∈ ts.head?, t.isMark = true) :
    Delimits text := by
  cases h with
  | done hblank => simpa using hblank.delimits_append delimits_nil
  | next hblank ht h =>
    have hfirst := hmark _ rfl
    rw [List.append_assoc]
    apply hblank.delimits_append
    cases ht with
    | mark m => exact delimits_cons.mpr (mark?_excludes (mark?_byte m)).2
    | text hbody hvalue => cases hfirst
    | number h => cases hfirst
    | bool b => cases hfirst
    | null => cases hfirst

theorem Token.IsWritten.tokens_append (h : t.IsWritten literal)
    (hrest : t.isMark = false → Delimits rest) : tokens (literal ++ rest) = t :: tokens rest := by
  cases h with
  | mark m => exact tokens_cons_of_mark? (mark?_byte m) rest
  | text hbody hvalue => exact tokens_text hbody hvalue rest
  | number h => exact tokens_number h (hrest rfl)
  | bool b => exact tokens_boolText b rest
  | null => exact tokens_cons (by decide) rfl

theorem Spells.tokens_eq (h : Spells text ts) (hts : Separated ts) : tokens text = ts := by
  induction h with
  | done hblank => simpa using hblank.tokens_append []
  | @next blank literal text t ts hblank ht h ih =>
    obtain ⟨hnext, hmore⟩ := List.isChain_cons.mp hts
    rw [List.append_assoc, hblank.tokens_append, ht.tokens_append, ih hmore]
    -- A token that is no mark may be a number; then it is a mark that follows.
    intro hnot
    apply h.delimits
    intro next hhead
    exact (hnext next hhead).resolve_left (by simp [hnot])

/-! ## The tokens of a value are kept apart -/

/-- What can come after a value: nothing, or a mark. -/
def FollowsValue (ts : List Token) : Prop := Separated ts ∧ ∀ t ∈ ts.head?, t.isMark = true

theorem separated_cons_of_isMark (ht : t.isMark = true) (hts : Separated ts) : Separated (t :: ts) :=
  List.isChain_cons.mpr ⟨fun _ _ => .inl ht, hts⟩

theorem FollowsValue.separated_cons (h : FollowsValue ts) (t : Token) : Separated (t :: ts) :=
  List.isChain_cons.mpr ⟨fun next hnext => .inr (h.2 next hnext), h.1⟩

theorem followsValue_cons (m : Mark) (hts : Separated ts) : FollowsValue (.mark m :: ts) :=
  ⟨separated_cons_of_isMark rfl hts, by simp [Token.isMark]⟩

/-- The value is kept apart in itself and from what comes after it. -/
def Value.IsSeparated (value : Value) : Prop :=
  ∀ rest, FollowsValue rest → Separated (value.tokens ++ rest)

theorem Value.isSeparated_of_tokens {value : Value} (h : value.tokens = [t]) :
    value.IsSeparated := by
  intro rest hrest
  rw [h]
  exact hrest.separated_cons t

theorem itemsTokens_followsValue {items : List Value} (hitems : ∀ item ∈ items, item.IsSeparated)
    {rest : List Token} (hrest : FollowsValue rest) : FollowsValue (itemsTokens items ++ rest) := by
  induction items with
  | nil =>
    rw [itemsTokens]
    exact followsValue_cons .closeBracket hrest.1
  | cons item items ih =>
    obtain ⟨hitem, hitems⟩ := List.forall_mem_cons.mp hitems
    rw [itemsTokens, List.cons_append, List.append_assoc]
    exact followsValue_cons .comma (hitem _ (ih hitems))

theorem separated_member {key : Bytes} {value : Value} (hvalue : value.IsSeparated)
    {rest : List Token} (hrest : FollowsValue rest) :
    Separated (.text (some key) :: .mark .colon :: (value.tokens ++ rest)) :=
  (followsValue_cons .colon (hvalue rest hrest)).separated_cons _

theorem membersTokens_followsValue {members : List (Bytes × Value)}
    (hmembers : ∀ member ∈ members, member.2.IsSeparated) {rest : List Token}
    (hrest : FollowsValue rest) : FollowsValue (membersTokens members ++ rest) := by
  induction members with
  | nil =>
    rw [membersTokens]
    exact followsValue_cons .closeBrace hrest.1
  | cons member members ih =>
    obtain ⟨key, value⟩ := member
    obtain ⟨hvalue, hmembers⟩ := List.forall_mem_cons.mp hmembers
    rw [membersTokens]
    simp only [List.cons_append, List.append_assoc]
    exact followsValue_cons .comma (separated_member hvalue (ih hmembers))

theorem Value.isSeparated (value : Value) : value.IsSeparated := by
  induction value using valueInduction with
  | null => exact isSeparated_of_tokens rfl
  | bool b => exact isSeparated_of_tokens rfl
  | number n => exact isSeparated_of_tokens rfl
  | text value => exact isSeparated_of_tokens rfl
  | array items ih =>
    intro rest hrest
    cases items with
    | nil =>
      rw [Value.tokens]
      exact separated_cons_of_isMark rfl (followsValue_cons .closeBracket hrest.1).1
    | cons item items =>
      obtain ⟨hitem, hitems⟩ := List.forall_mem_cons.mp ih
      rw [Value.tokens, List.cons_append, List.append_assoc]
      exact separated_cons_of_isMark rfl (hitem _ (itemsTokens_followsValue hitems hrest))
  | object members ih =>
    intro rest hrest
    cases members with
    | nil =>
      rw [Value.tokens]
      exact separated_cons_of_isMark rfl (followsValue_cons .closeBrace hrest.1).1
    | cons member members =>
      obtain ⟨key, value⟩ := member
      obtain ⟨hvalue, hmembers⟩ := List.forall_mem_cons.mp ih
      rw [Value.tokens]
      simp only [List.cons_append, List.append_assoc]
      exact separated_cons_of_isMark rfl
        (separated_member hvalue (membersTokens_followsValue hmembers hrest))

theorem tokens_of_spells {value : Value} (h : Spells text value.tokens) :
    tokens text = value.tokens := by
  have hend : FollowsValue [] := ⟨.nil, by simp⟩
  have hseparated := value.isSeparated [] hend
  rw [List.append_nil] at hseparated
  exact h.tokens_eq hseparated

end Repoint.Json
