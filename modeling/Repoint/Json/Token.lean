import Repoint.Except
import Repoint.Json.Number

/-!
# JSON tokens

A text is cut into tokens up to the first place where none can be read. A reader that skips a value
finds fewer errors in it, so a token carries what either reader finds.
-/

namespace Repoint.Json

/-- The bytes that stand for themselves. -/
inductive Mark where
  | openBrace
  | closeBrace
  | openBracket
  | closeBracket
  | colon
  | comma
  deriving DecidableEq

/-- The mark that a byte is. -/
def mark? (b : UInt8) : Option Mark :=
  if b = 0x7B then some .openBrace
  else if b = 0x7D then some .closeBrace
  else if b = 0x5B then some .openBracket
  else if b = 0x5D then some .closeBracket
  else if b = 0x3A then some .colon
  else if b = 0x2C then some .comma
  else none

inductive Token where
  | mark (m : Mark)
  /-- A string; its text is `none` when it is not sound. -/
  | text (value : Option Bytes)
  | number (n : Number)
  | bool (b : Bool)
  | null
  /-- A string that is not closed: what is wrong for one who wants it, and for one who skips it. -/
  | brokenText (wanted skipped : Fault)
  /-- Something else that begins a value and does not finish it, or begins none. -/
  | broken (wanted skipped : Fault)
  deriving DecidableEq

def isBlank (b : UInt8) : Bool := b = 0x20 || b = 0x0A || b = 0x09 || b = 0x0D

/-- Reads the rest of a word, letter by letter. -/
def wordRest : Bytes → Bytes → Except Fault Bytes
  | [], text => .ok text
  | _ :: _, [] => .error .ended
  | c :: word, b :: text => if b = c then wordRest word text else .error .syntactic

/-- The words that are values, each with its first letter. -/
def word? (b : UInt8) : Option (Bytes × Token) :=
  if b = 0x74 then some (ascii "rue", .bool true)
  else if b = 0x66 then some (ascii "alse", .bool false)
  else if b = 0x6E then some (ascii "ull", .null)
  else none

/-- The first token of a text, and what follows it; nothing follows a broken one. White space is not
expected here. -/
def token (b : UInt8) (rest : Bytes) : Token × Option Bytes :=
  match mark? b with
  | some m => (.mark m, some rest)
  | none =>
    if b = 0x22 then
      match units rest with
      | (parts, .closed after) => (.text (closedText? parts), some after)
      | (parts, .broken fault) => (.brokenText (brokenText parts fault) fault, none)
    else if b = 0x2D || isDigit b then
      match number (b :: rest) with
      | .ok (n, after) => (.number n, some after)
      | .error fault => (.broken fault .syntactic, none)
    else
      match word? b with
      | some (word, value) =>
        match wordRest word rest with
        | .ok after => (value, some after)
        | .error fault => (.broken fault fault, none)
      | none => (.broken .syntactic .syntactic, none)

/-! ## Every token takes at least one byte -/

theorem length_units {text rest : Bytes} (h : (units text).2 = .closed rest) :
    rest.length < text.length := by
  fun_induction units text generalizing rest <;> simp_all <;> grind

theorem length_digits {text ds rest : Bytes} (h : digits text = .ok (ds, rest)) :
    rest.length < text.length := by
  unfold digits at h
  split at h
  · simp at h
  · next b tail =>
    split at h
    · next hb =>
      simp only [Except.ok.injEq, Prod.mk.injEq] at h
      rw [← h.2, List.dropWhile_cons_of_pos hb]
      exact Nat.lt_succ_of_le (List.dropWhile_sublist _).length_le
    · simp at h

theorem length_wordRest {word text rest : Bytes} (h : wordRest word text = .ok rest) :
    rest.length ≤ text.length := by
  fun_induction wordRest word text <;> simp_all
  omega

theorem length_wholeDigits {text ds rest : Bytes} (h : wholeDigits text = .ok (ds, rest)) :
    rest.length < text.length := by
  obtain ⟨⟨ds', rest'⟩, hd, h⟩ := bind_eq_ok.mp h
  dsimp only at h
  split at h
  · cases h
  · cases h
    exact length_digits hd

theorem length_fractionDigits {text rest : Bytes} {ds : Option Bytes}
    (h : fractionDigits text = .ok (ds, rest)) : rest.length ≤ text.length := by
  unfold fractionDigits at h
  split at h
  · obtain ⟨⟨ds', rest'⟩, hd, h⟩ := bind_eq_ok.mp h
    cases h
    have := length_digits hd
    rw [List.length_cons]
    omega
  · cases h
    exact Nat.le_refl _

theorem length_exponentSign (text : Bytes) : (exponentSign text).2.length ≤ text.length := by
  unfold exponentSign
  split <;> simp

theorem length_exponentDigits {text rest : Bytes} {e : Option (Bool × Bytes)}
    (h : exponentDigits text = .ok (e, rest)) : rest.length ≤ text.length := by
  unfold exponentDigits at h
  split at h
  · cases h
    exact Nat.le_refl _
  · next b after =>
    split at h
    · obtain ⟨⟨ds', rest'⟩, hd, h⟩ := bind_eq_ok.mp h
      cases h
      have hlt : rest.length < (exponentSign after).2.length := length_digits hd
      have hle := length_exponentSign after
      exact Nat.le_trans (Nat.le_of_lt hlt) (Nat.le_succ_of_le hle)
    · cases h
      exact Nat.le_refl _

theorem length_unsignedNumber {negative : Bool} {text rest : Bytes} {n : Number}
    (h : unsignedNumber negative text = .ok (n, rest)) : rest.length < text.length := by
  obtain ⟨⟨whole, afterWhole⟩, hw, h⟩ := bind_eq_ok.mp h
  obtain ⟨⟨fraction, afterFraction⟩, hf, h⟩ := bind_eq_ok.mp h
  obtain ⟨⟨e, afterExponent⟩, he, h⟩ := bind_eq_ok.mp h
  cases h
  have := length_wholeDigits hw
  have := length_fractionDigits hf
  have := length_exponentDigits he
  dsimp only at *
  omega

theorem length_number {text rest : Bytes} {n : Number} (h : number text = .ok (n, rest)) :
    rest.length < text.length := by
  unfold number at h
  split at h
  · have := length_unsignedNumber h
    simp
    omega
  · exact length_unsignedNumber h

theorem length_token {b : UInt8} {rest after : Bytes} (h : (token b rest).2 = some after) :
    after.length ≤ rest.length := by
  unfold token at h
  split at h
  · obtain rfl := Option.some.inj h
    exact Nat.le_refl _
  · split at h
    · split at h
      · next hu =>
        obtain rfl := Option.some.inj h
        exact Nat.le_of_lt (length_units (by rw [hu]))
      · cases h
    · split at h
      · split at h
        · next hn =>
          obtain rfl := Option.some.inj h
          exact Nat.le_of_lt_succ (length_number hn)
        · cases h
      · split at h
        · split at h
          · next hw =>
            obtain rfl := Option.some.inj h
            exact length_wordRest hw
          · cases h
        · cases h

/-! ## The tokens of a text -/

def tokens : Bytes → List Token
  | [] => []
  | b :: rest =>
    if isBlank b then tokens rest
    else
      match _h : (token b rest).2 with
      | some after => (token b rest).1 :: tokens after
      | none => [(token b rest).1]
termination_by text => text.length
decreasing_by
  · simp
  · exact Nat.lt_succ_of_le (length_token _h)

end Repoint.Json
