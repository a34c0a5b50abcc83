import Mathlib.Data.List.Basic
import Repoint.Json.Token

/-!
# Literals

A string is read as the text it stands for, however it is written. A number is read part by part.
-/

namespace Repoint.Json

variable {b : UInt8} {n : Nat} {body text rest ds literal : Bytes}

/-! ## How strings are written -/

/-- The letters that can stand after a backslash, each with the character that it stands for. -/
def letters : List (UInt8 × UInt8) :=
  [(0x22, 0x22), (0x5C, 0x5C), (0x2F, 0x2F), (0x62, 0x08), (0x66, 0x0C), (0x6E, 0x0A), (0x72, 0x0D),
    (0x74, 0x09)]

/-- The byte is the hexadecimal digit with this value, in either case. -/
def IsHexDigit (b : UInt8) (n : Nat) : Prop :=
  b ∈ (ascii "0123456789abcdef")[n]? ∨ b ∈ (ascii "0123456789ABCDEF")[n]?

instance (b : UInt8) (n : Nat) : Decidable (IsHexDigit b n) := inferInstanceAs (Decidable (_ ∨ _))

/-- Four hexadecimal digits, and the code that they write. -/
inductive IsCode : Bytes → Nat → Prop
  | digits {a b c d : UInt8} {n₁ n₂ n₃ n₄ : Nat} (ha : IsHexDigit a n₁) (hb : IsHexDigit b n₂)
      (hc : IsHexDigit c n₃) (hd : IsHexDigit d n₄) :
      IsCode [a, b, c, d] (0x1000 * n₁ + 0x100 * n₂ + 0x10 * n₃ + n₄)

/-- What can stand between the quotes of a string, and the text that it stands for. -/
inductive Writes : Bytes → Bytes → Prop
  | nothing : Writes [] []
  | plain {b : UInt8} {body text : Bytes} (hquote : b ≠ 0x22) (hbackslash : b ≠ 0x5C)
      (hcontrol : ¬ b < 0x20) (h : Writes body text) : Writes (b :: body) (b :: text)
  | letter {e c : UInt8} {body text : Bytes} (he : (e, c) ∈ letters) (h : Writes body text) :
      Writes (0x5C :: e :: body) (c :: text)
  | code {ds : Bytes} {c : Char} {body text : Bytes} (hcode : IsCode ds c.toNat)
      (h : Writes body text) :
      Writes (0x5C :: 0x75 :: ds ++ body) (String.utf8EncodeChar c ++ text)
  | pair {high low : Bytes} {n m : Nat} {c : Char} {body text : Bytes}
      (hhigh : IsCode high (0xD800 + n)) (hn : n < 0x400) (hlow : IsCode low (0xDC00 + m))
      (hm : m < 0x400) (hc : c.toNat = 0x10000 + 0x400 * n + m) (h : Writes body text) :
      Writes (0x5C :: 0x75 :: high ++ 0x5C :: 0x75 :: low ++ body) (String.utf8EncodeChar c ++ text)

/-! ## Reading strings -/

theorem IsHexDigit.hexValue?_eq (h : IsHexDigit b n) : hexValue? b = some n := by
  have hall : ∀ n < 16, (∀ b ∈ (ascii "0123456789abcdef")[n]?, hexValue? b = some n) ∧
      ∀ b ∈ (ascii "0123456789ABCDEF")[n]?, hexValue? b = some n := by decide +kernel
  rcases h with h | h
  · exact (hall n (List.getElem?_eq_some_iff.mp h).1).1 b h
  · exact (hall n (List.getElem?_eq_some_iff.mp h).1).2 b h

theorem units_byte (hquote : b ≠ 0x22) (hbackslash : b ≠ 0x5C) (hcontrol : ¬ b < 0x20)
    (rest : Bytes) : units (b :: rest) = (.byte b :: (units rest).1, (units rest).2) := by
  rw [units.eq_def]
  simp only [if_neg hquote, if_neg hbackslash, if_neg hcontrol]

theorem units_letter {e c : UInt8} (he : (e, c) ∈ letters) (rest : Bytes) :
    units (0x5C :: e :: rest) = (.byte c :: (units rest).1, (units rest).2) := by
  have hall : ∀ p ∈ letters, unescape? p.1 = some p.2 ∧ p.1 ≠ 0x75 := by simp [letters, unescape?]
  obtain ⟨hletter, hu⟩ := hall _ he
  rw [units.eq_def]
  simp [hletter, hu]

theorem units_code (hcode : IsCode ds n) (rest : Bytes) :
    units (0x5C :: 0x75 :: ds ++ rest) = (.code n :: (units rest).1, (units rest).2) := by
  obtain ⟨ha, hb, hc, hd⟩ := hcode
  rw [units.eq_def]
  simp [codeValue?, ha.hexValue?_eq, hb.hexValue?_eq, hc.hexValue?_eq, hd.hexValue?_eq]

theorem encode_toNat (c : Char) : Utf8.encode c.toNat = String.utf8EncodeChar c := by
  have hvalid : c.val.toNat < 0xD800 ∨ 0xDFFF < c.val.toNat ∧ c.val.toNat < 0x110000 := c.valid
  unfold Utf8.encode String.utf8EncodeChar Char.toNat
  generalize c.val.toNat = code at hvalid
  dsimp only
  -- The same cases, with the bounds said from below and from above.
  split_ifs <;> try omega
  · rfl
  all_goals
    simp only [List.cons.injEq, and_true, ← UInt8.toNat_inj, UInt8.toNat_ofNat']
    omega

theorem decodeUnits_code (c : Char) (parts : List TextUnit) :
    decodeUnits (.code c.toNat :: parts) =
      (decodeUnits parts).map (String.utf8EncodeChar c ++ ·) := by
  have hvalid : c.toNat < 0xD800 ∨ 0xDFFF < c.toNat ∧ c.toNat < 0x110000 := c.valid
  have hlow : isLowSurrogate c.toNat = false := by simp [isLowSurrogate]; omega
  have hhigh : isHighSurrogate c.toNat = false := by simp [isHighSurrogate]; omega
  rw [decodeUnits.eq_def]
  simp [hlow, hhigh, encode_toNat]

theorem decodeUnits_pair {n m : Nat} {c : Char} (hn : n < 0x400) (hm : m < 0x400)
    (hc : c.toNat = 0x10000 + 0x400 * n + m) (parts : List TextUnit) :
    decodeUnits (.code (0xD800 + n) :: .code (0xDC00 + m) :: parts) =
      (decodeUnits parts).map (String.utf8EncodeChar c ++ ·) := by
  have hnotLow : isLowSurrogate (0xD800 + n) = false := by simp [isLowSurrogate]; omega
  have hhigh : isHighSurrogate (0xD800 + n) = true := by simp [isHighSurrogate]; omega
  have hlow : isLowSurrogate (0xDC00 + m) = true := by simp [isLowSurrogate]; omega
  rw [decodeUnits.eq_def]
  simp [hnotLow, hhigh, hlow, ← hc, encode_toNat]

theorem Writes.exists_units (h : Writes body text) (rest : Bytes) :
    ∃ parts, units (body ++ 0x22 :: rest) = (parts, .closed rest) ∧
      decodeUnits parts = some text := by
  induction h with
  | nothing => exact ⟨[], by simp [units.eq_def], rfl⟩
  | @plain b _ _ hquote hbackslash hcontrol _ ih =>
    obtain ⟨parts, hunits, hdecode⟩ := ih
    refine ⟨.byte b :: parts, ?_, by rw [decodeUnits, hdecode]; rfl⟩
    rw [List.cons_append, units_byte hquote hbackslash hcontrol, hunits]
  | @letter _ c _ _ he _ ih =>
    obtain ⟨parts, hunits, hdecode⟩ := ih
    refine ⟨.byte c :: parts, ?_, by rw [decodeUnits, hdecode]; rfl⟩
    rw [List.cons_append, List.cons_append, units_letter he, hunits]
  | @code _ c _ _ hcode _ ih =>
    obtain ⟨parts, hunits, hdecode⟩ := ih
    refine ⟨.code c.toNat :: parts, ?_, by rw [decodeUnits_code, hdecode]; rfl⟩
    rw [List.append_assoc, units_code hcode, hunits]
  | @pair high low n m _ _ _ hhigh hn hlow hm hc _ ih =>
    obtain ⟨parts, hunits, hdecode⟩ := ih
    refine ⟨.code (0xD800 + n) :: .code (0xDC00 + m) :: parts, ?_,
      by rw [decodeUnits_pair hn hm hc, hdecode]; rfl⟩
    rw [List.append_assoc, List.append_assoc, units_code hhigh]
    change (_ :: (units (0x5C :: 0x75 :: low ++ _)).1, (units (0x5C :: 0x75 :: low ++ _)).2) = _
    rw [units_code hlow, hunits]

/-! ## How numbers are written -/

def AreDigits (ds : Bytes) : Prop := ds ≠ [] ∧ ∀ b ∈ ds, isDigit b = true

instance (ds : Bytes) : Decidable (AreDigits ds) :=
  decidable_of_iff (ds ≠ [] ∧ ds.all isDigit) (by simp [AreDigits])

/-- A point and the digits after it, if there are any. -/
def fractionText : Option Bytes → Bytes
  | none => []
  | some ds => 0x2E :: ds

/-- An exponent as it can be written: its mark, a sign, which may be left out for a plus, and digits. -/
inductive WritesExponent : Bytes → Option (Bool × Bytes) → Prop
  | nothing : WritesExponent [] none
  | plain {mark : UInt8} {ds : Bytes} (hmark : mark = 0x65 ∨ mark = 0x45) (hds : AreDigits ds) :
      WritesExponent (mark :: ds) (some (false, ds))
  | plus {mark : UInt8} {ds : Bytes} (hmark : mark = 0x65 ∨ mark = 0x45) (hds : AreDigits ds) :
      WritesExponent (mark :: 0x2B :: ds) (some (false, ds))
  | minus {mark : UInt8} {ds : Bytes} (hmark : mark = 0x65 ∨ mark = 0x45) (hds : AreDigits ds) :
      WritesExponent (mark :: 0x2D :: ds) (some (true, ds))

/-- The text writes the number. A zero before the point stands alone. -/
structure Number.IsWritten (n : Number) (literal : Bytes) : Prop where
  whole : AreDigits n.whole
  zero : n.whole.head? = some 0x30 → n.whole.length = 1
  fraction : ∀ ds ∈ n.fraction, AreDigits ds
  spelled : ∃ exponent, WritesExponent exponent n.exponent ∧
    literal = (if n.negative then [0x2D] else []) ++ n.whole ++ fractionText n.fraction ++ exponent

/-! ## Reading numbers -/

def EndsDigits (rest : Bytes) : Prop := ∀ b ∈ rest.head?, isDigit b = false

/-- The byte goes on with a number when it stands after a digit. -/
def continuesNumber (b : UInt8) : Bool := isDigit b || b = 0x2E || b = 0x65 || b = 0x45

/-- A text that does not go on with a number that stands before it. -/
def Delimits (rest : Bytes) : Prop := ∀ b ∈ rest.head?, continuesNumber b = false

@[simp]
theorem delimits_cons : Delimits (b :: rest) ↔ continuesNumber b = false := by
  simp [Delimits]

theorem Delimits.endsDigits (hrest : Delimits rest) : EndsDigits rest := by
  intro b hb
  have hnot := hrest b hb
  simp only [continuesNumber, Bool.or_eq_false_iff] at hnot
  exact hnot.1.1.1

theorem digits_append (hds : AreDigits ds) (hrest : EndsDigits rest) :
    digits (ds ++ rest) = .ok (ds, rest) := by
  obtain ⟨hne, hds⟩ := hds
  obtain ⟨htake, hdrop⟩ : rest.takeWhile isDigit = [] ∧ rest.dropWhile isDigit = rest := by
    cases rest with
    | nil => exact ⟨rfl, rfl⟩
    | cons b rest =>
      have hb : ¬ isDigit b = true := by simpa [EndsDigits] using hrest
      exact ⟨List.takeWhile_cons_of_neg hb, List.dropWhile_cons_of_neg hb⟩
  cases ds with
  | nil => exact absurd rfl hne
  | cons d ds =>
    rw [List.cons_append, digits, if_pos (hds d List.mem_cons_self), ← List.cons_append,
      List.takeWhile_append_of_pos hds, List.dropWhile_append_of_pos hds, htake, hdrop,
      List.append_nil]

theorem exponentSign_append (hds : AreDigits ds) (rest : Bytes) :
    exponentSign (ds ++ rest) = (false, ds ++ rest) := by
  obtain ⟨hne, hds⟩ := hds
  cases ds with
  | nil => exact absurd rfl hne
  | cons d ds =>
    have hd := hds d List.mem_cons_self
    unfold exponentSign
    split
    · next heq => simp_all [isDigit]
    · next heq => simp_all [isDigit]
    · rfl

theorem exponentDigits_append {exponent : Bytes} {e : Option (Bool × Bytes)}
    (h : WritesExponent exponent e) (hrest : Delimits rest) :
    exponentDigits (exponent ++ rest) = .ok (e, rest) := by
  cases h with
  | nothing =>
    cases rest with
    | nil => rfl
    | cons b rest =>
      rw [delimits_cons] at hrest
      simp only [continuesNumber, Bool.or_eq_false_iff, decide_eq_false_iff_not] at hrest
      rw [List.nil_append, exponentDigits, if_neg (by simp [hrest])]
      rfl
  | plain hmark hds =>
    rw [List.cons_append, exponentDigits, if_pos hmark]
    simp only [exponentSign_append hds, digits_append hds hrest.endsDigits]
    rfl
  | plus hmark hds =>
    rw [List.cons_append, exponentDigits, if_pos hmark]
    simp only [List.cons_append, exponentSign, digits_append hds hrest.endsDigits]
    rfl
  | minus hmark hds =>
    rw [List.cons_append, exponentDigits, if_pos hmark]
    simp only [List.cons_append, exponentSign, digits_append hds hrest.endsDigits]
    rfl

theorem WritesExponent.head?_append {exponent : Bytes} {e : Option (Bool × Bytes)}
    (h : WritesExponent exponent e) (hrest : Delimits rest) :
    ∀ b ∈ (exponent ++ rest).head?, isDigit b = false ∧ b ≠ 0x2E := by
  have hmarks : ∀ mark : UInt8, mark = 0x65 ∨ mark = 0x45 → isDigit mark = false ∧ mark ≠ 0x2E := by
    rintro mark (rfl | rfl) <;> decide
  cases h with
  | nothing =>
    intro b hb
    have hnot := hrest b hb
    simp only [continuesNumber, Bool.or_eq_false_iff, decide_eq_false_iff_not] at hnot
    exact hnot.1.1
  | plain hmark hds => simpa using hmarks _ hmark
  | plus hmark hds => simpa using hmarks _ hmark
  | minus hmark hds => simpa using hmarks _ hmark

theorem fractionDigits_append {fraction : Option Bytes} (h : ∀ ds ∈ fraction, AreDigits ds)
    (hrest : ∀ b ∈ rest.head?, isDigit b = false ∧ b ≠ 0x2E) :
    fractionDigits (fractionText fraction ++ rest) = .ok (fraction, rest) := by
  cases fraction with
  | none =>
    rw [fractionText, List.nil_append]
    unfold fractionDigits
    split
    · next after => exact absurd rfl (hrest 0x2E rfl).2
    · rfl
  | some ds =>
    have hdigits := digits_append (h ds rfl) fun b hb => (hrest b hb).1
    rw [fractionText, List.cons_append, fractionDigits, hdigits]
    rfl

theorem unsignedNumber_append {negative : Bool} {whole exponent : Bytes} {fraction : Option Bytes}
    {e : Option (Bool × Bytes)} (hwhole : AreDigits whole)
    (hzero : whole.head? = some 0x30 → whole.length = 1) (hfraction : ∀ ds ∈ fraction, AreDigits ds)
    (he : WritesExponent exponent e) (hrest : Delimits rest) :
    unsignedNumber negative (whole ++ (fractionText fraction ++ (exponent ++ rest))) =
      .ok (⟨negative, whole, fraction, e⟩, rest) := by
  have hafter := he.head?_append hrest
  have hends : EndsDigits (fractionText fraction ++ (exponent ++ rest)) := by
    cases fraction with
    | none => exact fun b hb => (hafter b hb).1
    | some ds => simp [fractionText, EndsDigits, isDigit]
  have hdigits : wholeDigits (whole ++ (fractionText fraction ++ (exponent ++ rest))) =
      .ok (whole, fractionText fraction ++ (exponent ++ rest)) := by
    rw [wholeDigits, digits_append hwhole hends]
    exact if_neg fun ⟨hhead, hlength⟩ => hlength (hzero hhead)
  rw [unsignedNumber, hdigits]
  simp only [bind, Except.bind, fractionDigits_append hfraction hafter,
    exponentDigits_append he hrest]
  rfl

theorem Number.IsWritten.number_append {n : Number} (h : n.IsWritten literal)
    (hrest : Delimits rest) : number (literal ++ rest) = .ok (n, rest) := by
  obtain ⟨hwhole, hzero, hfraction, exponent, he, rfl⟩ := h
  obtain ⟨negative, whole, fraction, e⟩ := n
  have hunsigned : unsignedNumber negative (whole ++ (fractionText fraction ++ (exponent ++ rest))) =
      .ok (⟨negative, whole, fraction, e⟩, rest) :=
    unsignedNumber_append hwhole hzero hfraction he hrest
  cases negative with
  | true =>
    rw [if_pos rfl]
    simpa [number] using hunsigned
  | false =>
    obtain ⟨d, ds, rfl⟩ := List.exists_cons_of_ne_nil hwhole.1
    have hd := hwhole.2 d List.mem_cons_self
    rw [if_neg (by simp)]
    simp only [List.nil_append, List.append_assoc, List.cons_append] at hunsigned ⊢
    unfold number
    split
    · next after heq => simp_all [isDigit]
    · exact hunsigned

end Repoint.Json
