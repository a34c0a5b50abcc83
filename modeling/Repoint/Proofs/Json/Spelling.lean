import Repoint.Proofs.Json.Literal
import Repoint.Report.Writer

/-!
# How tokens are spelled

Strings, numbers and words are one token each. Only a number does not say where it ends.
-/

namespace Repoint

variable {b : UInt8} {n : Nat} {body text rest after literal : Bytes}

/-! ## Decimal digits -/

def digitByte (d : Nat) : UInt8 := (0x30 + d).toUInt8

theorem toNat_digitByte (hn : n < 10) : (digitByte n).toNat = 0x30 + n := by
  simp [digitByte]
  omega

theorem isDigit_digitByte (hn : n < 10) : isDigit (digitByte n) = true := by
  revert n
  decide

theorem digitByte_eq_zero_iff (hn : n < 10) : digitByte n = 0x30 ↔ n = 0 := by
  revert n
  decide

theorem decimal_eq (n : Nat) :
    decimal n = (if n < 10 then [] else decimal (n / 10)) ++ [digitByte (n % 10)] := by
  have hchar {d : Nat} (hd : d < 10) : (Nat.digitChar d).toNat.toUInt8 = digitByte d := by
    revert d
    decide
  unfold decimal
  rw [Nat.toDigits_eq_if (by omega)]
  split
  · next hn => simp [hchar hn, Nat.mod_eq_of_lt hn]
  · simp [hchar (Nat.mod_lt n (by omega))]

theorem decimal_ne_nil (n : Nat) : decimal n ≠ [] := by
  rw [decimal_eq]
  simp

theorem isDigit_of_mem_decimal (hb : b ∈ decimal n) : isDigit b = true := by
  induction n using Nat.strongRecOn with
  | ind n ih =>
    rw [decimal_eq, List.mem_append, List.mem_singleton] at hb
    rcases hb with hb | rfl
    · split at hb
      · cases hb
      · exact ih (n / 10) (by omega) hb
    · exact isDigit_digitByte (Nat.mod_lt n (by omega))

theorem digitsValue_append (ds : Bytes) (b : UInt8) :
    digitsValue (ds ++ [b]) = 10 * digitsValue ds + (b.toNat - 0x30) := by
  simp [digitsValue]

theorem digitsValue_decimal (n : Nat) : digitsValue (decimal n) = n := by
  induction n using Nat.strongRecOn with
  | ind n ih =>
    rw [decimal_eq, digitsValue_append, toNat_digitByte (Nat.mod_lt n (by omega))]
    split
    · simp [digitsValue]
      omega
    · rw [ih (n / 10) (by omega)]
      omega

theorem head?_decimal_eq_zero_iff (n : Nat) : (decimal n).head? = some 0x30 ↔ n = 0 := by
  induction n using Nat.strongRecOn with
  | ind n ih =>
    rw [decimal_eq]
    split
    · next hn =>
      rw [List.nil_append, List.head?_singleton, Option.some.injEq, Nat.mod_eq_of_lt hn,
        digitByte_eq_zero_iff hn]
    · next hn =>
      rw [List.head?_append_of_ne_nil _ (decimal_ne_nil _), ih (n / 10) (by omega)]
      omega

namespace Json

/-! ## Strings -/

theorem escape_cases (b : UInt8) :
    (∃ e, escape b = [0x5C, e] ∧ 0x20 ≤ e ∧ (e, b) ∈ letters) ∨
    (b < 0x20 ∧ escape b =
      [0x5C, 0x75, 0x30, 0x30, hexDigit (b.toNat / 16), hexDigit (b.toNat % 16)]) ∨
    (escape b = [b] ∧ b ≠ 0x22 ∧ b ≠ 0x5C ∧ ¬ b < 0x20) := by
  unfold escape
  split_ifs with hquote hbackslash _ _ _ _ _ hcontrol
  · exact .inl ⟨0x22, by decide, by decide, by subst hquote; decide⟩
  · exact .inl ⟨0x5C, by decide, by decide, by subst hbackslash; decide⟩
  · exact .inl ⟨0x62, by decide, by decide, by subst b; decide⟩
  · exact .inl ⟨0x66, by decide, by decide, by subst b; decide⟩
  · exact .inl ⟨0x6E, by decide, by decide, by subst b; decide⟩
  · exact .inl ⟨0x72, by decide, by decide, by subst b; decide⟩
  · exact .inl ⟨0x74, by decide, by decide, by subst b; decide⟩
  · exact .inr (.inl ⟨hcontrol, rfl⟩)
  · exact .inr (.inr ⟨rfl, hquote, hbackslash, hcontrol⟩)

theorem isHexDigit_hexDigit (hn : n < 16) : IsHexDigit (hexDigit n) n := by
  have hall : ∀ n < 16, hexDigit n ∈ (ascii "0123456789abcdef")[n]? := by decide
  exact .inl (hall n hn)

theorem isCode_control (hn : n < 0x20) :
    IsCode [0x30, 0x30, hexDigit (n / 16), hexDigit (n % 16)] n := by
  have hzero : IsHexDigit 0x30 0 := .inl rfl
  have hcode := IsCode.digits hzero hzero (isHexDigit_hexDigit (show n / 16 < 16 by omega))
    (isHexDigit_hexDigit (Nat.mod_lt n (by omega)))
  convert hcode using 1
  omega

theorem exists_char_control (hb : b < 0x20) :
    ∃ c : Char, c.toNat = b.toNat ∧ String.utf8EncodeChar c = [b] := by
  have hb : b.toNat < 0x20 := hb
  have hvalid : b.toNat.isValidChar := .inl (by omega)
  refine ⟨Char.ofNatAux b.toNat hvalid, rfl, ?_⟩
  rw [← encode_toNat]
  change Utf8.encode b.toNat = [b]
  rw [Utf8.encode, if_pos (by omega)]
  simp

theorem Writes.escape (h : Writes body text) (b : UInt8) :
    Writes (Json.escape b ++ body) (b :: text) := by
  rcases escape_cases b with ⟨e, hescape, -, he⟩ | ⟨hb, hescape⟩ | ⟨hescape, hq, hs, hb⟩
  · rw [hescape]
    exact .letter he h
  · obtain ⟨c, hcode, hencode⟩ := exists_char_control hb
    have hcontrol := isCode_control (show b.toNat < 0x20 from hb)
    rw [← hcode] at hcontrol
    have hwrites := Writes.code hcontrol h
    rw [hencode, hcode] at hwrites
    rwa [hescape]
  · rw [hescape]
    exact .plain hq hs hb h

theorem writes_escape (text : Bytes) : Writes (text.flatMap escape) text := by
  induction text with
  | nil => exact .nothing
  | cons b text ih => exact ih.escape b

theorem le_hexDigit (hn : n < 16) : 0x20 ≤ hexDigit n := by
  revert n
  decide

theorem le_of_mem_escape {c : UInt8} : ∀ b ∈ escape c, 0x20 ≤ b := by
  rcases escape_cases c with ⟨e, hescape, he, -⟩ | ⟨hc, hescape⟩ | ⟨hescape, -, -, hc⟩
  · simp [hescape, he]
  · have hc : c.toNat < 0x20 := hc
    have hfirst : 0x20 ≤ hexDigit (c.toNat / 16) := le_hexDigit (by omega)
    have hsecond : 0x20 ≤ hexDigit (c.toNat % 16) := le_hexDigit (by omega)
    simp [hescape, hfirst, hsecond]
  · simpa [hescape] using hc

theorem le_of_mem_quote (hb : b ∈ quote text) : 0x20 ≤ b := by
  simp only [quote, List.cons_append, List.mem_cons, List.mem_append, List.mem_flatMap,
    List.not_mem_nil, or_false] at hb
  rcases hb with rfl | ⟨c, -, hb⟩ | rfl
  · decide
  · exact le_of_mem_escape b hb
  · decide

/-! ## Numbers -/

def Number.plain (n : Nat) : Number := ⟨false, decimal n, none, none⟩

theorem isWritten_decimal (n : Nat) : (Number.plain n).IsWritten (decimal n) where
  whole := ⟨decimal_ne_nil n, fun _ => isDigit_of_mem_decimal⟩
  zero hhead := by
    have hn := (head?_decimal_eq_zero_iff n).mp hhead
    rw [Number.plain, hn]
    rfl
  fraction := by simp [Number.plain]
  spelled := ⟨[], .nothing, by simp [Number.plain, fractionText]⟩

/-! ## Tokens -/

def isPunctuation (b : UInt8) : Bool := isBlank b || (mark? b).isSome

theorem mark?_excludes {m : Mark} (hm : mark? b = some m) :
    isBlank b = false ∧ continuesNumber b = false := by
  unfold mark? at hm
  split_ifs at hm <;> subst b <;> decide

theorem not_continuesNumber_of_isPunctuation (hb : isPunctuation b = true) :
    continuesNumber b = false := by
  rw [isPunctuation, Bool.or_eq_true] at hb
  rcases hb with hb | hb
  · simp only [isBlank, Bool.or_eq_true, decide_eq_true_eq] at hb
    rcases hb with ((rfl | rfl) | rfl) | rfl <;> decide
  · obtain ⟨m, hm⟩ := Option.isSome_iff_exists.mp hb
    exact (mark?_excludes hm).2

theorem not_isPunctuation_of_isDigit (hb : isDigit b = true) : isPunctuation b = false := by
  by_contra h
  have hnot := not_continuesNumber_of_isPunctuation (Bool.not_eq_false _ ▸ h)
  simp [continuesNumber, hb] at hnot

@[simp]
theorem tokens_nil : tokens [] = [] := by rw [tokens]

theorem tokens_cons_of_isBlank (hb : isBlank b = true) (rest : Bytes) :
    tokens (b :: rest) = tokens rest := by
  rw [tokens, if_pos hb]

theorem tokens_cons {t : Token} (hb : isBlank b = false) (ht : token b rest = (t, some after)) :
    tokens (b :: rest) = t :: tokens after := by
  rw [tokens, if_neg (by simp [hb])]
  split
  · next h =>
    rw [ht, Option.some.injEq] at h
    rw [ht, h]
  · next h => simp [ht] at h

theorem tokens_cons_of_mark? {m : Mark} (hm : mark? b = some m) (rest : Bytes) :
    tokens (b :: rest) = .mark m :: tokens rest := by
  refine tokens_cons (mark?_excludes hm).1 ?_
  simp only [token, hm]

theorem tokens_text (hbody : Writes body text) (htext : Utf8.Valid text) (rest : Bytes) :
    tokens (0x22 :: body ++ [0x22] ++ rest) = .text (some text) :: tokens rest := by
  obtain ⟨parts, hunits, hdecode⟩ := hbody.exists_units rest
  have hclosed : closedText? parts = some text := by
    rw [closedText?, hdecode]
    simp [htext]
  have hmark : mark? 0x22 = none := by decide
  rw [List.append_assoc, List.cons_append, List.singleton_append]
  refine tokens_cons (by decide) ?_
  rw [token, hmark]
  simp [hunits, hclosed]

theorem tokens_quote (htext : Utf8.Valid text) (rest : Bytes) :
    tokens (quote text ++ rest) = .text (some text) :: tokens rest :=
  tokens_text (writes_escape text) htext rest

theorem Number.IsWritten.exists_cons {n : Number} (h : n.IsWritten literal) :
    ∃ b rest, literal = b :: rest ∧ (b = 0x2D ∨ isDigit b = true) := by
  obtain ⟨hwhole, -, -, exponent, -, rfl⟩ := h
  cases n.negative with
  | true => exact ⟨0x2D, _, rfl, .inl rfl⟩
  | false =>
    obtain ⟨d, ds, hds⟩ := List.exists_cons_of_ne_nil hwhole.1
    rw [hds]
    exact ⟨d, _, rfl, .inr (hwhole.2 d (hds ▸ List.mem_cons_self))⟩

theorem tokens_number {n : Number} (h : n.IsWritten literal) (hrest : Delimits rest) :
    tokens (literal ++ rest) = .number n :: tokens rest := by
  have hnumber := h.number_append hrest
  obtain ⟨b, more, rfl, hb⟩ := h.exists_cons
  have hquote : b ≠ 0x22 := by
    rintro rfl
    revert hb
    decide
  have hpunctuation : isPunctuation b = false := by
    rcases hb with rfl | hb
    · decide
    · exact not_isPunctuation_of_isDigit hb
  obtain ⟨hblank, hmark⟩ : isBlank b = false ∧ mark? b = none := by
    simpa [isPunctuation] using hpunctuation
  rw [List.cons_append] at hnumber ⊢
  refine tokens_cons hblank ?_
  rw [token, hmark]
  simp [hnumber, hb, hquote]

theorem tokens_decimal (n : Nat) (hrest : Delimits rest) :
    tokens (decimal n ++ rest) = .number (.plain n) :: tokens rest :=
  tokens_number (isWritten_decimal n) hrest

theorem tokens_boolText (value : Bool) (rest : Bytes) :
    tokens (boolText value ++ rest) = .bool value :: tokens rest := by
  cases value with
  | true => exact tokens_cons (by decide) rfl
  | false => exact tokens_cons (by decide) rfl

/-! ## Marks and white space -/

/-- The text is made of these marks and white space. -/
def Marks (text : Bytes) (marks : List Mark) : Prop :=
  text.all isPunctuation = true ∧ text.filterMap mark? = marks

instance (text : Bytes) (marks : List Mark) : Decidable (Marks text marks) :=
  inferInstanceAs (Decidable (_ ∧ _))

theorem Marks.tokens_append {marks : List Mark} (h : Marks text marks) (rest : Bytes) :
    tokens (text ++ rest) = marks.map .mark ++ tokens rest := by
  obtain ⟨hbytes, rfl⟩ := h
  induction text with
  | nil => rfl
  | cons b text ih =>
    rw [List.all_cons, Bool.and_eq_true] at hbytes
    obtain ⟨hb, hbytes⟩ := hbytes
    rw [List.cons_append]
    cases hm : mark? b with
    | none =>
      have hblank : isBlank b = true := by simpa [isPunctuation, hm] using hb
      rw [tokens_cons_of_isBlank hblank, ih hbytes, List.filterMap_cons_none hm]
    | some m =>
      rw [tokens_cons_of_mark? hm, ih hbytes, List.filterMap_cons_some hm]
      rfl

theorem Marks.tokens_eq_nil (h : Marks text []) : tokens text = [] := by
  simpa using h.tokens_append []

theorem Marks.delimits_append {m : Mark} {marks : List Mark} (h : Marks text (m :: marks))
    (rest : Bytes) : Delimits (text ++ rest) := by
  obtain ⟨hbytes, hmarks⟩ := h
  cases text with
  | nil => cases hmarks
  | cons b text =>
    rw [List.cons_append, delimits_cons]
    exact not_continuesNumber_of_isPunctuation (List.all_eq_true.mp hbytes b List.mem_cons_self)

end Json

end Repoint
