import Repoint.Utf8

/-!
# What the machine accepts

The machine accepts the texts that are the bytes of characters, one after the other, and no others.
-/

namespace Repoint.Utf8

variable {state : State} {low high a b : UInt8} {n : Nat} {text rest bytes : Bytes}

/-! ## The bytes of one character -/

/-- A byte that continues a character. -/
def IsTail (b : UInt8) : Prop := 0x80 ≤ b.toNat ∧ b.toNat ≤ 0xBF

/-- What the first of three bytes allows as the second: no form of a code that has a shorter one, and
no half of a pair. -/
def IsSecondOfThree (a b : UInt8) : Prop :=
  IsTail b ∧ (a.toNat = 0xE0 → 0xA0 ≤ b.toNat) ∧ (a.toNat = 0xED → b.toNat ≤ 0x9F)

/-- What the first of four bytes allows as the second: no form of a code that has a shorter one, and
no code above U+10FFFF. -/
def IsSecondOfFour (a b : UInt8) : Prop :=
  IsTail b ∧ (a.toNat = 0xF0 → 0x90 ≤ b.toNat) ∧ (a.toNat = 0xF4 → b.toNat ≤ 0x8F)

inductive IsCharacter : Bytes → Prop
  | one {a : UInt8} (ha : a.toNat < 0x80) : IsCharacter [a]
  | two {a b : UInt8} (ha : 0xC2 ≤ a.toNat ∧ a.toNat < 0xE0) (hb : IsTail b) : IsCharacter [a, b]
  | three {a b c : UInt8} (ha : 0xE0 ≤ a.toNat ∧ a.toNat < 0xF0) (hb : IsSecondOfThree a b)
      (hc : IsTail c) : IsCharacter [a, b, c]
  | four {a b c d : UInt8} (ha : 0xF0 ≤ a.toNat ∧ a.toNat < 0xF5) (hb : IsSecondOfFour a b)
      (hc : IsTail c) (hd : IsTail d) : IsCharacter [a, b, c, d]

theorem isCharacter_utf8EncodeChar (char : Char) : IsCharacter (String.utf8EncodeChar char) := by
  have hvalid : char.val.toNat < 0xD800 ∨ 0xDFFF < char.val.toNat ∧ char.val.toNat < 0x110000 :=
    char.valid
  unfold String.utf8EncodeChar
  generalize char.val.toNat = code at hvalid
  dsimp only
  split
  · apply IsCharacter.one
    simp only [UInt8.toNat_ofNat']
    omega
  · split
    · apply IsCharacter.two <;> simp only [IsTail, UInt8.toNat_ofNat'] <;> omega
    · split
      · apply IsCharacter.three <;> simp only [IsSecondOfThree, IsTail, UInt8.toNat_ofNat'] <;> omega
      · apply IsCharacter.four <;> simp only [IsSecondOfFour, IsTail, UInt8.toNat_ofNat'] <;> omega

theorem exists_char_of_isValidChar (code : Nat) (h : code.isValidChar) :
    ∃ char : Char, char.val.toNat = code := ⟨Char.ofNatAux code h, rfl⟩

theorem exists_char_of_isCharacter (h : IsCharacter bytes) :
    ∃ char : Char, String.utf8EncodeChar char = bytes := by
  cases h with
  | @one a ha =>
    obtain ⟨char, hcode⟩ := exists_char_of_isValidChar a.toNat (.inl (by omega))
    refine ⟨char, ?_⟩
    simp only [String.utf8EncodeChar, hcode]
    rw [if_pos (by omega), UInt8.ofNat_toNat]
  | @two a b ha hb =>
    unfold IsTail at hb
    obtain ⟨char, hcode⟩ := exists_char_of_isValidChar
      (0x40 * (a.toNat - 0xC0) + (b.toNat - 0x80)) (.inl (by omega))
    refine ⟨char, ?_⟩
    simp only [String.utf8EncodeChar, hcode]
    rw [if_neg (by omega), if_pos (by omega)]
    simp only [List.cons.injEq, and_true, ← UInt8.toNat_inj, UInt8.toNat_ofNat']
    omega
  | @three a b c ha hb hc =>
    unfold IsSecondOfThree IsTail at hb
    unfold IsTail at hc
    obtain ⟨char, hcode⟩ := exists_char_of_isValidChar
      (0x1000 * (a.toNat - 0xE0) + 0x40 * (b.toNat - 0x80) + (c.toNat - 0x80))
      (by unfold Nat.isValidChar; omega)
    refine ⟨char, ?_⟩
    simp only [String.utf8EncodeChar, hcode]
    rw [if_neg (by omega), if_neg (by omega), if_pos (by omega)]
    simp only [List.cons.injEq, and_true, ← UInt8.toNat_inj, UInt8.toNat_ofNat']
    omega
  | @four a b c d ha hb hc hd =>
    unfold IsSecondOfFour IsTail at hb
    unfold IsTail at hc hd
    obtain ⟨char, hcode⟩ := exists_char_of_isValidChar
      (0x40000 * (a.toNat - 0xF0) + 0x1000 * (b.toNat - 0x80) + 0x40 * (c.toNat - 0x80)
        + (d.toNat - 0x80))
      (by unfold Nat.isValidChar; omega)
    refine ⟨char, ?_⟩
    simp only [String.utf8EncodeChar, hcode]
    rw [if_neg (by omega), if_neg (by omega), if_neg (by omega)]
    simp only [List.cons.injEq, and_true, ← UInt8.toNat_inj, UInt8.toNat_ofNat']
    omega

/-! ## One byte of the machine -/

theorem run_cons : run state (b :: rest) = (step state b).bind (run · rest) := by
  simp only [run, List.foldlM_cons]
  rfl

/-- Between two characters, or this many bytes before the end of one. -/
def State.owing : Nat → State
  | 0 => .boundary
  | n + 1 => .inside n 0x80 0xBF

theorem step_inside :
    step (.inside n low high) b = if low ≤ b ∧ b ≤ high then some (.owing n) else none := by
  cases n <;> rfl

theorem run_inside_cons (h : low ≤ b ∧ b ≤ high) :
    run (.inside n low high) (b :: rest) = run (.owing n) rest := by
  rw [run_cons, step_inside, if_pos h]
  rfl

theorem exists_of_run_inside (h : run (.inside n low high) text = some .boundary) :
    ∃ b rest, text = b :: rest ∧ (low ≤ b ∧ b ≤ high) ∧ run (.owing n) rest = some .boundary := by
  cases text with
  | nil => simp [run] at h
  | cons b rest =>
    by_cases hrange : low ≤ b ∧ b ≤ high
    · rw [run_inside_cons hrange] at h
      exact ⟨b, rest, rfl, hrange, h⟩
    · simp [run_cons, step_inside, hrange] at h

theorem isTail_iff : 0x80 ≤ b ∧ b ≤ 0xBF ↔ IsTail b := by
  rw [UInt8.le_iff_toNat_le, UInt8.le_iff_toNat_le]
  rfl

theorem run_owing_cons (h : IsTail b) :
    run (.owing (n + 1)) (b :: rest) = run (.owing n) rest := run_inside_cons (isTail_iff.mpr h)

theorem exists_of_run_owing (h : run (.owing (n + 1)) text = some .boundary) :
    ∃ b rest, text = b :: rest ∧ IsTail b ∧ run (.owing n) rest = some .boundary := by
  obtain ⟨b, rest, rfl, hb, hrest⟩ := exists_of_run_inside h
  exact ⟨b, rest, rfl, isTail_iff.mp hb, hrest⟩

/-! ## The first byte of a character -/

theorem lead_eq (a : UInt8) : lead a =
    if a.toNat < 0x80 then some .boundary
    else if a.toNat < 0xC2 then none
    else if a.toNat < 0xE0 then some (.inside 0 0x80 0xBF)
    else if a.toNat = 0xE0 then some (.inside 1 0xA0 0xBF)
    else if a.toNat = 0xED then some (.inside 1 0x80 0x9F)
    else if a.toNat < 0xF0 then some (.inside 1 0x80 0xBF)
    else if a.toNat = 0xF0 then some (.inside 2 0x90 0xBF)
    else if a.toNat < 0xF4 then some (.inside 2 0x80 0xBF)
    else if a.toNat = 0xF4 then some (.inside 2 0x80 0x8F)
    else none := by
  simp only [lead, UInt8.lt_iff_toNat_lt, ← UInt8.toNat_inj]
  rfl

theorem lead_one (h : a.toNat < 0x80) : lead a = some .boundary := by
  rw [lead_eq, if_pos h]

theorem lead_two (h : 0xC2 ≤ a.toNat ∧ a.toNat < 0xE0) : lead a = some (.owing 1) := by
  rw [lead_eq, if_neg (by omega), if_neg (by omega), if_pos h.2]
  rfl

theorem exists_lead_three (h : 0xE0 ≤ a.toNat ∧ a.toNat < 0xF0) :
    ∃ low high, lead a = some (.inside 1 low high) ∧
      ∀ b, low ≤ b ∧ b ≤ high ↔ IsSecondOfThree a b := by
  rw [lead_eq, if_neg (by omega), if_neg (by omega), if_neg (by omega), if_pos h.2]
  simp only [UInt8.le_iff_toNat_le, IsSecondOfThree, IsTail]
  split
  · exact ⟨_, _, rfl, fun b => by simp only [UInt8.reduceToNat]; omega⟩
  · split
    · exact ⟨_, _, rfl, fun b => by simp only [UInt8.reduceToNat]; omega⟩
    · exact ⟨_, _, rfl, fun b => by simp only [UInt8.reduceToNat]; omega⟩

theorem exists_lead_four (h : 0xF0 ≤ a.toNat ∧ a.toNat < 0xF5) :
    ∃ low high, lead a = some (.inside 2 low high) ∧
      ∀ b, low ≤ b ∧ b ≤ high ↔ IsSecondOfFour a b := by
  rw [lead_eq, if_neg (by omega), if_neg (by omega), if_neg (by omega), if_neg (by omega),
    if_neg (by omega), if_neg (by omega)]
  simp only [UInt8.le_iff_toNat_le, IsSecondOfFour, IsTail]
  split
  · exact ⟨_, _, rfl, fun b => by simp only [UInt8.reduceToNat]; omega⟩
  · split
    · exact ⟨_, _, rfl, fun b => by simp only [UInt8.reduceToNat]; omega⟩
    · rw [if_pos (by omega)]
      exact ⟨_, _, rfl, fun b => by simp only [UInt8.reduceToNat]; omega⟩

theorem lead_eq_none (h : 0x80 ≤ a.toNat ∧ a.toNat < 0xC2 ∨ 0xF5 ≤ a.toNat) : lead a = none := by
  rw [lead_eq, if_neg (by omega)]
  rcases h with h | h
  · rw [if_pos h.2]
  · rw [if_neg (by omega), if_neg (by omega), if_neg (by omega), if_neg (by omega),
      if_neg (by omega), if_neg (by omega), if_neg (by omega), if_neg (by omega)]

/-! ## From boundary to boundary -/

theorem run_of_isCharacter (h : IsCharacter bytes) (rest : Bytes) :
    run .boundary (bytes ++ rest) = run .boundary rest := by
  cases h with
  | one ha =>
    rw [List.singleton_append, run_cons, step, lead_one ha]
    rfl
  | two ha hb =>
    rw [List.cons_append, List.singleton_append, run_cons, step, lead_two ha]
    exact run_owing_cons hb
  | three ha hb hc =>
    obtain ⟨low, high, hlead, hrange⟩ := exists_lead_three ha
    rw [List.cons_append, List.cons_append, List.singleton_append, run_cons, step, hlead]
    exact (run_inside_cons ((hrange _).mpr hb)).trans (run_owing_cons hc)
  | four ha hb hc hd =>
    obtain ⟨low, high, hlead, hrange⟩ := exists_lead_four ha
    rw [List.cons_append, List.cons_append, List.cons_append, List.singleton_append, run_cons, step,
      hlead]
    exact (run_inside_cons ((hrange _).mpr hb)).trans
      ((run_owing_cons hc).trans (run_owing_cons hd))

theorem exists_isCharacter_of_valid_cons (h : Valid (a :: text)) :
    ∃ bytes rest, a :: text = bytes ++ rest ∧ IsCharacter bytes ∧ Valid rest := by
  rw [Valid, run_cons, step] at h
  have hranges : a.toNat < 0x80 ∨ (0xC2 ≤ a.toNat ∧ a.toNat < 0xE0) ∨
      (0xE0 ≤ a.toNat ∧ a.toNat < 0xF0) ∨ (0xF0 ≤ a.toNat ∧ a.toNat < 0xF5) ∨
      (0x80 ≤ a.toNat ∧ a.toNat < 0xC2 ∨ 0xF5 ≤ a.toNat) := by omega
  rcases hranges with ha | ha | ha | ha | ha
  · rw [lead_one ha] at h
    exact ⟨[a], text, rfl, .one ha, h⟩
  · rw [lead_two ha] at h
    obtain ⟨b, rest, rfl, hb, hrest⟩ := exists_of_run_owing h
    exact ⟨[a, b], rest, rfl, .two ha hb, hrest⟩
  · obtain ⟨low, high, hlead, hrange⟩ := exists_lead_three ha
    rw [hlead] at h
    obtain ⟨b, after, rfl, hb, hafter⟩ := exists_of_run_inside h
    obtain ⟨c, rest, rfl, hc, hrest⟩ := exists_of_run_owing hafter
    exact ⟨[a, b, c], rest, rfl, .three ha ((hrange b).mp hb) hc, hrest⟩
  · obtain ⟨low, high, hlead, hrange⟩ := exists_lead_four ha
    rw [hlead] at h
    obtain ⟨b, after, rfl, hb, hafter⟩ := exists_of_run_inside h
    obtain ⟨c, after, rfl, hc, hafter⟩ := exists_of_run_owing hafter
    obtain ⟨d, rest, rfl, hd, hrest⟩ := exists_of_run_owing hafter
    exact ⟨[a, b, c, d], rest, rfl, .four ha ((hrange b).mp hb) hc hd, hrest⟩
  · simp [lead_eq_none ha] at h

/-! ## Whole texts -/

theorem exists_chars_of_valid (h : Valid text) :
    ∃ chars : List Char, text = chars.flatMap String.utf8EncodeChar := by
  induction hn : text.length using Nat.strongRecOn generalizing text with
  | ind n ih =>
    cases text with
    | nil => exact ⟨[], rfl⟩
    | cons a text =>
      obtain ⟨bytes, rest, heq, hbytes, hrest⟩ := exists_isCharacter_of_valid_cons h
      obtain ⟨char, rfl⟩ := exists_char_of_isCharacter hbytes
      have hlen := congrArg List.length heq
      have hpos := List.length_pos_iff.mpr (String.utf8EncodeChar_ne_nil (c := char))
      rw [List.length_append] at hlen
      obtain ⟨chars, rfl⟩ := ih rest.length (by omega) hrest rfl
      exact ⟨char :: chars, heq⟩

theorem valid_flatMap_utf8EncodeChar (chars : List Char) :
    Valid (chars.flatMap String.utf8EncodeChar) := by
  induction chars with
  | nil => rfl
  | cons char chars ih =>
    rw [List.flatMap_cons, Valid, run_of_isCharacter (isCharacter_utf8EncodeChar char)]
    exact ih

/-- The machine accepts what the library calls UTF-8. -/
theorem valid_iff_isValidUTF8 : Valid text ↔ text.toByteArray.IsValidUTF8 := by
  constructor
  · intro h
    obtain ⟨chars, rfl⟩ := exists_chars_of_valid h
    exact ⟨chars, rfl⟩
  · rintro ⟨chars, heq⟩
    obtain rfl := List.toByteArray_inj.mp heq
    exact valid_flatMap_utf8EncodeChar chars

/-! ## ASCII -/

/-- Where the machine can stand after any byte: no ASCII byte continues a character. -/
def State.IsSound : State → Prop
  | .boundary => True
  | .inside _ low _ => 0x80 ≤ low

theorem isSound_boundary : State.boundary.IsSound := trivial

theorem isSound_of_step {next : State} (h : step state b = some next) : next.IsSound := by
  cases state with
  | boundary =>
    rw [step, lead] at h
    repeat' split at h
    all_goals cases h
    all_goals simp [State.IsSound]
  | inside n low high =>
    rw [step_inside] at h
    split at h
    · cases h
      cases n <;> simp [State.owing, State.IsSound]
    · cases h

theorem step_ascii (hstate : state.IsSound) (hb : b < 0x80) :
    step state b = if state = .boundary then some .boundary else none := by
  cases state with
  | boundary => rw [step, lead, if_pos hb, if_pos rfl]
  | inside n low high =>
    have hlow : ¬ low ≤ b := UInt8.not_le.mpr (UInt8.lt_of_lt_of_le hb hstate)
    rw [step_inside, if_neg (fun h => hlow h.1), if_neg (by simp)]

theorem run_boundary_ascii_append (h : ∀ b ∈ bytes, b < 0x80) (rest : Bytes) :
    run .boundary (bytes ++ rest) = run .boundary rest := by
  induction bytes with
  | nil => rfl
  | cons b bytes ih =>
    obtain ⟨hb, hbytes⟩ := List.forall_mem_cons.mp h
    rw [List.cons_append, run_cons, step_ascii isSound_boundary hb, if_pos rfl]
    exact ih hbytes

theorem run_ascii_append (hstate : state.IsSound) (hne : bytes ≠ []) (h : ∀ b ∈ bytes, b < 0x80)
    (rest : Bytes) :
    run state (bytes ++ rest) = if state = .boundary then run .boundary rest else none := by
  cases bytes with
  | nil => exact absurd rfl hne
  | cons b bytes =>
    obtain ⟨hb, hbytes⟩ := List.forall_mem_cons.mp h
    rw [List.cons_append, run_cons, step_ascii hstate hb]
    split
    · exact run_boundary_ascii_append hbytes rest
    · rfl

/-! ## Showing -/

/-- What is held back in a state: nothing between two characters, and never an ASCII byte. -/
structure State.Holds (state : State) (held : Bytes) : Prop where
  sound : state.IsSound
  boundary_iff : state = .boundary ↔ held = []
  not_ascii : ∀ b ∈ held, ¬ b < 0x80

theorem holds_boundary : State.boundary.Holds [] := ⟨isSound_boundary, by simp, by simp⟩

theorem State.Holds.cons {next : State} {held : Bytes} (h : state.Holds held)
    (hstep : step state b = some next) (hnext : next ≠ .boundary) : next.Holds (b :: held) where
  sound := isSound_of_step hstep
  boundary_iff := by simp [hnext]
  not_ascii := by
    have hb : ¬ b < 0x80 := by
      intro hb
      rw [step_ascii h.sound hb] at hstep
      split at hstep
      · exact hnext (Option.some.inj hstep).symm
      · cases hstep
    exact List.forall_mem_cons.mpr ⟨hb, h.not_ascii⟩

theorem shownFrom_of_boundary {held : Bytes} (hstep : step state b = some .boundary) :
    shownFrom state held (b :: rest) = held.reverse ++ b :: shownFrom .boundary [] rest := by
  rw [shownFrom, hstep]

theorem shownFrom_of_inside {next : State} {held : Bytes} (hstep : step state b = some next)
    (hnext : next ≠ .boundary) :
    shownFrom state held (b :: rest) = shownFrom next (b :: held) rest := by
  rw [shownFrom, hstep]
  cases next with
  | boundary => exact absurd rfl hnext
  | inside more low high => rfl

theorem shownFrom_of_none (hstep : step .boundary b = none) :
    shownFrom .boundary [] (b :: rest) = replacementCharacter ++ shownFrom .boundary [] rest := by
  rw [shownFrom, hstep, if_pos rfl]

theorem shownFrom_of_refused {held : Bytes} (hstep : step state b = none) (hheld : held ≠ []) :
    shownFrom state held (b :: rest) = replacementCharacter ++ shownFrom .boundary [] (b :: rest) := by
  have hlead : step .boundary b = lead b := rfl
  simp only [shownFrom, hstep, hlead, if_neg hheld, if_true]
  rfl

theorem count_replacementCharacter (ha : a < 0x80) : replacementCharacter.count a = 0 := by
  have hall : ∀ c ∈ replacementCharacter, ¬ c < 0x80 := by simp [replacementCharacter]
  exact List.count_eq_zero.mpr fun hmem => hall a hmem ha

theorem count_shownFrom (ha : a < 0x80) {held : Bytes} (h : state.Holds held) (text : Bytes) :
    (shownFrom state held text).count a = text.count a := by
  induction text generalizing state held with
  | nil =>
    rw [shownFrom]
    split
    · rfl
    · exact count_replacementCharacter ha
  | cons b rest ih =>
    -- First where nothing is refused, then where a new character begins.
    have hgoes : ∀ {state held next}, state.Holds held → step state b = some next →
        (shownFrom state held (b :: rest)).count a = (b :: rest).count a := by
      intro state held next h hstep
      by_cases hnext : next = .boundary
      · have hheld : held.count a = 0 := List.count_eq_zero.mpr fun hmem => h.not_ascii a hmem ha
        rw [shownFrom_of_boundary (hnext ▸ hstep), List.count_append, List.count_reverse, hheld,
          List.count_cons, List.count_cons, ih holds_boundary, Nat.zero_add]
      · have hholds := h.cons hstep hnext
        have hb : b ≠ a := fun heq => hholds.not_ascii b List.mem_cons_self (heq ▸ ha)
        rw [shownFrom_of_inside hstep hnext, ih hholds, List.count_cons_of_ne hb]
    have hbegins : (shownFrom .boundary [] (b :: rest)).count a = (b :: rest).count a := by
      cases hstep : step .boundary b with
      | some next => exact hgoes holds_boundary hstep
      | none =>
        have hb : b ≠ a := by
          rintro rfl
          simp [step_ascii isSound_boundary ha] at hstep
        rw [shownFrom_of_none hstep, List.count_append, count_replacementCharacter ha,
          ih holds_boundary, List.count_cons_of_ne hb, Nat.zero_add]
    cases hstep : step state b with
    | some next => exact hgoes h hstep
    | none =>
      by_cases hheld : held = []
      · obtain rfl := h.boundary_iff.mpr hheld
        rw [hheld]
        exact hbegins
      · rw [shownFrom_of_refused hstep hheld, List.count_append, count_replacementCharacter ha,
          hbegins, Nat.zero_add]

theorem count_shown (ha : a < 0x80) (text : Bytes) : (shown text).count a = text.count a :=
  count_shownFrom ha holds_boundary text

theorem shownFrom_of_run {held : Bytes} (h : run state text = some .boundary)
    (hheld : state = .boundary → held = []) : shownFrom state held text = held.reverse ++ text := by
  induction text generalizing state held with
  | nil =>
    obtain rfl : state = .boundary := Option.some.inj h
    rw [hheld rfl]
    rfl
  | cons b rest ih =>
    rw [run_cons, Option.bind_eq_some_iff] at h
    obtain ⟨next, hstep, hrest⟩ := h
    by_cases hnext : next = .boundary
    · subst hnext
      rw [shownFrom_of_boundary hstep, ih hrest fun _ => rfl, List.reverse_nil, List.nil_append]
    · rw [shownFrom_of_inside hstep hnext, ih hrest fun heq => absurd heq hnext, List.reverse_cons,
        List.append_assoc, List.singleton_append]

theorem shown_of_valid (h : Valid text) : shown text = text :=
  shownFrom_of_run h fun _ => rfl

end Repoint.Utf8
