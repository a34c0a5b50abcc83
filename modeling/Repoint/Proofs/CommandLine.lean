import Repoint.CommandLine
import Repoint.Except

/-!
# Flags given first

Every step of reading goes the same way with one more flag given.
-/

namespace Repoint

namespace Reading

variable {f : Flag} {first next : Reading → Except EarlyEnd Reading}

def afterFlag (f : Flag) (reading : Reading) : Reading :=
  { reading with
    settings := { reading.settings with flags := f :: reading.settings.flags }
    given := .flag f :: reading.given }

@[simp]
theorem repoRoot_afterFlag (reading : Reading) :
    (reading.afterFlag f).settings.repoRoot = reading.settings.repoRoot := rfl

@[simp]
theorem pending_afterFlag (reading : Reading) : (reading.afterFlag f).pending = reading.pending := rfl

/-- A step that does not give the flag goes the same way after the flag. -/
def Ignores (f : Flag) (step : Reading → Except EarlyEnd Reading) : Prop :=
  ∀ reading reading', step reading = .ok reading' → f ∉ reading'.settings.flags →
    f ∉ reading.settings.flags ∧ step (reading.afterFlag f) = .ok (reading'.afterFlag f)

theorem ignores_of_error (e : EarlyEnd) : Ignores f fun _ => .error e := by
  intro reading reading' h
  cases h

theorem ignores_hold (pending : Pending) : Ignores f fun reading => .ok { reading with pending } := by
  intro reading reading' h hno
  cases h
  exact ⟨hno, rfl⟩

theorem ignores_bind (hfirst : Ignores f first) (hnext : Ignores f next) :
    Ignores f fun reading => first reading >>= next := by
  intro reading reading' h hno
  obtain ⟨between, hbetween, h⟩ := bind_eq_ok.mp h
  obtain ⟨hmiddle, hafter⟩ := hnext between reading' h hno
  obtain ⟨hstart, hbefore⟩ := hfirst reading between hbetween hmiddle
  exact ⟨hstart, bind_eq_ok.mpr ⟨_, hbefore, hafter⟩⟩

/-! ## One argument -/

theorem ignores_setRepoRoot (value : Bytes) : Ignores f (setRepoRoot · value) := by
  intro reading reading' h hno
  simp only [setRepoRoot, repoRoot_afterFlag] at h ⊢
  split at h
  · cases h
  · next hnone =>
    rw [if_neg hnone]
    split at h
    · cases h
    · next hvalue =>
      rw [if_neg hvalue]
      cases h
      exact ⟨hno, rfl⟩

theorem ignores_addPaths (values : List Bytes) : Ignores f (addPaths · values) := by
  intro reading reading' h hno
  simp only [addPaths] at h ⊢
  split at h
  · cases h
  · next hvalues =>
    rw [if_neg hvalues]
    cases h
    exact ⟨hno, rfl⟩

theorem ignores_settle : Ignores f settle := by
  intro reading reading' h hno
  obtain ⟨settings, given, pending⟩ := reading
  cases pending with
  | nothing => exact ignores_hold .nothing _ _ h hno
  | repoRoot value =>
    cases value with
    | none => cases h
    | some value => exact ignores_setRepoRoot value ⟨settings, given, .nothing⟩ _ h hno
  | paths values => exact ignores_addPaths values ⟨settings, given, .nothing⟩ _ h hno

theorem ignores_flag (g : Flag) : Ignores f (flag · g) := by
  apply ignores_bind ignores_settle
  intro reading reading' h hno
  dsimp only at h ⊢
  split at h
  · cases h
  · next hhelp =>
    split at h
    · cases h
    · next hversion =>
      split at h
      · cases h
      · next hnew =>
        cases h
        have hne : g ≠ f := by
          rintro rfl
          simp at hno
        have hnew' : ¬ (reading.afterFlag f).settings.has g = true := by
          simpa [Settings.has, afterFlag, hne] using hnew
        rw [if_neg hhelp, if_neg hversion, if_neg hnew']
        exact ⟨fun hmem => hno (List.mem_append_left _ hmem), rfl⟩

theorem ignores_long (text : Bytes) : Ignores f (long · text) := by
  unfold long
  dsimp only
  split
  · apply ignores_bind ignores_settle
    split
    · exact ignores_setRepoRoot _
    · exact ignores_hold _
  · split
    · exact ignores_flag _
    · exact ignores_of_error _
    · exact ignores_of_error _

theorem ignores_letters (text : Bytes) : Ignores f (letters · text) := by
  induction hlength : text.length using Nat.strongRecOn generalizing text with
  | ind n ih =>
    intro reading reading' h hno
    dsimp only at h ⊢
    rw [letters] at h ⊢
    split at h
    · next hnil =>
      rw [if_pos hnil]
      cases h
      exact ⟨hno, rfl⟩
    · next hnil =>
      rw [if_neg hnil]
      split at h
      · cases h
      · next character rest hcharacter =>
        split at h
        · cases h
        · next g hletter =>
          split at h
          · next between hbetween =>
            have hshorter := Utf8.length_character? hcharacter
            obtain ⟨hmiddle, hafter⟩ := ih _ (hlength ▸ hshorter) rest rfl between reading' h hno
            obtain ⟨hstart, hbefore⟩ := ignores_flag g reading between hbetween hmiddle
            dsimp only at hbefore
            rw [hbefore]
            exact ⟨hstart, hafter⟩
          · cases h

theorem ignores_path (value : Bytes) : Ignores f (path · value) := by
  intro reading reading' h hno
  simp only [path, pending_afterFlag] at h ⊢
  split at h
  · cases h
    exact ⟨hno, rfl⟩
  · exact ignores_bind ignores_settle (ignores_hold _) reading reading' h hno

/-! ## All of them -/

theorem ignores_foldlM_path (values : List Bytes) : Ignores f (values.foldlM path ·) := by
  induction values with
  | nil =>
    intro reading reading' h hno
    cases h
    exact ⟨hno, rfl⟩
  | cons value rest ih =>
    simp only [List.foldlM_cons]
    exact ignores_bind (ignores_path value) ih

theorem ignores_arguments (rest : List Bytes) : Ignores f (arguments · rest) := by
  induction rest with
  | nil =>
    intro reading reading' h hno
    cases h
    exact ⟨hno, rfl⟩
  | cons argument rest ih =>
    unfold arguments
    split
    · exact ignores_foldlM_path rest
    · exact ignores_bind (ignores_long _) ih
    · exact ignores_bind (ignores_letters _) ih
    · intro reading reading' h hno
      simp only [pending_afterFlag] at h ⊢
      split at h
      · exact ih { reading with pending := .repoRoot (some argument) } reading' h hno
      · exact ignores_bind (ignores_path argument) ih reading reading' h hno

theorem conflict?_afterFlag_check (reading : Reading) :
    (reading.afterFlag .check).conflict? = reading.conflict? := by
  have hcheck : ∀ a, Argument.excludes (.flag .check) a = false := fun a => rfl
  have hother : ∀ a, Argument.excludes a (.flag .check) = false := by
    intro a
    cases a with
    | flag g => cases g <;> rfl
    | repoRoot => rfl
    | paths => rfl
  have hnone : reading.given.find? (fun _ => false) = none := List.find?_eq_none.mpr (by simp)
  simp only [conflict?, afterFlag, List.findSome?_cons, List.find?_cons, hother, hcheck, hnone,
    Option.map_none]

end Reading

theorem parse_check_cons {arguments : List Bytes} {settings : Settings}
    (h : Settings.parse arguments = .ok settings) (hcheck : .check ∉ settings.flags) :
    Settings.parse (ascii "--check" :: arguments) =
      .ok { settings with flags := .check :: settings.flags } := by
  unfold Settings.parse at h ⊢
  obtain ⟨reading, hreading, h⟩ := bind_eq_ok.mp h
  obtain ⟨settled, hsettled, h⟩ := bind_eq_ok.mp h
  have hfirst : Reading.arguments {} (ascii "--check" :: arguments) =
      Reading.arguments (({} : Reading).afterFlag .check) arguments := rfl
  split at h
  · cases h
  · next hnone =>
    cases h
    obtain ⟨hread, hsettle⟩ := Reading.ignores_settle reading settled hsettled hcheck
    obtain ⟨-, harguments⟩ := Reading.ignores_arguments arguments {} reading hreading hread
    rw [hfirst]
    refine bind_eq_ok.mpr ⟨_, harguments, bind_eq_ok.mpr ⟨_, hsettle, ?_⟩⟩
    rw [Reading.conflict?_afterFlag_check, hnone]
    rfl

end Repoint
