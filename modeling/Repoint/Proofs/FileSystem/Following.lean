import Repoint.FileSystem.Resolve

/-!
# Where steps lead

`Leads` says where steps lead when every link is followed, and over how many links. `follow` computes
it.
-/

namespace Repoint

def Entry.isLink : Entry → Bool
  | .link _ => true
  | _ => false

namespace FileSystem

/-- The steps lead from a location to another one, over this many links. -/
inductive Leads (fs : FileSystem) : Nat → Location → List PathStep → Location → Prop
  | arrived (location : Location) : Leads fs 0 location [] location
  | stay {k location rest target} (hdir : fs.IsDirectory location)
      (h : Leads fs k location rest target) : Leads fs k location (.stay :: rest) target
  | up {k location rest target} (hdir : fs.IsDirectory location)
      (h : Leads fs k location.parent rest target) : Leads fs k location (.up :: rest) target
  | down {k location name rest e target} (hdir : fs.IsDirectory location)
      (hget : fs.get? (location.child name) = some e) (hlink : e.isLink = false)
      (h : Leads fs k (location.child name) rest target) :
      Leads fs k location (.down name :: rest) target
  | link {k location name rest text target} (hdir : fs.IsDirectory location)
      (hget : fs.get? (location.child name) = some (.link text)) (hne : text ≠ [])
      (h : Leads fs k (startOf text location) (Path.steps text ++ rest) target) :
      Leads fs (k + 1) location (.down name :: rest) target

variable {fs : FileSystem} {last : LastName} {location place target : Location} {name : Name}
  {e : Entry} {text : Bytes} {steps rest : List PathStep} {n k : Nat}

/-! ## One step -/

@[simp]
theorem follow_nil : fs.follow last n location [] = .ok location := by
  cases n <;> rfl

theorem follow_of_not_directory {step : PathStep} (h : ¬ fs.IsDirectory location) :
    fs.follow last n location (step :: rest) = .error .notDirectory := by
  cases n <;> simp [follow, followSteps, h]

theorem isDirectory_of_follow_cons {step : PathStep}
    (h : fs.follow last n location (step :: rest) = .ok target) :
    fs.IsDirectory location := by
  by_cases hdir : fs.IsDirectory location
  · exact hdir
  · rw [follow_of_not_directory hdir] at h
    cases h

theorem follow_stay (hdir : fs.IsDirectory location) :
    fs.follow last n location (.stay :: rest) = fs.follow last n location rest := by
  cases n <;> simp [follow, followSteps, hdir]

theorem follow_up (hdir : fs.IsDirectory location) :
    fs.follow last n location (.up :: rest) = fs.follow last n location.parent rest := by
  cases n <;> simp [follow, followSteps, hdir]

theorem follow_tooLong (hdir : fs.IsDirectory location) :
    fs.follow last n location (.tooLong :: rest) = .error .nameTooLong := by
  cases n <;> simp [follow, followSteps, hdir]

theorem follow_missing (hdir : fs.IsDirectory location)
    (hget : fs.get? (location.child name) = none) :
    fs.follow last n location (.down name :: rest) =
      if rest = [] ∧ last = .creation then .ok (location.child name) else .error .noEntry := by
  cases n <;> simp [follow, followSteps, hdir, hget]

theorem follow_down (hdir : fs.IsDirectory location)
    (hget : fs.get? (location.child name) = some e) (hlink : e.isLink = false) :
    fs.follow last n location (.down name :: rest) =
      fs.follow last n (location.child name) rest := by
  cases e with
  | link text => cases hlink
  | file f => cases n <;> simp [follow, followSteps, hdir, hget]
  | directory => cases n <;> simp [follow, followSteps, hdir, hget]
  | pipe => cases n <;> simp [follow, followSteps, hdir, hget]

theorem follow_entry_last (hdir : fs.IsDirectory location)
    (hget : fs.get? (location.child name) = some e) :
    fs.follow .entry n location [.down name] = .ok (location.child name) := by
  cases e with
  | link text => cases n <;> simp [follow, followSteps, hdir, hget]
  | file f => rw [follow_down hdir hget rfl, follow_nil]
  | directory => rw [follow_down hdir hget rfl, follow_nil]
  | pipe => rw [follow_down hdir hget rfl, follow_nil]

theorem follow_link_zero (hdir : fs.IsDirectory location)
    (hget : fs.get? (location.child name) = some (.link text)) (hrest : last = .entry → rest ≠ []) :
    fs.follow last 0 location (.down name :: rest) = .error .tooManyLinks := by
  have hlast : ¬ (rest = [] ∧ last = .entry) := fun h => hrest h.2 h.1
  simp [follow, followSteps, hdir, hget, hlast]

theorem follow_link (hdir : fs.IsDirectory location)
    (hget : fs.get? (location.child name) = some (.link text)) (hrest : last = .entry → rest ≠ []) :
    fs.follow last (n + 1) location (.down name :: rest) =
      if text = [] then .error .noEntry
      else fs.follow last n (startOf text location) (Path.steps text ++ rest) := by
  have hlast : ¬ (rest = [] ∧ last = .entry) := fun h => hrest h.2 h.1
  simp [follow, followSteps, hdir, hget, hlast]

/-- Steps are done, or the first of them cannot be taken, or it is taken. Following a link costs one of
the links that are left. -/
@[elab_as_elim]
theorem stepInduction (fs : FileSystem) {motive : Nat → Location → List PathStep → Prop}
    (arrived : ∀ n location, motive n location [])
    (blocked : ∀ n location step rest, ¬ fs.IsDirectory location →
      motive n location (step :: rest))
    (stay : ∀ n location rest, fs.IsDirectory location →
      motive n location rest → motive n location (.stay :: rest))
    (up : ∀ n location rest, fs.IsDirectory location →
      motive n location.parent rest → motive n location (.up :: rest))
    (tooLong : ∀ n location rest, fs.IsDirectory location →
      motive n location (.tooLong :: rest))
    (missing : ∀ n location name rest, fs.IsDirectory location →
      fs.get? (location.child name) = none → motive n location (.down name :: rest))
    (down : ∀ n location name e rest, fs.IsDirectory location →
      fs.get? (location.child name) = some e → e.isLink = false →
      motive n (location.child name) rest → motive n location (.down name :: rest))
    (spent : ∀ location name text rest, fs.IsDirectory location →
      fs.get? (location.child name) = some (.link text) → motive 0 location (.down name :: rest))
    (link : ∀ n location name text rest, fs.IsDirectory location →
      fs.get? (location.child name) = some (.link text) →
      motive n (startOf text location) (Path.steps text ++ rest) →
      motive (n + 1) location (.down name :: rest))
    (n : Nat) (location : Location) (steps : List PathStep) : motive n location steps := by
  -- The steps get fewer, but for a link, whose target is as long as it likes.
  induction n using Nat.strongRecOn generalizing location steps with
  | ind n ihn =>
    induction steps generalizing location with
    | nil => exact arrived n location
    | cons step rest ih =>
      by_cases hdir : fs.IsDirectory location
      · cases step with
        | stay => exact stay n location rest hdir (ih _)
        | up => exact up n location rest hdir (ih _)
        | tooLong => exact tooLong n location rest hdir
        | down name =>
          cases hget : fs.get? (location.child name) with
          | none => exact missing n location name rest hdir hget
          | some e =>
            cases e with
            | link text =>
              cases n with
              | zero => exact spent location name text rest hdir hget
              | succ n =>
                exact link n location name text rest hdir hget (ihn n (Nat.lt_succ_self n) _ _)
            | file f => exact down n location name _ rest hdir hget rfl (ih _)
            | directory => exact down n location name _ rest hdir hget rfl (ih _)
            | pipe => exact down n location name _ rest hdir hget rfl (ih _)
      · exact blocked n location step rest hdir

/-! ## Where steps lead -/

theorem Leads.follow_append (h : fs.Leads k location steps target) (last : LastName)
    (rest : List PathStep) (hrest : last = .entry → rest ≠ []) (n : Nat) :
    fs.follow last n location (steps ++ rest) =
      if k ≤ n then fs.follow last (n - k) target rest else .error .tooManyLinks := by
  induction h generalizing n with
  | arrived location => simp
  | stay hdir h ih => rw [List.cons_append, follow_stay hdir, ih]
  | up hdir h ih => rw [List.cons_append, follow_up hdir, ih]
  | down hdir hget hlink h ih => rw [List.cons_append, follow_down hdir hget hlink, ih]
  | @link k location name steps text target hdir hget hne h ih =>
    have hlast : last = .entry → steps ++ rest ≠ [] := by
      intro heq
      simp [hrest heq]
    cases n with
    | zero => rw [List.cons_append, follow_link_zero hdir hget hlast]; simp
    | succ n =>
      rw [List.cons_append, follow_link hdir hget hlast, if_neg hne, ← List.append_assoc, ih]
      simp [Nat.add_sub_add_right]

theorem Leads.follow_eq_ok (h : fs.Leads k location steps target) (hk : k ≤ n) :
    fs.follow .target n location steps = .ok target := by
  have hfollow := h.follow_append .target [] nofun n
  rwa [List.append_nil, if_pos hk, follow_nil] at hfollow

theorem exists_leads_of_follow_append (hrest : last ≠ .target → rest ≠ [])
    (h : fs.follow last n location (steps ++ rest) = .ok target) :
    ∃ k place, k ≤ n ∧ fs.Leads k location steps place ∧
      fs.follow last (n - k) place rest = .ok target := by
  induction n, location, steps using stepInduction fs with
  | arrived n location => exact ⟨0, location, Nat.zero_le n, .arrived location, h⟩
  | blocked n location step steps hdir =>
    rw [List.cons_append, follow_of_not_directory hdir] at h
    cases h
  | stay n location steps hdir ih =>
    rw [List.cons_append, follow_stay hdir] at h
    obtain ⟨k, place, hk, hleads, hfollow⟩ := ih h
    exact ⟨k, place, hk, .stay hdir hleads, hfollow⟩
  | up n location steps hdir ih =>
    rw [List.cons_append, follow_up hdir] at h
    obtain ⟨k, place, hk, hleads, hfollow⟩ := ih h
    exact ⟨k, place, hk, .up hdir hleads, hfollow⟩
  | tooLong n location steps hdir =>
    rw [List.cons_append, follow_tooLong hdir] at h
    cases h
  | missing n location name steps hdir hget =>
    have hlast : ¬ (steps ++ rest = [] ∧ last = .creation) := by
      rintro ⟨hnil, rfl⟩
      exact hrest nofun (List.append_eq_nil_iff.mp hnil).2
    rw [List.cons_append, follow_missing hdir hget, if_neg hlast] at h
    cases h
  | down n location name e steps hdir hget hlink ih =>
    rw [List.cons_append, follow_down hdir hget hlink] at h
    obtain ⟨k, place, hk, hleads, hfollow⟩ := ih h
    exact ⟨k, place, hk, .down hdir hget hlink hleads, hfollow⟩
  | spent location name text steps hdir hget =>
    rw [List.cons_append, follow_link_zero hdir hget] at h
    · cases h
    · rintro rfl
      simp [hrest]
  | link n location name text steps hdir hget ih =>
    rw [List.cons_append, follow_link hdir hget, ← List.append_assoc] at h
    · split at h
      · cases h
      · next hne =>
        obtain ⟨k, place, hk, hleads, hfollow⟩ := ih h
        refine ⟨k + 1, place, Nat.succ_le_succ hk, .link hdir hget hne hleads, ?_⟩
        rwa [Nat.add_sub_add_right]
    · rintro rfl
      simp [hrest]

theorem follow_target_eq_ok_iff :
    fs.follow .target n location steps = .ok target ↔ ∃ k ≤ n, fs.Leads k location steps target := by
  constructor
  · intro h
    rw [← List.append_nil steps] at h
    obtain ⟨k, place, hk, hleads, hfollow⟩ := exists_leads_of_follow_append (fun h => absurd rfl h) h
    rw [follow_nil] at hfollow
    cases hfollow
    exact ⟨k, hk, hleads⟩
  · rintro ⟨k, hk, hleads⟩
    exact hleads.follow_eq_ok hk

theorem follow_append_stay (hdir : fs.IsDirectory target) :
    fs.follow .target n location (steps ++ [.stay]) = .ok target ↔
      fs.follow .target n location steps = .ok target := by
  constructor
  · intro h
    obtain ⟨k, place, hk, hleads, hlast⟩ := exists_leads_of_follow_append (fun h => absurd rfl h) h
    rw [follow_stay (isDirectory_of_follow_cons hlast), follow_nil] at hlast
    cases hlast
    exact hleads.follow_eq_ok hk
  · intro h
    obtain ⟨k, hk, hleads⟩ := follow_target_eq_ok_iff.mp h
    rw [hleads.follow_append .target _ nofun, if_pos hk, follow_stay hdir, follow_nil]

theorem Leads.unique {k' : Nat} {target' : Location} (h : fs.Leads k location steps target)
    (h' : fs.Leads k' location steps target') : target = target' := by
  have hfollow := h.follow_eq_ok (Nat.le_max_left k k')
  rw [h'.follow_eq_ok (Nat.le_max_right k k')] at hfollow
  cases hfollow
  rfl

theorem Leads.isDirectory_start (h : fs.Leads k location steps target)
    (hdir : fs.IsDirectory target) : fs.IsDirectory location := by
  cases h <;> assumption

theorem isDirectory_startOf (hdir : fs.IsDirectory location) (path : Path) :
    fs.IsDirectory (startOf path location) := by
  unfold startOf
  split
  · exact fs.isDirectory_root
  · exact hdir

theorem Leads.get?_target (h : fs.Leads k location steps target)
    (hget : fs.get? location = some e) (hlink : e.isLink = false) :
    ∃ e, fs.get? target = some e ∧ e.isLink = false := by
  induction h generalizing e with
  | arrived location => exact ⟨e, hget, hlink⟩
  | stay hdir h ih =>
    obtain ⟨mode, hget⟩ := hdir
    exact ih hget rfl
  | up hdir h ih =>
    obtain ⟨mode, hget⟩ := hdir.parent
    exact ih hget rfl
  | down hdir hchild hnolink h ih => exact ih hchild hnolink
  | @link k location name rest text target hdir hchild hne h ih =>
    obtain ⟨mode, hget⟩ := isDirectory_startOf hdir text
    exact ih hget rfl

end FileSystem

end Repoint
