import Repoint.Error
import Repoint.FileSystem.Operation
import Repoint.Log

/-!
# Jobs

A job looks at a file system, performs operations on it, tells events, and ends with a result or an
error.
-/

namespace Repoint

structure Outcome (α : Type) where
  operations : List Operation := []
  events : List Event := []
  result : Except Error α

def Job (α : Type) : Type := FileSystem → Outcome α

namespace Job

variable {α β : Type}

def pure (a : α) : Job α := fun _ => { result := .ok a }

/-- One job after another. An error of the first is the end of both. -/
def bind (first : Job α) (next : α → Job β) : Job β := fun fs =>
  let before := first fs
  match before.result with
  | .error e => { operations := before.operations, events := before.events, result := .error e }
  | .ok a =>
    let after := next a (fs.performAll before.operations)
    { operations := before.operations ++ after.operations
      events := before.events ++ after.events
      result := after.result }

def map (f : α → β) (job : Job α) : Job β := fun fs =>
  let outcome := job fs
  { operations := outcome.operations, events := outcome.events, result := outcome.result.map f }

instance : Monad Job where
  pure := Job.pure
  bind := Job.bind
  map := Job.map

def fail (e : Error) : Job α := fun _ => { result := .error e }

def tell (event : Event) : Job Unit := fun _ => { events := [event], result := .ok () }

def perform (operation : Operation) : Job Unit := fun _ =>
  { operations := [operation], result := .ok () }

def inspect (look : FileSystem → Except Error α) : Job α := fun fs => { result := look fs }

/-- If the job fails, performs one more operation. -/
def orElsePerform (job : Job α) (operation : Operation) : Job α := fun fs =>
  let outcome := job fs
  match outcome.result with
  | .error _ => { outcome with operations := outcome.operations ++ [operation] }
  | .ok _ => outcome

def stateAfter (job : Job α) (fs : FileSystem) : FileSystem := fs.performAll (job fs).operations

/-! ## What one job after another does -/

theorem bind_of_error {first : Job α} {next : α → Job β} {fs : FileSystem} {e : Error}
    (h : (first fs).result = .error e) :
    (first >>= next) fs = ⟨(first fs).operations, (first fs).events, .error e⟩ := by
  change Job.bind first next fs = _
  simp only [bind, h]

theorem bind_of_ok {first : Job α} {next : α → Job β} {fs : FileSystem} {a : α}
    (h : (first fs).result = .ok a) :
    (first >>= next) fs =
      { operations := (first fs).operations ++ (next a (first.stateAfter fs)).operations
        events := (first fs).events ++ (next a (first.stateAfter fs)).events
        result := (next a (first.stateAfter fs)).result } := by
  change Job.bind first next fs = _
  simp only [bind, h, stateAfter]

theorem stateAfter_bind_of_ok {first : Job α} {next : α → Job β} {fs : FileSystem} {a : α}
    (h : (first fs).result = .ok a) :
    (first >>= next).stateAfter fs = (next a).stateAfter (first.stateAfter fs) := by
  rw [stateAfter, bind_of_ok h, FileSystem.performAll_append]
  rfl

theorem stateAfter_bind_of_error {first : Job α} {next : α → Job β} {fs : FileSystem} {e : Error}
    (h : (first fs).result = .error e) :
    (first >>= next).stateAfter fs = first.stateAfter fs := by
  rw [stateAfter, bind_of_error h]
  rfl

theorem bind_of_quiet_ok {first : Job α} {next : α → Job β} {fs : FileSystem}
    {operations : List Operation} {a : α} (h : first fs = { operations, result := .ok a }) :
    (first >>= next) fs =
      { next a (fs.performAll operations) with
        operations := operations ++ (next a (fs.performAll operations)).operations } := by
  change Job.bind first next fs = _
  simp only [bind, h, List.nil_append]

theorem bind_of_quiet_error {first : Job α} {next : α → Job β} {fs : FileSystem}
    {operations : List Operation} {e : Error} (h : first fs = { operations, result := .error e }) :
    (first >>= next) fs = { operations, result := .error e } := by
  change Job.bind first next fs = _
  simp only [bind, h]

theorem perform_bind (operation : Operation) (next : Unit → Job β) (fs : FileSystem) :
    (perform operation >>= next) fs =
      { next () (fs.perform operation) with
        operations := operation :: (next () (fs.perform operation)).operations } := rfl

theorem inspect_bind_of_ok {look : FileSystem → Except OsError α}
    {wrap : FileSystem → OsError → Error} {next : α → Job β} {fs : FileSystem} {a : α}
    (h : look fs = .ok a) :
    (inspect (fun fs => (look fs).mapError (wrap fs)) >>= next) fs = next a fs := by
  have hresult : (inspect (fun fs => (look fs).mapError (wrap fs)) fs).result = .ok a := by
    rw [inspect, h]
    rfl
  rw [bind_of_ok hresult]
  rfl

theorem inspect_bind_of_error {look : FileSystem → Except OsError α}
    {wrap : FileSystem → OsError → Error} {next : α → Job β} {fs : FileSystem} {cause : OsError}
    (h : look fs = .error cause) :
    (inspect (fun fs => (look fs).mapError (wrap fs)) >>= next) fs =
      { result := .error (wrap fs cause) } := by
  have hresult : (inspect (fun fs => (look fs).mapError (wrap fs)) fs).result =
      .error (wrap fs cause) := by
    rw [inspect, h]
    rfl
  rw [bind_of_error hresult]
  rfl

theorem stateAfter_inspect_bind_of_ok {look : FileSystem → Except OsError α}
    {wrap : FileSystem → OsError → Error} {next : α → Job β} {fs : FileSystem} {a : α}
    (h : look fs = .ok a) :
    (inspect (fun fs => (look fs).mapError (wrap fs)) >>= next).stateAfter fs =
      (next a).stateAfter fs := by
  rw [stateAfter, inspect_bind_of_ok h, stateAfter]

theorem stateAfter_inspect_bind_of_error {look : FileSystem → Except OsError α}
    {wrap : FileSystem → OsError → Error} {next : α → Job β} {fs : FileSystem} {cause : OsError}
    (h : look fs = .error cause) :
    (inspect (fun fs => (look fs).mapError (wrap fs)) >>= next).stateAfter fs = fs := by
  rw [stateAfter, inspect_bind_of_error h, FileSystem.performAll_nil]

theorem orElsePerform_of_ok {job : Job α} {operation : Operation} {fs : FileSystem}
    {a : α} (h : (job fs).result = .ok a) : (job.orElsePerform operation) fs = job fs := by
  simp only [orElsePerform, h]

theorem orElsePerform_of_error {job : Job α} {operation : Operation} {fs : FileSystem}
    {e : Error} (h : (job fs).result = .error e) :
    (job.orElsePerform operation) fs =
      { job fs with operations := (job fs).operations ++ [operation] } := by
  simp only [orElsePerform, h]

theorem result_bind_eq_ok {first : Job α} {next : α → Job β} {fs : FileSystem} {b : β} :
    ((first >>= next) fs).result = .ok b ↔
      ∃ a, (first fs).result = .ok a ∧ (next a (first.stateAfter fs)).result = .ok b := by
  cases h : (first fs).result with
  | error e => simp [bind_of_error h]
  | ok a => simp [bind_of_ok h]

theorem result_bind_eq_error {first : Job α} {next : α → Job β} {fs : FileSystem} {e : Error} :
    ((first >>= next) fs).result = .error e ↔
      (first fs).result = .error e ∨
        ∃ a, (first fs).result = .ok a ∧ (next a (first.stateAfter fs)).result = .error e := by
  cases h : (first fs).result with
  | error e => simp [bind_of_error h]
  | ok a => simp [bind_of_ok h]

theorem result_inspect_eq_error {look : FileSystem → Except OsError α}
    {wrap : FileSystem → OsError → Error} {fs : FileSystem} {e : Error}
    (h : (inspect (fun fs => (look fs).mapError (wrap fs)) fs).result = .error e) :
    ∃ cause, e = wrap fs cause := by
  change (look fs).mapError (wrap fs) = .error e at h
  cases hlook : look fs with
  | error cause =>
    rw [hlook] at h
    exact ⟨cause, (Except.error.inj h).symm⟩
  | ok a =>
    rw [hlook] at h
    cases h

theorem result_orElsePerform (job : Job α) (operation : Operation) (fs : FileSystem) :
    ((job.orElsePerform operation) fs).result = (job fs).result := by
  cases h : (job fs).result <;> simp only [orElsePerform, h]

theorem result_map_eq_ok {f : α → β} {job : Job α} {fs : FileSystem} {b : β} :
    ((f <$> job) fs).result = .ok b ↔ ∃ a, (job fs).result = .ok a ∧ f a = b :=
  map_eq_ok

end Job

end Repoint
