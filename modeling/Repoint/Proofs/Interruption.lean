import Repoint.Job

/-!
# Jobs that are cut off

What holds throughout a job holds wherever it is cut off.
-/

namespace Repoint

/-! ## Operations that are cut off -/

/-- What is done of operations that are cut off. -/
inductive CutOff : List Operation → List Operation → Prop
  /-- Nothing more is done. -/
  | here (operations : List Operation) : CutOff operations []
  /-- A write has come as far as some of its bytes. -/
  | within {file : Location} {data part : Bytes} (h : part <+: data) (rest : List Operation) :
      CutOff (.write file data :: rest) [.write file part]
  | later {operation : Operation} {rest done : List Operation} (h : CutOff rest done) :
      CutOff (operation :: rest) (operation :: done)

theorem CutOff.self (operations : List Operation) : CutOff operations operations := by
  induction operations with
  | nil => exact .here []
  | cons operation rest ih => exact .later ih

theorem cutOff_append {first second done : List Operation} :
    CutOff (first ++ second) done ↔
      CutOff first done ∨ ∃ more, done = first ++ more ∧ CutOff second more := by
  induction first generalizing done with
  | nil =>
    constructor
    · intro h
      exact .inr ⟨done, rfl, h⟩
    · rintro (h | ⟨more, rfl, h⟩)
      · cases h
        exact .here _
      · exact h
  | cons operation first ih =>
    constructor
    · intro h
      cases h with
      | here => exact .inl (.here _)
      | within hpart => exact .inl (.within hpart _)
      | later hlater =>
        rcases ih.mp hlater with hfirst | ⟨more, rfl, hsecond⟩
        · exact .inl (.later hfirst)
        · exact .inr ⟨more, rfl, hsecond⟩
    · rintro (h | ⟨more, rfl, h⟩)
      · cases h with
        | here => exact .here _
        | within hpart => exact .within hpart _
        | later hlater => exact .later (ih.mpr (.inl hlater))
      · exact .later (ih.mpr (.inr ⟨more, rfl, h⟩))

theorem CutOff.isPrefix {operations done : List Operation}
    (hwhole : ∀ file data, .write file data ∉ operations) (h : CutOff operations done) :
    done <+: operations := by
  induction h with
  | here operations => exact List.nil_prefix
  | within hpart rest => exact absurd List.mem_cons_self (hwhole _ _)
  | later hlater ih =>
    refine (List.prefix_cons_inj _).mpr (ih ?_)
    intro file data hmem
    exact hwhole file data (List.mem_cons_of_mem _ hmem)

/-! ## Throughout a job -/

namespace Job

variable {α β : Type} {fs : FileSystem} {holds : FileSystem → Prop}

/-- The property holds of every file system that the job leaves behind when it is cut off. -/
def Throughout (job : Job α) (fs : FileSystem) (holds : FileSystem → Prop) : Prop :=
  ∀ done, CutOff (job fs).operations done → holds (fs.performAll done)

theorem Throughout.mono {job : Job α} {holds' : FileSystem → Prop} (h : job.Throughout fs holds)
    (himp : ∀ fs', holds fs' → holds' fs') : job.Throughout fs holds' :=
  fun done hcut => himp _ (h done hcut)

theorem Throughout.atEnd {job : Job α} (h : job.Throughout fs holds) : holds (job.stateAfter fs) :=
  h _ (.self _)

theorem throughout_of_idle {job : Job α} (hidle : (job fs).operations = []) (hstart : holds fs) :
    job.Throughout fs holds := by
  intro done hcut
  rw [hidle] at hcut
  cases hcut
  exact hstart

theorem throughout_bind {first : Job α} {next : α → Job β} (hfirst : first.Throughout fs holds)
    (hnext : ∀ a, (first fs).result = .ok a → (next a).Throughout (first.stateAfter fs) holds) :
    (first >>= next).Throughout fs holds := by
  intro done hcut
  cases hresult : (first fs).result with
  | error e =>
    rw [bind_of_error hresult] at hcut
    exact hfirst done hcut
  | ok a =>
    rw [bind_of_ok hresult] at hcut
    rcases cutOff_append.mp hcut with hbefore | ⟨more, rfl, hafter⟩
    · exact hfirst done hbefore
    · rw [FileSystem.performAll_append]
      exact hnext a hresult more hafter

theorem throughout_map {job : Job α} (f : α → β) (h : job.Throughout fs holds) :
    (f <$> job).Throughout fs holds := h

theorem throughout_inspect_bind {look : FileSystem → Except OsError α}
    {wrap : FileSystem → OsError → Error} {next : α → Job β} (hstart : holds fs)
    (hnext : ∀ a, look fs = .ok a → (next a).Throughout fs holds) :
    (inspect (fun fs => (look fs).mapError (wrap fs)) >>= next).Throughout fs holds := by
  apply throughout_bind (throughout_of_idle rfl hstart)
  intro a hresult
  exact hnext a (mapError_eq_ok.mp hresult)

end Job

end Repoint
