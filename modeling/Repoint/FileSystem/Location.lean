import Repoint.Path

/-!
# Names and locations

A location is the list of names that leads to an entry from the root, the innermost first.
-/

namespace Repoint

/-! ## Names -/

/-- The bytes can name an entry of a directory. -/
def IsName (bytes : Bytes) : Prop :=
  bytes ≠ [] ∧ bytes ≠ Path.dot ∧ bytes ≠ Path.dotDot ∧ Path.slash ∉ bytes ∧ 0 ∉ bytes ∧
    bytes.length ≤ 255

instance (bytes : Bytes) : Decidable (IsName bytes) := inferInstanceAs (Decidable (_ ∧ _))

structure Name where
  bytes : Bytes
  isName : IsName bytes
  deriving DecidableEq

def Name.ofBytes? (bytes : Bytes) : Option Name :=
  if h : IsName bytes then some ⟨bytes, h⟩ else none

def Name.le (a b : Name) : Bool := a.bytes ≤ b.bytes

/-- Works a name into a number. -/
def Name.mix (name : Name) (n : Nat) : Nat :=
  name.bytes.foldl (fun n b => (31 * n + b.toNat) % 65521) (n + 1)

/-! ## Locations -/

/-- The names that lead to an entry, the innermost first. Their number is kept beside them, and another
number made of their bytes, so that most locations are told apart at once. -/
structure Location where
  names : List Name
  depth : Nat
  fingerprint : Nat
  depth_eq : depth = names.length
  fingerprint_eq : fingerprint = names.foldr Name.mix 0

namespace Location

def ofNames (names : List Name) : Location := ⟨names, names.length, names.foldr Name.mix 0, rfl, rfl⟩

def root : Location := ofNames []

def child (directory : Location) (name : Name) : Location where
  names := name :: directory.names
  depth := directory.depth + 1
  fingerprint := name.mix directory.fingerprint
  depth_eq := by rw [directory.depth_eq, List.length_cons]
  fingerprint_eq := by rw [directory.fingerprint_eq, List.foldr_cons]

/-- The location of the directory that holds an entry; the root holds itself. -/
def parent (location : Location) : Location := ofNames location.names.tail

/-- The last name on the way to an entry. -/
def name? (location : Location) : Option Name := location.names.head?

theorem eq_of_names {a b : Location} (h : a.names = b.names) : a = b := by
  obtain ⟨names, depth, fingerprint, hdepth, hfingerprint⟩ := a
  obtain ⟨names', depth', fingerprint', hdepth', hfingerprint'⟩ := b
  subst h
  subst hdepth
  subst hdepth'
  subst hfingerprint
  subst hfingerprint'
  rfl

instance : DecidableEq Location := fun a b =>
  if hfingerprint : a.fingerprint = b.fingerprint then
    if hnames : a.names = b.names then .isTrue (eq_of_names hnames)
    else .isFalse fun h => hnames (congrArg names h)
  else .isFalse fun h => hfingerprint (congrArg fingerprint h)

/-- The entry is one of the directory's own. -/
def isIn (location directory : Location) : Bool :=
  location.depth = directory.depth + 1 && location.names.tail = directory.names

@[simp]
theorem parent_child (directory : Location) (name : Name) :
    (directory.child name).parent = directory := eq_of_names rfl

theorem child_inj {a b : Location} {x y : Name} (h : a.child x = b.child y) : a = b ∧ x = y := by
  refine ⟨?_, (List.cons.inj (congrArg names h)).1⟩
  rw [← a.parent_child x, h, b.parent_child]

theorem child_ne_root (directory : Location) (name : Name) : directory.child name ≠ root :=
  fun h => Nat.succ_ne_zero _ (congrArg depth h)

theorem isIn_iff {location directory : Location} :
    location.isIn directory ↔ ∃ name, location = directory.child name := by
  constructor
  · intro h
    simp only [isIn, Bool.and_eq_true, decide_eq_true_eq] at h
    have hlength := location.depth_eq
    cases hnames : location.names with
    | nil => simp [hnames] at hlength; omega
    | cons name rest =>
      refine ⟨name, eq_of_names ?_⟩
      rw [hnames, List.tail_cons] at h
      rw [hnames, h.2]
      rfl
  · rintro ⟨name, rfl⟩
    simp [isIn, child]

def isWithin (location directory : Location) : Bool := directory.names.isSuffixOf location.names

theorem isWithin_of_parent (location : Location) {directory : Location}
    (h : location.parent.isWithin directory) : location.isWithin directory := by
  rw [isWithin, List.isSuffixOf_iff_suffix] at h ⊢
  exact h.trans (List.tail_suffix _)

/-- The path of a location from the root. -/
def absolutePath (location : Location) : Path :=
  Path.slash :: joinWith Path.slash (location.names.reverse.map (·.bytes))

/-- The path of a location below a directory; `none` for the directory itself and for what is not
below it. -/
def relativePath? (location directory : Location) : Option Path :=
  if location.isWithin directory ∧ directory ≠ location then
    some (joinWith Path.slash
      ((location.names.take (location.depth - directory.depth)).reverse.map (·.bytes)))
  else none

end Location

end Repoint
