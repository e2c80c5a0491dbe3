import Rebuild.Timestamp

/-!
Trees of files and directories with a current directory. A tree is known by its
view `get?`; each operation that changes it says what it does to the view. In
every tree the parent of an entry is a directory.
-/

namespace Rebuild

/-- A place in a file tree: the names that lead to it, innermost first. The top of
the tree is the place without names. -/
abbrev Location := List String

/-- Bytes are compared as byte arrays are, whatever else compares them. -/
instance (priority := high) instDecidableEqBytes : DecidableEq ByteArray :=
  ByteArray.instDecidableEq

inductive Entry
  | directory
  | file (content : ByteArray) (modified : MTime)
  deriving DecidableEq

namespace Entry

def isDirectory : Entry → Bool
  | directory => true
  | file _ _ => false

def isFile : Entry → Bool
  | directory => false
  | file _ _ => true

end Entry

/-- What a list of entries says about a place. The top is a directory. -/
def entryAt (entries : List (Location × Entry)) : Location → Option Entry
  | [] => some .directory
  | name :: parent => (entries.find? fun e => e.1 == name :: parent).map (·.2)

/-- A file tree: its entries below the top, and the directory that relative paths
start from. -/
structure FileTree where
  entries : List (Location × Entry)
  current : Location
  closed : ∀ name parent, entryAt entries (name :: parent) ≠ none →
    entryAt entries parent = some .directory
  current_directory : entryAt entries current = some .directory

namespace FileTree

def get? (t : FileTree) (l : Location) : Option Entry :=
  entryAt t.entries l

def isDirectoryAt (t : FileTree) (l : Location) : Bool :=
  t.get? l = some .directory

@[simp] theorem isDirectoryAt_iff {t : FileTree} {l : Location} :
    t.isDirectoryAt l = true ↔ t.get? l = some .directory := by
  simp [isDirectoryAt]

@[simp] theorem get?_top (t : FileTree) : t.get? [] = some .directory :=
  rfl

theorem get?_parent {t : FileTree} {name : String} {parent : Location}
    (h : t.get? (name :: parent) ≠ none) : t.get? parent = some .directory :=
  t.closed name parent h

@[simp] theorem get?_current (t : FileTree) : t.get? t.current = some .directory :=
  t.current_directory

def empty : FileTree where
  entries := []
  current := []
  closed := by simp [entryAt]
  current_directory := rfl

instance : EmptyCollection FileTree := ⟨empty⟩
instance : Inhabited FileTree := ⟨empty⟩

theorem entryAt_cons_filter (entries : List (Location × Entry)) (name : String)
    (parent : Location) (e : Entry) (l : Location) :
    entryAt ((name :: parent, e) :: entries.filter fun x => x.1 != name :: parent) l =
      if l = name :: parent then some e else entryAt entries l := by
  cases l with
  | nil => simp [entryAt]
  | cons n p =>
    simp only [entryAt, List.find?_cons]
    by_cases h : n :: p = name :: parent
    · simp [h]
    · have h' : ¬ (name :: parent == n :: p) = true := fun hb => h (eq_of_beq hb).symm
      simp only [h', h, if_false]
      congr 1
      rw [List.find?_filter]
      congr 1
      funext x
      by_cases hx : x.1 = n :: p
      · simp [hx, h]
      · simp [hx]

/-- Puts an entry where there is none or a file, below a directory. -/
def place (t : FileTree) (name : String) (parent : Location) (e : Entry)
    (hparent : t.get? parent = some .directory)
    (hfree : t.get? (name :: parent) ≠ some .directory) : FileTree where
  entries := (name :: parent, e) :: t.entries.filter fun x => x.1 != name :: parent
  current := t.current
  closed := by
    intro n p h
    rw [entryAt_cons_filter] at h ⊢
    have hp : entryAt t.entries p = some .directory := by
      split at h
      · rename_i heq
        cases heq
        exact hparent
      · exact t.closed n p h
    split
    · rename_i heq
      subst heq
      exact absurd hp hfree
    · exact hp
  current_directory := by
    rw [entryAt_cons_filter]
    split
    · rename_i heq
      have := t.current_directory
      rw [heq] at this
      exact absurd this hfree
    · exact t.current_directory

@[simp] theorem get?_place (t : FileTree) (name : String) (parent : Location) (e : Entry)
    (hparent : t.get? parent = some .directory)
    (hfree : t.get? (name :: parent) ≠ some .directory) (l : Location) :
    (t.place name parent e hparent hfree).get? l =
      if l = name :: parent then some e else t.get? l :=
  entryAt_cons_filter t.entries name parent e l

@[simp] theorem current_place (t : FileTree) (name : String) (parent : Location) (e : Entry)
    (hparent : t.get? parent = some .directory)
    (hfree : t.get? (name :: parent) ≠ some .directory) :
    (t.place name parent e hparent hfree).current = t.current :=
  rfl

theorem entryAt_filter_suffix (entries : List (Location × Entry)) (name : String)
    (parent l : Location) :
    entryAt (entries.filter fun x => !(name :: parent).isSuffixOf x.1) l =
      if (name :: parent) <:+ l then none else entryAt entries l := by
  cases l with
  | nil => simp [entryAt]
  | cons n p =>
    simp only [entryAt, List.find?_filter]
    split
    · rename_i h
      rw [Option.map_eq_none_iff, List.find?_eq_none]
      intro x _ hx
      simp only [Bool.not_eq_true', beq_iff_eq, decide_eq_true_eq] at hx
      rw [hx.2] at hx
      exact absurd (List.isSuffixOf_iff_suffix.mpr h) (by simp [hx.1])
    · rename_i h
      congr 2
      funext x
      by_cases hx : x.1 = n :: p
      · have : (name :: parent).isSuffixOf (n :: p) = false := by
          rw [Bool.eq_false_iff]
          exact fun hs => h (List.isSuffixOf_iff_suffix.mp hs)
        simp [hx, this]
      · simp [hx]

/-- Takes an entry out, with everything below it, unless the current directory is
there. -/
def remove (t : FileTree) (name : String) (parent : Location)
    (haway : ¬ (name :: parent) <:+ t.current) : FileTree where
  entries := t.entries.filter fun x => !(name :: parent).isSuffixOf x.1
  current := t.current
  closed := by
    intro n p h
    rw [entryAt_filter_suffix] at h ⊢
    split at h
    · exact absurd rfl h
    · rename_i hs
      rw [if_neg fun hp => hs (hp.trans (List.suffix_cons n p))]
      exact t.closed n p h
  current_directory := by
    rw [entryAt_filter_suffix, if_neg haway]
    exact t.current_directory

@[simp] theorem get?_remove (t : FileTree) (name : String) (parent : Location)
    (haway : ¬ (name :: parent) <:+ t.current) (l : Location) :
    (t.remove name parent haway).get? l =
      if (name :: parent) <:+ l then none else t.get? l :=
  entryAt_filter_suffix t.entries name parent l

end FileTree

end Rebuild
