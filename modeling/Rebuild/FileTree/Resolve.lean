import Rebuild.FileTree.Basic
import Rebuild.Path

namespace Rebuild

inductive FileFault
  | notFound
  | notADirectory
  | isADirectory
  | alreadyExists
  | nameTooLong
  | sameFile
  deriving DecidableEq, Repr

/-- Why a path cannot be used: its text is no path at all, or the file system
refuses it. -/
inductive AccessFault
  | embeddedNul
  | refused (fault : FileFault)
  deriving DecidableEq, Repr

namespace FileTree

/-- The most bytes that one component of a path may have. -/
def maxNameBytes : Nat := 255

/-- The number of bytes from which on a path is too long. -/
def maxPathBytes : Nat := 4096

/-- Follows components from a place. Each step starts at a directory; a double dot
leads to its parent, and the top is its own parent. -/
def walk (t : FileTree) : Location → List String → Except FileFault Location
  | place, [] => .ok place
  | place, name :: rest =>
    match t.get? place with
    | none => .error .notFound
    | some (.file _ _) => .error .notADirectory
    | some .directory =>
      if name = ".." then t.walk place.tail rest
      else if maxNameBytes < name.utf8ByteSize then .error .nameTooLong
      else t.walk (name :: place) rest

def startOf (t : FileTree) : Path.Root → Location
  | .relative => t.current
  | .single | .double => []

/-- The place a path names, whether something is there or not. -/
def resolve (t : FileTree) (p : Path) : Except AccessFault Location :=
  let p := p.normalize
  if p.hasNul then .error .embeddedNul
  else if maxPathBytes ≤ p.text.utf8ByteSize then .error (.refused .nameTooLong)
  else (t.walk (t.startOf p.root) p.parts).mapError .refused

def status (t : FileTree) (p : Path) : Except AccessFault Entry := do
  let place ← t.resolve p
  match t.get? place with
  | none => .error (.refused .notFound)
  | some e => .ok e

/-- The entry that a path names, if there is one. That something on the way is missing
or a file, or that the text is no path, means only that there is none. -/
def probe (t : FileTree) (p : Path) : Except FileFault (Option Entry) :=
  match t.status p with
  | .ok e => .ok (some e)
  | .error .embeddedNul => .ok none
  | .error (.refused .notFound) => .ok none
  | .error (.refused .notADirectory) => .ok none
  | .error (.refused fault) => .error fault

@[simp] theorem mapError_ok {ε ε' α : Type} (f : ε → ε') (a : α) :
    (Except.ok a : Except ε α).mapError f = .ok a :=
  rfl

@[simp] theorem mapError_error {ε ε' α : Type} (f : ε → ε') (e : ε) :
    (Except.error e : Except ε α).mapError f = .error (f e) :=
  rfl

theorem get?_parent_of_walk {t : FileTree} {place : Location} {names : List String}
    {name : String} {parent : Location}
    (hplace : ∀ n p, place = n :: p → t.get? p = some .directory)
    (h : t.walk place names = .ok (name :: parent)) : t.get? parent = some .directory := by
  induction names generalizing place with
  | nil =>
    simp only [walk, Except.ok.injEq] at h
    exact hplace name parent h
  | cons n rest ih =>
    simp only [walk] at h
    split at h
    · cases h
    · cases h
    · rename_i hdir
      split at h
      · refine ih ?_ h
        intro m p hp
        cases place with
        | nil => simp at hp
        | cons a place =>
          simp only [List.tail_cons] at hp
          subst hp
          have : t.get? (m :: p) = some .directory :=
            get?_parent (t := t) (show t.get? (a :: m :: p) ≠ none by simp [hdir])
          exact get?_parent (show t.get? (m :: p) ≠ none by simp [this])
      · split at h
        · cases h
        · refine ih ?_ h
          intro m p hp
          cases hp
          exact hdir

theorem get?_parent_of_resolve {t : FileTree} {p : Path} {name : String} {parent : Location}
    (h : t.resolve p = .ok (name :: parent)) : t.get? parent = some .directory := by
  simp only [resolve] at h
  split at h
  · cases h
  · split at h
    · cases h
    · cases hw : t.walk (t.startOf p.normalize.root) p.normalize.parts with
      | error f => simp only [hw, mapError_error, reduceCtorEq] at h
      | ok place =>
        simp only [hw, mapError_ok, Except.ok.injEq] at h
        subst h
        refine get?_parent_of_walk ?_ hw
        intro m q hq
        have hstart : t.get? (t.startOf p.normalize.root) = some .directory := by
          cases p.normalize.root <;> simp [startOf]
        rw [hq] at hstart
        exact get?_parent (show t.get? (m :: q) ≠ none by simp [hstart])

end FileTree

end Rebuild
