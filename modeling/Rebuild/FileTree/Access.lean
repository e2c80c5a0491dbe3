import Rebuild.FileTree.Resolve

namespace Rebuild.FileTree

/-- Puts an entry at the place a path names, which must be free or a file. -/
def placeAt (t : FileTree) (p : Path) (e : Entry) : Except AccessFault FileTree :=
  match h : t.resolve p with
  | .error fault => .error fault
  | .ok [] => .error (.refused .isADirectory)
  | .ok (name :: parent) =>
    if hfree : t.get? (name :: parent) = some .directory then
      .error (.refused .isADirectory)
    else .ok (t.place name parent e (get?_parent_of_resolve h) hfree)

def makeDir (t : FileTree) (p : Path) : Except AccessFault FileTree := do
  let place ← t.resolve p
  if t.get? place ≠ none then .error (.refused .alreadyExists)
  else t.placeAt p .directory

/-- A directory that could not be made is as good as made if it is there. -/
def acceptDir (t : FileTree) (p : Path) (fault : AccessFault) : Except AccessFault Unit :=
  match fault, t.probe p with
  | .refused _, .ok (some .directory) => .ok ()
  | _, _ => .error fault

/-- Makes the directory with the given components, innermost first, and those above
it that are missing. -/
def makeDirsBelow (root : Path.Root) :
    List String → FileTree → FileTree × Except AccessFault Unit
  | [], t =>
    match t.makeDir ⟨root, []⟩ with
    | .ok t => (t, .ok ())
    | .error (.refused .notFound) => (t, .error (.refused .notFound))
    | .error fault => (t, t.acceptDir ⟨root, []⟩ fault)
  | name :: above, t =>
    let p : Path := ⟨root, (name :: above).reverse⟩
    match t.makeDir p with
    | .ok t => (t, .ok ())
    | .error (.refused .notFound) =>
      match makeDirsBelow root above t with
      | (t, .error fault) => (t, .error fault)
      | (t, .ok ()) =>
        match t.makeDir p with
        | .ok t => (t, .ok ())
        | .error (.refused .notFound) => (t, .error (.refused .notFound))
        | .error fault => (t, t.acceptDir p fault)
    | .error fault => (t, t.acceptDir p fault)

def makeDirs (t : FileTree) (p : Path) : FileTree × Except AccessFault Unit :=
  makeDirsBelow p.normalize.root p.normalize.parts.reverse t

def read (t : FileTree) (p : Path) : Except AccessFault ByteArray := do
  match ← t.status p with
  | .directory => .error (.refused .isADirectory)
  | .file content _ => .ok content

def write (t : FileTree) (p : Path) (content : ByteArray) (now : MTime) :
    Except AccessFault FileTree :=
  t.placeAt p (.file content now)

def isSame (t : FileTree) (p q : Path) : Bool :=
  match t.resolve p, t.resolve q with
  | .ok a, .ok b => a = b && (t.get? a).isSome
  | _, _ => false

/-- Copies the bytes of one file to another path. A file is not copied onto itself. -/
def copy (t : FileTree) (source target : Path) (now : MTime) : Except AccessFault FileTree :=
  if source.hasNul ∨ target.hasNul then .error .embeddedNul
  else if t.isSame source target then .error (.refused .sameFile)
  else do
    let content ← t.read source
    t.write target content now

/-- Takes out what a path names, with everything below it. -/
def removeAt (t : FileTree) (p : Path) : Except AccessFault FileTree := do
  match ← t.resolve p with
  | [] => .error (.refused .isADirectory)
  | name :: parent =>
    if h : (name :: parent) <:+ t.current then .error (.refused .isADirectory)
    else if t.get? (name :: parent) = none then .error (.refused .notFound)
    else .ok (t.remove name parent h)

def touch (t : FileTree) (p : Path) (modified : MTime) : Except AccessFault FileTree := do
  match ← t.status p with
  | .directory => .ok t
  | .file content _ => t.placeAt p (.file content modified)

def enter (t : FileTree) (p : Path) : Except AccessFault FileTree := do
  let place ← t.resolve p
  match h : t.get? place with
  | some .directory => .ok { t with current := place, current_directory := h }
  | some _ => .error (.refused .notADirectory)
  | none => .error (.refused .notFound)

def places (t : FileTree) : List Location :=
  (t.entries.map (·.1)).eraseDups

end Rebuild.FileTree
