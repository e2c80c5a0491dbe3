import Rebuild.Text.Split
import Rebuild.Text.Quoted

namespace Rebuild

/-- What a path starts from. Exactly two leading slashes are a root of their own. -/
inductive Path.Root
  | relative
  | single
  | double
  deriving DecidableEq, Repr

/-- A path. A component may still hold slashes and dots when it was given as a file
name; `normalize` resolves those. -/
structure Path where
  root : Path.Root
  parts : List String
  deriving DecidableEq, Repr

namespace Path

/-- Why a path has no variant with another last component. -/
inductive NameFault
  | noName (path : Path)
  | invalidName (name : String)
  deriving DecidableEq, Repr

def components (s : String) : List String :=
  (Text.split '/' s).filter fun part => part ≠ "" ∧ part ≠ "."

def rootOf (s : String) : Root :=
  match (s.toList.takeWhile (· = '/')).length with
  | 0 => .relative
  | 2 => .double
  | _ => .single

def parse (s : String) : Path :=
  ⟨rootOf s, components s⟩

def here : Path :=
  ⟨.relative, []⟩

def isAbsolute (p : Path) : Bool :=
  p.root ≠ .relative

/-- The path of `q` seen from `p`; an absolute path is the same from everywhere. -/
def append (p q : Path) : Path :=
  if q.isAbsolute then q else ⟨p.root, p.parts ++ q.parts⟩

instance : Append Path := ⟨append⟩

def child (p : Path) (s : String) : Path :=
  p ++ parse s

def ofSegments (segments : List String) : Path :=
  segments.foldl child here

/-- Reads every component again. -/
def normalize (p : Path) : Path :=
  ⟨p.root, p.parts.flatMap components⟩

def Root.text : Root → String
  | .relative => ""
  | .single => "/"
  | .double => "//"

/-- The text of a path; the path without components is a dot. -/
def text (p : Path) : String :=
  let t := p.root.text ++ Text.join "/" p.parts
  if t = "" then "." else t

instance : ToString Path := ⟨text⟩

def name? (p : Path) : Option String :=
  p.parts.getLast?

def parent (p : Path) : Path :=
  ⟨p.root, p.parts.dropLast⟩

/-- A text names one entry of a directory. -/
def isFileName (name : String) : Bool :=
  rootOf name = .relative && (components name).length = 1 && name.toList.getLast? ≠ some '/'

/-- The path beside `p` with another last component, which is kept as given. -/
def withName (p : Path) (name : String) : Except NameFault Path :=
  match p.name? with
  | none => .error (.noName p)
  | some _ =>
    if isFileName name then .ok ⟨p.root, p.parts.dropLast ++ [name]⟩
    else .error (.invalidName name)

/-- A file name without its last extension. A dot that begins or ends the name
starts no extension. -/
def stemChars (cs : List Char) : List Char :=
  let afterDot := cs.reverse.takeWhile (· ≠ '.')
  match cs.reverse.dropWhile (· ≠ '.') with
  | [] => cs
  | _ :: before => if afterDot = [] ∨ before = [] then cs else before.reverse

def stem (name : String) : String :=
  .ofList (stemChars name.toList)

def withoutExtension (p : Path) : Except NameFault Path :=
  match p.name? with
  | none => .error (.noName p)
  | some name => .ok ⟨p.root, p.parts.dropLast ++ [stem name]⟩

def literal (p : Path) : String :=
  "PosixPath(" ++ Text.quote p.text ++ ")"

def NameFault.message : NameFault → String
  | .noName p => p.literal ++ " has an empty name"
  | .invalidName name => "Invalid name " ++ Text.quote name

/-- The text of the path holds the character that no file call accepts. -/
def hasNul (p : Path) : Bool :=
  p.text.toList.contains '\x00'

@[simp] theorem here_append (p : Path) : here ++ p = p := by
  show append here p = p
  simp only [append]
  split
  · rfl
  · rename_i h
    cases p with
    | mk root parts => simp_all [isAbsolute, here]

theorem append_assoc (p q r : Path) : p ++ q ++ r = p ++ (q ++ r) := by
  show append (append p q) r = append p (append q r)
  by_cases hr : r.isAbsolute = true
  · simp [append, hr]
  · by_cases hq : q.isAbsolute = true
    · have : (⟨q.root, q.parts ++ r.parts⟩ : Path).isAbsolute = true := hq
      simp [append, hr, hq, this]
    · have : ¬ (⟨q.root, q.parts ++ r.parts⟩ : Path).isAbsolute = true := hq
      simp [append, hr, hq, this]

theorem withName_eq_ok_iff {p q : Path} {name : String} :
    p.withName name = .ok q ↔
      p.name? ≠ none ∧ isFileName name = true ∧ q = ⟨p.root, p.parts.dropLast ++ [name]⟩ := by
  unfold withName
  cases p.name? with
  | none => simp
  | some last =>
    simp only [ne_eq, reduceCtorEq, not_false_eq_true, true_and]
    split
    · simp [*, eq_comm]
    · simp [*]

end Path

end Rebuild
