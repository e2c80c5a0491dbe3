import Rebuild.Path
import Rebuild.Text.Blank

namespace Rebuild

/-- The dotted name of a module: no blanks around it and no empty segment. -/
structure ModuleName where
  text : String
  strip_text : Text.strip text = text
  segments_ne : "" ∉ Text.split '.' text

namespace ModuleName

instance : ToString ModuleName := ⟨text⟩

inductive Fault
  | empty
  | emptySegment (name : String)
  deriving DecidableEq, Repr

def Fault.message : Fault → String
  | .empty => "Module name must not be empty"
  | .emptySegment name => "Module name has an empty segment: " ++ Text.quote name

def parse (s : String) : Except Fault ModuleName :=
  let name := Text.strip s
  if name = "" then .error .empty
  else if h : "" ∈ Text.split '.' name then .error (.emptySegment name)
  else .ok ⟨name, Text.strip_strip s, h⟩

def segments (n : ModuleName) : List String :=
  Text.split '.' n.text

/-- The directory of the module's outputs, below the output root. -/
def relativeDir (n : ModuleName) : Path :=
  .ofSegments n.segments

def baseName (n : ModuleName) : String :=
  n.segments.getLast (Text.split_ne_nil '.' n.text)

@[ext] theorem ext {m n : ModuleName} (h : m.text = n.text) : m = n := by
  cases m
  cases n
  simp_all

instance : DecidableEq ModuleName :=
  fun _ _ => decidable_of_iff _ ⟨ext, congrArg text⟩

instance : LawfulBEq ModuleName := inferInstance

theorem join_segments (n : ModuleName) : Text.join "." n.segments = n.text :=
  Text.join_split '.' n.text

theorem text_ne_empty (n : ModuleName) : n.text ≠ "" := by
  intro h
  have := n.segments_ne
  simp [h, Text.split, Text.splitChars] at this

theorem parse_text (n : ModuleName) : parse n.text = .ok n := by
  simp [parse, n.strip_text, n.text_ne_empty, n.segments_ne]

theorem text_of_parse {s : String} {n : ModuleName} (h : parse s = .ok n) :
    n.text = Text.strip s := by
  simp only [parse] at h
  split at h
  · cases h
  · split at h
    · cases h
    · cases h
      rfl

end ModuleName

end Rebuild
