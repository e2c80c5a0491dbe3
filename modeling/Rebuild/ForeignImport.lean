import Rebuild.Text.Blank

namespace Rebuild

/-- The name of a foreign binding: not empty, and without blanks around it. -/
structure ForeignImport where
  name : String
  strip_name : Text.strip name = name
  name_ne : name ≠ ""

namespace ForeignImport

def parse? (s : String) : Option ForeignImport :=
  let name := Text.strip s
  if h : name = "" then none else some ⟨name, Text.strip_strip s, h⟩

@[ext] theorem ext {f g : ForeignImport} (h : f.name = g.name) : f = g := by
  cases f
  cases g
  simp_all

instance : DecidableEq ForeignImport :=
  fun _ _ => decidable_of_iff _ ⟨ext, congrArg name⟩

theorem parse?_name (f : ForeignImport) : parse? f.name = some f := by
  simp [parse?, f.strip_name, f.name_ne]

theorem parse?_eq_none_iff {s : String} : parse? s = none ↔ Text.strip s = "" := by
  simp only [parse?]
  split <;> simp [*]

end ForeignImport

end Rebuild
