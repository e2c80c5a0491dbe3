import Rebuild.Value.Reading

namespace Rebuild

/-- The modules of a project with their locations, in the order in which they were
first given. -/
structure ModuleMap where
  locations : OrderedMap ModuleName SourceLocation
  deriving DecidableEq

namespace ModuleMap

/-- Reads pairs of a name and a location in order; in each pair the name comes first. -/
def readPairs :
    List (Value × Value) → Except BuildError (List (ModuleName × SourceLocation))
  | [] => .ok []
  | (key, v) :: pairs => do
    let name ← ModuleName.ofValue key
    let location ← SourceLocation.ofValue v
    let rest ← readPairs pairs
    return (name, location) :: rest

/-- The module map of a mapping. Names that differ in blanks around them are one. -/
def ofMapping (m : OrderedMap Value Value) : Except BuildError ModuleMap := do
  return ⟨.ofList (← readPairs m.toList)⟩

/-- The module map of pairs, the later of which win. -/
def ofPairs (pairs : List (Value × Value)) : Except BuildError ModuleMap := do
  ofMapping (← Value.mappingOf pairs)

def locate (m : ModuleMap) (name : ModuleName) : Except BuildError SourceLocation :=
  match m.locations.get? name with
  | some location => .ok location
  | none => .error (.unknownModule name)

end ModuleMap

end Rebuild
