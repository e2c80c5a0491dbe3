import Rebuild.Value.Content
import Rebuild.Value.Reading

namespace Rebuild

/-- A compiled module: its name, its declarations, and the foreign bindings that
hand-written code has to supply. -/
structure CompiledModule where
  name : ModuleName
  declarations : List Content
  foreign : List ForeignImport

namespace CompiledModule

def ofContents (name : Value) (declarations : List Content) (foreign : Value) :
    Except BuildError CompiledModule := do
  let name ← ModuleName.ofValue name
  let foreign ← ForeignImport.ofBindings foreign
  return { name, declarations, foreign }

/-- A compiled module from what a compiler handed over, checked in this order. -/
def ofValues (name declarations foreign : Value) : Except BuildError CompiledModule := do
  let name ← ModuleName.ofValue name
  let declarations ← declarations.items
  ofContents (.name name) (declarations.map .value) foreign

def needsForeign (m : CompiledModule) : Bool :=
  !m.foreign.isEmpty

end CompiledModule

end Rebuild
