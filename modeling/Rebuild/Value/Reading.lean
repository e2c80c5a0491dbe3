import Rebuild.Error
import Rebuild.Value.Key

namespace Rebuild

namespace Value

def items (v : Value) : Except BuildError (List Value) :=
  match v.items? with
  | some items => .ok items
  | none => .error (.shape (.walk v))

def mappingOf (pairs : List (Value × Value)) : Except BuildError (OrderedMap Value Value) :=
  match keyBarAmong? (pairs.map (·.1)) with
  | some bar => .error (.shape (.key bar))
  | none => .ok (.ofList pairs)

end Value

def ModuleName.ofValue : Value → Except BuildError ModuleName
  | .name n => .ok n
  | .text s => (ModuleName.parse s).mapError .moduleName
  | v => .error (.shape (.moduleName v))

def SourceLocation.ofValue : Value → Except BuildError SourceLocation
  | .location l => .ok l
  | .policy p => .ok (.governed p)
  | .text s => .ok (.ofPath (.parse s))
  | .path p => .ok (.ofPath p)
  | v => .error (.shape (.location v))

namespace ForeignImport

def ofName (s : String) : Except BuildError ForeignImport :=
  match parse? s with
  | some f => .ok f
  | none => .error .unnamedForeign

def ofValue : Value → Except BuildError ForeignImport
  | .foreignImport f => .ok f
  | .text s => ofName s
  | v => .error (.shape (.binding v))

def ofItems : List Value → Except BuildError (List ForeignImport)
  | [] => .ok []
  | v :: vs => do
    let f ← ofValue v
    let fs ← ofItems vs
    return f :: fs

/-- The foreign imports of a module; none given means that there are none. One
binding that stands alone is refused, for its characters could pass for bindings. -/
def ofBindings : Value → Except BuildError (List ForeignImport)
  | .null => .ok []
  | .text _ => .error (.shape .bareBinding)
  | .foreignImport _ => .error (.shape .bareBinding)
  | v => do ofItems (← v.items)

end ForeignImport

end Rebuild
