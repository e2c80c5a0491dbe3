import Rebuild.ForeignImport
import Rebuild.ModuleName
import Rebuild.Number.Binary64
import Rebuild.OrderedMap
import Rebuild.SourceLocation

/-!
Values as callers hand them over. Declarations, environments, module-map entries
and interface data come from a compiler in any shape; each operation takes the
shapes it knows and names the others in its error message.
-/

namespace Rebuild

/-- A value of any shape. `buffer` is a byte string that may change later, `stream`
can be read once, `headerEnd` separates the header declarations of a module from
the others, and `renderable` is a declaration with a text of its own. -/
inductive Value
  | null
  | bool (b : Bool)
  | int (n : Int)
  | float (x : Number.Binary64)
  | text (s : String)
  | bytes (content : ByteArray)
  | buffer (content : ByteArray)
  | path (p : Path)
  | name (n : ModuleName)
  | foreignImport (f : ForeignImport)
  | policy (p : RebuildPolicy)
  | location (l : SourceLocation)
  | headerEnd
  | renderable (s : String)
  | compiling (v : Value)
  | list (items : List Value)
  | tuple (items : List Value)
  | stream (items : List Value)
  | mapping (entries : List (Value × Value))

namespace Value

instance : Inhabited Value := ⟨null⟩

/-- The value counts as absent where a text is expected. -/
def isVoid : Value → Bool
  | null => true
  | bool b => !b
  | int n => n == 0
  | float x => x.isZero
  | text s => s == ""
  | bytes content | buffer content => content.size == 0
  | list items | tuple items => items.isEmpty
  | mapping entries => entries.isEmpty
  | _ => false

def textOrEmpty? : Value → Option String
  | text s => some s
  | v => if v.isVoid then some "" else none

def items? : Value → Option (List Value)
  | text s => some (s.toList.map fun c => text (.singleton c))
  | bytes content | buffer content => some (content.data.toList.map fun b => int b.toNat)
  | list items | tuple items | stream items => some items
  | mapping entries => some (entries.map (·.1))
  | _ => none

end Value

end Rebuild
