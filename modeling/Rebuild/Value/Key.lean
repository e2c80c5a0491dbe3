import Rebuild.Value.Basic

namespace Rebuild.Value

mutual

/-- The part of a value that keeps it from being a key, if there is one. -/
def keyBar? : Value → Option Value
  | buffer content => some (buffer content)
  | list items => some (list items)
  | mapping entries => some (mapping entries)
  | tuple items => keyBarAmong? items
  | compiling v => keyBar? v
  | _ => none

def keyBarAmong? : List Value → Option Value
  | [] => none
  | v :: vs => (keyBar? v).or (keyBarAmong? vs)

end

def ofBool (b : Bool) : Int :=
  if b then 1 else 0

mutual

def sameKey : Value → Value → Bool
  | null, null => true
  | bool a, bool b => a == b
  | bool a, int b => ofBool a == b
  | int a, bool b => a == ofBool b
  | int a, int b => a == b
  | float a, float b => a.eqValue b
  | float a, int b => a.eqInt b
  | int a, float b => b.eqInt a
  | float a, bool b => a.eqInt (ofBool b)
  | bool a, float b => b.eqInt (ofBool a)
  | text a, text b => a == b
  | bytes a, bytes b => a == b
  | path a, path b => a == b
  | name a, name b => a == b
  | foreignImport a, foreignImport b => a == b
  | policy a, policy b => a == b
  | location a, location b => a == b
  | headerEnd, headerEnd => true
  | compiling a, compiling b => sameKey a b
  | tuple as, tuple bs => sameKeys as bs
  | _, _ => false

def sameKeys : List Value → List Value → Bool
  | [], [] => true
  | a :: as, b :: bs => sameKey a b && sameKeys as bs
  | _, _ => false

end

instance : BEq Value := ⟨sameKey⟩

end Rebuild.Value
