import Rebuild.Value.Basic

namespace Rebuild.Value

def kind : Value → String
  | null => "NoneType"
  | bool _ => "bool"
  | int _ => "int"
  | float _ => "float"
  | text _ => "str"
  | bytes _ => "bytes"
  | buffer _ => "bytearray"
  | path _ => "PosixPath"
  | name _ => "ModuleName"
  | foreignImport _ => "ForeignImport"
  | policy _ => "RebuildPolicy"
  | location (.file _) => "FileBacked"
  | location (.governed _) => "PolicyGoverned"
  | headerEnd => "_EndOfHeader"
  | renderable _ => "Renderable"
  | compiling _ => "CompilingModule"
  | list _ => "list"
  | tuple _ => "tuple"
  | stream _ => "list_iterator"
  | mapping _ => "dict"

/-- Where the kind of a value belongs, as a qualifier of its name. -/
def kindOrigin : Value → String
  | path _ => "pathlib."
  | name _ | location _ => "pcc.make.core."
  | foreignImport _ => "pcc.ffi."
  | headerEnd => "pcc.make.codegen."
  | compiling _ => "pcc.make.progress."
  | _ => ""

/-- The kind of a value as it is shown where a kind stands for itself. -/
def kindLiteral : Value → String
  | policy _ => "<enum 'RebuildPolicy'>"
  | v => "<class '" ++ v.kindOrigin ++ v.kind ++ "'>"

/-- Numbers are written positionally from a ten-thousandth up to ten to the 16th. -/
def floatForm : Number.DecimalForm := ⟨-4, 16, 2⟩

def policyLiteral : RebuildPolicy → String
  | .never => "<RebuildPolicy.NEVER: 'never'>"
  | .always => "<RebuildPolicy.ALWAYS: 'always'>"

def locationLiteral : SourceLocation → String
  | .file p => "FileBacked(path=" ++ p.literal ++ ")"
  | .governed p => "PolicyGoverned(policy=" ++ policyLiteral p ++ ")"

mutual

def literal : Value → String
  | null => "None"
  | bool b => if b then "True" else "False"
  | int n => toString n
  | float x => x.write floatForm
  | text s => Text.quote s
  | bytes content => "b" ++ Text.quoteBytes content.data.toList
  | buffer content => "bytearray(b" ++ Text.quoteBuffer content.data.toList ++ ")"
  | path p => p.literal
  | name n => "ModuleName(value=" ++ Text.quote n.text ++ ")"
  | foreignImport f => "ForeignImport(name=" ++ Text.quote f.name ++ ")"
  | policy p => policyLiteral p
  | location l => locationLiteral l
  | headerEnd => "END_OF_HEADER"
  | renderable _ => "<object>"
  | compiling v => "CompilingModule(name=" ++ literal v ++ ")"
  | list items => "[" ++ Text.join ", " (literals items) ++ "]"
  | tuple [item] => "(" ++ literal item ++ ",)"
  | tuple items => "(" ++ Text.join ", " (literals items) ++ ")"
  | stream _ => "<list_iterator>"
  | mapping entries => "\x7b" ++ Text.join ", " (entryLiterals entries) ++ "\x7d"

def literals : List Value → List String
  | [] => []
  | v :: vs => literal v :: literals vs

def entryLiterals : List (Value × Value) → List String
  | [] => []
  | (key, v) :: entries => (literal key ++ ": " ++ literal v) :: entryLiterals entries

end

/-- The plain text of a value: like its literal, but text, paths and names stand
for themselves. -/
def plain : Value → String
  | text s => s
  | path p => p.text
  | name n => n.text
  | policy .never => "RebuildPolicy.NEVER"
  | policy .always => "RebuildPolicy.ALWAYS"
  | v => literal v

end Rebuild.Value
