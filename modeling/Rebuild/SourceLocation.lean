import Rebuild.Path

namespace Rebuild

/-- How a module without a source file is rebuilt once its outputs are there. -/
inductive RebuildPolicy
  | never
  | always
  deriving DecidableEq, Repr

inductive SourceLocation
  | file (path : Path)
  | governed (policy : RebuildPolicy)
  deriving DecidableEq, Repr

namespace SourceLocation

def ofPath (p : Path) : SourceLocation :=
  .file p.normalize

/-- The source file, if one backs the module. -/
def file? : SourceLocation → Option Path
  | .file p => some p
  | .governed _ => none

end SourceLocation

end Rebuild
