import Rebuild.Error

namespace Rebuild

/-- The file tree of a build, the modification time of what it writes, and the lines
printed so far. -/
structure Workspace where
  files : FileTree
  now : MTime
  printed : List String

/-- A step of a build. What it did before an error stays done. -/
abbrev BuildM := EStateM BuildError Workspace

/-- Answers that need no change of the workspace. -/
instance : MonadLift (Except BuildError) BuildM where
  monadLift
    | .ok a => pure a
    | .error e => throw e

def printLine (line : String) : BuildM Unit :=
  modify fun w => { w with printed := w.printed ++ [line] }

end Rebuild
