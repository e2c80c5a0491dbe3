import Rebuild.CompiledModule
import Rebuild.Declarations
import Rebuild.Files
import Rebuild.ModuleMap

namespace Rebuild

structure Project where
  output : Path
  modules : ModuleMap
  config : Config
  render : Renderer

/-- How old the inputs of a module are: what its policy says, or when the newest of
them was changed, if any is there. -/
inductive InputAge
  | policy (p : RebuildPolicy)
  | newest (t : Option Timestamp)
  deriving DecidableEq, Repr

/-- Inputs of some age call for a rebuild of outputs written at a time. -/
def InputAge.outdates (written : Timestamp) : InputAge → Bool
  | .policy p => p = .always
  | .newest none => false
  | .newest (some changed) => written < changed

namespace FileTree

def timestamps (t : FileTree) : List Path → Except BuildError (List (Option Timestamp))
  | [] => .ok []
  | p :: ps => do
    let stamp ← t.timestamp? p
    let stamps ← t.timestamps ps
    return stamp :: stamps

def timestampsWhilePresent (t : FileTree) :
    List Path → Except BuildError (List (Option Timestamp))
  | [] => .ok []
  | p :: ps => do
    match ← t.timestamp? p with
    | none => return [none]
    | some stamp =>
      let stamps ← t.timestampsWhilePresent ps
      return some stamp :: stamps

end FileTree

namespace Project

def artifacts (p : Project) (name : ModuleName) : Except BuildError Artifacts :=
  (Artifacts.ofModule p.output name p.config).mapError .fileName

def inputs (p : Project) (source : Path) : Except BuildError (List Path) := do
  let found ← (companions source p.config).mapError .fileName
  return source :: found.values

def inputAgeAt (p : Project) (t : FileTree) : SourceLocation → Except BuildError InputAge
  | .governed policy => .ok (.policy policy)
  | .file source => do
    let stamps ← t.timestamps (← p.inputs source)
    return .newest (Timestamp.latest stamps)

def inputAge (p : Project) (t : FileTree) (name : ModuleName) :
    Except BuildError InputAge := do
  p.inputAgeAt t (← p.modules.locate name)

/-- When the oldest of a module's primary outputs was written, if all are there. -/
def outputTimestamp (p : Project) (t : FileTree) (name : ModuleName) :
    Except BuildError (Option Timestamp) := do
  let a ← p.artifacts name
  return Timestamp.earliestOfAll (← t.timestampsWhilePresent a.primary)

/-- A module is stale: a primary output is missing, its policy asks for a rebuild each
time, or one of its inputs was changed after one of its primary outputs. -/
def needsRebuild (p : Project) (t : FileTree) (name : ModuleName) : Except BuildError Bool := do
  let location ← p.modules.locate name
  match ← p.outputTimestamp t name with
  | none => return true
  | some written => return InputAge.outdates written (← p.inputAgeAt t location)

def readExterns (p : Project) (t : FileTree) (name : ModuleName) :
    Except BuildError (Path × String) := do
  let a ← p.artifacts name
  return (a.externs, ← t.readText a.externs)

end Project

end Rebuild
