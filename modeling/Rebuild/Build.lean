import Rebuild.Output

/-!
Building modules in a given order: each that is stale is compiled and written.
-/

namespace Rebuild

/-- What a compiler returns for a module: the module, the environment its declarations
are rendered in, and its interface data. -/
structure Compilation where
  module : CompiledModule
  environment : Value
  externs : Content

/-- Compiles the module of a name. A compiler may read the file tree. -/
abbrev Compiler := FileTree → ModuleName → Except BuildError Compilation

def progressLine : Value → Except BuildError String
  | .compiling v => .ok ("Compiling " ++ v.plain)
  | v => .error (.shape (.event v))

def report (event : Value) : BuildM Unit := do
  printLine (← progressLine event)

/-- Unpacks the support files up front, before any module is built. -/
def prepareOutput (output : Path) (directory : String) : BuildM Bool :=
  Support.unpack output directory Support.payloads

namespace Project

def rebuild (p : Project) (compile : Compiler) (name : ModuleName) : BuildM Unit := do
  report (.compiling (.name name))
  let c ← compile (← get).files name
  let _ ← p.persist c.module c.environment c.externs
  return ()

/-- Rebuilds the stale ones of some modules, in order, and returns their names. The
first error ends the build. -/
def build (p : Project) (compile : Compiler) : List Value → BuildM (List ModuleName)
  | [] => return []
  | v :: rest => do
    let name ← ModuleName.ofValue v
    if ← p.needsRebuild (← get).files name then
      p.rebuild compile name
      return name :: (← p.build compile rest)
    else
      p.build compile rest

end Project

end Rebuild
