import Rebuild.Companions
import Rebuild.Project
import Rebuild.Support.Unpack

/-!
Writing the outputs of one compiled module: the three primary files, then the
support files, then the foreign companions. The primary files are independent of
each other; later steps are left out when one of them could not be written.
-/

namespace Rebuild

def renderModule (render : Renderer) (config : Config) (m : CompiledModule)
    (environment : Value) : Except BuildError (CodeText × CodeText) := do
  let (header, implementation) ← Declarations.split m.declarations
  let headerBody ← render header environment
  let implementationBody ← render implementation environment
  return (Declarations.withBanner config headerBody,
    Declarations.withBanner config implementationBody)

def tryWrite (p : Path) (content : Content) : BuildM (Option WriteFailure) :=
  tryCatch
    (do
      let _ ← writeFile p content
      return none)
    fun
      | .write failure _ => return some failure
      | e => throw e

def tryWriteAll : List (Path × Content) → BuildM (List WriteFailure)
  | [] => return []
  | (p, content) :: rest => do
    let failure ← tryWrite p content
    return failure.toList ++ (← tryWriteAll rest)

namespace Project

/-- Writes a module's primary files. All are tried; if some could not be written, the
first failure is the error and brings the others with it. A text with a surrogate in it
ends the writing at once. -/
def writePrimary (p : Project) (m : CompiledModule) (environment : Value) (externs : Content) :
    BuildM Artifacts := do
  if !externs.isExterns then
    throw (.shape (.externs m.name externs))
  let a ← p.artifacts m.name
  let (header, implementation) ← renderModule p.render p.config m environment
  let failures ← tryWriteAll
    [(a.implementation, .text implementation), (a.header, .text header), (a.externs, externs)]
  match failures with
  | [] => return a
  | first :: rest => throw (.write first rest)

def writeModule (p : Project) (m : CompiledModule) (environment : Value) (externs : Content)
    (source? : Option Path) : BuildM Artifacts := do
  let a ← p.writePrimary m environment externs
  let _ ← Support.unpack p.output p.config.supportDir Support.payloads
  let _ ← writeCompanions source? m.needsForeign a p.config
  return a

def persist (p : Project) (m : CompiledModule) (environment : Value) (externs : Content) :
    BuildM Artifacts := do
  let location ← p.modules.locate m.name
  p.writeModule m environment externs location.file?

end Project

end Rebuild
