import Rebuild.Config
import Rebuild.ModuleName
import Rebuild.OrderedMap

namespace Rebuild

/-- The path with another last component: the old one, a dot and an extension. -/
def Path.addExtension (p : Path) (ext : Extension) : Except Path.NameFault Path :=
  p.withName (p.name?.getD "" ++ "." ++ ext.text)

def Path.addExtensions (p : Path) :
    List Extension → Except Path.NameFault (OrderedMap Extension Path)
  | exts => do
    let pairs ← exts.mapM fun ext => return (ext, ← p.addExtension ext)
    return .ofList pairs

/-- Every path that a build may write for one module. -/
structure Artifacts where
  directory : Path
  implementation : Path
  header : Path
  externs : Path
  foreignHeader : Path
  foreignImplementation : Path
  foreignOthers : OrderedMap Extension Path
  deriving DecidableEq

namespace Artifacts

/-- The outputs of a module: files named after its last segment, in a directory of
its own that follows its segments. -/
def ofModule (output : Path) (name : ModuleName) (config : Config) :
    Except Path.NameFault Artifacts := do
  let directory := output.normalize ++ name.relativeDir
  let base := directory.child name.baseName
  let mangled ← base.withName (base.name?.getD "" ++ config.mangle)
  let implementation ← base.addExtension config.implExt
  let header ← base.addExtension config.headerExt
  let foreignHeader ← mangled.addExtension config.headerExt
  let foreignImplementation ← mangled.addExtension config.implExt
  let foreignOthers ← mangled.addExtensions config.otherExts
  return {
    directory, implementation, header
    externs := directory.child config.externsFile
    foreignHeader, foreignImplementation, foreignOthers }

/-- The outputs whose presence and age decide whether a module is rebuilt. -/
def primary (a : Artifacts) : List Path :=
  [a.implementation, a.header, a.externs]

/-- Every path that a build may write for the module, directories apart. -/
def all (a : Artifacts) : List Path :=
  a.primary ++ a.foreignHeader :: a.foreignImplementation :: a.foreignOthers.values

end Artifacts

/-- The paths of the foreign companions beside a source file, by extension. -/
def companions (source : Path) (config : Config) :
    Except Path.NameFault (OrderedMap Extension Path) := do
  let base ← source.normalize.withoutExtension
  base.addExtensions config.companionExts

end Rebuild
