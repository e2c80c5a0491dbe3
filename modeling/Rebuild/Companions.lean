import Rebuild.Files

namespace Rebuild

/-- The companion of a source with some extension, if it is a file. -/
def presentCompanion (found : OrderedMap Extension Path) (ext : Extension) :
    BuildM (Option Path) := do
  match found.get? ext with
  | none => return none
  | some source => if ← (← get).files.isFile source then return some source else return none

/-- The header companion is copied; without one, a module with foreign imports gets an
empty header, so that there is always one to include. -/
def writeForeignHeader (found : OrderedMap Extension Path) (needsForeign : Bool)
    (a : Artifacts) (config : Config) : BuildM (List Path) := do
  match ← presentCompanion found config.headerExt with
  | some source => return [← copyFile source a.foreignHeader]
  | none =>
    if needsForeign then return [← writeBytes a.foreignHeader .empty]
    else return []

/-- The implementation companion is copied; nothing stands in for one. -/
def writeForeignImplementation (found : OrderedMap Extension Path) (a : Artifacts)
    (config : Config) : BuildM (List Path) := do
  match ← presentCompanion found config.implExt with
  | some source => return [← copyFile source a.foreignImplementation]
  | none => return []

/-- Copies a further companion if it is a file and the file system lets it. -/
def copyIfPossible (source target : Path) : BuildM (List Path) :=
  tryCatch
    (do
      if ← (← get).files.isFile source then return [← copyFile source target]
      else return [])
    fun e => if e.isFileError then return [] else throw e

def copyOthers (found : OrderedMap Extension Path) :
    List (Extension × Path) → BuildM (List Path)
  | [] => return []
  | (ext, target) :: rest => do
    let copied ←
      match found.get? ext with
      | none => pure []
      | some source => copyIfPossible source target
    return copied ++ (← copyOthers found rest)

/-- Writes the foreign companions of a module and returns the paths written. Only a
source file has companions. -/
def writeCompanions (source? : Option Path) (needsForeign : Bool) (a : Artifacts)
    (config : Config) : BuildM (List Path) := do
  let found ←
    match source? with
    | none => pure ∅
    | some source => monadLift ((companions source config).mapError BuildError.fileName)
  let header ← writeForeignHeader found needsForeign a config
  let implementation ← writeForeignImplementation found a config
  let others ← copyOthers found a.foreignOthers.toList
  return header ++ implementation ++ others

end Rebuild
