import Rebuild.CommandLine.Consulted

namespace Rebuild.Main

/-- What the file system holds under an absolute path: a directory, a file, or nothing. -/
def entryOf (name : String) : IO (Option Entry) := do
  let place : IO.FS.DirEntry := { root := "/", fileName := name }
  try
    let data ← place.path.metadata
    match data.type with
    | .dir => return some .directory
    | .file =>
      let content ← IO.FS.readBinFile place.path
      return some (.file content ⟨data.modified.sec, data.modified.nsec.toNat⟩)
    | _ => return none
  catch _ => return none

/-- Takes over into a tree what lies on the way along some names, from a place on. -/
def takeOver (t : FileTree) (place : Location) : List String → IO FileTree
  | [] => return t
  | ".." :: rest => takeOver t place.tail rest
  | name :: rest => do
    let names := (name :: place).reverse
    let p : Path := ⟨.single, names⟩
    match ← entryOf p.text with
    | some .directory => takeOver ((t.makeDir p).toOption.getD t) (name :: place) rest
    | some (.file content modified) => return (t.write p content modified).toOption.getD t
    | none => return t

/-- The part of the file system that lies on the way along some paths, seen from the
current directory. -/
def lookAt (paths : List Path) : IO FileTree := do
  let here := Path.parse (← IO.currentDir).toString
  let t ← takeOver ∅ [] here.parts
  let t := (t.enter here).toOption.getD t
  paths.foldlM (fun t p => takeOver t (t.startOf p.root) p.parts) t

end Rebuild.Main

open Rebuild

/-- Answers one command line; the exit code is the program's. -/
def main (args : List String) : IO UInt32 := do
  let paths := match CommandLine.Request.parse args with
    | .ok r => r.consulted
    | .error _ => []
  let outcome := CommandLine.run (← Main.lookAt paths) args
  IO.print outcome.output
  IO.eprint outcome.errors
  match outcome.ending with
  | .ok code => return code.toUInt32
  | .error e =>
    IO.eprintln e.message
    return 1
