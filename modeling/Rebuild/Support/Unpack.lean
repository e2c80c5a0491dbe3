import Rebuild.Files
import Rebuild.Support.Payload

namespace Rebuild.Support

def payloads : List (String × Content) :=
  files.map fun f => (f.1, .bytes f.2.toUTF8)

def writeAll (target : Path) : List (String × Content) → BuildM Unit
  | [] => return ()
  | (name, content) :: rest => do
    let _ ← writeFile (target.child name) content
    writeAll target rest

/-- Unpacks support files into a directory of the output tree, unless it is there.
Tells whether they were written. -/
def unpack (output : Path) (directory : String) (payloads : List (String × Content)) :
    BuildM Bool := do
  let target := output.normalize.child directory
  if ← (← get).files.isDirectory target then
    return false
  else
    writeAll target payloads
    printLine ("  ✓ Runtime support written → " ++ target.text)
    return true

end Rebuild.Support
