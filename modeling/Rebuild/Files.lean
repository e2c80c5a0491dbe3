import Rebuild.FileTree.Access
import Rebuild.Text.LineEnd
import Rebuild.Workspace

/-!
The file operations of a build. Each names the path at which the file system
refused it; a write or a copy is whole or leaves every file as it was.
-/

namespace Rebuild

namespace FileTree

def timestamp? (t : FileTree) (p : Path) : Except BuildError (Option Timestamp) :=
  match t.probe p with
  | .error fault => .error (.info p.normalize fault)
  | .ok (some (.file _ modified)) => .ok (some modified.timestamp)
  | .ok _ => .ok none

def isFile (t : FileTree) (p : Path) : Except BuildError Bool :=
  match t.probe p with
  | .error fault => .error (.read p.normalize fault)
  | .ok e => .ok (e.any Entry.isFile)

def isDirectory (t : FileTree) (p : Path) : Except BuildError Bool :=
  match t.probe p with
  | .error fault => .error (.read p.normalize fault)
  | .ok e => .ok (e.any Entry.isDirectory)

/-- The text of a file, its line ends unified. -/
def readText (t : FileTree) (p : Path) : Except BuildError String :=
  match t.read p with
  | .error .embeddedNul => .error .embeddedNul
  | .error (.refused fault) => .error (.read p.normalize fault)
  | .ok content =>
    match Text.Utf8.decode content with
    | .error fault => .error (.encoding fault)
    | .ok s => .ok (Text.unifyLineEnds s)

end FileTree

def BuildError.ofWrite (p : Path) : AccessFault → BuildError
  | .embeddedNul => .embeddedNul
  | .refused fault => .write ⟨p.normalize, fault⟩ []

def BuildError.ofContent (p : Path) (c : Content) : ContentFault → BuildError
  | .unencodable fault => .unencodable fault
  | .shape => .shape (.content p.normalize c)

/-- Makes the directory of a path, and those above it that are missing. -/
def makeParents (p : Path) : BuildM Unit := do
  let w ← get
  let (files, answer) := w.files.makeDirs p.normalize.parent
  set { w with files }
  match answer with
  | .ok () => return ()
  | .error fault => throw (.ofWrite p fault)

def putBytes (p : Path) (content : ByteArray) : BuildM Unit := do
  let w ← get
  match w.files.write p content w.now with
  | .ok files => set { w with files }
  | .error fault => throw (.ofWrite p fault)

def writeBytes (p : Path) (content : ByteArray) : BuildM Path := do
  makeParents p
  putBytes p content
  return p.normalize

def writeFile (p : Path) (c : Content) : BuildM Path :=
  match c.toBytes with
  | .error fault => throw (.ofContent p c fault)
  | .ok content => writeBytes p content

/-- Copies the bytes of a file to another path, making the directories above that. -/
def copyFile (source target : Path) : BuildM Path := do
  makeParents target
  let w ← get
  match w.files.copy source target w.now with
  | .ok files =>
    set { w with files }
    return target.normalize
  | .error fault => throw (.ofWrite target fault)

end Rebuild
