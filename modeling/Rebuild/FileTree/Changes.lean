import Rebuild.FileTree.Access

namespace Rebuild.FileTree

/-- One difference between two trees, at a place. -/
inductive Change
  | madeDirectory (place : Location)
  | wroteFile (place : Location) (content : ByteArray) (modified : MTime)
  | gone (place : Location)
  deriving DecidableEq

namespace Change

def place : Change → Location
  | madeDirectory l => l
  | wroteFile l _ _ => l
  | gone l => l

def pathText (c : Change) : String :=
  Text.join "/" c.place.reverse

end Change

/-- What a tree holds at a place and an older one does not. -/
def changeAt (before after : FileTree) (l : Location) : Option Change :=
  match before.get? l, after.get? l with
  | some _, none => some (.gone l)
  | old, some .directory => if old = some .directory then none else some (.madeDirectory l)
  | old, some (.file content modified) =>
    if old = some (.file content modified) then none else some (.wroteFile l content modified)
  | none, none => none

def changes (before after : FileTree) : List Change :=
  let places := (before.places ++ after.places).eraseDups
  (places.filterMap (changeAt before after)).mergeSort fun a b => a.pathText ≤ b.pathText

end Rebuild.FileTree
