import Rebuild.Value.Content
import Rebuild.Value.Reading

namespace Rebuild

/-- Turns declarations, in an environment, into text. -/
abbrev Renderer := List Content → Value → Except BuildError CodeText

namespace Declarations

def isHeaderEnd : Content → Bool
  | .headerEnd => true
  | _ => false

/-- The declarations before the end of the header and those after it. Without an end
all are header declarations. -/
def split (ds : List Content) : Except BuildError (List Content × List Content) :=
  let header := ds.takeWhile fun d => !isHeaderEnd d
  match ds.dropWhile fun d => !isHeaderEnd d with
  | [] => .ok (header, [])
  | _ :: implementation =>
    if implementation.any isHeaderEnd then .error .repeatedHeaderEnd
    else .ok (header, implementation)

def text : Content → Except BuildError CodeText
  | .value (.text s) | .value (.renderable s) => .ok s
  | .text t | .renderable t => .ok t
  | .value v => .error (.shape (.declaration v))

def texts : List Content → Except BuildError (List CodeText)
  | [] => .ok []
  | d :: ds => do
    let line ← text d
    let lines ← texts ds
    return line :: lines

def render (ds : List Content) : Except BuildError CodeText := do
  return CodeText.join "\n" (← texts ds)

def plainRenderer : Renderer :=
  fun ds _ => render ds

/-- A text as the contents of an output file: a banner in front, if the settings ask
for one, and a line end behind. -/
def withBanner (config : Config) (body : CodeText) : CodeText :=
  (if config.usePrefix then "// " ++ config.banner ++ "\n" else "") ++ body ++ "\n"

end Declarations

end Rebuild
