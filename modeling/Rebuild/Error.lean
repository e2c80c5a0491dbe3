import Rebuild.Artifacts
import Rebuild.FileTree.Resolve
import Rebuild.Text.Utf8
import Rebuild.Value.Content

namespace Rebuild

namespace FileFault

/-- What the file system says of a fault. Of one file under two paths it says nothing. -/
def detail? : FileFault → Option String
  | notFound => some "No such file or directory"
  | notADirectory => some "Not a directory"
  | isADirectory => some "Is a directory"
  | alreadyExists => some "File exists"
  | nameTooLong => some "File name too long"
  | sameFile => none

/-- A fault behind what was being done. -/
def addTo (fault : FileFault) (action : String) : String :=
  match fault.detail? with
  | some detail => action ++ ": " ++ detail
  | none => action

end FileFault

namespace Text.Utf8

def Reason.message : Reason → String
  | .invalidStart => "invalid start byte"
  | .invalidContinuation => "invalid continuation byte"
  | .unexpectedEnd => "unexpected end of data"

def Fault.message (f : Fault) : String :=
  let place :=
    if f.extent = 1 then
      "byte 0x" ++ .ofList (hexDigits 2 f.byte.toNat) ++ " in position " ++ toString f.start
    else
      "bytes in position " ++ toString f.start ++ "-" ++ toString (f.start + f.extent - 1)
  "'utf-8' codec can't decode " ++ place ++ ": " ++ f.reason.message

end Text.Utf8

def CodeText.Fault.message (f : Fault) : String :=
  let place :=
    if f.extent = 1 then
      "character '\\u" ++ .ofList (Text.hexDigits 4 (0xD800 + f.surrogate)) ++
        "' in position " ++ toString f.start
    else
      "characters in position " ++ toString f.start ++ "-" ++ toString (f.start + f.extent - 1)
  "'utf-8' codec can't encode " ++ place ++ ": surrogates not allowed"

structure WriteFailure where
  path : Path
  fault : FileFault
  deriving DecidableEq, Repr

def WriteFailure.message (f : WriteFailure) : String :=
  f.fault.addTo ("Cannot write file " ++ f.path.text)

/-- A value of a shape that an operation does not take. -/
inductive ShapeFault
  | moduleName (v : Value)
  | location (v : Value)
  | bareBinding
  | binding (v : Value)
  | declaration (v : Value)
  | event (v : Value)
  | externs (module : ModuleName) (c : Content)
  | content (path : Path) (c : Content)
  | walk (v : Value)
  | key (v : Value)

def ShapeFault.message : ShapeFault → String
  | moduleName v => "Unsupported module name type: " ++ v.kindLiteral
  | location v => "Unsupported source location: " ++ v.literal
  | bareBinding => "Foreign imports must be given as an iterable of bindings"
  | binding v => "Unsupported foreign import: " ++ v.literal
  | declaration v => "Cannot render declaration: " ++ v.literal
  | event v => "Unknown progress message: " ++ v.literal
  | externs module c =>
    "Externs for " ++ module.text ++ " must be str or bytes, not " ++ c.kind
  | content path c => "Cannot write " ++ c.kind ++ " to " ++ path.text
  | walk v => "'" ++ v.kind ++ "' object is not iterable"
  | key v => "unhashable type: '" ++ v.kind ++ "'"

/-- Why an operation of a build did not succeed. An `external` error comes from the
compiler or renderer that was plugged in, and is of a kind of its own. -/
inductive BuildError
  | read (path : Path) (fault : FileFault)
  | info (path : Path) (fault : FileFault)
  | write (first : WriteFailure) (rest : List WriteFailure)
  | embeddedNul
  | encoding (fault : Text.Utf8.Fault)
  | unencodable (fault : CodeText.Fault)
  | unknownModule (name : ModuleName)
  | moduleName (fault : ModuleName.Fault)
  | config (fault : Config.Fault)
  | fileName (fault : Path.NameFault)
  | unnamedForeign
  | repeatedHeaderEnd
  | shape (fault : ShapeFault)
  | external (kind message : String)

namespace BuildError

def message : BuildError → String
  | read path fault => fault.addTo ("Cannot read file " ++ path.text)
  | info path fault => fault.addTo ("Cannot get file info for " ++ path.text)
  | write first _ => first.message
  | embeddedNul => "embedded null byte"
  | encoding fault => fault.message
  | unencodable fault => fault.message
  | unknownModule name => "Module " ++ name.text ++ " has no filename in 'make'"
  | moduleName fault => fault.message
  | config fault => fault.message
  | fileName fault => fault.message
  | unnamedForeign => "Foreign import requires a name"
  | repeatedHeaderEnd => "Declaration stream has more than one end-of-header marker"
  | shape fault => fault.message
  | external _ message => message

/-- Errors about the build and its files, which the command line reports as its
answer. Values of a wrong shape and errors of plugged-in parts are not among them. -/
def isReported : BuildError → Bool
  | shape _ => false
  | external _ _ => false
  | _ => true

def isFileError : BuildError → Bool
  | read _ _ => true
  | info _ _ => true
  | write _ _ => true
  | _ => false

end BuildError

end Rebuild
