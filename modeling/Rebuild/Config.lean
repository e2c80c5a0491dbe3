import Rebuild.Path
import Rebuild.Text.Blank
import Rebuild.Text.CodePoint

namespace Rebuild

/-- A file extension without its dot: not empty, no blanks around it, and no dot in
front. -/
structure Extension where
  text : String
  strip_text : Text.strip text = text
  text_ne : text ≠ ""
  undotted : text.toList.head? ≠ some '.'

namespace Extension

inductive Fault
  | empty
  | dotted (ext : String)
  deriving DecidableEq, Repr

def Fault.message : Fault → String
  | .empty => "File extensions must not be empty"
  | .dotted ext => "File extension " ++ Text.quote ext ++ " must not start with a dot"

/-- Reads an extension; blanks around it do not count. -/
def parse (s : String) : Except Fault Extension :=
  let ext := Text.strip s
  if hne : ext = "" then .error .empty
  else if hdot : ext.toList.head? = some '.' then .error (.dotted ext)
  else .ok ⟨ext, Text.strip_strip s, hne, hdot⟩

def parseAll : List String → Except Fault (List Extension)
  | [] => .ok []
  | s :: rest => do
    let ext ← parse s
    let exts ← parseAll rest
    return ext :: exts

@[ext] theorem ext {a b : Extension} (h : a.text = b.text) : a = b := by
  cases a
  cases b
  simp_all

instance : DecidableEq Extension :=
  fun _ _ => decidable_of_iff _ ⟨ext, congrArg text⟩

theorem parse_text (a : Extension) : parse a.text = .ok a := by
  simp [parse, a.strip_text, a.text_ne, a.undotted]

theorem text_of_parse {s : String} {a : Extension} (h : parse s = .ok a) :
    a.text = Text.strip s := by
  simp only [parse] at h
  split at h
  · cases h
  · split at h
    · cases h
    · cases h
      rfl

end Extension

structure Settings where
  headerExt : String := "hh"
  implExt : String := "cc"
  otherExts : List String := ["h", "inl"]
  mangle : String := "_ffi"
  externsFile : String := "externs.json"
  supportDir : String := "PureScript"
  usePrefix : Bool := true
  toolName : CodeText := "pcc"
  version : CodeText := "0.9.2"
  deriving DecidableEq, Repr

/-- Build settings that were found usable: the extensions of headers, of
implementations and of further foreign companions, what foreign companions have
between base name and extension, the name of the interface file, the directory of
the support files, whether outputs begin with a banner, and what the banner says. -/
structure Config where
  headerExt : Extension
  implExt : Extension
  otherExts : List Extension
  mangle : String
  externsFile : String
  supportDir : String
  usePrefix : Bool
  toolName : CodeText
  version : CodeText
  mangle_ne : mangle ≠ ""
  deriving DecidableEq

namespace Config

inductive Fault
  | extension (fault : Extension.Fault)
  | emptyMangle
  deriving DecidableEq, Repr

def Fault.message : Fault → String
  | .extension fault => fault.message
  | .emptyMangle => "FFI mangle suffix must not be empty"

/-- Checks settings: header extension, implementation extension, the others in
order, then the mangle suffix. -/
def ofSettings (s : Settings) : Except Fault Config := do
  let headerExt ← (Extension.parse s.headerExt).mapError .extension
  let implExt ← (Extension.parse s.implExt).mapError .extension
  let otherExts ← (Extension.parseAll s.otherExts).mapError .extension
  if h : s.mangle = "" then .error .emptyMangle
  else
    return {
      headerExt, implExt, otherExts
      mangle := s.mangle
      externsFile := s.externsFile
      supportDir := s.supportDir
      usePrefix := s.usePrefix
      toolName := s.toolName
      version := s.version
      mangle_ne := h }

def default : Config where
  headerExt := ⟨"hh", by decide, by decide, by decide⟩
  implExt := ⟨"cc", by decide, by decide, by decide⟩
  otherExts := [⟨"h", by decide, by decide, by decide⟩, ⟨"inl", by decide, by decide, by decide⟩]
  mangle := "_ffi"
  externsFile := "externs.json"
  supportDir := "PureScript"
  usePrefix := true
  toolName := "pcc"
  version := "0.9.2"
  mangle_ne := by decide

theorem ofSettings_default : ofSettings {} = .ok default :=
  rfl

/-- The line that tells what generated a file. -/
def banner (config : Config) : CodeText :=
  "Generated by " ++ config.toolName ++ " version " ++ config.version

def companionExts (config : Config) : List Extension :=
  config.implExt :: config.headerExt :: config.otherExts

end Config

end Rebuild
