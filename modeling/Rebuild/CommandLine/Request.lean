import Rebuild.CommandLine.Help
import Rebuild.CommandLine.Matching

namespace Rebuild.CommandLine

/-- What is asked for. A module is missing when the only word in its place was a
separator. -/
inductive Question
  | status (output : String) (modules : List String) (always : Bool)
  | externs (output : String) (module? : Option String)
  | paths (output : String) (module? : Option String)
  deriving DecidableEq, Repr

/-- A request: the extensions to go by, and what is asked for. An extension is missing
when the text given for it was a separator. -/
structure Request where
  headerExt? : Option String
  implExt? : Option String
  otherExts? : Option (List (Option String))
  question : Question
  deriving DecidableEq, Repr

/-- How reading a command line ends without a request: the exit code and what goes to
standard output and to standard error. -/
structure Dismissal where
  exit : Nat
  output : String
  errors : String
  deriving DecidableEq, Repr

def helpOption : OptionSpec :=
  ⟨["-h", "--help"], .help⟩

def mainGrammar : Grammar where
  options := [
    helpOption,
    ⟨["--header-ext"], .value .headerExt⟩,
    ⟨["--impl-ext"], .value .implExt⟩,
    ⟨["--other-ext"], .value .otherExt⟩]
  slots := [⟨"command", .command⟩]

def CommandName.grammar : CommandName → Grammar
  | status => {
    options := [helpOption, ⟨["--always"], .flag .always⟩]
    slots := [⟨"output", .one⟩, ⟨"MODULE[=SOURCE]", .several⟩] }
  | externs | paths => {
    options := [helpOption]
    slots := [⟨"output", .one⟩, ⟨"module", .one⟩] }

namespace Dismissal

def ofMain : Stop → Dismissal
  | .help => ⟨0, mainHelp, ""⟩
  | .misuse message => ⟨2, "", mainUsage ++ programName ++ ": error: " ++ message ++ "\n"⟩

def ofCommand (c : CommandName) : Stop → Dismissal
  | .help => ⟨0, c.help, ""⟩
  | .misuse message =>
    ⟨2, "", c.usage ++ programName ++ " " ++ c.text ++ ": error: " ++ message ++ "\n"⟩

end Dismissal

def invalidChoice (word : String) : Stop :=
  .misuse ("argument command: invalid choice: " ++ Text.quote word ++ " (choose from " ++
    Text.join ", " (CommandName.all.map fun c => Text.quote c.text) ++ ")")

def Matched.values (m : Matched) (s : Setting) : List (Option String) :=
  (m.given.filter fun g => g.1 == s).map (·.2)

def CommandName.question (c : CommandName) (m : Matched) : Question :=
  let output := (m.filled.headD []).headD ""
  let words := m.filled.tail.headD []
  match c with
  | status => .status output words (!(m.values .always).isEmpty)
  | externs => .externs output words.head?
  | paths => .paths output words.head?

def CommandName.read (c : CommandName) (args : List String) :
    Except Dismissal (Question × List String) :=
  Except.mapError (Dismissal.ofCommand c) do
    let (m, unfilled) ← c.grammar.matchLine args
    requireFilled unfilled
    return (c.question m, m.leftOver)

def readCommand : List String → Except Dismissal (Question × List String)
  | [] => .error (.ofMain (.misuse "the following arguments are required: command"))
  | word :: args =>
    match CommandName.ofText? word with
    | some c => c.read args
    | none => .error (.ofMain (invalidChoice word))

def refuseLeftOver : List String → Except Dismissal Unit
  | [] => .ok ()
  | args => .error (.ofMain (.misuse ("unrecognized arguments: " ++ Text.join " " args)))

def Request.parse (args : List String) : Except Dismissal Request := do
  let (m, _) ← (mainGrammar.matchLine args).mapError .ofMain
  let (question, leftOver) ← readCommand m.filled.flatten
  refuseLeftOver (m.leftOver ++ leftOver)
  let others := m.values .otherExt
  return {
    headerExt? := (m.values .headerExt).getLast?.getD (some "hh")
    implExt? := (m.values .implExt).getLast?.getD (some "cc")
    otherExts? := if others.isEmpty then none else some others
    question }

end Rebuild.CommandLine
