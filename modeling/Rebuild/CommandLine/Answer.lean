import Rebuild.CommandLine.Request
import Rebuild.Project

namespace Rebuild.CommandLine

/-- How a run ends: what went to standard output and to standard error, the file tree it
leaves, and the exit code, or an error that the program does not report itself. -/
structure Outcome where
  output : String
  errors : String
  files : FileTree
  ending : Except BuildError Nat

namespace Outcome

def unlines (lines : List String) : String :=
  .join (lines.map (· ++ "\n"))

def ofResult : EStateM.Result BuildError Workspace Nat → Outcome
  | .ok code w => ⟨unlines w.printed, "", w.files, .ok code⟩
  | .error e w => ⟨unlines w.printed, "", w.files, .error e⟩

end Outcome

namespace Request

/-- The settings of a build that a request goes by. A missing extension counts as empty. -/
def config (r : Request) : Except BuildError Config :=
  let base : Settings := {}
  let others := match r.otherExts? with
    | none => base.otherExts
    | some exts => exts.map fun ext? => ext?.getD ""
  (Config.ofSettings { base with
    headerExt := r.headerExt?.getD ""
    implExt := r.implExt?.getD ""
    otherExts := others }).mapError .config

def project (output : String) (config : Config) (modules : ModuleMap) : Project where
  output := .parse output
  modules := modules
  config := config
  render := Declarations.plainRenderer

end Request

/-- The modules that arguments name with their locations: a name, or a name, an equals
sign and a source file. A name given again keeps its place. -/
def moduleArguments (policy : RebuildPolicy) (args : List String) :
    OrderedMap String Value :=
  .ofList (args.map fun arg =>
    match Text.cut '=' arg with
    | (name, some source) => (name, .text source)
    | (name, none) => (name, .policy policy))

def moduleMap (m : OrderedMap String Value) : Except BuildError ModuleMap :=
  ModuleMap.ofMapping ⟨m.toList.map fun p => (.text p.1, p.2)⟩

def statusLine (name : String) (stale : Bool) : String :=
  name ++ ": " ++ if stale then "stale" else "up to date"

/-- Prints one line for each module argument, up to the first that cannot be answered. -/
def printStatus (p : Project) : List String → BuildM Unit
  | [] => return ()
  | name :: rest => do
    let n ← ModuleName.ofValue (.text name)
    let stale ← p.needsRebuild (← get).files n
    printLine (statusLine name stale)
    printStatus p rest

def moduleOf : Option String → Except BuildError ModuleName
  | some s => ModuleName.ofValue (.text s)
  | none => ModuleName.ofValue (.list [])

def Question.answer (config : Config) : Question → BuildM Unit
  | .status output args always => do
    let given := moduleArguments (if always then .always else .never) args
    let modules ← moduleMap given
    printStatus (Request.project output config modules) given.keys
  | .externs output module? => do
    let name ← moduleOf module?
    let (_, text) ← (Request.project output config ⟨∅⟩).readExterns (← get).files name
    printLine text
  | .paths output module? => do
    let name ← moduleOf module?
    let a ← (Request.project output config ⟨∅⟩).artifacts name
    a.all.forM fun q => printLine q.text

namespace Request

def answer (r : Request) : BuildM Unit := do
  let config ← r.config
  r.question.answer config

/-- Prints the answer to a request and returns the exit code. An error that cuts the
answer short is printed too, if it is one to report. -/
def respond (r : Request) : BuildM Nat :=
  tryCatch
    (do
      r.answer
      return 0)
    fun e =>
      if e.isReported then do
        printLine ("✗ " ++ e.message)
        return 1
      else throw e

end Request

/-- A file tree before anything was printed. The clock is of no use to a run that writes
no file. -/
def opened (t : FileTree) : Workspace :=
  ⟨t, ⟨0, 0⟩, []⟩

def run (t : FileTree) (args : List String) : Outcome :=
  match Request.parse args with
  | .error d => ⟨d.output, d.errors, t, .ok d.exit⟩
  | .ok r => .ofResult (r.respond (opened t))

end Rebuild.CommandLine
