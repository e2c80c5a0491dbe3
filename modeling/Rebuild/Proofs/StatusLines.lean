import Mathlib.Data.List.Nodup
import Rebuild.Proofs.CompanionEdits
import Rebuild.Proofs.Inspection
import Rebuild.Proofs.ModuleLocations

namespace Rebuild.Proofs.StatusLines

open Rebuild.CommandLine
open Rebuild.Proofs.Steps
open Rebuild.Proofs.Layout
open Rebuild.Proofs.Runs
open Rebuild.Proofs.Inspection
open Rebuild.Proofs.ModuleEntries
open Rebuild.Proofs.ModuleLocations

/-- A module argument: a name, which holds no equals sign, and the source given behind the
first equals sign, if there is one. -/
structure ModuleArgument where
  name : String
  source? : Option String
  no_equals : '=' ∉ name.toList

namespace ModuleArgument

def text (a : ModuleArgument) : String :=
  match a.source? with
  | none => a.name
  | some source => a.name ++ "=" ++ source

def location (policy : RebuildPolicy) (a : ModuleArgument) : SourceLocation :=
  match a.source? with
  | none => .governed policy
  | some source => .ofPath (.parse source)

def value (policy : RebuildPolicy) (a : ModuleArgument) : Value :=
  match a.source? with
  | none => .policy policy
  | some source => .text source

end ModuleArgument

def rawNames (given : List ModuleArgument) : List String :=
  (given.map (·.name)).eraseDups

section

variable {policy : RebuildPolicy} {given : List ModuleArgument}

end

section

variable {policy : RebuildPolicy} {given : List ModuleArgument}

end

/-- What is printed of the answers to some questions: a line for each, up to the first that
there is none to. -/
def report : List (String × Except BuildError Bool) → List String
  | [] => []
  | (_, .error e) :: _ => ["✗ " ++ e.message]
  | (raw, .ok stale) :: rest => statusLine raw stale :: report rest

section

variable {α : Type} {w : Workspace} {lines more : List String}

end

def extensionsOf (r : Request) : List String :=
  r.headerExt?.getD "" :: r.implExt?.getD "" :: (r.otherExts?.getD []).map (·.getD "")

/-- Every extension and every name that a request for a status gives can be read. -/
structure IsReadable (r : Request) (given : List ModuleArgument) : Prop where
  extensions : ∀ ext ∈ extensionsOf r, ∃ e, Extension.parse ext = .ok e
  names : ∀ raw ∈ rawNames given, ∃ n, ModuleName.parse raw = .ok n

section

variable {policy : RebuildPolicy} {given : List ModuleArgument}
variable {ask : ModuleName → SourceLocation → Except BuildError Bool}
variable {results : List (String × Except BuildError Bool)}

end

section

variable {r : Request} {w : Workspace} {e : BuildError}

variable {config : Config} {output : String} {args : List String} {always : Bool}

end

end Rebuild.Proofs.StatusLines
