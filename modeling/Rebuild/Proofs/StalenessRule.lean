import Rebuild.Proofs.CompanionEdits

namespace Rebuild.Proofs.StalenessRule

open Rebuild.FileTree
open Rebuild.Proofs.Lookup
open Rebuild.Proofs.Steps
open Rebuild.Proofs.Writes
open Rebuild.Proofs.Staleness
open Rebuild.Proofs.Layout
open Rebuild.Proofs.Runs
open Rebuild.Proofs.CompanionEdits

section

variable {p : Project} {t : FileTree} {n : ModuleName}

end

end Rebuild.Proofs.StalenessRule
