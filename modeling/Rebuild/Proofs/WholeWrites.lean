import Rebuild.Proofs.Contents
import Rebuild.Proofs.Runs

namespace Rebuild.Proofs.WholeWrites

open Rebuild.FileTree
open Rebuild.Proofs.Lookup
open Rebuild.Proofs.Growth
open Rebuild.Proofs.TreeCalls
open Rebuild.Proofs.Steps
open Rebuild.Proofs.Writes
open Rebuild.Proofs.Runs
open Rebuild.Proofs.Contents

/-- What a content is written as: its own bytes, or those of its text in UTF-8, in which no
surrogate may stand. -/
inductive IsContent : Content → ByteArray → Prop
  | text (s : String) : IsContent (.text s) s.toUTF8
  | value (s : String) : IsContent (.value (.text s)) s.toUTF8
  | bytes (content : ByteArray) : IsContent (.bytes content) content
  | buffer (content : ByteArray) : IsContent (.value (.buffer content)) content

theorem isContent_iff {v : Content} {content : ByteArray} :
    IsContent v content ↔ v.toBytes = .ok content := by
  constructor
  · rintro (s | _ | _ | _)
    · exact Content.toBytes_ofString s
    all_goals rfl
  · intro h
    cases v with
    | value v => cases v <;> cases h <;> constructor
    | renderable t => cases h
    | text t =>
        obtain ⟨s, rfl⟩ := Content.exists_string_of_hasBytes ⟨content, h⟩
        rw [Content.toBytes_ofString] at h
        cases h
        constructor

section

variable {q r source target : Path} {v : Content} {content : ByteArray} {e : BuildError}
variable {w w' : Workspace}

/-- A step that comes after the directories of a path were made, and that changes nothing when
it fails, leaves no more than directories when the whole fails. -/
theorem moves_of_makeParents_bind {α : Type} {put : BuildM α}
    (hput : ∀ u e u', put u = .error e u' → u' = u)
    (h : (makeParents q >>= fun _ => put) w = .error e w') :
    Moves (IsOnWay w.files.current q) (fun _ => False) w w' := by
  have hparents := within_makeParents_onWay w.files.current q
  rcases bind_eq_error_iff.mp h with hfail | ⟨_, u, hu, hrest⟩
  · exact hparents.of_error rfl hfail
  · rw [hput u e w' hrest]
    exact hparents.of_ok rfl hu

theorem putBytes_error (h : putBytes q content w = .error e w') : w' = w := by
  rw [putBytes_apply] at h
  split at h <;> cases h
  rfl

theorem putCopy_error (h : putCopy source target w = .error e w') : w' = w := by
  rw [putCopy_apply] at h
  split at h <;> cases h
  rfl

theorem moves_of_writeBytes_error (h : writeBytes q content w = .error e w') :
    Moves (IsOnWay w.files.current q) (fun _ => False) w w' := by
  refine moves_of_makeParents_bind ?_ h
  intro u e u' hrest
  rcases bind_eq_error_iff.mp hrest with hput | ⟨_, _, _, hpure⟩
  · exact putBytes_error hput
  · cases hpure

theorem moves_of_writeFile_error (h : writeFile q v w = .error e w') :
    Moves (IsOnWay w.files.current q) (fun _ => False) w w' := by
  unfold writeFile at h
  cases hv : v.toBytes with
  | error fault =>
      rw [hv] at h
      cases h
      exact Moves.refl w
  | ok content =>
      rw [hv] at h
      exact moves_of_writeBytes_error h

theorem moves_of_copyFile_error (h : copyFile source target w = .error e w') :
    Moves (IsOnWay w.files.current target) (fun _ => False) w w' := by
  rw [copyFile_eq] at h
  exact moves_of_makeParents_bind (fun _ _ _ => putCopy_error) h

theorem source_of_copy {t t' : FileTree} {now : MTime} (h : t.copy source target now = .ok t') :
    ∃ l content modified, t.resolve source = .ok l ∧
      t.get? l = some (.file content modified) ∧ l ≠ endOf t.current target ∧
      t.write target content now = .ok t' := by
  obtain ⟨content, hread, hwrite⟩ := copy_eq_ok h
  obtain ⟨l, modified, hl, hfile⟩ := read_eq_ok_iff.mp hread
  refine ⟨l, content, modified, hl, hfile, ?_, hwrite⟩
  rintro rfl
  obtain ⟨k, hk, _⟩ := placeAt_eq_ok hwrite
  have hsame : t.isSame source target = true := by
    simp [isSame, hl, hk, resolve_eq_endOf hk, hfile]
  simp only [copy, hsame, if_true] at h
  split at h <;> cases h

/-- The source of a copy is the file that it was, and the target holds the same bytes. -/
theorem copied_of_copyFile (h : copyFile source target w = .ok r w') :
    ∃ l content modified, w'.files.resolve source = .ok l ∧
      w.files.get? l = some (.file content modified) ∧
      w'.files.get? l = some (.file content modified) ∧ w'.files.read target = .ok content := by
  have hwhole := ((within_copyFile source (admits_endOf w.files.current target)).of_ok rfl h).files
  rw [copyFile_eq] at h
  obtain ⟨_, u, hu, hput⟩ := bind_eq_ok_iff.mp h
  have hmade := ((within_makeParents_onWay w.files.current target).of_ok rfl hu).files
  have hlater := ((within_putCopy source (admits_top u.files.current target)).of_ok rfl hput).files
  rw [putCopy_apply] at hput
  split at hput
  · rename_i files hcopy
    cases hput
    obtain ⟨l, content, modified, hl, hfile, hapart, hwrite⟩ := source_of_copy hcopy
    rw [hmade.current] at hapart
    have hbefore : w.files.get? l = some (.file content modified) :=
      (hmade.file_iff not_false content modified).mp hfile
    exact ⟨l, content, modified, resolve_below hlater.below hl, hbefore,
      (hwhole.file_iff hapart content modified).mpr hbefore, read_of_write hwrite⟩
  · cases hput

end

/-- A write that returns leaves its bytes at the path, and a copy that returns leaves there
the bytes of its source, which stays the file it was; no other file changes. A write or a
copy that fails, for whatever reason, changes no file and makes none: what is new are
directories on the way to the path. -/
theorem writes_and_copies_are_whole (w : Workspace) :
    (∀ q v r w', writeFile q v w = .ok r w' →
      (∃ content, IsContent v content ∧ w'.files.read q = .ok content) ∧
        Evolves w.now (IsOnWay w.files.current q) (· = endOf w.files.current q)
          w.files w'.files) ∧
    (∀ source target r w', copyFile source target w = .ok r w' →
      (∃ l content modified, w'.files.resolve source = .ok l ∧
        w.files.get? l = some (.file content modified) ∧
        w'.files.get? l = some (.file content modified) ∧
        w'.files.read target = .ok content) ∧
        Evolves w.now (IsOnWay w.files.current target) (· = endOf w.files.current target)
          w.files w'.files) ∧
    (∀ q v e w', writeFile q v w = .error e w' →
      Evolves w.now (IsOnWay w.files.current q) (fun _ => False) w.files w'.files) ∧
    ∀ source target e w', copyFile source target w = .error e w' →
      Evolves w.now (IsOnWay w.files.current target) (fun _ => False) w.files w'.files := by
  refine ⟨?_, ?_, ?_, ?_⟩
  · intro q v r w' h
    obtain ⟨content, hcontent, _⟩ := writeFile_eq_ok_iff.mp h
    exact ⟨⟨content, isContent_iff.mpr hcontent, read_of_writeFile h hcontent⟩,
      ((within_writeFile v (admits_endOf w.files.current q)).of_ok rfl h).files⟩
  · intro source target r w' h
    exact ⟨copied_of_copyFile h,
      ((within_copyFile source (admits_endOf w.files.current target)).of_ok rfl h).files⟩
  · exact fun q v e w' h => (moves_of_writeFile_error h).files
  · exact fun source target e w' h => (moves_of_copyFile_error h).files

def smallSource : Path := .parse "src/A.purs"

def otherSpelling : Path := .parse "new/../src/A.purs"

theorem writes_and_copies_are_whole_small :
    (∃ w', copyFile smallSource (.parse "new/A.purs") smallWorkspace =
        .ok (.parse "new/A.purs") w' ∧
      w'.files.read (.parse "new/A.purs") = .ok .empty) ∧
    ∃ e w', copyFile smallSource otherSpelling smallWorkspace = .error e w' ∧
      (w'.files.get? ["new"] = some .directory ∧ smallTree.get? ["new"] = none) ∧
      Evolves ⟨1, 0⟩ (IsOnWay [] otherSpelling) (fun _ => False) smallTree w'.files := by
  obtain ⟨_, hcopied, _, hfailed⟩ := writes_and_copies_are_whole smallWorkspace
  constructor
  · have hcopy := returns_iff.mp (show returns (copyFile smallSource (.parse "new/A.purs"))
      smallWorkspace (.parse "new/A.purs") = true by decide +kernel)
    obtain ⟨l, content, modified, hl, hbefore, _, hread⟩ := (hcopied _ _ _ _ hcopy).1
    obtain rfl : l = ["A.purs", "src"] := resolve_eq_endOf hl
    cases hbefore
    exact ⟨_, hcopy, hread⟩
  · obtain ⟨e, herror⟩ := fails_iff.mp (show fails (copyFile smallSource otherSpelling)
      smallWorkspace = true by decide +kernel)
    exact ⟨e, _, herror, by decide +kernel, hfailed _ _ _ _ herror⟩

end Rebuild.Proofs.WholeWrites
