import Rebuild.Proofs.CompanionCopies
import Rebuild.Proofs.PrimaryWrites
import Rebuild.Proofs.Rejections
import Rebuild.Proofs.WholeWrites

namespace Rebuild.Proofs.SingleFiles

open Rebuild.FileTree
open Rebuild.Proofs.Lookup
open Rebuild.Proofs.Growth
open Rebuild.Proofs.TreeCalls
open Rebuild.Proofs.Directories
open Rebuild.Proofs.Steps
open Rebuild.Proofs.Writes
open Rebuild.Proofs.Rejections
open Rebuild.Proofs.Contents
open Rebuild.Proofs.CompanionCopies
open Rebuild.Proofs.PrimaryWrites

section

variable {t : FileTree} {q source target : Path} {content : ByteArray} {now : MTime}
variable {w w' : Workspace}

theorem copy_eq_write (hread : t.read source = .ok content)
    (hapart : endOf t.current source ≠ endOf t.current target) :
    t.copy source target now = t.write target content now := by
  have hsource : source.hasNul = false := hasNul_of_isFile (isFile_of_read hread)
  unfold FileTree.copy
  by_cases htarget : target.hasNul = true
  · have hfault : t.resolve target = .error .embeddedNul := by simp [resolve, htarget]
    simp only [htarget, or_true, if_true]
    exact (placeAt_error (.file content now) hfault).symm
  · simp only [hsource, htarget, Bool.false_eq_true, or_self, if_false, isSame_of_apart hapart,
      hread]
    rfl

theorem copyFile_eq_writeBytes (hread : w.files.read source = .ok content)
    (hapart : endOf w.files.current source ≠ endOf w.files.current target) :
    copyFile source target w = writeBytes target content w := by
  rw [copyFile_eq]
  unfold writeBytes
  cases hparents : makeParents target w with
  | error e u => rw [bind_of_error hparents, bind_of_error hparents]
  | ok _ u =>
      have hgrow := evolves_of_makeParents hparents
      have hkept : u.files.read source = .ok content := read_of_evolves hgrow not_false hread
      have hcopy : u.files.copy source target u.now = u.files.write target content u.now :=
        copy_eq_write hkept (by rw [hgrow.current]; exact hapart)
      have hput := putBytes_apply target content u
      rw [bind_of_ok hparents, bind_of_ok hparents, putCopy_apply, hcopy]
      cases hwrite : u.files.write target content u.now with
      | ok files =>
          rw [hwrite] at hput
          rw [bind_of_ok hput]
          rfl
      | error fault =>
          rw [hwrite] at hput
          rw [bind_of_error hput]

/-- A file can be written to the path: its directory can be made, and then the path names
no directory itself. -/
def canTake (t : FileTree) (q : Path) : Bool :=
  match t.makeDirs q.normalize.parent with
  | (u, .ok ()) =>
    match u.resolve q with
    | .ok l => !u.isDirectoryAt l
    | .error _ => false
  | (_, .error _) => false

theorem canTake_iff :
    canTake t q = true ↔ ∃ u l, t.makeDirs q.normalize.parent = (u, .ok ()) ∧
      u.resolve q = .ok l ∧ u.get? l ≠ some .directory := by
  unfold canTake
  rcases t.makeDirs q.normalize.parent with ⟨u, fault | _⟩
  · simp
  · cases hq : u.resolve q with
    | error fault => simp [hq]
    | ok l =>
        have hfree : u.isDirectoryAt l = false ↔ u.get? l ≠ some .directory := by
          simp [isDirectoryAt]
        simp [hq, hfree]

theorem writeBytes_returns_iff (q : Path) (content : ByteArray) (w : Workspace) :
    (∃ r w', writeBytes q content w = .ok r w') ↔ canTake w.files q = true := by
  rw [canTake_iff]
  constructor
  · rintro ⟨r, w', h⟩
    obtain ⟨u, hu, hput, _⟩ := writeBytes_eq_ok_iff.mp h
    obtain ⟨t, hmake, rfl⟩ := makeParents_eq_ok_iff.mp hu
    obtain ⟨t', hwrite, _⟩ := putBytes_eq_ok_iff.mp hput
    obtain ⟨l, hl, hfree, _⟩ := placeAt_eq_ok hwrite
    exact ⟨t, l, hmake, hl, hfree⟩
  · rintro ⟨t, l, hmake, hl, hfree⟩
    obtain ⟨t', hwrite⟩ := exists_placeAt (.file content w.now) hl hfree
    exact ⟨q.normalize, { w with files := t' }, writeBytes_eq_ok_iff.mpr
      ⟨{ w with files := t }, makeParents_eq_ok_iff.mpr ⟨t, hmake, rfl⟩,
        putBytes_eq_ok_iff.mpr ⟨t', hwrite, rfl⟩, rfl⟩⟩

theorem canTake_of_below {u : FileTree} (h : Below t u) (hq : canTake u q = true) :
    canTake t q = true := by
  obtain ⟨r, w', hwrite⟩ :=
    (writeBytes_returns_iff q .empty ⟨u, ⟨0, 0⟩, []⟩).mpr hq
  have hlater := ((within_writeBytes .empty (admits_top u.current q)).of_ok rfl hwrite).files.below
  have hfile : IsFile w'.files q :=
    (isWritten_of_writeFile (v := .bytes .empty)
      (writeFile_eq_ok_iff.mpr ⟨_, rfl, hwrite⟩)).isFile
  obtain ⟨w'', hfirst, _⟩ :=
    writeBytes_of_below .empty (w := ⟨t, ⟨0, 0⟩, []⟩) (h.trans hlater) hfile
  exact (writeBytes_returns_iff _ _ _).mp ⟨_, w'', hfirst⟩

end

/-- From the first tree to the second, files of the directory were tried. If the directory
can be made, it is there as soon as one was, and no other directory came. -/
structure TriedIn (d : Path) (t u : FileTree) : Prop where
  below : Below t u
  made : ∀ t', t.makeDirs d.normalize = (t', .ok ()) → u = t ∨ SameDirectories t' u

section

variable {d q : Path} {content : ByteArray} {t u v : FileTree} {w : Workspace}

theorem TriedIn.refl (d : Path) (t : FileTree) : TriedIn d t t :=
  ⟨Below.refl t, fun _ _ => .inl rfl⟩

theorem TriedIn.trans (h : TriedIn d t u) (h' : TriedIn d u v) : TriedIn d t v := by
  refine ⟨h.below.trans h'.below, fun t' hmake => ?_⟩
  rcases h.made t' hmake with rfl | hsame
  · exact h'.made t' hmake
  · obtain ⟨l, hl, hdir⟩ := resolve_of_makeDirs hmake
    have hpresent : u.makeDirs d.normalize = (u, .ok ()) :=
      makeDirs_present (resolve_below hsame.below hl) (hsame.below.directory l hdir)
    rcases h'.made u hpresent with rfl | hlater
    · exact .inr hsame
    · exact .inr (hsame.trans hlater)

theorem TriedIn.canTake_eq (h : TriedIn d t u) (hq : q.normalize.parent = d.normalize) :
    canTake u q = canTake t q := by
  rw [Bool.eq_iff_iff]
  refine ⟨canTake_of_below h.below, fun htake => ?_⟩
  obtain ⟨t', l, hmake, hl, hfree⟩ := canTake_iff.mp htake
  rw [hq] at hmake
  rcases h.made t' hmake with rfl | hsame
  · exact htake
  · obtain ⟨k, hk, hdir⟩ := resolve_of_makeDirs hmake
    have hpresent : u.makeDirs d.normalize = (u, .ok ()) :=
      makeDirs_present (resolve_below hsame.below hk) (hsame.below.directory k hdir)
    exact canTake_iff.mpr ⟨u, l, by rw [hq, hpresent], resolve_below hsame.below hl,
      fun hdirl => hfree (hsame.directory l hdirl)⟩

theorem triedIn_of_writeBytes (hq : q.normalize.parent = d.normalize) :
    TriedIn d w.files (after (writeBytes q content) w).files := by
  refine ⟨(within_writeBytes content (admits_top w.files.current q) w rfl).files.below, ?_⟩
  intro t' hmake
  have hparents : makeParents q w = .ok () { w with files := t' } :=
    makeParents_eq_ok_iff.mpr ⟨t', by rw [hq, hmake], rfl⟩
  have hput := putBytes_apply q content { w with files := t' }
  right
  unfold after writeBytes
  rw [bind_of_ok hparents]
  cases hwrite : t'.write q content w.now with
  | ok files =>
      simp only [hwrite] at hput
      rw [bind_of_ok hput]
      exact sameDirectories_of_write hwrite
  | error fault =>
      simp only [hwrite] at hput
      rw [bind_of_error hput]
      exact SameDirectories.refl t'

end

end Rebuild.Proofs.SingleFiles
