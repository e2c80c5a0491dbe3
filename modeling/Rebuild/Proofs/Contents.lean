import Rebuild.Proofs.Refusals
import Rebuild.Proofs.SameWrites

namespace Rebuild.Proofs.Contents

open Rebuild.FileTree
open Rebuild.Proofs.PathNormal
open Rebuild.Proofs.Lookup
open Rebuild.Proofs.Growth
open Rebuild.Proofs.TreeCalls
open Rebuild.Proofs.Directories
open Rebuild.Proofs.Steps
open Rebuild.Proofs.Writes
open Rebuild.Proofs.Refusals
open Rebuild.Proofs.Layout
open Rebuild.Proofs.SameWrites

section

variable {t t' : FileTree} {q : Path} {content : ByteArray}
variable {now : MTime} {D W : Location → Prop}

theorem read_eq_ok_iff :
    t.read q = .ok content ↔
      ∃ l modified, t.resolve q = .ok l ∧ t.get? l = some (.file content modified) := by
  unfold FileTree.read status
  cases hq : t.resolve q with
  | error fault => simp [bind, Except.bind]
  | ok l =>
      cases hentry : t.get? l with
      | none => simp [hentry, bind, Except.bind]
      | some e => cases e <;> simp [hentry, bind, Except.bind]

theorem read_of_evolves (h : Evolves now D W t t') (hW : ¬ W (endOf t.current q))
    (hread : t.read q = .ok content) : t'.read q = .ok content := by
  obtain ⟨l, modified, hl, hfile⟩ := read_eq_ok_iff.mp hread
  rw [← resolve_eq_endOf hl] at hW
  have hkept : t'.get? l = some (.file content modified) :=
    (h.file hfile).resolve_right fun hwritten => hW hwritten.1
  exact read_eq_ok_iff.mpr ⟨l, modified, resolve_below h.below hl, hkept⟩

theorem read_iff_of_evolves (hq : IsStraight q) (h : Evolves now D W t t')
    (hW : ¬ W (endOf t.current q)) : t'.read q = .ok content ↔ t.read q = .ok content := by
  refine ⟨fun hread => ?_, read_of_evolves h hW⟩
  obtain ⟨l, modified, hl, hfile⟩ := read_eq_ok_iff.mp hread
  have hfits : Fits q := fits_of_resolve hq hl
  have hnul : ¬ q.normalize.hasNul = true := by simp [(resolve_eq_ok_iff.mp hl).1.1]
  have hplace : l = endOf t.current q := h.current ▸ resolve_eq_endOf hl
  rw [hplace, h.file_iff hW, endOf_straight t.current hq] at hfile
  have hprobe := probe_of_fits t hq hfits
  rw [if_neg hnul, hfile] at hprobe
  obtain ⟨k, hk, hkept⟩ := probe_eq_some_iff.mp hprobe
  exact read_eq_ok_iff.mpr ⟨k, modified, hk, hkept⟩

end

section

variable {q r source target : Path} {content : ByteArray} {v : Content} {w w' : Workspace}

theorem evolves_of_makeParents (h : makeParents q w = .ok () w') :
    Evolves w.now (fun _ => True) (fun _ => False) w.files w'.files :=
  ((within_makeParents_onWay w.files.current q).of_ok rfl h).files.mono
    (fun _ _ => trivial) fun _ hl => hl

theorem read_of_write {t t' : FileTree} {now : MTime}
    (h : t.write q content now = .ok t') : t'.read q = .ok content := by
  obtain ⟨l, hl, _, _, hview⟩ := placeAt_eq_ok h
  have hgrow : Evolves now (fun _ => True) (fun _ => True) t t' :=
    evolves_of_placeAt h fun _ _ => trivial
  exact read_eq_ok_iff.mpr ⟨l, now, resolve_below hgrow.below hl, by simp [hview]⟩

theorem read_of_writeBytes (h : writeBytes q content w = .ok r w') :
    w'.files.read q = .ok content := by
  obtain ⟨u, _, hput, _⟩ := writeBytes_eq_ok_iff.mp h
  obtain ⟨files, hwrite, rfl⟩ := putBytes_eq_ok_iff.mp hput
  exact read_of_write hwrite

theorem read_of_writeFile (h : writeFile q v w = .ok r w') (hv : v.toBytes = .ok content) :
    w'.files.read q = .ok content := by
  obtain ⟨content', hcontent, hwrite⟩ := writeFile_eq_ok_iff.mp h
  obtain rfl : content' = content := by simpa [hv] using hcontent.symm
  exact read_of_writeBytes hwrite

theorem read_of_copyFile (h : copyFile source target w = .ok r w')
    (hsource : w.files.read source = .ok content) : w'.files.read target = .ok content := by
  rw [copyFile_eq, bind_eq_ok_iff] at h
  obtain ⟨_, u, hu, hput⟩ := h
  have hkept := read_of_evolves (evolves_of_makeParents hu) not_false hsource
  rw [putCopy_apply] at hput
  split at hput
  · rename_i files hcopy
    cases hput
    obtain ⟨content', hread, hwrite⟩ := copy_eq_ok hcopy
    obtain rfl : content' = content := by simpa [hkept] using hread.symm
    exact read_of_write hwrite
  · cases hput

/-- Of files that were tried at different places, each that was not refused holds what was
written to it. -/
theorem read_of_tryWriteAll_kept {files : List (Path × Content)} {failures : List WriteFailure}
    (h : tryWriteAll files w = .ok failures w')
    (hapart : files.Pairwise fun f g =>
      endOf w.files.current f.1 ≠ endOf w.files.current g.1) :
    ∀ file ∈ files, (∀ failure ∈ failures, failure.path ≠ file.1.normalize) →
      ∀ content, file.2.toBytes = .ok content → w'.files.read file.1 = .ok content := by
  induction files generalizing w failures with
  | nil => simp
  | cons file files ih =>
      obtain ⟨failure?, u, others, htry, hrest, rfl⟩ := tryWriteAll_cons_eq_ok_iff.mp h
      have hcurrent : u.files.current = w.files.current :=
        ((within_tryWrite file.2 (admits_top w.files.current file.1)).of_ok rfl htry).files.current
      obtain ⟨hfirst, hothers⟩ := List.pairwise_cons.mp hapart
      have hlater := (within_tryWriteAll files fun f hf =>
        admits_ends u.files.current (List.mem_map_of_mem hf)).of_ok rfl hrest
      intro f hf hkept content hcontent
      rcases List.mem_cons.mp hf with rfl | hf
      · cases failure? with
        | some failure =>
            obtain ⟨_, hrefused⟩ := writeFile_of_tryWrite htry
            exact absurd (path_of_writeFile hrefused) (hkept failure (by simp))
        | none =>
            obtain ⟨r, hwrite⟩ := tryWrite_eq_none_iff.mp htry
            apply read_of_evolves hlater.files _ (read_of_writeFile hwrite hcontent)
            rintro ⟨_, hq, hend⟩
            obtain ⟨g, hg, rfl⟩ := List.mem_map.mp hq
            rw [hcurrent] at hend
            exact hfirst g hg hend
      · exact ih hrest (hcurrent ▸ hothers) f hf
          (fun failure hfailure => hkept failure (List.mem_append_right _ hfailure))
          content hcontent

theorem read_of_tryWriteAll {files : List (Path × Content)}
    (h : tryWriteAll files w = .ok [] w')
    (hapart : files.Pairwise fun f g =>
      endOf w.files.current f.1 ≠ endOf w.files.current g.1) :
    ∀ file ∈ files, ∀ content, file.2.toBytes = .ok content →
      w'.files.read file.1 = .ok content :=
  fun file hfile => read_of_tryWriteAll_kept h hapart file hfile (by simp)

theorem read_of_writeAll {files : List (String × Content)}
    (hnames : ∀ file ∈ files, IsPlain file.1) (hnodup : (files.map (·.1)).Nodup)
    (h : Support.writeAll target files w = .ok () w') :
    ∀ file ∈ files, ∀ content, file.2.toBytes = .ok content →
      w'.files.read (target.child file.1) = .ok content := by
  have hapart : (files.map fun file => (target.child file.1, file.2)).Pairwise fun f g =>
      endOf w.files.current f.1 ≠ endOf w.files.current g.1 := by
    rw [List.pairwise_map]
    refine (List.pairwise_map.mp hnodup).imp_of_mem fun hf hg hne heq => ?_
    rw [endOf_child _ _ (hnames _ hf), endOf_child _ _ (hnames _ hg)] at heq
    exact hne (List.cons.inj heq).1
  intro file hfile
  exact read_of_tryWriteAll (writeAll_eq_ok_iff.mp h) hapart (target.child file.1, file.2)
    (List.mem_map_of_mem hfile)

end

section

variable {p : Project} {unpacked : Bool} {w w' : Workspace}

theorem endOf_payload (current : Location) {file : String × Content}
    (hfile : file ∈ Support.payloads) :
    endOf current ((supportPath p).child file.1) = file.1 :: endOf current (supportPath p) :=
  endOf_child current (supportPath p) (plain_of_mem_payloads hfile)

theorem evolves_of_unpack
    (h : Support.unpack p.output p.config.supportDir Support.payloads w = .ok unpacked w') :
    Evolves w.now (OnWays w.files.current ((supportFiles p).map (·.1)))
      (Ends w.files.current ((supportFiles p).map (·.1))) w.files w'.files :=
  ((within_unpack p.output p.config.supportDir fun _ hfile =>
    admits_ends w.files.current (List.mem_map_of_mem (List.mem_map_of_mem hfile))).of_ok rfl h).files

/-- Without double dots on the way, unpacking writes nothing in a directory that was
there: if the support directory was, nothing is unpacked. -/
theorem evolves_of_unpack_straight (hsupport : IsStraight (supportPath p))
    (h : Support.unpack p.output p.config.supportDir Support.payloads w = .ok unpacked w') :
    Evolves w.now (· <:+ placeFrom w.files.current (supportPath p))
      (fun l => w.files.get? l.tail ≠ some .directory) w.files w'.files := by
  have hgrow := evolves_of_unpack h
  rcases unpack_eq_ok_iff.mp h with ⟨_, _, rfl⟩ | ⟨habsent, _⟩
  · exact Evolves.refl _
  · refine hgrow.mono ?_ ?_
    · rintro l ⟨_, hq, hway⟩
      obtain ⟨file, hfile, rfl⟩ := List.mem_map.mp hq
      obtain ⟨payload, hpayload, rfl⟩ := mem_supportFiles hfile
      have hsuffix := isOnWay_straight (isStraight_payload hsupport hpayload) hway
      rwa [parent_of_payload p hpayload, placeFrom_normalize] at hsuffix
    · rintro _ ⟨_, hq, rfl⟩ hdir
      obtain ⟨file, hfile, rfl⟩ := List.mem_map.mp hq
      obtain ⟨payload, hpayload, rfl⟩ := mem_supportFiles hfile
      rw [endOf_payload _ hpayload, endOf_straight _ hsupport, List.tail_cons] at hdir
      have hdone : w'.files.isDirectory (supportPath p) = .ok true := isDirectory_of_unpack_payloads h
      have hasked := isDirectory_of_straight hsupport hgrow.current.symm hdone
      rw [hgrow.current, habsent, isDirectoryAt_iff.mpr hdir] at hasked
      cases hasked

end

end Rebuild.Proofs.Contents
