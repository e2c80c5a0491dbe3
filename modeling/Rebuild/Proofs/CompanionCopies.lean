import Rebuild.Proofs.Contents

namespace Rebuild.Proofs.CompanionCopies

open Rebuild.FileTree
open Rebuild.Proofs.PathNormal
open Rebuild.Proofs.Lookup
open Rebuild.Proofs.Growth
open Rebuild.Proofs.TreeCalls
open Rebuild.Proofs.Directories
open Rebuild.Proofs.Steps
open Rebuild.Proofs.Writes
open Rebuild.Proofs.Layout
open Rebuild.Proofs.Contents

def destination? (a : Artifacts) (config : Config) (ext : Extension) : Option Path :=
  if ext = config.headerExt then some a.foreignHeader
  else if ext = config.implExt then some a.foreignImplementation
  else a.foreignOthers.get? ext

theorem mem_foreignPaths_of_destination {a : Artifacts} {config : Config} {ext : Extension}
    {target : Path} (h : destination? a config ext = some target) : target ∈ foreignPaths a := by
  simp only [foreignPaths, List.mem_cons]
  unfold destination? at h
  split at h
  · exact .inl (Option.some.inj h).symm
  · split at h
    · exact .inr (.inl (Option.some.inj h).symm)
    · exact .inr (.inr (OrderedMap.mem_values_of_get? h))

theorem exists_destination {p : Project} {n : ModuleName} {source : Path} {a : Artifacts}
    {found : OrderedMap Extension Path} (ha : p.artifacts n = .ok a)
    (hfound : companions source p.config = .ok found) {ext : Extension} {q : Path}
    (hq : found.get? ext = some q) : ∃ target, destination? a p.config ext = some target := by
  unfold destination?
  split
  · exact ⟨_, rfl⟩
  · rename_i hheader
    split
    · exact ⟨_, rfl⟩
    · rename_i himplementation
      obtain ⟨base, _, hvariants⟩ := except_bind_eq_ok_iff.mp hfound
      have hext := (get?_addExtensions hvariants ext).mp ⟨q, hq⟩
      replace ha := mapError_eq_ok_iff.mp ha
      unfold Artifacts.ofModule at ha
      simp only [except_bind_eq_ok_iff] at ha
      obtain ⟨mangled, _, _, _, _, _, _, _, _, _, others, hothers, ha⟩ := ha
      cases ha
      refine (get?_addExtensions hothers ext).mpr ?_
      simpa [Config.companionExts, hheader, himplementation] using hext

/-- The directory of the path is there, and the path itself is none. -/
def IsOpen (t : FileTree) (q : Path) : Prop :=
  t.isDirectory q.normalize.parent = .ok true ∧ t.get? (endOf t.current q) ≠ some .directory

theorem IsOpen.evolves {t t' : FileTree} {q : Path} {now : MTime} {D W : Location → Prop}
    (h : IsOpen t q) (ht : Evolves now D W t t') (hD : ¬ D (endOf t.current q)) :
    IsOpen t' q := by
  refine ⟨isDirectory_below ht.below h.1, ?_⟩
  rw [ht.current]
  rcases ht.entry (endOf t.current q) with hsame | ⟨hD', _⟩ | ⟨_, _, content, hfile⟩
  · rw [hsame]
    exact h.2
  · exact absurd hD' hD
  · simp [hfile]

theorem IsOpen.parts_ne_nil {t : FileTree} {q : Path} (h : IsOpen t q) :
    q.normalize.parts ≠ [] := by
  intro hnil
  apply h.2
  unfold endOf
  rw [hnil]
  exact (resolve_root q.root t).2

section

variable {source target q : Path} {content : ByteArray} {w w' : Workspace}
variable {written : List Path}

theorem isFile_of_read {t : FileTree} (h : t.read q = .ok content) : t.isFile q = .ok true := by
  obtain ⟨l, modified, hl, hfile⟩ := read_eq_ok_iff.mp h
  have hprobe := probe_eq_some_iff.mpr ⟨l, hl, hfile⟩
  simp [FileTree.isFile, hprobe, Entry.isFile]

theorem isSame_of_apart {t : FileTree} (h : endOf t.current source ≠ endOf t.current target) :
    t.isSame source target = false := by
  unfold isSame
  split
  · rename_i j k hj hk
    rw [← resolve_eq_endOf hj, ← resolve_eq_endOf hk] at h
    simp [h]
  · rfl

theorem write_ne_refused {t : FileTree} {now : MTime} {fault : FileFault}
    (hstraight : IsStraight target) (hfits : Fits target) (hopen : IsOpen t target) :
    t.write target content now ≠ .error (.refused fault) := by
  intro hwrite
  obtain ⟨k, hk, hdir⟩ := isDirectory_eq_true_iff.mp hopen.1
  by_cases hnul : target.normalize.hasNul = true
  · have hfault : t.resolve target = .error .embeddedNul := by simp [resolve, hnul]
    have hrefused := hwrite.symm.trans (placeAt_error (.file content now) hfault)
    cases hrefused
  · have hfound := resolve_of_directory hstraight hfits (by simpa using hnul)
      hopen.parts_ne_nil hk hdir
    rw [← endOf_straight t.current hstraight] at hfound
    obtain ⟨t', ht'⟩ := exists_placeAt (.file content now) hfound hopen.2
    have hdone := hwrite.symm.trans ht'
    cases hdone

theorem copy_ne_refused {t : FileTree} {now : MTime} {fault : FileFault}
    (hstraight : IsStraight target) (hfits : Fits target) (hopen : IsOpen t target)
    (hapart : endOf t.current source ≠ endOf t.current target)
    (hread : t.read source = .ok content) :
    t.copy source target now ≠ .error (.refused fault) := by
  intro hcopy
  unfold FileTree.copy at hcopy
  simp only [isSame_of_apart hapart, hread, Bool.false_eq_true, if_false] at hcopy
  split at hcopy
  · cases hcopy
  · exact write_ne_refused hstraight hfits hopen hcopy

theorem copyIfPossible_apply (target : Path) (hread : w.files.read source = .ok content) :
    copyIfPossible source target w =
      match copyFile source target w with
      | .ok r u => .ok [r] u
      | .error e u => if e.isFileError then .ok [] u else .error e u := by
  unfold copyIfPossible
  rw [tryCatch_apply, bind_of_ok (get_apply w), isFile_of_read hread,
    bind_of_ok (lift_ok_apply true w)]
  simp only [if_true]
  cases hcopy : copyFile source target w with
  | ok r u =>
      rw [bind_of_ok hcopy]
      rfl
  | error e u =>
      rw [bind_of_error hcopy]
      simp only
      split <;> rfl

theorem read_of_copyIfPossible (hstraight : IsStraight target) (hfits : Fits target)
    (hopen : IsOpen w.files target)
    (hapart : endOf w.files.current source ≠ endOf w.files.current target)
    (hread : w.files.read source = .ok content)
    (h : copyIfPossible source target w = .ok written w') :
    w'.files.read target = .ok content := by
  have hparents : makeParents target w = .ok () w :=
    makeParents_present (normalize_parent_normalize target).symm hopen.1
  have hcopy : copyFile source target w = putCopy source target w := by
    rw [copyFile_eq, bind_of_ok hparents]
  rw [copyIfPossible_apply target hread, hcopy] at h
  cases hput : putCopy source target w with
  | ok r u =>
      rw [hput] at h
      cases h
      exact read_of_copyFile (hcopy.trans hput) hread
  | error e u =>
      rw [hput] at h
      rw [putCopy_apply] at hput
      split at hput
      · cases hput
      · rename_i fault hfault
        cases hput
        cases fault with
        | embeddedNul => simp [BuildError.ofWrite, BuildError.isFileError] at h
        | refused f => exact absurd hfault (copy_ne_refused hstraight hfits hopen hapart hread)

end

def copyOther (found : OrderedMap Extension Path) (ext : Extension) (target : Path) :
    BuildM (List Path) :=
  match found.get? ext with
  | none => pure []
  | some source => copyIfPossible source target

section

variable {found : OrderedMap Extension Path} {ext : Extension} {source target : Path}
variable {targets : List (Extension × Path)} {content : ByteArray} {w w' : Workspace}
variable {written : List Path} {current : Location} {D W : Location → Prop}
variable {a : Artifacts} {config : Config} {needsForeign : Bool}

theorem copyOthers_cons :
    copyOthers found ((ext, target) :: targets) =
      copyOther found ext target >>= fun copied =>
        copyOthers found targets >>= fun more => pure (copied ++ more) := by
  rw [copyOthers, copyOther]
  cases found.get? ext <;> rfl

theorem copyOthers_cons_eq_ok_iff :
    copyOthers found ((ext, target) :: targets) w = .ok written w' ↔
      ∃ copied u more, copyOther found ext target w = .ok copied u ∧
        copyOthers found targets u = .ok more w' ∧ written = copied ++ more := by
  rw [copyOthers_cons]
  simp only [bind_eq_ok_iff, pure_apply]
  constructor
  · rintro ⟨copied, u, hu, more, v, hv, h⟩
    cases h
    exact ⟨copied, u, more, hu, hv, rfl⟩
  · rintro ⟨copied, u, more, hu, hv, rfl⟩
    exact ⟨copied, u, hu, more, w', hv, rfl⟩

theorem within_copyOther (h : Admits current D W target) :
    Within current D W (copyOther found ext target) := by
  unfold copyOther
  split
  · exact within_pure _
  · exact within_copyIfPossible _ h

theorem read_of_copyOthers (hw : w.files.current = current)
    (hsource : found.get? ext = some source) (htarget : (ext, target) ∈ targets)
    (hstraight : IsStraight target) (hfits : Fits target)
    (hpairs : targets.Pairwise fun x y => endOf current x.2 ≠ endOf current y.2)
    (hways : ∀ x ∈ targets, ¬ IsOnWay current x.2 (endOf current target))
    (hapart : ∀ x ∈ targets, endOf current source ≠ endOf current x.2)
    (hopen : IsOpen w.files target) (hread : w.files.read source = .ok content)
    (h : copyOthers found targets w = .ok written w') :
    w'.files.read target = .ok content := by
  induction targets generalizing w written with
  | nil => cases htarget
  | cons x targets ih =>
      obtain ⟨copied, u, more, hstep, hrest, _⟩ := copyOthers_cons_eq_ok_iff.mp h
      obtain ⟨hfirst, hpairs⟩ := List.pairwise_cons.mp hpairs
      have hmoves := (within_copyOther (admits_endOf current x.2)).of_ok hw hstep
      have hu := hmoves.files.current.trans hw
      rcases List.mem_cons.mp htarget with rfl | htarget
      · have hcopy : copyIfPossible source target w = .ok copied u := by
          simpa [copyOther, hsource] using hstep
        have hcopied := read_of_copyIfPossible hstraight hfits hopen
          (by simpa [hw] using hapart (ext, target) List.mem_cons_self) hread hcopy
        have hlater := (within_copyOthers found fun y hy =>
          admits_ends current (List.mem_map_of_mem hy)).of_ok hu hrest
        refine read_of_evolves hlater.files ?_ hcopied
        rintro ⟨_, hr, hend⟩
        obtain ⟨y, hy, rfl⟩ := List.mem_map.mp hr
        rw [hu] at hend
        exact hfirst y hy hend
      · refine ih hu htarget hpairs (fun y hy => hways y (List.mem_cons_of_mem x hy))
          (fun y hy => hapart y (List.mem_cons_of_mem x hy)) ?_ ?_ hrest
        · refine hopen.evolves hmoves.files ?_
          rw [hw]
          exact hways x List.mem_cons_self
        · refine read_of_evolves hmoves.files ?_ hread
          rw [hw]
          exact hapart x List.mem_cons_self

theorem presentCompanion_of_read (hsource : found.get? ext = some source)
    (hread : w.files.read source = .ok content) :
    presentCompanion found ext w = .ok (some source) w := by
  unfold presentCompanion
  rw [hsource]
  show ((get : BuildM Workspace) >>= _) w = _
  rw [bind_of_ok (get_apply w), isFile_of_read hread, bind_of_ok (lift_ok_apply true w)]
  rfl

theorem read_of_writeForeignHeader (hsource : found.get? config.headerExt = some source)
    (hread : w.files.read source = .ok content)
    (h : writeForeignHeader found needsForeign a config w = .ok written w') :
    w'.files.read a.foreignHeader = .ok content := by
  unfold writeForeignHeader at h
  rw [bind_of_ok (presentCompanion_of_read hsource hread)] at h
  obtain ⟨r, u, hcopy, h⟩ := bind_eq_ok_iff.mp h
  cases h
  exact read_of_copyFile hcopy hread

theorem read_of_writeForeignImplementation (hsource : found.get? config.implExt = some source)
    (hread : w.files.read source = .ok content)
    (h : writeForeignImplementation found a config w = .ok written w') :
    w'.files.read a.foreignImplementation = .ok content := by
  unfold writeForeignImplementation at h
  rw [bind_of_ok (presentCompanion_of_read hsource hread)] at h
  obtain ⟨r, u, hcopy, h⟩ := bind_eq_ok_iff.mp h
  cases h
  exact read_of_copyFile hcopy hread

theorem writeFound_eq_ok_iff :
    writeFound found needsForeign a config w = .ok written w' ↔
      ∃ header u implementation v others,
        writeForeignHeader found needsForeign a config w = .ok header u ∧
        writeForeignImplementation found a config u = .ok implementation v ∧
        copyOthers found a.foreignOthers.toList v = .ok others w' ∧
        written = header ++ implementation ++ others := by
  unfold writeFound
  simp only [bind_eq_ok_iff, pure_apply]
  constructor
  · rintro ⟨header, u, hu, implementation, v, hv, others, x, hx, h⟩
    cases h
    exact ⟨header, u, implementation, v, others, hu, hv, hx, rfl⟩
  · rintro ⟨header, u, implementation, v, others, hu, hv, hx, rfl⟩
    exact ⟨header, u, hu, implementation, v, hv, others, w', hx, rfl⟩

theorem within_copyOthers_ends (current : Location) (found : OrderedMap Extension Path)
    (a : Artifacts) :
    Within current (OnWays current a.foreignOthers.values) (Ends current a.foreignOthers.values)
      (copyOthers found a.foreignOthers.toList) :=
  within_copyOthers found fun _ hx => admits_ends current (List.mem_map_of_mem hx)

/-- What a companion held is what its destination holds once the companions of a module
were written. No two destinations may be one place, and the companion itself may not be
one; the destination of a further companion has to be open. -/
theorem read_of_writeFound (hw : w.files.current = current)
    (hsource : found.get? ext = some source)
    (htarget : destination? a config ext = some target)
    (hpairs : (foreignPaths a).Pairwise fun q r => endOf current q ≠ endOf current r)
    (hapart : ∀ q ∈ foreignPaths a, endOf current source ≠ endOf current q)
    (hopen : ext ≠ config.headerExt → ext ≠ config.implExt →
      IsStraight target ∧ Fits target ∧ IsOpen w.files target ∧
        ∀ q ∈ foreignPaths a, ¬ IsOnWay current q (endOf current target))
    (hread : w.files.read source = .ok content)
    (h : writeFound found needsForeign a config w = .ok written w') :
    w'.files.read target = .ok content := by
  obtain ⟨header, u, implementation, v, others, hheader, himplementation, hothers, _⟩ :=
    writeFound_eq_ok_iff.mp h
  have hu := (within_writeForeignHeader found needsForeign config
    (admits_endOf current a.foreignHeader)).of_ok hw hheader
  have hucurrent := hu.files.current.trans hw
  have hv := (within_writeForeignImplementation found config
    (admits_endOf current a.foreignImplementation)).of_ok hucurrent himplementation
  have hvcurrent := hv.files.current.trans hucurrent
  have hw' := (within_copyOthers_ends current found a).of_ok hvcurrent hothers
  obtain ⟨hheader_ne, hrest⟩ := List.pairwise_cons.mp hpairs
  obtain ⟨himplementation_ne, hvalues⟩ := List.pairwise_cons.mp hrest
  have hread_u : u.files.read source = .ok content :=
    read_of_evolves hu.files (by simpa [hw] using hapart _ (by simp [foreignPaths])) hread
  unfold destination? at htarget
  split at htarget
  · rename_i hext
    cases htarget
    have hcopied := read_of_writeForeignHeader (hext ▸ hsource) hread hheader
    have hkept := read_of_evolves hv.files
      (by simpa [hucurrent] using hheader_ne _ (by simp)) hcopied
    refine read_of_evolves hw'.files ?_ hkept
    rintro ⟨q, hq, hend⟩
    rw [hvcurrent] at hend
    exact hheader_ne q (by simp [hq]) hend
  · rename_i hext
    split at htarget
    · rename_i hext'
      cases htarget
      have hcopied := read_of_writeForeignImplementation (hext' ▸ hsource) hread_u himplementation
      refine read_of_evolves hw'.files ?_ hcopied
      rintro ⟨q, hq, hend⟩
      rw [hvcurrent] at hend
      exact himplementation_ne q hq hend
    · rename_i hext'
      obtain ⟨hstraight, hfits, hopen, hways⟩ := hopen hext hext'
      have hmem : ∀ x ∈ a.foreignOthers.toList, x.2 ∈ foreignPaths a := fun x hx => by
        simp only [foreignPaths, List.mem_cons]
        exact .inr (.inr (List.mem_map_of_mem hx))
      have hopen_u := hopen.evolves hu.files
        (by simpa [hw] using hways _ (by simp [foreignPaths]))
      have hopen_v := hopen_u.evolves hv.files
        (by simpa [hucurrent] using hways _ (by simp [foreignPaths]))
      have hread_v := read_of_evolves hv.files
        (by simpa [hucurrent] using hapart _ (by simp [foreignPaths])) hread_u
      rw [OrderedMap.values, List.pairwise_map] at hvalues
      exact read_of_copyOthers hvcurrent hsource (OrderedMap.mem_of_get? htarget) hstraight hfits
        hvalues (fun x hx => hways x.2 (hmem x hx))
        (fun x hx => hapart x.2 (hmem x hx)) hopen_v hread_v hothers

end

end Rebuild.Proofs.CompanionCopies
