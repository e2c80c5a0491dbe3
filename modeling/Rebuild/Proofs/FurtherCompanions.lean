import Rebuild.Proofs.CompanionRules

namespace Rebuild.Proofs.FurtherCompanions

open Rebuild.FileTree
open Rebuild.Proofs.Growth
open Rebuild.Proofs.Steps
open Rebuild.Proofs.Layout
open Rebuild.Proofs.FileNames
open Rebuild.Proofs.Rejections
open Rebuild.Proofs.Runs
open Rebuild.Proofs.CompanionCopies
open Rebuild.Proofs.CompanionRules

/-- The settings without further extensions. -/
def bareConfig (config : Config) : Config :=
  { config with otherExts := [] }

def bare (p : Project) : Project :=
  { p with config := bareConfig p.config }

/-- The outputs of a module without its further companions. -/
def bareArtifacts (a : Artifacts) : Artifacts :=
  { a with foreignOthers := ∅ }

section

variable {p : Project} {n : ModuleName} {a : Artifacts}

theorem artifacts_bare (ha : p.artifacts n = .ok a) :
    (bare p).artifacts n = .ok (bareArtifacts a) := by
  replace ha := mapError_eq_ok_iff.mp ha
  apply mapError_eq_ok_iff.mpr
  unfold Artifacts.ofModule at ha ⊢
  simp only [except_bind_eq_ok_iff] at ha ⊢
  obtain ⟨mangled, hmangled, implementation, himplementation, header, hheader, foreignHeader,
    hforeignHeader, foreignImplementation, hforeignImplementation, others, _, ha⟩ := ha
  cases ha
  exact ⟨mangled, hmangled, implementation, himplementation, header, hheader, foreignHeader,
    hforeignHeader, foreignImplementation, hforeignImplementation, ∅, rfl, rfl⟩

/-- What companions a module may have for its header and its implementation, or that it can
have none, does not depend on the further extensions. -/
theorem companionsOf_bare (ha : p.artifacts n = .ok a) (source? : Option Path) :
    (∃ fault, companionsOf (bare p).config source? = .error fault ∧
      companionsOf p.config source? = .error fault) ∨
    ∃ few found, companionsOf (bare p).config source? = .ok few ∧
      companionsOf p.config source? = .ok found ∧
      few.get? p.config.headerExt = found.get? p.config.headerExt ∧
      few.get? p.config.implExt = found.get? p.config.implExt := by
  cases source? with
  | none => exact .inr ⟨∅, ∅, rfl, rfl, rfl, rfl⟩
  | some source =>
      by_cases hname : source.normalize.parts = []
      · have hfault : ∀ config, companionsOf config (some source) =
            .error (.noName source.normalize) := by
          intro config
          simp [companionsOf, companions, Path.withoutExtension, Path.name?, hname]
          rfl
        exact .inl ⟨_, hfault _, hfault _⟩
      · obtain ⟨few, hfew⟩ := exists_companions (artifacts_bare ha) hname
        obtain ⟨found, hfound⟩ := exists_companions ha hname
        refine .inr ⟨few, found, hfew, hfound, ?_⟩
        obtain ⟨base, hbase, hfew⟩ := except_bind_eq_ok_iff.mp hfew
        obtain ⟨base', hbase', hfound⟩ := except_bind_eq_ok_iff.mp hfound
        cases hbase.symm.trans hbase'
        have hkept : (bare p).config.companionExts ⊆ p.config.companionExts :=
          List.cons_subset_cons _ (List.cons_subset_cons _ (List.nil_subset _))
        have hsame : ∀ ext ∈ (bare p).config.companionExts, few.get? ext = found.get? ext := by
          intro ext hext
          apply Option.ext
          intro q
          rw [get?_addExtensions_eq_some_iff hfew, get?_addExtensions_eq_some_iff hfound]
          exact and_congr_left fun _ => iff_of_true hext (hkept hext)
        exact ⟨hsame _ (List.mem_cons_of_mem _ List.mem_cons_self), hsame _ List.mem_cons_self⟩

end

section

variable {few found : OrderedMap Extension Path} {ext : Extension} {source target : Path}
variable {targets : List (Extension × Path)} {a : Artifacts} {config : Config}
variable {needsForeign : Bool} {w w' : Workspace} {e : BuildError}

theorem presentCompanion_congr (h : few.get? ext = found.get? ext) :
    presentCompanion few ext = presentCompanion found ext := by
  unfold presentCompanion
  rw [h]

theorem writeFound_eq_bind (hheader : few.get? config.headerExt = found.get? config.headerExt)
    (himplementation : few.get? config.implExt = found.get? config.implExt) :
    writeFound found needsForeign a config =
      writeFound few needsForeign (bareArtifacts a) (bareConfig config) >>=
        fun written => copyOthers found a.foreignOthers.toList >>=
          fun more => pure (written ++ more) := by
  have hfirst : writeForeignHeader few needsForeign (bareArtifacts a)
      (bareConfig config) = writeForeignHeader found needsForeign a config := by
    have hpresent : presentCompanion few (bareConfig config).headerExt =
        presentCompanion found config.headerExt := presentCompanion_congr hheader
    unfold writeForeignHeader
    rw [hpresent]
    rfl
  have hsecond : writeForeignImplementation few (bareArtifacts a)
      (bareConfig config) = writeForeignImplementation found a config := by
    have hpresent : presentCompanion few (bareConfig config).implExt =
        presentCompanion found config.implExt := presentCompanion_congr himplementation
    unfold writeForeignImplementation
    rw [hpresent]
    rfl
  have hnone : copyOthers few (bareArtifacts a).foreignOthers.toList = pure [] := rfl
  unfold writeFound
  rw [hfirst, hsecond, hnone]
  simp only [bind_assoc, pure_bind, List.append_nil]

theorem isFileError_eq_false_of_copyOther (h : copyOther found ext target w = .error e w') :
    e.isFileError = false := by
  unfold copyOther at h
  cases hget : found.get? ext with
  | none =>
      rw [hget] at h
      cases h
  | some source =>
      rw [hget] at h
      simp only [copyIfPossible, tryCatch_apply] at h
      split at h
      · cases h
      · split at h
        · cases h
        · rename_i hother
          cases h
          simpa using hother

theorem isFileError_eq_false_of_copyOthers (h : copyOthers found targets w = .error e w') :
    e.isFileError = false := by
  induction targets generalizing w with
  | nil => cases h
  | cons target targets ih =>
      rw [copyOthers_cons] at h
      rcases bind_eq_error_iff.mp h with hfirst | ⟨copied, u, _, hrest⟩
      · exact isFileError_eq_false_of_copyOther hfirst
      · rcases bind_eq_error_iff.mp hrest with hrest | ⟨_, _, _, hpure⟩
        · exact ih hrest
        · cases hpure

/-- Further companions never stop a run: all that could is of files, and that is passed
over. -/
theorem exists_copyOthers (h : ∀ t ∈ targets, t.2.hasNul = false) (w : Workspace) :
    ∃ copied w', copyOthers found targets w = .ok copied w' := by
  cases hcopy : copyOthers found targets w with
  | ok copied w' => exact ⟨copied, w', rfl⟩
  | error e w' =>
      have hfile := failsOnFiles_copyOthers h w e w' hcopy
      simp [isFileError_eq_false_of_copyOthers hcopy] at hfile

end

section

variable {p : Project} {n : ModuleName} {source? : Option Path} {a : Artifacts}

/-- Further extensions do not influence how the writing of companions ends. A run without them
and a run with them, from one workspace, end with the same error and leave the same behind, or
both return: the second then returns what the first does and more, and the trees they leave
differ at destinations of further companions only. Nothing is assumed of what stands in the way
of further companions. -/
theorem writeCompanions_ends_as_bare (source? : Option Path) (needsForeign : Bool)
    (w : Workspace) (ha : p.artifacts n = .ok a)
    (hnul : ∀ q ∈ a.foreignOthers.values, q.hasNul = false) :
    ∃ b, (bare p).artifacts n = .ok b ∧
      ((∃ e u, writeCompanions source? needsForeign b (bare p).config w = .error e u ∧
        writeCompanions source? needsForeign a p.config w = .error e u) ∨
      ∃ written u more v,
        writeCompanions source? needsForeign b (bare p).config w = .ok written u ∧
        writeCompanions source? needsForeign a p.config w = .ok (written ++ more) v ∧
        ∀ l, ¬ Ends w.files.current a.foreignOthers.values l → SameFileAt u.files v.files l) := by
  refine ⟨bareArtifacts a, artifacts_bare ha, ?_⟩
  rw [writeCompanions_eq, writeCompanions_eq]
  obtain ⟨fault, hfew, hfound⟩ | ⟨few, found, hfew, hfound, hheader, himplementation⟩ :=
    companionsOf_bare ha source?
  · exact .inl ⟨.fileName fault, w, by rw [hfew]; rfl, by rw [hfound]; rfl⟩
  rw [hfew, hfound, mapError_ok, mapError_ok, bind_of_ok (lift_ok_apply few w),
    bind_of_ok (lift_ok_apply found w), writeFound_eq_bind hheader himplementation]
  cases hbare : writeFound few needsForeign (bareArtifacts a) (bare p).config w with
  | error e u => exact .inl ⟨e, u, rfl, bind_of_error hbare⟩
  | ok written u =>
      obtain ⟨more, v, hmore⟩ : ∃ more v, copyOthers found a.foreignOthers.toList u = .ok more v :=
        exists_copyOthers (fun t ht => hnul t.2 (List.mem_map_of_mem ht)) u
      refine .inr ⟨written, u, more, v, rfl, ?_, ?_⟩
      · exact (bind_of_ok hbare).trans (bind_of_ok hmore)
      · intro l hl content modified
        have hu := (within_writeFound few needsForeign (bare p).config
          fun q _ => admits_top w.files.current q).of_ok rfl hbare
        have hv := (within_copyOthers_ends u.files.current found a).of_ok rfl hmore
        refine hv.files.file_iff ?_ content modified
        rwa [hu.files.current]

end

theorem writeCompanions_ends_as_bare_small :
    ∃ u v, writeCompanions (some (.parse "src/A.purs")) true (bareArtifacts smallArtifacts)
        (bare smallProject).config companionWorkspace = .ok [.parse "out/A/A_ffi.hh"] u ∧
      writeCompanions (some (.parse "src/A.purs")) true smallArtifacts smallProject.config
        companionWorkspace = .ok [.parse "out/A/A_ffi.hh", .parse "out/A/A_ffi.inl"] v ∧
      SameFileAt u.files v.files ["A_ffi.hh", "A", "out"] := by
  have hbare := returns_iff.mp (show returns
    (writeCompanions (some (.parse "src/A.purs")) true (bareArtifacts smallArtifacts)
      (bare smallProject).config) companionWorkspace [.parse "out/A/A_ffi.hh"] = true by
    decide +kernel)
  obtain ⟨_, hfull⟩ := writeCompanions_small
  have hends : ¬ Ends companionWorkspace.files.current smallArtifacts.foreignOthers.values
      ["A_ffi.hh", "A", "out"] := by
    unfold Ends
    decide +kernel
  obtain ⟨b, hb, houtcome⟩ := writeCompanions_ends_as_bare (some (.parse "src/A.purs")) true
    companionWorkspace artifacts_small (by decide)
  cases (artifacts_bare artifacts_small).symm.trans hb
  rcases houtcome with ⟨e, u, herror, _⟩ | ⟨written, u, more, v, hu, hv, hsame⟩
  · cases hbare.symm.trans herror
  · cases hbare.symm.trans hu
    cases hfull.symm.trans hv
    exact ⟨_, _, hbare, hfull, hsame _ hends⟩

end Rebuild.Proofs.FurtherCompanions
